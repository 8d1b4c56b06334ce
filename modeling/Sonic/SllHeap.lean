import Sonic.Run
import Sonic.Segment
import Mathlib.Data.List.Chain
import Mathlib.Data.List.TakeWhile
import Mathlib.Tactic.Tauto

/-! # The linked lists of sll.c

`sll_t` keeps the first node, the last node and the number of nodes, the nodes their successors. A
call is given a number of turns for its loops, and is `none` where a loop has not ended by then or a
null pointer is followed. The nodes are of any type; `sllCompareFunc` compares what they hold. -/

namespace Sonic.SllHeap
open List

inductive SortType where
  | noOrder
  | ascendOrder
  | descendOrder
  deriving DecidableEq

structure Config (α : Type*) where
  sllSortType : SortType
  sllDupEnable : Bool
  sllCompareFunc : α → α → Int

structure St (α : Type*) where
  next : α → Option α
  sllStart : Option α
  sllEnd : Option α
  sllNumElements : Nat

def sllCreate {α : Type*} (next : α → Option α) : St α := ⟨next, none, none, 0⟩

inductive Call (α : Type*) where
  | add (node : α)
  | atStartPush (node : α)
  | atEndPush (node : α)
  | atStartPop
  | atEndPop
  | remove (node : α)
  | nodeRemove (node : α)
  | purge

inductive Result (α : Type*) where
  | rc (success : Bool)
  | node (node : Option α)

section
variable {α : Type*}

section
variable (c : Config α)

def Config.passed (member node : α) : Bool :=
  match c.sllSortType with
  | .noOrder => false
  | .ascendOrder => 0 < c.sllCompareFunc member node
  | .descendOrder => c.sllCompareFunc member node < 0

def seekLoop (s : St α) (node : α) : Nat → Option α → Option α → Option (Bool × Option α)
  | _, none, prev => some (false, prev)
  | 0, some _, _ => none
  | fuel + 1, some member, prev =>
    if c.sllCompareFunc member node = 0 then some (true, prev)
    else if c.passed member node then some (false, prev)
    else seekLoop s node fuel (s.next member) (some member)

def sllSeek (fuel : Nat) (s : St α) (node : α) : Option (Bool × Option α) := seekLoop c s node fuel s.sllStart none

def dupLoop (s : St α) (node : α) : Nat → α → Option α
  | fuel, prev =>
    match s.next prev with
    | none => some prev
    | some member =>
      if c.sllCompareFunc member node ≠ 0 then some prev
      else match fuel with
        | 0 => none
        | fuel + 1 => dupLoop s node fuel member

end

def endLoop (s : St α) : Nat → α → Option α
  | 0, _ => none
  | fuel + 1, member =>
    (s.next member).bind fun last =>
      match s.next last with
      | none => some member
      | some _ => endLoop s fuel last

def purgeLoop (s : St α) : Nat → Option α → Option (List α)
  | _, none => some []
  | 0, some _ => none
  | fuel + 1, some node => (purgeLoop s fuel (s.next node)).map (node :: ·)

variable [DecidableEq α]

def nodeLoop (s : St α) (pNode : α) : Nat → Option α → Option α → Option (Bool × Option α)
  | _, none, prev => some (false, prev)
  | 0, some _, _ => none
  | fuel + 1, some member, prev =>
    if member = pNode then some (true, prev) else nodeLoop s pNode fuel (s.next member) (some member)

/-! ## The calls -/

def nodeInsert (s : St α) (node : α) (prev : Option α) : St α :=
  let s := match prev with
    | none => { s with next := Function.update s.next node s.sllStart, sllStart := some node }
    | some p => { s with next := Function.update (Function.update s.next node (s.next p)) p (some node) }
  { s with
    sllEnd := if s.next node = none then some node else s.sllEnd
    sllNumElements := s.sllNumElements + 1 }

def nodeExtract (s : St α) (prev : Option α) : Option (Option α × St α) :=
  if s.sllStart = none then some (none, s)
  else
    (match prev with
    | none => s.sllStart
    | some p => s.next p).map fun node =>
      let s := match prev with
        | none => { s with sllStart := s.next node }
        | some p => { s with next := Function.update s.next p (s.next node) }
      (some node, { s with
        sllEnd := if s.next node = none then prev else s.sllEnd
        sllNumElements := s.sllNumElements - 1 })

section
variable (c : Config α) (fuel : Nat) (s : St α)

def insertBehind (node : α) (prev : Option α) : Option (Result α × St α) :=
  (match prev with
  | none => s.sllStart
  | some p => s.next p).bind fun first =>
    (dupLoop c s node fuel first).map fun prev => (.rc true, nodeInsert s node (some prev))

def sllAdd (node : α) : Option (Result α × St α) :=
  (sllSeek c fuel s node).bind fun (found, prev) =>
    if found then
      if c.sllDupEnable then insertBehind c fuel s node prev else some (.rc false, s)
    else some (.rc true, nodeInsert s node prev)

def sllAtEndPush (node : α) : Option (Result α × St α) :=
  if c.sllSortType = .noOrder then
    if c.sllDupEnable then some (.rc true, nodeInsert s node s.sllEnd)
    else (sllSeek c fuel s node).map fun (found, _) =>
      if found then (.rc false, s) else (.rc true, nodeInsert s node s.sllEnd)
  else
    (sllSeek c fuel s node).bind fun (found, prev) =>
      if found then
        if c.sllDupEnable then insertBehind c fuel s node prev else some (.rc false, s)
      else some (.rc true, nodeInsert s node prev)

def sllAtStartPush (node : α) : Option (Result α × St α) :=
  if c.sllSortType = .noOrder then
    if c.sllDupEnable then some (.rc true, nodeInsert s node none)
    else (sllSeek c fuel s node).map fun (found, _) =>
      if found then (.rc false, s) else (.rc true, nodeInsert s node none)
  else
    (sllSeek c fuel s node).map fun (found, prev) =>
      if found && !c.sllDupEnable then (.rc false, s) else (.rc true, nodeInsert s node prev)

def sllAtEndPop : Option (Result α × St α) :=
  match s.sllStart with
  | none => some (.node none, s)
  | some member =>
    if s.next member = none then some (.node (some member), { s with sllStart := none })
    else (endLoop s fuel member).map fun member =>
      (.node (s.next member), { s with next := Function.update s.next member none })

def sllAtStartPop : Option (Result α × St α) :=
  if s.sllStart = none then some (.node none, s)
  else (nodeExtract s none).map fun (node, s) => (.node node, s)

def sllRemove (node : α) : Option (Result α × St α) :=
  (sllSeek c fuel s node).bind fun (found, prev) =>
    if found then (nodeExtract s prev).map fun (node, s) => (.node node, s) else some (.node none, s)

def sllNodeRemove (pNode : α) : Option (Result α × St α) :=
  (nodeLoop s pNode fuel s.sllStart none).bind fun (found, prev) =>
    if found then (nodeExtract s prev).map fun (node, s) => (.node node, s) else some (.node none, s)

def sllPurge : Option (Result α × St α) :=
  (purgeLoop s fuel s.sllStart).map fun _ => (.rc true,
    { s with sllStart := none, sllEnd := none, sllNumElements := 0 })

def call : Call α → Option (Result α × St α)
  | .add node => sllAdd c fuel s node
  | .atStartPush node => sllAtStartPush c fuel s node
  | .atEndPush node => sllAtEndPush c fuel s node
  | .atStartPop => sllAtStartPop s
  | .atEndPop => sllAtEndPop fuel s
  | .remove node => sllRemove c fuel s node
  | .nodeRemove node => sllNodeRemove fuel s node
  | .purge => sllPurge fuel s

def step (e : Call α) : Option (St α) := (call c fuel s e).map Prod.snd

end

end

section
variable {α : Type*}

/-- The nodes from `sllStart` on are those of `l`, and the other two fields agree with them. -/
structure Rep (s : St α) (l : List α) : Prop where
  seg : Seg s.next s.sllStart l none
  nodup : l.Nodup
  last : s.sllEnd = l.getLast?
  num : s.sllNumElements = l.length

theorem rep_create (next : α → Option α) : Rep (sllCreate next) [] := ⟨rfl, nodup_nil, rfl, rfl⟩

section
variable {s : St α} {l pre post : List α} {node : α} {fuel : Nat}

/-! ## Searching -/

def place (c : Config α) (node : α) : List α → Bool × List α × List α
  | [] => (false, [], [])
  | m :: l =>
    if c.sllCompareFunc m node = 0 then (true, [], m :: l)
    else if c.passed m node then (false, [], m :: l)
    else ((place c node l).1, m :: (place c node l).2.1, (place c node l).2.2)

theorem place_append (c : Config α) (node : α) : ∀ l, (place c node l).2.1 ++ (place c node l).2.2 = l
  | [] => rfl
  | m :: l => by
    rw [place]
    split
    · rfl
    · split
      · rfl
      · exact congrArg (m :: ·) (place_append c node l)

theorem getLast?_cons_or (m : α) (l : List α) (prev : Option α) :
    (m :: l).getLast?.or prev = l.getLast?.or (some m) := by
  grind

theorem seekLoop_eq (c : Config α) (s : St α) (node : α) : ∀ {l : List α} {fuel : Nat} {p : Option α} (prev : Option α),
    Seg s.next p l none → l.length ≤ fuel →
      seekLoop c s node fuel p prev = some ((place c node l).1, (place c node l).2.1.getLast?.or prev)
  | [], fuel, p, prev, h, _ => by
    rw [show p = none from h]
    cases fuel <;> rfl
  | m :: l, 0, _, _, _, hf => absurd hf (Nat.not_succ_le_zero _)
  | m :: l, fuel + 1, p, prev, h, hf => by
    rw [h.1, seekLoop, place]
    by_cases heq : c.sllCompareFunc m node = 0
    · simp_all
    rw [if_neg heq, if_neg heq]
    by_cases hpass : c.passed m node = true
    · simp_all
    · rw [if_neg hpass, if_neg hpass, seekLoop_eq c s node (some m) h.2 (Nat.le_of_succ_le_succ hf)]
      rw [getLast?_cons_or]

theorem Rep.seek (h : Rep s l) (c : Config α) (node : α) (hf : l.length ≤ fuel) :
    sllSeek c fuel s node = some ((place c node l).1, (place c node l).2.1.getLast?) := by
  grind [sllSeek, seekLoop_eq, h.seg]

theorem Rep.first_after (h : Rep s (pre ++ post)) :
    (match pre.getLast? with
    | none => s.sllStart
    | some p => s.next p) = post.head? := by
  rcases eq_nil_or_concat' pre with rfl | ⟨front, x, rfl⟩
  · exact h.seg.head
  · rw [List.getLast?_concat]
    obtain ⟨r, hpre, hpost⟩ := seg_append.mp h.seg
    exact (seg_concat.mp hpre).2.trans hpost.head

theorem dupLoop_eq (c : Config α) (s : St α) (node : α) : ∀ {l : List α} {fuel : Nat} {x : α},
    Seg s.next (s.next x) l none → l.length ≤ fuel →
      dupLoop c s node fuel x = (x :: l.takeWhile (c.sllCompareFunc · node = 0)).getLast?
  | [], fuel, x, h, _ => by
    rw [dupLoop, show s.next x = none from h]
    rfl
  | m :: l, fuel, x, h, hf => by
    rw [dupLoop, h.1]
    dsimp only
    by_cases heq : c.sllCompareFunc m node = 0
    · rw [if_neg (not_not.mpr heq), takeWhile_cons_of_pos (by simpa using heq), List.getLast?_cons_cons]
      cases fuel with
      | zero => cases hf
      | succ fuel => exact dupLoop_eq c s node h.2 (Nat.le_of_succ_le_succ hf)
    · simp_all

theorem purgeLoop_eq (s : St α) : ∀ {l : List α} {fuel : Nat} {p : Option α}, Seg s.next p l none → l.length ≤ fuel →
    purgeLoop s fuel p = some l
  | [], fuel, p, h, _ => by
    rw [show p = none from h]
    cases fuel <;> rfl
  | m :: l, 0, _, _, hf => absurd hf (Nat.not_succ_le_zero _)
  | m :: l, fuel + 1, p, h, hf => by
    rw [h.1, purgeLoop, purgeLoop_eq s h.2 (Nat.le_of_succ_le_succ hf)]
    rfl

variable [DecidableEq α]

theorem nodeLoop_eq (s : St α) (pNode : α) : ∀ {l : List α} {fuel : Nat} {p : Option α} (prev : Option α),
    Seg s.next p l none → l.length ≤ fuel → nodeLoop s pNode fuel p prev =
      some (decide (pNode ∈ l), (l.takeWhile (· ≠ pNode)).getLast?.or prev)
  | [], fuel, p, prev, h, _ => by
    rw [show p = none from h]
    cases fuel <;> rfl
  | m :: l, 0, _, _, _, hf => absurd hf (Nat.not_succ_le_zero _)
  | m :: l, fuel + 1, p, prev, h, hf => by
    rw [h.1, nodeLoop]
    by_cases heq : m = pNode
    · simp [heq]
    · rw [if_neg heq, nodeLoop_eq s pNode (some m) h.2 (Nat.le_of_succ_le_succ hf),
        takeWhile_cons_of_pos (by simpa using heq), getLast?_cons_or]
      simp [Ne.symm heq]

theorem Rep.insert (h : Rep s (pre ++ post)) (hn : node ∉ pre ++ post) :
    Rep (nodeInsert s node pre.getLast?) (pre ++ node :: post) := by
  have hnodup : (pre ++ node :: post).Nodup := List.nodup_middle.mpr (List.nodup_cons.mpr ⟨hn, h.nodup⟩)
  have hnum : s.sllNumElements + 1 = (pre ++ node :: post).length := by grind [h.num]
  have hlast : ∀ next : Option α, next = post.head? →
      (if next = none then some node else s.sllEnd) = (pre ++ node :: post).getLast? := by
    rintro _ rfl
    rw [h.last]
    cases post <;> simp_all
  rcases eq_nil_or_concat' pre with rfl | ⟨front, x, rfl⟩
  · refine ⟨h.seg.insert_first hn, hnodup, hlast _ ?_, hnum⟩
    show Function.update s.next node s.sllStart node = _
    rw [Function.update_self]
    exact h.seg.head
  · rw [List.getLast?_concat]
    have hne : node ≠ x := fun he => hn (he ▸ mem_append_left post (mem_append_right front (mem_singleton_self node)))
    refine ⟨h.seg.insert_after h.nodup hn, hnodup, hlast _ ?_, hnum⟩
    show Function.update (Function.update s.next node (s.next x)) x (some node) node = _
    rw [Function.update_of_ne hne, Function.update_self]
    obtain ⟨r, hpre, hpost⟩ := seg_append.mp h.seg
    exact (seg_concat.mp hpre).2.trans hpost.head

theorem Rep.extract {x : α} (h : Rep s (pre ++ x :: post)) :
    ∃ s', nodeExtract s pre.getLast? = some (some x, s') ∧ Rep s' (pre ++ post) := by
  have hnodup : (pre ++ post).Nodup := (List.nodup_cons.mp (List.nodup_middle.mp h.nodup)).2
  have hnum : s.sllNumElements - 1 = (pre ++ post).length := by grind [h.num]
  have hlast : ∀ next : Option α, next = post.head? →
      (if next = none then pre.getLast? else s.sllEnd) = (pre ++ post).getLast? := by
    rintro _ rfl
    rw [h.last]
    cases post <;> simp_all
  have hstart : s.sllStart ≠ none := by
    rw [h.seg.head]
    cases pre <;> simp
  unfold nodeExtract
  rw [if_neg hstart]
  rcases eq_nil_or_concat' pre with rfl | ⟨front, y, rfl⟩
  · obtain ⟨hx, hpost⟩ := h.seg
    show ∃ s', s.sllStart.map _ = some (some x, s') ∧ _
    rw [hx]
    exact ⟨_, rfl, hpost, hnodup, hlast _ hpost.head, hnum⟩
  · obtain ⟨r, hpre, hr, hpost⟩ := seg_append.mp h.seg
    have hy : s.next y = some x := (seg_concat.mp hpre).2.trans hr
    have hne : x ≠ y := fun he =>
      disjoint_of_nodup_append h.nodup (mem_append_right front (mem_singleton_self y)) (he ▸ mem_cons_self)
    rw [List.getLast?_concat] at hlast ⊢
    show ∃ s', (s.next y).map _ = some (some x, s') ∧ _
    rw [hy]
    refine ⟨_, rfl, h.seg.remove_after h.nodup, hnodup, hlast _ ?_, hnum⟩
    show Function.update s.next y (s.next x) x = _
    grind [Sonic.Seg.head]

end

end

end Sonic.SllHeap
