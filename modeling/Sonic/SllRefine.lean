import Sonic.SllHeap

/-! # Linked lists as sequences

What each call of sll.c is for, on the sequence of the nodes, and that the calls do this in every
run in which no node is popped off the end. -/

namespace Sonic.SllHeap
open List Option

section
variable {α : Type*}

/-- The signs of the compare function are those of a total preorder. -/
structure TotalPreorder (compareFunc : α → α → Int) : Prop where
  swap : ∀ a b, compareFunc a b ≤ 0 ↔ 0 ≤ compareFunc b a
  trans : ∀ a b c, compareFunc a b ≤ 0 → compareFunc b c ≤ 0 → compareFunc a c ≤ 0

def Config.Before (c : Config α) (a b : α) : Prop :=
  match c.sllSortType with
  | .noOrder => True
  | .ascendOrder => c.sllCompareFunc a b ≤ 0
  | .descendOrder => 0 ≤ c.sllCompareFunc a b

/-- An ordered list is sorted, and one without duplicates has no two equal nodes. -/
structure Sorted (c : Config α) (l : List α) : Prop where
  order : l.Pairwise c.Before
  unequal : c.sllDupEnable = false → l.Pairwise fun a b => c.sllCompareFunc a b ≠ 0

/-- An equal node is there and duplicates are not allowed. -/
def Refused (c : Config α) (l : List α) (node : α) : Prop :=
  c.sllDupEnable = false ∧ ∃ m ∈ l, c.sllCompareFunc m node = 0

/-- The node is added at a `good` place, unless it is refused. -/
def Adds (c : Config α) (l l' : List α) (node : α) (r : Result α) (good : List α → List α → Prop) : Prop :=
  (Refused c l node ∧ r = .rc false ∧ l' = l) ∨
    (¬Refused c l node ∧ r = .rc true ∧ ∃ pre post, l = pre ++ post ∧ l' = pre ++ node :: post ∧ good pre post)

/-- A call turns the sequence `l` into `l'` and answers `r`. In an ordered list, a node that is added goes behind the
nodes that are equal to it, or before them where it is pushed at the start. -/
def Does [DecidableEq α] (c : Config α) (l l' : List α) (r : Result α) : Call α → Prop
  | .add node => Adds c l l' node r fun _ post =>
      (c.sllSortType ≠ .noOrder → ∀ m ∈ post, c.sllCompareFunc m node ≠ 0) ∧
        (c.sllSortType = .noOrder → (∀ m ∈ l, c.sllCompareFunc m node ≠ 0) → post = [])
  | .atStartPush node => Adds c l l' node r fun pre _ =>
      (c.sllSortType ≠ .noOrder → ∀ m ∈ pre, c.sllCompareFunc m node ≠ 0) ∧ (c.sllSortType = .noOrder → pre = [])
  | .atEndPush node => Adds c l l' node r fun _ post =>
      (c.sllSortType ≠ .noOrder → ∀ m ∈ post, c.sllCompareFunc m node ≠ 0) ∧ (c.sllSortType = .noOrder → post = [])
  | .atStartPop => r = .node l.head? ∧ l' = l.tail
  | .atEndPop => r = .node l.getLast? ∧ l' = l.dropLast
  | .remove node =>
    ((∀ m ∈ l, c.sllCompareFunc m node ≠ 0) ∧ r = .node none ∧ l' = l) ∨
      ∃ pre m post, l = pre ++ m :: post ∧ c.sllCompareFunc m node = 0 ∧ (∀ x ∈ pre, c.sllCompareFunc x node ≠ 0) ∧
        r = .node (some m) ∧ l' = pre ++ post
  | .nodeRemove node => r = .node (if node ∈ l then some node else none) ∧ l' = l.erase node
  | .purge => r = .rc true ∧ l' = []

/-! ## The order -/

section
variable {c : Config α} {node a b m : α} {l pre post : List α}

theorem TotalPreorder.eq_zero_comm (h : TotalPreorder c.sllCompareFunc) :
    c.sllCompareFunc a b = 0 ↔ c.sllCompareFunc b a = 0 := by
  have h₁ := h.swap a b
  have h₂ := h.swap b a
  omega

theorem TotalPreorder.before_trans (h : TotalPreorder c.sllCompareFunc) {d : α} (hab : c.Before a b)
    (hbd : c.Before b d) :
    c.Before a d := by
  unfold Config.Before at *
  cases hs : c.sllSortType with
  | noOrder => trivial
  | ascendOrder =>
    rw [hs] at hab hbd
    exact h.trans a b d hab hbd
  | descendOrder =>
    rw [hs] at hab hbd
    exact (h.swap d a).mp (h.trans d b a ((h.swap d b).mpr hbd) ((h.swap b a).mpr hab))

theorem TotalPreorder.before_of_eq (h : TotalPreorder c.sllCompareFunc) (heq : c.sllCompareFunc a b = 0) :
    c.Before a b ∧ c.Before b a := by
  have hba := h.eq_zero_comm.mp heq
  unfold Config.Before
  cases c.sllSortType with
  | noOrder => simp_all
  | ascendOrder => grind
  | descendOrder => grind

theorem TotalPreorder.passed_iff (h : TotalPreorder c.sllCompareFunc) (hs : c.sllSortType ≠ .noOrder) :
    c.passed m node = true ↔ c.Before node m ∧ c.sllCompareFunc m node ≠ 0 := by
  have hswap := h.swap node m
  have hswap' := h.swap m node
  unfold Config.passed Config.Before
  cases ho : c.sllSortType with
  | noOrder => exact absurd ho hs
  | ascendOrder =>
    simp only [decide_eq_true_eq]
    omega
  | descendOrder =>
    simp only [decide_eq_true_eq]
    omega

theorem not_passed_noOrder (hs : c.sllSortType = .noOrder) : c.passed m node = false := by rw [Config.passed, hs]

theorem before_of_not_passed (hp : c.passed m node = false) : c.Before m node := by
  unfold Config.passed at hp
  unfold Config.Before
  cases ho : c.sllSortType with
  | noOrder => trivial
  | ascendOrder => grind
  | descendOrder => grind

theorem TotalPreorder.passed_of_before (h : TotalPreorder c.sllCompareFunc) (hp : c.passed a node = true)
    (hab : c.Before a b) : c.passed b node = true := by
  have hs : c.sllSortType ≠ .noOrder := fun hs => by grind [not_passed_noOrder]
  obtain ⟨hna, hne⟩ := (h.passed_iff hs).mp hp
  refine (h.passed_iff hs).mpr ⟨h.before_trans hna hab, fun heq => hne ?_⟩
  have hba : c.Before b node := (h.before_of_eq heq).1
  have han : c.Before a node := h.before_trans hab hba
  have hswap := h.swap a node
  have hswap' := h.swap node a
  unfold Config.Before at hna han
  cases ho : c.sllSortType with
  | noOrder => exact absurd ho hs
  | ascendOrder => grind
  | descendOrder => grind

theorem Sorted.sublist {l' : List α} (h : Sorted c l) (hl : l'.Sublist l) : Sorted c l' :=
  ⟨h.order.sublist hl, fun hd => (h.unequal hd).sublist hl⟩

theorem Sorted.insert (hc : TotalPreorder c.sllCompareFunc) (h : Sorted c (pre ++ post))
    (hpre : ∀ m ∈ pre, c.Before m node) (hpost : ∀ m ∈ post, c.Before node m) (hr : ¬Refused c (pre ++ post) node) :
    Sorted c (pre ++ node :: post) := by
  have hne : c.sllDupEnable = false → ∀ m ∈ pre ++ post, c.sllCompareFunc m node ≠ 0 :=
    fun hd m hm heq => hr ⟨hd, m, hm, heq⟩
  constructor
  · grind [h.order, pairwise_cons]
  · intro hd
    obtain ⟨h₁, h₂, hcross⟩ := List.pairwise_append.mp (h.unequal hd)
    refine List.pairwise_append.mpr ⟨h₁, List.pairwise_cons.mpr ⟨fun y hy heq => ?_, h₂⟩, fun x hx y hy => ?_⟩
    · exact hne hd y (mem_append_right pre hy) (hc.eq_zero_comm.mp heq)
    · rcases List.mem_cons.mp hy with rfl | hy
      · exact hne hd x (mem_append_left post hx)
      · exact hcross x hx y hy

theorem place_before : ∀ {l : List α}, ∀ m ∈ (place c node l).2.1,
    c.sllCompareFunc m node ≠ 0 ∧ c.Before m node
  | [], _, h => by cases h
  | x :: l, m, h => by
    rw [place] at h
    by_cases heq : c.sllCompareFunc x node = 0
    · simp_all
    rw [if_neg heq] at h
    by_cases hp : c.passed x node = true
    · simp_all
    · rw [if_neg hp] at h
      rcases List.mem_cons.mp h with rfl | h
      · simp_all [before_of_not_passed]
      · exact place_before m h

theorem place_after (c : Config α) (node : α) : ∀ l : List α,
    ((place c node l).1 = true ∧ ∃ m post, (place c node l).2.2 = m :: post ∧ c.sllCompareFunc m node = 0) ∨
      ((place c node l).1 = false ∧ ∀ m ∈ (place c node l).2.2.head?, c.passed m node = true)
  | [] => .inr ⟨rfl, nofun⟩
  | x :: l => by
    rw [place]
    by_cases heq : c.sllCompareFunc x node = 0
    · grind
    rw [if_neg heq]
    by_cases hp : c.passed x node = true
    · grind
    · rw [if_neg hp]
      exact place_after c node l

theorem passed_all (hc : TotalPreorder c.sllCompareFunc) (hl : l.Pairwise c.Before)
    (hp : ∀ m ∈ l.head?, c.passed m node = true) : ∀ m ∈ l, c.passed m node = true := by
  cases l with
  | nil => exact nofun
  | cons x l =>
    have hx : c.passed x node = true := hp x rfl
    refine List.forall_mem_cons.mpr ⟨hx, fun m hm => ?_⟩
    exact hc.passed_of_before hx ((List.pairwise_cons.mp hl).1 m hm)

theorem ne_of_passed (hp : c.passed m node = true) : c.sllCompareFunc m node ≠ 0 := by
  intro heq
  unfold Config.passed at hp
  cases ho : c.sllSortType with
  | noOrder => simp_all
  | ascendOrder => simp_all
  | descendOrder => simp_all

theorem TotalPreorder.before_of_passed (h : TotalPreorder c.sllCompareFunc) (hp : c.passed m node = true) :
    c.Before node m := by
  by_cases hs : c.sllSortType = .noOrder <;> simp_all [not_passed_noOrder, passed_iff]

theorem Rep.seek_cases {s : St α} {fuel : Nat} (h : Rep s l) (hc : TotalPreorder c.sllCompareFunc) (hs : Sorted c l)
    (node : α) (hf : l.length ≤ fuel) :
    (∃ pre m rest, l = pre ++ m :: rest ∧ sllSeek c fuel s node = some (true, pre.getLast?) ∧
      c.sllCompareFunc m node = 0 ∧
      ∀ x ∈ pre, c.sllCompareFunc x node ≠ 0 ∧ c.Before x node) ∨
    ∃ pre post, l = pre ++ post ∧ sllSeek c fuel s node = some (false, pre.getLast?) ∧
      (∀ x ∈ l, c.sllCompareFunc x node ≠ 0) ∧ (∀ x ∈ pre, c.Before x node) ∧ ∀ x ∈ post, c.passed x node = true := by
  have happ := place_append c node l
  have hbefore := @place_before α c node l
  have hseek := h.seek c node hf
  rcases place_after c node l with ⟨hfound, m, rest, hpost, heq⟩ | ⟨hfound, hhead⟩
  · grind
  · rw [hfound] at hseek
    have hsub : (place c node l).2.2.Sublist l := by grind
    have hpassed := passed_all hc (hs.order.sublist hsub) hhead
    grind [ne_of_passed]

theorem behind_equal (hc : TotalPreorder c.sllCompareFunc) {post : List α} (hl : (m :: post).Pairwise c.Before)
    (heq : c.sllCompareFunc m node = 0) : ∀ x ∈ post.dropWhile (c.sllCompareFunc · node = 0),
      c.Before node x ∧ (c.sllSortType ≠ .noOrder → c.sllCompareFunc x node ≠ 0) := by
  obtain ⟨hm, hpost⟩ := List.pairwise_cons.mp hl
  have hbefore : ∀ x ∈ post, c.Before node x := fun x hx => hc.before_trans (hc.before_of_eq heq).2 (hm x hx)
  intro x hx
  have hmem : x ∈ post := (dropWhile_sublist _).subset hx
  refine ⟨hbefore x hmem, fun hs => ne_of_passed (passed_all hc (hpost.sublist (dropWhile_sublist _)) ?_ x hx)⟩
  intro y hy
  have hne : c.sllCompareFunc y node ≠ 0 := by
    have := List.head?_dropWhile_not (fun z => decide (c.sllCompareFunc z node = 0)) post
    simp_all
  grind [TotalPreorder.passed_iff, dropWhile_sublist]

end

/-! ## The calls -/

section
variable {c : Config α} {s : St α} {node : α} {l pre post : List α} {fuel : Nat}

def Keeps (c : Config α) (l : List α) (o : Option (Result α × St α)) (P : List α → Result α → Prop) : Prop :=
  ∃ r s' l', o = some (r, s') ∧ Rep s' l' ∧ Sorted c l' ∧ l'.length ≤ l.length + 1 ∧ P l' r

theorem Keeps.mono {o : Option (Result α × St α)} {P Q : List α → Result α → Prop} (h : Keeps c l o P)
    (hPQ : ∀ l' r, P l' r → Q l' r) : Keeps c l o Q := by
  obtain ⟨r, s', l', ho, hrep, hs, hlen, hP⟩ := h
  exact ⟨r, s', l', ho, hrep, hs, hlen, hPQ l' r hP⟩

theorem keeps_same {P : List α → Result α → Prop} {r : Result α} (h : Rep s l) (hs : Sorted c l) (hP : P l r) :
    Keeps c l (some (r, s)) P :=
  ⟨r, s, l, rfl, h, hs, Nat.le_succ _, hP⟩

variable [DecidableEq α]

theorem insertBehind_eq {m : α} (h : Rep s (pre ++ m :: post)) (hf : post.length ≤ fuel) :
    insertBehind c fuel s node pre.getLast? =
      some (.rc true, nodeInsert s node (pre ++ m :: post.takeWhile (c.sllCompareFunc · node = 0)).getLast?) := by
  obtain ⟨r, -, -, hpost⟩ := seg_append.mp h.seg
  unfold insertBehind
  grind [Rep.first_after, List.head?_cons, dupLoop_eq]

theorem keeps_extract {P : List α → Result α → Prop} {m : α} (pre post : List α) (h : Rep s (pre ++ m :: post))
    (hs : Sorted c (pre ++ m :: post)) (hP : P (pre ++ post) (.node (some m))) :
    Keeps c (pre ++ m :: post) ((nodeExtract s pre.getLast?).map fun p => (.node p.1, p.2)) P := by
  obtain ⟨s', hs', hrep⟩ := h.extract
  have hsub : (pre ++ post).Sublist (pre ++ m :: post) := (sublist_cons_self m post).append_left pre
  rw [hs']
  exact ⟨_, s', pre ++ post, rfl, hrep, hs.sublist hsub, Nat.le_succ_of_le hsub.length_le, hP⟩

theorem keeps_atStartPop (h : Rep s l) (hs : Sorted c l) :
    Keeps c l (sllAtStartPop s) fun l' r => Does c l l' r .atStartPop := by
  rw [sllAtStartPop]
  cases l with
  | nil =>
    have hnone : s.sllStart = none := h.seg
    rw [if_pos hnone]
    exact keeps_same h hs ⟨rfl, rfl⟩
  | cons x l =>
    rw [if_neg (by rw [h.seg.1]; simp_all)]
    exact keeps_extract [] l h hs ⟨rfl, rfl⟩

theorem Rep.nodeRemove_mem (h : Rep s l) (hf : l.length ≤ fuel) (hm : node ∈ l) :
    ∃ s', sllNodeRemove fuel s node = some (.node (some node), s') ∧ Rep s' (l.erase node) := by
  rw [sllNodeRemove, nodeLoop_eq s node none h.seg hf, bind_some, or_none]
  dsimp only
  obtain ⟨pre, post, rfl⟩ := append_of_mem hm
  have hpre : node ∉ pre := fun hin => disjoint_of_nodup_append h.nodup hin mem_cons_self
  have htake : (pre ++ node :: post).takeWhile (· ≠ node) = pre := by
    rw [takeWhile_append_of_pos fun x hx => by grind,
      takeWhile_cons_of_neg (by simp), append_nil]
  obtain ⟨s', hs', hrep⟩ := h.extract
  grind

theorem keeps_nodeRemove (h : Rep s l) (hs : Sorted c l) (hf : l.length ≤ fuel) :
    Keeps c l (sllNodeRemove fuel s node) fun l' r => Does c l l' r (.nodeRemove node) := by
  by_cases hm : node ∈ l
  · obtain ⟨s', hs', hrep⟩ := h.nodeRemove_mem hf hm
    rw [hs']
    refine ⟨_, s', l.erase node, rfl, hrep, hs.sublist erase_sublist, ?_, by rw [if_pos hm], rfl⟩
    grind
  · rw [sllNodeRemove, nodeLoop_eq s node none h.seg hf, bind_some, or_none]
    dsimp only
    rw [if_neg (by simpa using hm)]
    exact keeps_same h hs ⟨by rw [if_neg hm], (erase_of_not_mem hm).symm⟩

theorem keeps_purge (h : Rep s l) (hf : l.length ≤ fuel) :
    Keeps c l (sllPurge fuel s) fun l' r => Does c l l' r .purge := by
  rw [sllPurge, purgeLoop_eq s h.seg hf]
  exact ⟨_, _, [], rfl, ⟨rfl, nodup_nil, rfl, rfl⟩, ⟨List.Pairwise.nil, fun _ => List.Pairwise.nil⟩, Nat.zero_le _,
    rfl, rfl⟩

/-! ## Calls that compare -/

section
variable (hc : TotalPreorder c.sllCompareFunc)
include hc

theorem keeps_insert {good : List α → List α → Prop} (h : Rep s (pre ++ post))
    (hs : Sorted c (pre ++ post)) (hn : node ∉ pre ++ post) (hr : ¬Refused c (pre ++ post) node)
    (hpre : ∀ m ∈ pre, c.Before m node) (hpost : ∀ m ∈ post, c.Before node m) (hgood : good pre post) :
    Keeps c (pre ++ post) (some (.rc true, nodeInsert s node pre.getLast?)) fun l' r =>
      Adds c (pre ++ post) l' node r good := by
  refine ⟨_, _, pre ++ node :: post, rfl, h.insert hn, hs.insert hc hpre hpost hr, ?_,
    .inr ⟨hr, rfl, pre, post, rfl, rfl, hgood⟩⟩
  grind

theorem keeps_behind {m : α} (h : Rep s (pre ++ m :: post))
    (hs : Sorted c (pre ++ m :: post)) (hn : node ∉ pre ++ m :: post) (hf : (pre ++ m :: post).length ≤ fuel)
    (hd : c.sllDupEnable = true) (heq : c.sllCompareFunc m node = 0) (hpre : ∀ x ∈ pre, c.Before x node) :
    Keeps c (pre ++ m :: post) (insertBehind c fuel s node pre.getLast?) fun l' r =>
      Adds c (pre ++ m :: post) l' node r fun _ post => c.sllSortType ≠ .noOrder → ∀ x ∈ post,
        c.sllCompareFunc x node ≠ 0 := by
  have hsplit : pre ++ m :: post = (pre ++ m :: post.takeWhile (c.sllCompareFunc · node = 0)) ++
      post.dropWhile (c.sllCompareFunc · node = 0) := by simp
  have hbehind := behind_equal hc (hs.order.sublist (sublist_append_right pre _)) heq
  have hr : ¬Refused c (pre ++ m :: post) node := fun hr => by
    rw [hr.1] at hd
    cases hd
  have hlen : post.length ≤ fuel := by grind
  have hbefore : ∀ x ∈ pre ++ m :: post.takeWhile (c.sllCompareFunc · node = 0), c.Before x node := by
    refine List.forall_mem_append.mpr ⟨hpre, List.forall_mem_cons.mpr ⟨(hc.before_of_eq heq).1, fun x hx => ?_⟩⟩
    grind [mem_takeWhile_imp, TotalPreorder.before_of_eq]
  rw [insertBehind_eq h hlen]
  rw [hsplit] at h hs hn hr ⊢
  exact keeps_insert hc h hs hn hr hbefore (fun x hx => (hbehind x hx).1) fun ho x hx => (hbehind x hx).2 ho

theorem keeps_insert_noOrder {good : List α → List α → Prop} (h : Rep s l)
    (hs : Sorted c l) (hn : node ∉ l) (ho : c.sllSortType = .noOrder) (hr : ¬Refused c l node) (hl : l = pre ++ post)
    (hgood : good pre post) :
    Keeps c l (some (.rc true, nodeInsert s node pre.getLast?)) fun l' r => Adds c l l' node r good := by
  have hbefore : ∀ a b, c.Before a b := fun a b => by
    unfold Config.Before
    simp_all
  simp_all [keeps_insert]

variable (h : Rep s l) (hs : Sorted c l) (hf : l.length ≤ fuel)
include h hs hf

theorem keeps_checked {P : List α → Result α → Prop} {o : Result α × St α}
    (hrefused : Refused c l node → P l (.rc false)) (hkeeps : ¬Refused c l node → Keeps c l (some o) P) :
    Keeps c l (if c.sllDupEnable = true then some o
      else (sllSeek c fuel s node).map fun p => if p.1 = true then (.rc false, s) else o) P := by
  by_cases hd : c.sllDupEnable = true
  · rw [if_pos hd]
    refine hkeeps fun hr => ?_
    rw [hr.1] at hd
    cases hd
  rw [if_neg hd]
  rcases h.seek_cases hc hs node hf with ⟨pre, m, rest, rfl, hseek, heq, -⟩ | ⟨pre, post, -, hseek, hne, -, -⟩
  · rw [hseek, map_some, if_pos rfl]
    exact keeps_same h hs (hrefused ⟨Bool.not_eq_true _ ▸ hd, m, by simp, heq⟩)
  · rw [hseek, map_some, if_neg Bool.false_ne_true]
    exact hkeeps fun ⟨_, m, hm, heq⟩ => hne m hm heq

theorem keeps_add (hn : node ∉ l) :
    Keeps c l (sllAdd c fuel s node) fun l' r => Does c l l' r (.add node) := by
  rcases h.seek_cases hc hs node hf with ⟨pre, m, rest, rfl, hseek, heq, hpre⟩ |
    ⟨pre, post, rfl, hseek, hne, hpre, hpost⟩
  · rw [sllAdd, hseek, bind_some]
    dsimp only
    rw [if_pos rfl]
    by_cases hd : c.sllDupEnable = true
    · rw [if_pos hd]
      refine (keeps_behind hc h hs hn hf hd heq fun x hx => (hpre x hx).2).mono fun l' r hadds => ?_
      rcases hadds with hadds | ⟨hr, hrc, pre', post', hl, hl', hgood⟩
      · exact .inl hadds
      · exact .inr ⟨hr, hrc, pre', post', hl, hl', hgood, fun _ hall => absurd heq (hall m (by simp))⟩
    · rw [if_neg hd]
      have hr : Refused c (pre ++ m :: rest) node := ⟨Bool.not_eq_true _ ▸ hd, m, by simp, heq⟩
      exact keeps_same h hs (.inl ⟨hr, rfl, rfl⟩)
  · rw [sllAdd, hseek, bind_some]
    have hr : ¬Refused c (pre ++ post) node := fun ⟨_, m, hm, heq⟩ => hne m hm heq
    refine keeps_insert hc h hs hn hr hpre (fun x hx => hc.before_of_passed (hpost x hx))
      ⟨fun _ x hx => ne_of_passed (hpost x hx), ?_⟩
    intro ho _
    simp_all [eq_nil_iff_forall_not_mem, not_passed_noOrder]

theorem keeps_atEndPush (hn : node ∉ l) :
    Keeps c l (sllAtEndPush c fuel s node) fun l' r => Does c l l' r (.atEndPush node) := by
  rw [sllAtEndPush]
  by_cases ho : c.sllSortType = .noOrder
  · rw [if_pos ho]
    refine keeps_checked hc h hs hf (fun hr => .inl ⟨hr, rfl, rfl⟩) fun hr => ?_
    rw [h.last]
    exact keeps_insert_noOrder hc h hs hn ho hr (append_nil l).symm ⟨fun hno => absurd ho hno, fun _ => rfl⟩
  · -- an ordered list has one place for the node, and `SLLAdd` finds the same
    rw [if_neg ho]
    refine (keeps_add hc h hs hf hn).mono fun l' r hadds => ?_
    rcases hadds with hadds | ⟨hr, hrc, pre, post, hl, hl', hgood, -⟩
    · exact .inl hadds
    · exact .inr ⟨hr, hrc, pre, post, hl, hl', hgood, fun hno => absurd hno ho⟩

theorem keeps_atStartPush (hn : node ∉ l) :
    Keeps c l (sllAtStartPush c fuel s node) fun l' r => Does c l l' r (.atStartPush node) := by
  rw [sllAtStartPush]
  by_cases ho : c.sllSortType = .noOrder
  · rw [if_pos ho]
    refine keeps_checked hc h hs hf (fun hr => .inl ⟨hr, rfl, rfl⟩) fun hr => ?_
    exact keeps_insert_noOrder hc h hs hn ho hr (nil_append l).symm ⟨fun hno => absurd ho hno, fun _ => rfl⟩
  rw [if_neg ho]
  rcases h.seek_cases hc hs node hf with ⟨pre, m, rest, rfl, hseek, heq, hpre⟩ |
    ⟨pre, post, rfl, hseek, hne, hpre, hpost⟩
  · rw [hseek, map_some]
    cases hd : c.sllDupEnable with
    | false => exact keeps_same h hs (.inl ⟨⟨hd, m, by simp, heq⟩, rfl, rfl⟩)
    | true =>
      have hr : ¬Refused c (pre ++ m :: rest) node := fun hr => by
        rw [hr.1] at hd
        cases hd
      have hnode : c.Before node m := (hc.before_of_eq heq).2
      have hrest := (List.pairwise_cons.mp (hs.order.sublist (sublist_append_right pre _))).1
      refine keeps_insert hc h hs hn hr (fun x hx => (hpre x hx).2) ?_
        ⟨fun _ x hx => (hpre x hx).1, fun hno => absurd hno ho⟩
      exact List.forall_mem_cons.mpr ⟨hnode, fun x hx => hc.before_trans hnode (hrest x hx)⟩
  · rw [hseek, map_some]
    have hr : ¬Refused c (pre ++ post) node := fun ⟨_, m, hm, heq⟩ => hne m hm heq
    exact keeps_insert hc h hs hn hr hpre (fun x hx => hc.before_of_passed (hpost x hx))
      ⟨fun _ x hx => hne x (mem_append_left post hx), fun hno => absurd hno ho⟩

theorem keeps_remove :
    Keeps c l (sllRemove c fuel s node) fun l' r => Does c l l' r (.remove node) := by
  rw [sllRemove]
  rcases h.seek_cases hc hs node hf with ⟨pre, m, rest, rfl, hseek, heq, hpre⟩ | ⟨pre, post, -, hseek, hne, -, -⟩
  · rw [hseek, bind_some]
    exact keeps_extract pre rest h hs (.inr ⟨pre, m, rest, rfl, heq, fun x hx => (hpre x hx).1, rfl, rfl⟩)
  · rw [hseek, bind_some]
    exact keeps_same h hs (.inl ⟨hne, rfl, rfl⟩)

/-- A node is added only while it is not in the list, and no node is popped off the end. -/
def Fits (fuel : Nat) (s : St α) : Call α → Prop
  | .add node => node ∉ walk s.next fuel s.sllStart
  | .atStartPush node => node ∉ walk s.next fuel s.sllStart
  | .atEndPush node => node ∉ walk s.next fuel s.sllStart
  | .atEndPop => s.sllStart = none
  | _ => True

theorem keeps_call (e : Call α) (hfits : Fits fuel s e) : Keeps c l (call c fuel s e) fun l' r => Does c l l' r e := by
  have hwalk := h.seg.walk_eq hf
  cases e with
  | add node =>
    rw [Fits, hwalk] at hfits
    exact keeps_add hc h hs hf hfits
  | atStartPush node =>
    rw [Fits, hwalk] at hfits
    exact keeps_atStartPush hc h hs hf hfits
  | atEndPush node =>
    rw [Fits, hwalk] at hfits
    exact keeps_atEndPush hc h hs hf hfits
  | atStartPop => exact keeps_atStartPop h hs
  | atEndPop =>
    have hnone : s.sllStart = none := hfits
    have hnil : l = [] := List.head?_eq_none_iff.mp (h.seg.head.symm.trans hnone)
    subst hnil
    rw [call, sllAtEndPop, hnone]
    exact keeps_same h hs ⟨rfl, rfl⟩
  | remove node => exact keeps_remove hc h hs hf
  | nodeRemove node => exact keeps_nodeRemove h hs hf
  | purge => exact keeps_purge h hf

end

/-! ## Runs -/

/-- The list is as it should be after the calls, and each of them has done what it is for. -/
def Refines (c : Config α) (fuel : Nat) (s : St α) (calls : List (Call α)) : Prop :=
  (∃ t l, run (step c fuel) s calls = some t ∧ Rep t l ∧ Sorted c l) ∧
    ∀ done e later, done ++ e :: later = calls → ∃ t l r t' l', run (step c fuel) s done = some t ∧ Rep t l ∧
      Sorted c l ∧
      call c fuel t e = some (r, t') ∧ Rep t' l' ∧ Sorted c l' ∧ Does c l l' r e

theorem refines_of_rep (hc : TotalPreorder c.sllCompareFunc) :
    ∀ {calls : List (Call α)} {s : St α} {l : List α}, Rep s l →
    Sorted c l → l.length + calls.length ≤ fuel → Along (step c fuel) (Fits fuel) s calls → Refines c fuel s calls
  | [], s, l, h, hs, _, _ => ⟨⟨s, l, rfl, h, hs⟩, fun done _ _ he => absurd he (by simp)⟩
  | e :: calls, s, l, h, hs, hf, ha => by
    rw [length_cons] at hf
    obtain ⟨r, s', l', hcall, h', hs', hlen, hdoes⟩ := keeps_call hc h hs (by omega) e ha.1
    have hstep : step c fuel s e = some s' := by
      rw [step, hcall]
      rfl
    obtain ⟨hend, heach⟩ := refines_of_rep hc h' hs' (by omega) (Along_cons _ ha hstep).2
    constructor
    · rw [run_cons _ hstep]
      exact hend
    · intro done e' later he
      cases done with
      | nil =>
        obtain ⟨rfl, -⟩ := List.cons_eq_cons.mp he
        exact ⟨s, l, r, s', l', rfl, h, hs, hcall, h', hs', hdoes⟩
      | cons e₁ done => grind [run_cons]

/-- **Lists as sequences.** In every run from a new list in which nodes are added only while they are not in the list and
none is popped off the end, the fields agree with the nodes, the order is kept, and each call does what it is for. -/
theorem calls_refine (hc : TotalPreorder c.sllCompareFunc) (next : α → Option α) {calls : List (Call α)}
    (hf : calls.length ≤ fuel) (ha : Along (step c fuel) (Fits fuel) (sllCreate next) calls) :
    Refines c fuel (sllCreate next) calls :=
  refines_of_rep hc (rep_create next) ⟨List.Pairwise.nil, fun _ => List.Pairwise.nil⟩ (by simpa using hf) ha

end

instance {α : Type*} [DecidableEq α] (fuel : Nat) (s : St α) : ∀ e, Decidable (Fits fuel s e)
  | .add _ => inferInstanceAs (Decidable (_ ∉ _))
  | .atStartPush _ => inferInstanceAs (Decidable (_ ∉ _))
  | .atEndPush _ => inferInstanceAs (Decidable (_ ∉ _))
  | .atStartPop => isTrue trivial
  | .atEndPop => inferInstanceAs (Decidable (_ = _))
  | .remove _ => isTrue trivial
  | .nodeRemove _ => isTrue trivial
  | .purge => isTrue trivial

end

def ascending : Config Nat := ⟨.ascendOrder, true, fun a b => (a : Int) / 10 - b / 10⟩

theorem calls_refine_tens : Refines ascending 5 (sllCreate fun _ => none)
    [.add 31, .add 12, .atStartPush 30, .remove 35, .atStartPop] := by
  refine calls_refine ⟨fun a b => ?_, fun a b d h₁ h₂ => ?_⟩ _ (by decide) (by decide)
  · simp only [ascending]
    omega
  · simp only [ascending] at *
    omega

theorem not_refines_atEndPop : ¬Refines ascending 2 (sllCreate fun _ => none) [.add 1, .atEndPop] := by
  rintro ⟨⟨t, l, hr, hrep, -⟩, -⟩
  have hend : (run (step ascending 2) (sllCreate fun _ => none) [.add 1, .atEndPop]).map
      (fun t => (t.sllStart, t.sllNumElements)) = some (none, 1) := by decide
  rw [hr, Option.map_some, Option.some_inj, Prod.mk.injEq] at hend
  have hnil : l = [] := List.head?_eq_none_iff.mp (hrep.seg.head.symm.trans hend.1)
  have hnum := hrep.num
  rw [hend.2, hnil] at hnum
  cases hnum

end Sonic.SllHeap
