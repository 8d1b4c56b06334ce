import Sonic.AvlInsert
import Sonic.AvlRemove
import Sonic.Run

/-! # A bounded map of items

What the tree is for: a set of items with distinct keys, at most as many as the heaps have cells.
Every call answers as the set does, whatever calls were made before, and the cells in use and on the
free lists are together those of the heaps. -/

namespace Sonic.Avl
open List Option Function

open BinaryTree BalancedTree

section
variable {α : Type*}

inductive Op (α : Type*) where
  | insert (item : α)
  | delete (item : α)
  | search (key : α) (flags : Flags)

inductive Reply (α : Type*) where
  | inserted
  | stored (item : α)
  | refused
  | deleted (found : Bool)
  | found (item : Option α)

variable (compare : α → α → Int) (capacity : Nat)

def heldAfter (held : List α) : Op α → List α
  | .insert x => if (∀ y ∈ held, compare x y ≠ 0) ∧ held.length < capacity then x :: held else held
  | .delete x => held.filter fun y => compare x y ≠ 0
  | .search _ _ => held

def Answers (held : List α) : Op α → Reply α → Prop
  | .insert x, r => (∀ y ∈ held, compare x y = 0 → r = .stored y) ∧
    ((∀ y ∈ held, compare x y ≠ 0) → r = if held.length < capacity then .inserted else .refused)
  | .delete x, r => r = .deleted (held.any fun y => compare x y = 0)
  | .search x .exact, r => ∃ o, r = .found o ∧ ∀ y, o = some y ↔ y ∈ held ∧ compare x y = 0
  | .search x .next, r => ∃ o, r = .found o ∧
    ∀ y, o = some y ↔ (y ∈ held ∧ compare x y < 0) ∧ ∀ z ∈ held, compare x z < 0 → compare y z ≤ 0

/-! ## The tree -/

def FreeList (next : Nat → Option Nat) : Option Nat → List Nat → Prop
  | p, [] => p = none
  | p, i :: l => p = some i ∧ FreeList next (next i) l

/-- The tree `T` holds the items, and `nodes` and `cells` are free. -/
structure HoldsIn (t : AvlTree α) (held : List α) (T : BinaryTree Nat) (nodes cells : List Nat) : Prop where
  rep : Rep t.link (t.link .root .left) T
  balanced : Balanced t.balance T
  sorted : Sorted compare t.item (inorder T)
  items : ((inorder T).map t.item).Perm held
  count : t.count = held.length
  freeNodes : FreeList (fun i => t.link (.cell i) .right) t.currentTableHeap nodes
  freeCells : FreeList t.next t.currentDataHeap cells
  tableHeap : (inorder T ++ nodes).Perm (List.range capacity)
  dataHeap : ((inorder T).map t.data ++ cells).Perm (List.range capacity)

def Holds (t : AvlTree α) (held : List α) : Prop := ∃ T nodes cells, HoldsIn compare capacity t held T nodes cells

variable (maxDepth : Nat) [Inhabited α]

def call (t : AvlTree α) : Op α → Option (Reply α × AvlTree α)
  | .insert x => (avlInsertEntry compare maxDepth t x).map fun (result, t) =>
    (match result with
      | .null => .inserted
      | .duplicate entry => .stored (t.items entry)
      | .item => .refused, t)
  | .delete x => (avlDeleteEntry compare maxDepth t x).map fun (item, t) => (.deleted item.isSome, t)
  | .search x flags => (avlSearch compare maxDepth t x flags).map fun item => (.found (item.map t.items), t)

def step (t : AvlTree α) (op : Op α) : Option (AvlTree α) := (call compare maxDepth t op).map Prod.snd

/-- After every sequence of calls the tree holds what the set does, and the next call, whichever it is, returns
and answers as it has to. -/
def Refines : Prop := ∀ ops : List (Op α), ∃ t, run (step compare maxDepth) (avlCreateAvlTree capacity) ops = some t ∧
  Holds compare capacity t (ops.foldl (heldAfter compare capacity) []) ∧
  ∀ op, ∃ r t', call compare maxDepth t op = some (r, t') ∧
    Answers compare capacity (ops.foldl (heldAfter compare capacity) []) op r

end

section
variable {next next' : Nat → Option Nat} {i : Nat} {p : Option Nat}

theorem FreeList.congr : ∀ {l : List Nat} {p : Option Nat}, FreeList next p l → (∀ i ∈ l, next' i = next i) →
    FreeList next' p l
  | [], _, h, _ => h
  | i :: l, p, ⟨hp, hl⟩, he => by
    obtain ⟨hi, he⟩ := List.forall_mem_cons.mp he
    refine ⟨hp, ?_⟩
    rw [hi]
    exact hl.congr he

theorem FreeList.none_iff {l : List Nat} (h : FreeList next p l) : p = none ↔ l = [] := by
  cases l with
  | nil => exact ⟨fun _ => rfl, fun _ => h⟩
  | cons i l =>
    rw [h.1]
    simp_all

theorem FreeList.push {l : List Nat} (h : FreeList next p l) (hi : i ∉ l) :
    FreeList (Function.update next i p) (some i) (i :: l) := by
  refine ⟨rfl, ?_⟩
  grind [congr]

theorem freeList_range' : ∀ (n i : Nat), (∀ j, i ≤ j → j < i + n → next j = some (j + 1)) → next (i + n) = none →
    FreeList next (some i) (List.range' i (n + 1))
  | 0, i, _, hlast => ⟨rfl, hlast⟩
  | n + 1, i, hnext, hlast => by
    refine ⟨rfl, ?_⟩
    rw [hnext i (Nat.le_refl i) (by omega)]
    refine freeList_range' n (i + 1) (fun j hj hjn => hnext j (by omega) (by omega)) ?_ <;> grind

end

section
variable {α : Type*} {compare : α → α → Int} {capacity maxDepth : Nat} {t t' : AvlTree α} {held : List α}
variable {T : BinaryTree Nat} {nodes cells : List Nat} {x : α}

theorem purgeLoop_spec {t : AvlTree α} (hheap : t.currentTableHeap = some 0) (hdata : t.currentDataHeap = some 0)
    (hroot : t.link .root .left = none) (hcount : t.count = 0) (n : Nat) :
    (purgeLoop t n).currentTableHeap = some 0 ∧ (purgeLoop t n).currentDataHeap = some 0 ∧
      (purgeLoop t n).link .root .left = none ∧ (purgeLoop t n).count = 0 ∧
      ∀ j < n, (purgeLoop t n).link (.cell j) .right = some (j + 1) ∧ (purgeLoop t n).next j = some (j + 1) := by
  induction n with
  | zero => exact ⟨hheap, hdata, hroot, hcount, nofun⟩
  | succ n ih =>
    obtain ⟨hheap, hdata, hroot, hcount, hlinks⟩ := ih
    rw [purgeLoop, range_succ, foldl_append, ← purgeLoop]
    simp only [foldl_cons, foldl_nil]
    refine ⟨hheap, hdata, ?_, hcount, fun j hj => ?_⟩ <;> grind [Links.set_self, Addr.cell.inj, Links.set_of_ne]

theorem holds_closed {n : Nat} (hheap : t.currentTableHeap = some 0) (hdata : t.currentDataHeap = some 0)
    (hroot : t.link .root .left = none) (hcount : t.count = 0)
    (hlinks : ∀ j < n + 1, t.link (.cell j) .right = some (j + 1) ∧ t.next j = some (j + 1)) :
    Holds compare (n + 1)
      { t with link := Links.set t.link (.cell n) .right none, next := Function.update t.next n none } [] := by
  have hrange : (List.range' 0 (n + 1)).Perm (List.range (n + 1)) := by grind
  refine ⟨nil, List.range' 0 (n + 1), List.range' 0 (n + 1),
    ⟨?_, trivial, List.Pairwise.nil, .refl _, hcount, ?_, ?_, hrange, hrange⟩⟩
  · change Links.set t.link (.cell n) .right none .root .left = none
    rw [Links.set_cell_root, hroot]
  · simp only [hheap]
    refine freeList_range' n 0 (fun j _ hj => ?_) ?_
    · grind [Links.set_of_ne]
    · simp
  · simp only [hdata]
    refine freeList_range' n 0 (fun j _ hj => ?_) ?_ <;> grind

theorem holds_purge (t : AvlTree α) (hcap : capacity ≠ 0) : Holds compare capacity (avlPurgeAvlTree t capacity) [] := by
  obtain ⟨n, rfl⟩ := Nat.exists_eq_succ_of_ne_zero hcap
  rw [avlPurgeAvlTree, if_pos (Nat.succ_pos n)]
  obtain ⟨hheap, hdata, hroot, hcount, hlinks⟩ := purgeLoop_spec (t := { t with
    link := Links.set (Links.set t.link .root .left none) .root .right none
    count := 0
    currentTableHeap := some 0
    currentDataHeap := some 0 }) rfl rfl rfl rfl (n + 1)
  grind [holds_closed]

theorem TotalOrder.self (ho : TotalOrder compare) (x : α) : compare x x = 0 := by
  have := ho.swap x x
  omega

section
variable {item : Nat → α} {l : List Nat}

theorem find_exact (ho : TotalOrder compare) (hs : Sorted compare item l) (x y : α) :
    (l.find? fun i => compare x (item i) = 0).map item = some y ↔ y ∈ l.map item ∧ compare x y = 0 := by
  constructor
  · grind [map_eq_some_iff]
  · rintro ⟨hy, hxy⟩
    obtain ⟨j, hj, rfl⟩ := List.mem_map.mp hy
    obtain ⟨smaller, greater, rfl⟩ := append_of_mem hj
    rw [List.find?_append, List.find?_eq_none.mpr fun i hi => ?_, none_or, List.find?_cons_of_pos (by simpa using hxy)]
    · rfl
    · have := hs.below ho (Int.le_of_eq hxy.symm) i hi
      simpa using Int.ne_of_gt this

theorem find_next (ho : TotalOrder compare) (hs : Sorted compare item l) (x y : α) :
    (l.find? fun i => compare x (item i) < 0).map item = some y ↔
      (y ∈ l.map item ∧ compare x y < 0) ∧ ∀ z ∈ l.map item, compare x z < 0 → compare y z ≤ 0 := by
  constructor
  · intro h
    obtain ⟨i, hi, rfl⟩ := Option.map_eq_some_iff.mp h
    obtain ⟨hxi, smaller, greater, rfl, hsmaller⟩ := List.find?_eq_some_iff_append.mp hi
    refine ⟨⟨List.mem_map_of_mem (by simp), by simpa using hxi⟩, fun z hz hxz => ?_⟩
    obtain ⟨j, hj, rfl⟩ := List.mem_map.mp hz
    rcases List.mem_append.mp hj with hj | hj
    · grind
    · rcases List.mem_cons.mp hj with rfl | hj
      · exact Int.le_of_eq (ho.self _)
      · exact Int.le_of_lt (hs.above ho (Int.le_of_eq (ho.self _)) j hj)
  · rintro ⟨⟨hy, hxy⟩, hleast⟩
    obtain ⟨j, hj, rfl⟩ := List.mem_map.mp hy
    obtain ⟨smaller, greater, rfl⟩ := append_of_mem hj
    rw [List.find?_append, List.find?_eq_none.mpr fun i hi => ?_, none_or, List.find?_cons_of_pos (by simpa using hxy)]
    · rfl
    · -- an item before the least one is not greater than `x`
      intro hxi
      have hij := hs.below ho (Int.le_of_eq (ho.self (item j)).symm) i hi
      grind

end

theorem Sorted.congr {item item' : Nat → α} {l : List Nat} (h : Sorted compare item l) (he : ∀ i ∈ l, item' i = item i) :
    Sorted compare item' l := by
  refine List.Pairwise.imp_of_mem (fun {i j} hi hj hij => ?_) h
  simp_all

def takeCell (t : AvlTree α) (cell : Nat) (x : α) : AvlTree α :=
  { t with items := Function.update t.items cell x, currentDataHeap := t.next cell }

theorem call_insert_of_some [Inhabited α] {cell : Nat} (hcell : t.currentDataHeap = some cell) :
    call compare maxDepth t (.insert x) = (avlFindEntry compare maxDepth (takeCell t cell x) cell).map fun p =>
      if p.1 ≠ cell then (.stored ((avlNewFreeDataNode p.2 cell).items p.1), avlNewFreeDataNode p.2 cell)
      else (.inserted, p.2) := by
  rw [call, avlInsertEntry, avlAddEntry, avlNewNewDataNode, hcell, map_some]
  simp only [Option.map_map]
  congr 1
  funext p
  by_cases hp : p.1 ≠ cell <;> simp_all

section
variable (ho : TotalOrder compare) (h : HoldsIn compare capacity t held T nodes cells)
include h

theorem HoldsIn.mem_held {y : α} :
    y ∈ (inorder T).map t.item ↔ y ∈ held := h.items.mem_iff

theorem HoldsIn.nodup_nodes : (inorder T ++ nodes).Nodup :=
  h.tableHeap.nodup_iff.mpr nodup_range

theorem HoldsIn.nodup_cells : ((inorder T).map t.data ++ cells).Nodup :=
  h.dataHeap.nodup_iff.mpr nodup_range

theorem HoldsIn.length_held : held.length + cells.length = capacity := by
  have hitems := h.items.length_eq
  have hcells := h.dataHeap.length_eq
  grind

theorem HoldsIn.length_nodes : nodes.length = cells.length := by
  have hnodes := h.tableHeap.length_eq
  have hcells := h.dataHeap.length_eq
  grind

include ho

theorem call_search [Inhabited α]
    (hd : T.height ≤ maxDepth) (x : α) (flags : Flags) :
    ∃ r, call compare maxDepth t (.search x flags) = some (r, t) ∧
      Answers compare capacity held (.search x flags) r := by
  obtain ⟨hexact, hnext⟩ := avlSearch_eq ho h.rep h.sorted hd x
  cases flags with
  | exact =>
    refine ⟨_, by rw [call, hexact]; rfl, _, rfl, fun y => ?_⟩
    rw [Option.map_map, ← h.mem_held]
    exact find_exact ho h.sorted x y
  | next =>
    refine ⟨_, by rw [call, hnext]; rfl, _, rfl, fun y => ?_⟩
    rw [Option.map_map, ← h.mem_held]
    simp only [← h.mem_held]
    exact find_next ho h.sorted x y

/-! ## Insertions and deletions -/

theorem HoldsIn.unique {y z : α}
    (hy : y ∈ held) (hxy : compare x y = 0) (hz : z ∈ held) (hxz : compare x z = 0) : y = z := by
  have hfindy := (find_exact ho h.sorted x y).mpr ⟨h.mem_held.mpr hy, hxy⟩
  have hfindz := (find_exact ho h.sorted x z).mpr ⟨h.mem_held.mpr hz, hxz⟩
  grind

theorem answers_stored {j : Nat}
    (hj : j ∈ inorder T) (hcmp : compare x (t.item j) = 0) :
    Answers compare capacity held (.insert x) (.stored (t.item j)) ∧
      heldAfter compare capacity held (.insert x) = held := by
  have hmem : t.item j ∈ held := h.mem_held.mp (List.mem_map_of_mem hj)
  refine ⟨⟨fun y hy hxy => ?_, fun hne => absurd hcmp (hne _ hmem)⟩, if_neg fun hne => hne.1 _ hmem hcmp⟩
  rw [h.unique ho hy hxy hmem hcmp]

theorem insert_full [Inhabited α]
    (hd : T.height ≤ maxDepth) (x : α) (hfull : t.currentDataHeap = none) :
    ∃ r, call compare maxDepth t (.insert x) = some (r, t) ∧ Answers compare capacity held (.insert x) r ∧
      heldAfter compare capacity held (.insert x) = held := by
  obtain ⟨hexact, -⟩ := avlSearch_eq ho h.rep h.sorted hd x
  have hlength : ¬held.length < capacity := by
    have := h.length_held
    rw [h.freeCells.none_iff.mp hfull, length_nil] at this
    omega
  rw [call, avlInsertEntry, avlAddEntry, avlNewNewDataNode, hfull]
  simp only [map_none, hexact]
  cases hfind : (inorder T).find? fun i => compare x (t.item i) = 0 with
  | some j =>
    have hcmp : compare x (t.item j) = 0 := by simpa using List.find?_some hfind
    exact ⟨_, rfl, answers_stored ho h (List.mem_of_find?_eq_some hfind) hcmp⟩
  | none =>
    refine ⟨_, rfl, ⟨fun y hy hxy => ?_, fun _ => (if_neg hlength).symm⟩, if_neg fun hadd => hlength hadd.2⟩
    have := (find_exact ho h.sorted x y).mpr ⟨h.mem_held.mpr hy, hxy⟩
    grind

end

section
variable {cell : Nat} {rest : List Nat} (ho : TotalOrder compare)
  (h : HoldsIn compare capacity t held T nodes (cell :: rest))
include h

theorem HoldsIn.data_ne : ∀ i ∈ inorder T, t.data i ≠ cell :=
  fun _ hi he => (nodup_append'.mp h.nodup_cells).2.2 (List.mem_map_of_mem hi) (he ▸ mem_cons_self)

theorem HoldsIn.takeCell_item (x : α) :
    ∀ i ∈ inorder T, (takeCell t cell x).item i = t.item i := fun i hi => update_of_ne (h.data_ne i hi) _ _

include ho

theorem insert_present [Inhabited α]
    {j : Nat} {needed : Nat → Dir} (hj : j ∈ inorder T) (hcmp : compare x (t.item j) = 0)
    (hfind : avlFindEntry compare maxDepth (takeCell t cell x) cell =
      some (t.data j, { takeCell t cell x with balanceNeeded := needed })) :
    ∃ r t', call compare maxDepth t (.insert x) = some (r, t') ∧ Answers compare capacity held (.insert x) r ∧
      Holds compare capacity t' (heldAfter compare capacity held (.insert x)) := by
  obtain ⟨hanswers, hheld⟩ := answers_stored ho h hj hcmp
  rw [hheld, call_insert_of_some h.freeCells.1, hfind, map_some, if_pos (h.data_ne j hj)]
  -- the cell is written and cleared again; no item of the tree is in it
  have hitem : ∀ i ∈ inorder T,
      (avlNewFreeDataNode { takeCell t cell x with balanceNeeded := needed } cell).item i = t.item i :=
    fun i hi => (update_of_ne (h.data_ne i hi) _ _).trans (h.takeCell_item x i hi)
  have hcell : cell ∉ rest := (List.nodup_cons.mp (nodup_append'.mp h.nodup_cells).2.1).1
  refine ⟨_, _, rfl, ?_, T, nodes, cell :: rest, ⟨h.rep, h.balanced, h.sorted.congr hitem, ?_, h.count, h.freeNodes,
    h.freeCells.2.push hcell, h.tableHeap, h.dataHeap⟩⟩
  · rw [← hitem j hj] at hanswers
    exact hanswers
  · rw [map_congr_left hitem]
    exact h.items

theorem insert_absent [Inhabited α]
    {smaller greater : List Nat}
    (hT : inorder T = smaller ++ greater) (hsmaller : ∀ j ∈ smaller, 0 < compare x (t.item j))
    (hgreater : ∀ j ∈ greater, compare x (t.item j) < 0)
    (hplace : ∀ n, t.currentTableHeap = some n → n ∉ inorder T → ∃ t' T',
      avlFindEntry compare maxDepth (takeCell t cell x) cell = some (cell, t') ∧
        Placed (takeCell t cell x) t' n cell smaller greater T') :
    ∃ r t', call compare maxDepth t (.insert x) = some (r, t') ∧ Answers compare capacity held (.insert x) r ∧
      Holds compare capacity t' (heldAfter compare capacity held (.insert x)) := by
  have hlength := h.length_held
  have hnodes := h.length_nodes
  rw [length_cons] at hlength hnodes
  obtain ⟨n, nodes', rfl⟩ : ∃ n nodes', nodes = n :: nodes' := exists_cons_of_ne_nil fun he => by grind
  have hndnodes := h.nodup_nodes
  have hn : n ∉ inorder T := fun hn => (nodup_append'.mp hndnodes).2.2 hn mem_cons_self
  obtain ⟨t', T', hfind, hp⟩ := hplace n h.freeNodes.1 hn
  obtain ⟨hdata, hitems, hnext, hheap, hdheap, hcount⟩ := hp.rest.fields
  have habsent : ∀ y ∈ held, compare x y ≠ 0 := by
    intro y hy
    obtain ⟨j, hj, rfl⟩ := List.mem_map.mp (h.mem_held.mpr hy)
    grind
  have hroom : held.length < capacity := by omega
  have hheld : heldAfter compare capacity held (.insert x) = x :: held := if_pos ⟨habsent, hroom⟩
  rw [hheld, call_insert_of_some h.freeCells.1, hfind, map_some, if_neg fun hne => hne rfl]
  refine ⟨_, t', rfl, ⟨fun y hy hxy => absurd hxy (habsent y hy), fun _ => (if_pos hroom).symm⟩, T', nodes', rest, ?_⟩
  -- the new node, and the nodes that were there
  have hdatan : t'.data n = cell := by
    rw [hdata]
    exact update_self ..
  have hdatai : ∀ i ∈ inorder T, t'.data i = t.data i := fun i hi => by
    rw [hdata]
    exact update_of_ne (show i ≠ n from fun he => hn (he ▸ hi)) _ _
  have hitemn : t'.item n = x := by
    rw [AvlTree.item, hdatan, hitems]
    exact update_self ..
  have hitemi : ∀ i ∈ inorder T, t'.item i = t.item i := fun i hi => by
    rw [AvlTree.item, hdatai i hi, hitems]
    exact h.takeCell_item x i hi
  have hlink : ∀ i ∈ nodes', t'.link (.cell i) .right = t.link (.cell i) .right := fun i hi => by
    refine hp.link_eq i (fun hmem => ?_) .right
    rw [hp.inorder_eq, mem_append, mem_cons, or_left_comm, ← mem_append, ← hT] at hmem
    grind
  have hperm : (inorder T').Perm (n :: inorder T) := by
    rw [hp.inorder_eq, hT]
    exact perm_middle
  refine ⟨hp.rep, hp.balanced, ?_, ?_, ?_, ?_, ?_, ?_, ?_⟩
  · have hs := h.sorted.congr hitemi
    rw [hT] at hs hitemi
    obtain ⟨hss, hsg, hacross⟩ := List.pairwise_append.mp hs
    grind [hp.inorder_eq, Sorted, pairwise_cons, ho.swap]
  · refine (hperm.map t'.item).trans ?_
    rw [map_cons, hitemn, map_congr_left hitemi]
    exact h.items.cons x
  · rw [hcount, length_cons, ← h.count]
    rfl
  · rw [hheap]
    exact h.freeNodes.2.congr hlink
  · rw [hnext, hdheap]
    exact h.freeCells.2
  · grind [h.tableHeap]
  · refine ((hperm.map t'.data).append_right rest).trans ?_
    rw [map_cons, hdatan, map_congr_left hdatai]
    exact List.perm_middle.symm.trans h.dataHeap

end

section
variable (ho : TotalOrder compare) (h : HoldsIn compare capacity t held T nodes cells)
include ho h

theorem call_insert [Inhabited α]
    (hd : T.height ≤ maxDepth) (x : α) :
    ∃ r t', call compare maxDepth t (.insert x) = some (r, t') ∧ Answers compare capacity held (.insert x) r ∧
      Holds compare capacity t' (heldAfter compare capacity held (.insert x)) := by
  cases cells with
  | nil =>
    obtain ⟨r, hcall, hanswers, hheld⟩ := insert_full ho h hd x h.freeCells
    rw [hheld]
    exact ⟨r, t, hcall, hanswers, T, nodes, [], h⟩
  | cons cell rest =>
    have hitems : (takeCell t cell x).items cell = x := update_self ..
    have hitem := h.takeCell_item x
    have hnd := (nodup_append'.mp h.nodup_nodes).1
    rcases avlFindEntry_spec (t := takeCell t cell x) ho h.rep hnd h.balanced (h.sorted.congr hitem) hd cell with
      ⟨j, needed, hfind, hj, hcmp⟩ | ⟨smaller, greater, hT, hsmaller, hgreater, hplace⟩
    · rw [hitems, hitem j hj] at hcmp
      exact insert_present ho h hj hcmp hfind
    · rw [hitems] at hsmaller hgreater
      rw [hT] at hitem
      refine insert_absent ho h hT (fun j hj => ?_) (fun j hj => ?_) hplace
      · grind
      · grind

theorem delete_present [Inhabited α] {m : Nat}
    {smaller greater : List Nat} {T' : BinaryTree Nat} (hT : inorder T = smaller ++ m :: greater)
    (hT' : inorder T' = smaller ++ greater) (hcmp : compare x (t.item m) = 0) (hr : Removed t t' m T T') :
    Holds compare capacity t' (heldAfter compare capacity held (.delete x)) := by
  obtain ⟨hdata, hitems, hnext, hheap, hdheap, hcount⟩ := hr.rest.fields
  have hperm : (inorder T).Perm (m :: inorder T') := by simp_all
  have hsorted := h.sorted
  have hndcells : (t.data m :: ((inorder T').map t.data ++ cells)).Nodup :=
    ((hperm.map t.data).append_right cells).nodup_iff.mp h.nodup_cells
  have hdatam := (List.nodup_cons.mp hndcells).1
  rw [mem_append, not_or] at hdatam
  have hitem : ∀ i ∈ inorder T', t'.item i = t.item i := fun i hi => by
    rw [AvlTree.item, hdata, hitems]
    exact update_of_ne (show t.data i ≠ t.data m from fun he => hdatam.1 (he ▸ List.mem_map_of_mem hi)) _ _
  have hlink : ∀ i ∈ nodes, t'.link (.cell i) .right = t.link (.cell i) .right := fun i hi =>
    hr.link_eq i (fun hmem => (nodup_append'.mp h.nodup_nodes).2.2 hmem hi) .right
  have hlength := hperm.length_eq
  -- no other item has the key
  have hother : ∀ i ∈ inorder T', compare x (t.item i) ≠ 0 := fun i hi => by
    rw [hT'] at hi
    rw [hT] at hsorted
    rcases List.mem_append.mp hi with hi | hi
    · exact Int.ne_of_gt (hsorted.below ho (Int.le_of_eq hcmp.symm) i hi)
    · exact Int.ne_of_lt (hsorted.above ho (Int.le_of_eq hcmp) i hi)
  have hheld : ((inorder T').map t.item).Perm (heldAfter compare capacity held (.delete x)) := by
    have hfilter := (((hperm.map t.item).symm.trans h.items).filter fun y => compare x y ≠ 0)
    rw [map_cons, filter_cons_of_neg (by simpa using hcmp), List.filter_eq_self.mpr] at hfilter
    · exact hfilter
    · grind
  refine ⟨T', m :: nodes, t.data m :: cells, ⟨hr.rep, hr.balanced, ?_, ?_, ?_, ?_, ?_, ?_, ?_⟩⟩
  · rw [hT] at hsorted
    refine Sorted.congr ?_ hitem
    rw [hT']
    exact hsorted.sublist ((List.Sublist.refl _).append (sublist_cons_self _ _))
  · rw [map_congr_left hitem]
    exact hheld
  · rw [hcount, ← hheld.length_eq, length_map]
    have hitemslen := h.items.length_eq
    rw [length_map] at hitemslen
    rw [length_cons] at hlength
    change t.count - 1 = _
    rw [h.count]
    omega
  · refine ⟨hheap, ?_⟩
    simp only [hr.link_free]
    exact h.freeNodes.congr hlink
  · rw [hnext, hdheap]
    exact h.freeCells.push hdatam.2
  · exact (List.perm_middle.trans (hperm.append_right nodes).symm).trans h.tableHeap
  · rw [hdata]
    exact (List.perm_middle.trans ((hperm.map t.data).append_right cells).symm).trans h.dataHeap

theorem call_delete [Inhabited α]
    (hd : T.height < maxDepth) (x : α) :
    ∃ r t', call compare maxDepth t (.delete x) = some (r, t') ∧ Answers compare capacity held (.delete x) r ∧
      Holds compare capacity t' (heldAfter compare capacity held (.delete x)) := by
  have hnd := (nodup_append'.mp h.nodup_nodes).1
  rcases avlRemoveEntry_spec ho h.rep hnd h.balanced h.sorted hd x with
    ⟨m, smaller, greater, t', T', hT, hT', hcmp, hremove, hr⟩ | ⟨hremove, hne⟩
  · refine ⟨.deleted true, t', by rw [call, avlDeleteEntry, hremove]; rfl, ?_, delete_present ho h hT hT' hcmp hr⟩
    have hm : t.item m ∈ held := h.mem_held.mp (List.mem_map_of_mem (by rw [hT]; simp))
    grind [Answers]
  · have hnone : ∀ y ∈ held, compare x y ≠ 0 := fun y hy => by
      obtain ⟨j, hj, rfl⟩ := List.mem_map.mp (h.mem_held.mpr hy)
      exact hne j hj
    refine ⟨.deleted false, t, by rw [call, avlDeleteEntry, hremove]; rfl, ?_, ?_⟩
    · grind [Answers]
    · rw [heldAfter, List.filter_eq_self.mpr fun y hy => by simpa using hnone y hy]
      exact ⟨T, nodes, cells, h⟩

end

theorem call_spec [Inhabited α] (ho : TotalOrder compare)
    (hdepth : ∀ (bal : Nat → Int) (T : BinaryTree Nat), Balanced bal T → T.numNodes ≤ capacity → T.height < maxDepth)
    (h : Holds compare capacity t held) (op : Op α) :
    ∃ r t', call compare maxDepth t op = some (r, t') ∧ Answers compare capacity held op r ∧
      Holds compare capacity t' (heldAfter compare capacity held op) := by
  obtain ⟨T, nodes, cells, h⟩ := h
  have hd : T.height < maxDepth := by
    refine hdepth _ T h.balanced ?_
    have := h.tableHeap.length_eq
    grind [length_inorder]
  cases op with
  | insert x => exact call_insert ho h (Nat.le_of_lt hd) x
  | delete x => exact call_delete ho h hd x
  | search x flags =>
    obtain ⟨r, hcall, hanswers⟩ := call_search ho h (Nat.le_of_lt hd) x flags
    exact ⟨r, t, hcall, hanswers, T, nodes, cells, h⟩

/-- With heaps that have cells the tree is the bounded map it is meant to be. With none, the heads of the free lists
are set all the same. -/
theorem tree_refines_iff [Inhabited α] (ho : TotalOrder compare)
    (hdepth : ∀ (bal : Nat → Int) (T : BinaryTree Nat), Balanced bal T → T.numNodes ≤ capacity → T.height < maxDepth) :
    Refines compare capacity maxDepth ↔ capacity ≠ 0 := by
  constructor
  · rintro h rfl
    obtain ⟨t, hrun, ⟨T, nodes, cells, hholds⟩, -⟩ := h []
    cases hrun
    have hnodes : nodes = [] := by
      have := hholds.tableHeap.length_eq
      rw [List.length_append, List.length_range] at this
      exact List.eq_nil_of_length_eq_zero (by omega)
    have hfree := hholds.freeNodes
    rw [hnodes] at hfree
    cases hfree
  · intro hcap ops
    have hstep : ∀ done op rest t, done ++ op :: rest = ops →
        Holds compare capacity t (done.foldl (heldAfter compare capacity) []) →
        ∃ t', step compare maxDepth t op = some t' ∧
          Holds compare capacity t' ((done ++ [op]).foldl (heldAfter compare capacity) []) := by
      intro done op rest t _ h
      obtain ⟨r, t', hcall, -, hholds⟩ := call_spec ho hdepth h op
      refine ⟨t', by rw [step, hcall]; rfl, ?_⟩
      rw [List.foldl_append]
      exact hholds
    obtain ⟨t, hrun, hholds⟩ := run_done (step compare maxDepth) hstep (List.nil_append ops) (holds_purge _ hcap)
    refine ⟨t, hrun, hholds, fun op => ?_⟩
    obtain ⟨r, t', hcall, hanswers, -⟩ := call_spec ho hdepth hholds op
    exact ⟨r, t', hcall, hanswers⟩

theorem totalOrder_uLong32 : TotalOrder avlCompareULong32 := by
  have hcases : ∀ x y : UInt32, (avlCompareULong32 x y = -1 ∧ x.toNat < y.toNat) ∨
      (avlCompareULong32 x y = 0 ∧ x.toNat = y.toNat) ∨ (avlCompareULong32 x y = 1 ∧ y.toNat < x.toNat) := by
    grind [avlCompareULong32, UInt32.toNat_inj, UInt32.lt_iff_toNat_lt, UInt32.lt_iff_toNat_lt]
  constructor
  · grind
  · grind

/-- Seven items fit, and three that come in their order are rotated: the second one is the root. -/
theorem tree_refines_seven : TotalOrder avlCompareULong32 ∧
    (∀ (bal : Nat → Int) (T : BinaryTree Nat), Balanced bal T → T.numNodes ≤ 7 → T.height < 8) ∧
    Refines avlCompareULong32 7 8 ∧
    ((run (step avlCompareULong32 8) (avlCreateAvlTree 7) [.insert 1, .insert 2, .insert 3]).map fun t =>
      (t.link .root .left).map fun n => t.items (t.data n)) = some (some 2) := by
  have hdepth : ∀ (bal : Nat → Int) (T : BinaryTree Nat), Balanced bal T → T.numNodes ≤ 7 → T.height < 8 :=
    fun _ T _ hT => Nat.lt_succ_of_le (Nat.le_trans T.height_le_numNodes hT)
  exact ⟨totalOrder_uLong32, hdepth, (tree_refines_iff totalOrder_uLong32 hdepth).mpr (by decide), by decide +kernel⟩

theorem tree_not_refined : TotalOrder avlCompareULong32 ∧
    (∀ (bal : Nat → Int) (T : BinaryTree Nat), Balanced bal T → T.numNodes ≤ 0 → T.height < 1) ∧
    (∃ t, call avlCompareULong32 1 (avlCreateAvlTree 0) (.insert 5) = some (.inserted, t)) ∧
    ¬Refines avlCompareULong32 0 1 := by
  refine ⟨totalOrder_uLong32, fun _ T _ hT => Nat.lt_succ_of_le (Nat.le_trans T.height_le_numNodes hT), ⟨_, rfl⟩,
    fun h => ?_⟩
  obtain ⟨t, hrun, -, hanswers⟩ := h []
  cases hrun
  obtain ⟨r, t', hcall, hr⟩ := hanswers (.insert 5)
  have hreply : r = .inserted := (congrArg Prod.fst (Option.some.inj hcall)).symm
  have hrefused : r = .refused := hr.2 nofun
  rw [hreply] at hrefused
  cases hrefused

end

end Sonic.Avl
