import Sonic.AvlRep

/-! # Searching in order

The comparator is a total order on keys, and the tree holds its items in that order. At a node the
walk leaves a side on which every item is smaller, or every item is greater, than the one that is
looked for. -/

namespace Sonic.Avl

open BinaryTree BalancedTree

section
variable {α : Type*}

/-- Items with the same key compare as zero. -/
structure TotalOrder (compare : α → α → Int) : Prop where
  swap : ∀ x y, compare x y < 0 ↔ 0 < compare y x
  trans : ∀ x y z, compare x y ≤ 0 → compare y z ≤ 0 → compare x z ≤ 0

def AvlTree.item (t : AvlTree α) (i : Nat) : α := t.items (t.data i)

/-- The nodes are in the order of their items. -/
def Sorted (compare : α → α → Int) (item : Nat → α) (l : List Nat) : Prop :=
  l.Pairwise fun i j => compare (item i) (item j) < 0

end

section
variable {α : Type*} {compare : α → α → Int} {item : Nat → α} {x : α} {c : List (Frame Nat)} {d : Dir} {i : Nat}
variable {l r u v : BinaryTree Nat}

theorem side_spec (compare : α → α → Int) (x y : α) : match side (avlCompareKey compare x y) with
    | none => compare x y = 0
    | some .left => compare x y < 0
    | some .right => 0 < compare x y := by
  by_cases hlt : compare x y < 0
  · rw [avlCompareKey, if_pos hlt]
    exact hlt
  · by_cases hgt : compare x y > 0
    · rw [avlCompareKey, if_neg hlt, if_pos hgt]
      exact hgt
    · rw [avlCompareKey, if_neg hlt, if_neg hgt]
      exact Int.le_antisymm (Int.not_lt.mp hgt) (Int.not_lt.mp hlt)

theorem TotalOrder.lt_of_lt_of_le (ho : TotalOrder compare) {x y z : α} (hxy : compare x y < 0)
    (hyz : compare y z ≤ 0) :
    compare x z < 0 := by
  by_contra hxz
  have hzx : compare z x ≤ 0 := Int.not_lt.mp fun h => hxz ((ho.swap x z).mpr h)
  have hyx := ho.trans y z x hyz hzx
  have := (ho.swap x y).mp hxy
  omega

theorem TotalOrder.lt_of_le_of_lt (ho : TotalOrder compare) {x y z : α} (hxy : compare x y ≤ 0)
    (hyz : compare y z < 0) :
    compare x z < 0 := by
  by_contra hxz
  have hzx : compare z x ≤ 0 := Int.not_lt.mp fun h => hxz ((ho.swap x z).mpr h)
  have hzy := ho.trans z x y hzx hxy
  have := (ho.swap y z).mp hyz
  omega

theorem TotalOrder.le_of_ge (ho : TotalOrder compare) {x y : α} (h : 0 ≤ compare x y) : compare y x ≤ 0 :=
  Int.not_lt.mp fun hlt => absurd ((ho.swap x y).mpr hlt) (Int.not_lt.mpr h)

theorem Sorted.left (h : Sorted compare item (inorder (node i l r))) : Sorted compare item (inorder l) :=
  (List.pairwise_append.mp h).1

theorem Sorted.right (h : Sorted compare item (inorder (node i l r))) : Sorted compare item (inorder r) :=
  (List.pairwise_cons.mp (List.pairwise_append.mp h).2.1).2

theorem Sorted.below (ho : TotalOrder compare) {smaller greater : List Nat}
    (h : Sorted compare item (smaller ++ i :: greater)) (hx : 0 ≤ compare x (item i)) :
    ∀ j ∈ smaller, 0 < compare x (item j) := by
  intro j hj
  have hji := (List.pairwise_append.mp h).2.2 j hj i List.mem_cons_self
  exact (ho.swap _ _).mp (ho.lt_of_lt_of_le hji (ho.le_of_ge hx))

theorem Sorted.above (ho : TotalOrder compare) {smaller greater : List Nat}
    (h : Sorted compare item (smaller ++ i :: greater)) (hx : compare x (item i) ≤ 0) :
    ∀ j ∈ greater, compare x (item j) < 0 := by
  intro j hj
  have hij := (List.pairwise_cons.mp (List.pairwise_append.mp h).2.1).1 j hj
  exact ho.lt_of_le_of_lt hx hij

theorem Sorted.child (h : Sorted compare item (inorder (join d i u v))) : Sorted compare item (inorder u) := by
  cases d with
  | left => exact Sorted.left h
  | right => exact Sorted.right h

def Between (compare : α → α → Int) (item : Nat → α) (x : α) (c : List (Frame Nat)) : Prop :=
  (∀ j ∈ before c, 0 < compare x (item j)) ∧ ∀ j ∈ after c, compare x (item j) < 0

theorem Between.cons (ho : TotalOrder compare) (hc : Between compare item x c)
    (hs : Sorted compare item (inorder (join d i u v))) (hd : side (avlCompareKey compare x (item i)) = some d) :
    Between compare item x (⟨d, i, v⟩ :: c) := by
  have hside := side_spec compare x (item i)
  rw [hd] at hside
  cases d with
  | left =>
    refine ⟨fun j hj => hc.1 j ?_, fun j hj => ?_⟩
    · simpa [before] using hj
    · rw [after, List.mem_append] at hj
      rcases hj with hj | hj
      · rcases List.mem_cons.mp hj with rfl | hj
        · exact hside
        · exact hs.above ho (Int.le_of_lt hside) j hj
      · exact hc.2 j hj
  | right =>
    refine ⟨fun j hj => ?_, fun j hj => hc.2 j ?_⟩
    · rw [before, List.mem_append] at hj
      rcases hj with hj | hj
      · exact hc.1 j hj
      · rcases List.mem_append.mp hj with hj | hj
        · exact hs.below ho (Int.le_of_lt hside) j hj
        · grind
    · simpa [after] using hj

theorem find?_inorder_below {q : Nat → Bool} (hl : ∀ j ∈ inorder l, q j = false) :
    (inorder (node i l r)).find? q = (i :: inorder r).find? q := by
  rw [inorder, List.find?_append, List.find?_eq_none.mpr fun j hj => by simp_all,
    Option.none_or]

theorem find?_inorder_above {q : Nat → Bool} (hi : q i = false) (hr : ∀ j ∈ inorder r, q j = false) :
    (inorder (node i l r)).find? q = (inorder l).find? q := by
  have hnone : (i :: inorder r).find? q = none := by simp_all
  grind [inorder]

theorem searchLoop_exact {t : AvlTree α} (ho : TotalOrder compare) :
    ∀ {S : BinaryTree Nat} {p saved : Option Nat} {fuel : Nat},
    Rep t.link p S → Sorted compare t.item (inorder S) → S.height ≤ fuel →
    ∃ s, searchLoop compare t x .exact fuel p saved = some s ∧
      (if s.2 then s.1 else none) = (inorder S).find? fun i => compare x (t.item i) = 0
  | nil, _, saved, fuel, hp, _, _ => by
    cases hp
    exact ⟨(saved, false), by rw [searchLoop], rfl⟩
  | node i l r, _, saved, fuel + 1, ⟨rfl, hl, hr⟩, hs, hf => by
    have hlf : l.height ≤ fuel := by
      rw [BinaryTree.height] at hf
      omega
    have hrf : r.height ≤ fuel := by
      rw [BinaryTree.height] at hf
      omega
    rw [searchLoop, show t.items (t.data i) = t.item i from rfl]
    have hside := side_spec compare x (t.item i)
    cases hcmp : avlCompareKey compare x (t.item i) with
    | eq =>
      rw [hcmp] at hside
      change compare x (t.item i) = 0 at hside
      refine ⟨(some i, true), rfl, ?_⟩
      rw [find?_inorder_below fun j hj => decide_eq_false (Int.ne_of_gt (hs.below ho (Int.le_of_eq hside.symm) j hj)),
        List.find?_cons_of_pos (by simpa using hside)]
      rfl
    | lt =>
      rw [hcmp] at hside
      change compare x (t.item i) < 0 at hside
      rw [find?_inorder_above (decide_eq_false (Int.ne_of_lt hside))
        fun j hj => decide_eq_false (Int.ne_of_lt (hs.above ho (Int.le_of_lt hside) j hj))]
      exact searchLoop_exact ho hl hs.left hlf
    | gt =>
      rw [hcmp] at hside
      rw [find?_inorder_below fun j hj => decide_eq_false (Int.ne_of_gt (hs.below ho (Int.le_of_lt hside) j hj)),
        List.find?_cons_of_neg (by simpa using Int.ne_of_gt hside)]
      exact searchLoop_exact ho hr hs.right hrf

theorem searchLoop_next {t : AvlTree α} (ho : TotalOrder compare) :
    ∀ {S : BinaryTree Nat} {p saved : Option Nat} {fuel : Nat},
    Rep t.link p S → Sorted compare t.item (inorder S) → S.height ≤ fuel →
    searchLoop compare t x .next fuel p saved =
      some (((inorder S).find? fun i => compare x (t.item i) < 0).or saved, false)
  | nil, _, saved, fuel, hp, _, _ => by
    cases hp
    rw [searchLoop]
    rfl
  | node i l r, _, saved, fuel + 1, ⟨rfl, hl, hr⟩, hs, hf => by
    have hlf : l.height ≤ fuel := by
      rw [BinaryTree.height] at hf
      omega
    have hrf : r.height ≤ fuel := by
      rw [BinaryTree.height] at hf
      omega
    rw [searchLoop, show t.items (t.data i) = t.item i from rfl]
    have hside := side_spec compare x (t.item i)
    -- where the walk goes right, neither the node nor what is left of it is greater
    have hright (hx : 0 ≤ compare x (t.item i)) : (inorder (node i l r)).find? (fun i => compare x (t.item i) < 0) =
        (inorder r).find? fun i => compare x (t.item i) < 0 := by
      rw [find?_inorder_below fun j hj => decide_eq_false (Int.not_lt.mpr (Int.le_of_lt (hs.below ho hx j hj))),
        List.find?_cons_of_neg (by simpa using hx)]
    cases hcmp : avlCompareKey compare x (t.item i) with
    | eq =>
      rw [hcmp] at hside
      change compare x (t.item i) = 0 at hside
      rw [hright (Int.le_of_eq hside.symm), ← searchLoop_next ho hr hs.right hrf]
      rfl
    | lt =>
      rw [hcmp] at hside
      change compare x (t.item i) < 0 at hside
      rw [inorder, List.find?_append, List.find?_cons_of_pos (by simpa using hside), Option.or_assoc, Option.some_or]
      exact searchLoop_next ho hl hs.left hlf
    | gt =>
      rw [hcmp] at hside
      rw [hright (Int.le_of_lt hside)]
      exact searchLoop_next ho hr hs.right hrf

theorem avlSearch_eq {t : AvlTree α} (ho : TotalOrder compare) {T : BinaryTree Nat} {maxDepth : Nat}
    (hrep : Rep t.link (t.link .root .left) T) (hs : Sorted compare t.item (inorder T)) (hd : T.height ≤ maxDepth)
    (x : α) :
    avlSearch compare maxDepth t x .exact = some (((inorder T).find? fun i => compare x (t.item i) = 0).map t.data) ∧
    avlSearch compare maxDepth t x .next = some (((inorder T).find? fun i => compare x (t.item i) < 0).map t.data) := by
  constructor
  · obtain ⟨⟨saved, found⟩, hsearch, hfound⟩ := @searchLoop_exact α compare x t ho _ _ none _ hrep hs hd
    grind [avlSearch]
  · grind [avlSearch, searchLoop_next]

end

end Sonic.Avl
