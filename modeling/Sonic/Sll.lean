import Mathlib.Data.List.Pairwise
import Mathlib.Data.List.Perm.Basic
import Mathlib.Data.List.TakeWhile
import Mathlib.Order.Basic

/-! # Ordered linked lists with duplicates

The list of sll.c in ascending order with duplicates allowed. The order is that of a compare
function; `Ascends` says that on the members of a list it is the order of their keys. -/

namespace Sonic.Sll
open List

section
variable {α : Type*} (compareFunc : α → α → Int)

def seek (node : α) : List α → Bool × List α × List α
  | [] => (false, [], [])
  | m :: l =>
    if compareFunc m node = 0 then (true, [], m :: l)
    else if 0 < compareFunc m node then (false, [], m :: l)
    else ((seek node l).1, m :: (seek node l).2.1, (seek node l).2.2)

def add (node : α) (l : List α) : List α :=
  match seek compareFunc node l with
  | (true, pre, post) =>
    pre ++ (post.takeWhile (compareFunc · node = 0) ++ node :: post.dropWhile (compareFunc · node = 0))
  | (false, pre, post) => pre ++ node :: post

def atStartPush (node : α) (l : List α) : List α :=
  (seek compareFunc node l).2.1 ++ node :: (seek compareFunc node l).2.2

def nodeRemove (isNode : α → Bool) (l : List α) : Option (α × List α) :=
  (l.find? isNode).map fun n => (n, l.eraseP isNode)

theorem seek_append (node : α) : ∀ l, (seek compareFunc node l).2.1 ++ (seek compareFunc node l).2.2 = l
  | [] => rfl
  | m :: l => by
    unfold seek
    split
    · rfl
    · split
      · rfl
      · exact congrArg (m :: ·) (seek_append node l)

theorem perm_add (node : α) (l : List α) : (add compareFunc node l).Perm (node :: l) := by
  have happ := seek_append compareFunc node l
  unfold add
  split
  · rename_i pre post hs
    rw [hs] at happ
    rw [← happ, ← append_assoc]
    refine perm_middle.trans (Perm.cons _ ?_)
    rw [append_assoc, takeWhile_append_dropWhile]
  · rename_i pre post hs
    rw [hs] at happ
    rw [← happ]
    exact perm_middle

variable {compareFunc}

theorem mem_add {node n : α} {l : List α} : n ∈ add compareFunc node l ↔ n = node ∨ n ∈ l :=
  (perm_add compareFunc node l).mem_iff.trans mem_cons

/-! ## The order of keys -/

def Ascends (compareFunc : α → α → Int) (key : α → Nat) (node : α) (l : List α) : Prop :=
  ∀ m ∈ l, (compareFunc m node = 0 ↔ key m = key node) ∧ (0 < compareFunc m node ↔ key node < key m)

section
variable {key : α → Nat} {node : α}

theorem seek_before : ∀ {l : List α}, Ascends compareFunc key node l →
    ∀ m ∈ (seek compareFunc node l).2.1, key m ≤ key node
  | [], _, m, hm => by cases hm
  | x :: l, ha, m, hm => by
    obtain ⟨hx, hgt⟩ := ha x mem_cons_self
    unfold seek at hm
    split at hm
    · cases hm
    · split at hm
      · cases hm
      · rename_i hlt
        rcases List.mem_cons.mp hm with rfl | hm
        · grind
        · exact seek_before (fun m hm => ha m (mem_cons_of_mem _ hm)) m hm

theorem seek_after : ∀ {l : List α}, Ascends compareFunc key node l → l.Pairwise (key · ≤ key ·) →
    ∀ m ∈ (seek compareFunc node l).2.2, key node ≤ key m
  | [], _, _, m, hm => by cases hm
  | x :: l, ha, hs, m, hm => by
    obtain ⟨hx, hgt⟩ := ha x mem_cons_self
    obtain ⟨hle, hs⟩ := List.pairwise_cons.mp hs
    have hall : key node ≤ key x → ∀ m ∈ x :: l, key node ≤ key m := by grind
    unfold seek at hm
    split at hm
    · grind
    · split at hm
      · grind
      · exact seek_after (fun m hm => ha m (mem_cons_of_mem _ hm)) hs m hm

theorem pairwise_insert {pre post : List α} (hl : (pre ++ post).Pairwise (key · ≤ key ·))
    (hpre : ∀ m ∈ pre, key m ≤ key node) (hpost : ∀ m ∈ post, key node ≤ key m) :
    (pre ++ node :: post).Pairwise (key · ≤ key ·) := by grind [pairwise_cons]

theorem pairwise_add {l : List α} (ha : Ascends compareFunc key node l) (hl : l.Pairwise (key · ≤ key ·)) :
    (add compareFunc node l).Pairwise (key · ≤ key ·) := by
  have happ := seek_append compareFunc node l
  have hpre := seek_before ha
  have hpost := seek_after ha hl
  unfold add
  split
  · rename_i pre post hs
    rw [hs] at happ hpre hpost
    dsimp only at happ hpre hpost
    rw [← append_assoc]
    refine pairwise_insert ?_ (fun m hm => ?_) fun m hm => hpost m (dropWhile_sublist _ |>.subset hm)
    · grind [takeWhile_append_dropWhile]
    · rcases List.mem_append.mp hm with hm | hm
      · exact hpre m hm
      · have heq : compareFunc m node = 0 := by simpa using mem_takeWhile_imp hm
        have hmem : m ∈ l := happ ▸ mem_append_right _ ((takeWhile_sublist _).subset hm)
        exact ((ha m hmem).1.mp heq).le
  · simp_all [pairwise_insert]

theorem atStartPush_eq_cons {l : List α} (ha : Ascends compareFunc key node l) (h : ∀ m ∈ l, key node ≤ key m) :
    atStartPush compareFunc node l = node :: l := by
  cases l with
  | nil => rfl
  | cons m l =>
    obtain ⟨heq, hgt⟩ := ha m mem_cons_self
    grind [atStartPush, seek]

end

theorem nodeRemove_eq_none {isNode : α → Bool} {l : List α} (h : nodeRemove isNode l = none) :
    ∀ n ∈ l, isNode n = false := by grind [nodeRemove, Option.map_eq_none_iff]

theorem nodeRemove_eq_some {isNode : α → Bool} {l l' : List α} {n : α} (h : nodeRemove isNode l = some (n, l')) :
    n ∈ l ∧ isNode n = true ∧ l' = l.eraseP isNode := by
  obtain ⟨m, hm, he⟩ := Option.map_eq_some_iff.mp h
  grind

end

section
variable {α β : Type*} [DecidableEq β] {f : α → β}

theorem find?_of_nodup {l : List α} (hn : (l.map f).Nodup) {a : α} (ha : a ∈ l) {b : β} (hb : f a = b) :
    l.find? (fun x => f x = b) = some a := by
  induction l <;> grind

theorem mem_eraseP_of_nodup {l : List α} (hn : (l.map f).Nodup) {a : α} (ha : a ∈ l) {b : β} (hb : f a = b) {x : α} :
    x ∈ l.eraseP (fun x => f x = b) ↔ x ∈ l ∧ x ≠ a := by
  induction l with
  | nil => cases ha
  | cons y l ih =>
    rw [map_cons, nodup_cons] at hn
    rcases List.mem_cons.mp ha with rfl | ha
    · grind
    · grind

end

end Sonic.Sll
