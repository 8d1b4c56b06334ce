import Mathlib.Data.List.Basic
import Mathlib.Logic.Function.Basic

/-! # Configuration lines that are owned by keys

A device holds a set of lines; the manager of the device wants, for each of its keys, some lines to
be there. When one key changes its mind, lines are taken out and others are put in. `Holds.replace`
says when this is right: what goes must not be wanted by anyone, or must be put back. -/

namespace Sonic.Lines

section
variable {κ α : Type*} [DecidableEq α]

/-- The device has the lines that some key wants and no others. -/
def Holds (dev : List α) (want : κ → List α) : Prop := ∀ l, l ∈ dev ↔ ∃ k, l ∈ want k

def add (dev : List α) (l : α) : List α := if l ∈ dev then dev else dev ++ [l]

def remove (dev : List α) (l : α) : List α := dev.filter (· ≠ l)

theorem mem_add {dev : List α} {l x : α} : x ∈ add dev l ↔ x ∈ dev ∨ x = l := by grind [add]

theorem mem_remove {dev : List α} {l x : α} : x ∈ remove dev l ↔ x ∈ dev ∧ x ≠ l := by simp [remove]

theorem mem_foldl_remove {x : α} : ∀ {gone dev : List α}, x ∈ gone.foldl remove dev ↔ x ∈ dev ∧ x ∉ gone
  | [], dev => by simp
  | l :: gone, dev => by rw [List.foldl_cons, mem_foldl_remove, mem_remove, List.mem_cons, not_or, and_assoc]

theorem mem_foldl_add {x : α} : ∀ {new dev : List α}, x ∈ new.foldl add dev ↔ x ∈ dev ∨ x ∈ new
  | [], dev => by simp
  | l :: new, dev => by rw [List.foldl_cons, mem_foldl_add, mem_add, List.mem_cons, or_assoc]

variable [DecidableEq κ]

theorem Holds.replace {dev : List α} {want : κ → List α} (h : Holds dev want) {k : κ} {new : List α}
    (gone put : List α) (hold : ∀ l ∈ want k, l ∈ new ∨ l ∈ gone) (hput : ∀ l ∈ put, l ∈ new)
    (hnew : ∀ l ∈ new, l ∈ put ∨ l ∈ want k ∧ l ∉ gone)
    (hothers : ∀ l ∈ gone, ∀ k', k' ≠ k → l ∉ want k') :
    Holds (put.foldl add (gone.foldl remove dev)) (Function.update want k new) := by
  intro l
  rw [mem_foldl_add, mem_foldl_remove, h l]
  constructor
  · rintro (⟨⟨k', hk'⟩, hg⟩ | hp)
    · by_cases hkk : k' = k
      · subst hkk
        refine ⟨k', ?_⟩
        grind
      · exact ⟨k', by grind⟩
    · exact ⟨k, by grind⟩
  · grind

end

end Sonic.Lines
