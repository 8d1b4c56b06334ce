import Mathlib.Data.List.Basic

/-! # Scanning a text in sections

A text is written section by section from the items of a table and scanned line by line. Items whose
lines the scan passes over can be dropped, by a filter on the lines or by a scanner with a state
that is left at the end of each section. -/

namespace Sonic.Scan
open List

section
variable {ι τ σ : Type*} (lines : ι → List τ) (keep : ι → Bool)

theorem filter_sections {p : τ → Bool} : ∀ (items : List ι),
    (∀ i ∈ items, keep i = false → ∀ l ∈ lines i, p l = false) →
    (items.flatMap lines).filter p = ((items.filter keep).flatMap lines).filter p
  | [], _ => rfl
  | i :: items, h => by
    have ih := filter_sections items fun j hj => h j (mem_cons_of_mem _ hj)
    rw [flatMap_cons, filter_append, ih, filter_cons]
    grind [filter_eq_nil_iff]

theorem foldlM_passed {step : σ → τ → Option σ} {s : σ} : ∀ {ls : List τ},
    (∀ l ∈ ls, step s l = some s) → ls.foldlM step s = some s
  | [], _ => rfl
  | l :: ls, h => by
    rw [foldlM_cons, h l (by simp)]
    exact foldlM_passed fun l' hl => h l' (mem_cons_of_mem _ hl)

theorem foldlM_sections {step : σ → τ → Option σ} {Outside : σ → Prop}
    (hout : ∀ i s s', Outside s → (lines i).foldlM step s = some s' → Outside s') : ∀ (items : List ι) {s : σ},
    (∀ i ∈ items, keep i = false → ∀ s, Outside s → ∀ l ∈ lines i, step s l = some s) → Outside s →
    (items.flatMap lines).foldlM step s = ((items.filter keep).flatMap lines).foldlM step s
  | [], _, _, _ => rfl
  | i :: items, s, hpass, hs => by
    have ih := fun s => foldlM_sections hout items (s := s)
      fun j hj => hpass j (mem_cons_of_mem _ hj)
    rw [flatMap_cons, foldlM_append, filter_cons]
    cases hk : keep i with
    | false =>
      rw [if_neg (by simp), foldlM_passed (hpass i (by simp) hk s hs)]
      exact ih s hs
    | true =>
      rw [if_pos rfl, flatMap_cons, foldlM_append]
      cases he : (lines i).foldlM step s <;> grind

theorem foldlM_outside {step : σ → τ → Option σ} {Outside : σ → Prop}
    (hout : ∀ i s s', Outside s → (lines i).foldlM step s = some s' → Outside s') : ∀ {items : List ι} {s s' : σ},
    Outside s → (items.flatMap lines).foldlM step s = some s' → Outside s'
  | [], _, _, hs, h => by cases h; exact hs
  | i :: items, s, s', hs, h => by
    rw [flatMap_cons, foldlM_append] at h
    cases he : (lines i).foldlM step s with
    | none => rw [he] at h; cases h
    | some t =>
      rw [he] at h
      exact foldlM_outside hout (hout i s t hs he) h

end

end Sonic.Scan
