import Mathlib.Data.List.Basic
import Mathlib.Order.Nat

/-! # Circular logs

A log of `n` slots that is written in turn holds the last `n` entries of its history, the `k`-th of
them in slot `k % n`. -/

namespace Sonic

structure Ring (α : Type*) (n : Nat) where
  slots : List α
  next : Nat
  length_slots : slots.length = n
  next_lt : next < n

namespace Ring

variable {α : Type*} {n : Nat}

def fill (h : 0 < n) (a : α) : Ring α n := ⟨List.replicate n a, 0, List.length_replicate, h⟩

def push (r : Ring α n) (a : α) : Ring α n where
  slots := r.slots.set r.next a
  next := if n ≤ r.next + 1 then 0 else r.next + 1
  length_slots := by rw [List.length_set, r.length_slots]
  next_lt := by
    have := r.next_lt
    split <;> omega

structure Holds (r : Ring α n) (hist : List α) : Prop where
  next : r.next = hist.length % n
  slot : ∀ k, k < hist.length → hist.length ≤ k + n → r.slots[k % n]? = hist[k]?

theorem holds_fill (h : 0 < n) (a : α) : Holds (fill h a) [] :=
  ⟨(Nat.zero_mod n).symm, fun _ hk => absurd hk (Nat.not_lt_zero _)⟩

theorem mod_ne_of_lt {k l : Nat} (hkl : k < l) (hl : l < k + n) : k % n ≠ l % n := by
  intro h
  have hzero := Nat.sub_mod_eq_zero_of_mod_eq h.symm
  rw [Nat.mod_eq_of_lt (by omega)] at hzero
  omega

theorem holds_push {r : Ring α n} {hist : List α} (h : Holds r hist) (a : α) :
    Holds (r.push a) (hist ++ [a]) where
  next := by
    have hlt := r.next_lt
    rw [List.length_append, List.length_singleton, ← Nat.mod_add_mod, ← h.next]
    show (if n ≤ r.next + 1 then 0 else r.next + 1) = _
    split
    next hn => rw [show r.next + 1 = n by omega, Nat.mod_self]
    next hn => rw [Nat.mod_eq_of_lt (Nat.not_le.mp hn)]
  slot k hk hw := by
    rw [List.length_append, List.length_singleton] at hk hw
    show (r.slots.set r.next a)[k % n]? = _
    have hnext : r.next < r.slots.length := r.length_slots.symm ▸ r.next_lt
    rcases Nat.lt_succ_iff_lt_or_eq.mp hk with hk | rfl
    · rw [List.getElem?_append_left hk, ← h.slot k hk (by omega), List.getElem?_set_ne]
      rw [h.next]
      exact (mod_ne_of_lt hk (by omega)).symm
    · rw [List.getElem?_append_right (Nat.le_refl _), Nat.sub_self, ← h.next, List.getElem?_set_self hnext]
      rfl

theorem exists_entry {s l : Nat} (hs : s < n) (hl : s < l) : ∃ j, j < l ∧ l ≤ j + n ∧ j % n = s := by
  have hq := Nat.div_add_mod (l - 1 - s) n
  have hr := Nat.mod_lt (l - 1 - s) (Nat.zero_lt_of_lt hs)
  refine ⟨s + n * ((l - 1 - s) / n), by omega, by omega, ?_⟩
  rw [Nat.add_mul_mod_self_left, Nat.mod_eq_of_lt hs]

theorem Holds.findIdx?_eq {r : Ring α n} {hist : List α} (h : Holds r hist) {p : α → Bool} {k : Nat} {a : α}
    (hk : hist[k]? = some a) (hw : hist.length ≤ k + n) (hp : p a = true)
    (huniq : ∀ j b, hist.length ≤ j + n → hist[j]? = some b → p b = true → j = k) :
    r.slots.findIdx? p = some (k % n) := by
  have hn : 0 < n := Nat.zero_lt_of_lt r.next_lt
  have hmod : k % n < r.slots.length := r.length_slots.symm ▸ Nat.mod_lt k hn
  have hklt : k < hist.length := (List.getElem?_eq_some_iff.mp hk).1
  have hslot := h.slot k hklt hw
  rw [hk, List.getElem?_eq_getElem hmod, Option.some.injEq] at hslot
  refine List.findIdx?_eq_some_iff_getElem.mpr ⟨hmod, by rw [hslot]; exact hp, fun s hs hps => ?_⟩
  have hsn : s < n := hs.trans (Nat.mod_lt k hn)
  obtain ⟨j, hj, hjw, rfl⟩ := exists_entry hsn ((hs.trans_le (Nat.mod_le k n)).trans hklt)
  have hj' := h.slot j hj hjw
  rw [List.getElem?_eq_getElem (hs.trans hmod), List.getElem?_eq_getElem hj, Option.some.injEq] at hj'
  rw [hj'] at hps
  have := huniq j _ hjw (List.getElem?_eq_getElem hj) hps
  grind

end Ring

end Sonic
