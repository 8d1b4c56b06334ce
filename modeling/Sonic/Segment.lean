import Mathlib.Data.List.Nodup
import Mathlib.Data.Option.Basic
import Mathlib.Logic.Function.Basic

/-! # Segments of linked cells

A cell points to at most one other cell. `Seg next p l q` says that the cells from `p` on are those
of `l`, and that the last of them points to `q`. -/

namespace Sonic
open List

variable {α : Type*}

def Seg (next : α → Option α) : Option α → List α → Option α → Prop
  | p, [], q => p = q
  | p, x :: l, q => p = some x ∧ Seg next (next x) l q

def walk (next : α → Option α) : Nat → Option α → List α
  | 0, _ => []
  | _, none => []
  | n + 1, some x => x :: walk next n (next x)

theorem Seg.walk_eq {next : α → Option α} : ∀ {l : List α} {n : Nat} {p : Option α}, Seg next p l none → l.length ≤ n →
    walk next n p = l
  | [], n, p, h, _ => by
    rw [show p = none from h]
    cases n <;> rfl
  | x :: l, 0, p, _, hn => absurd hn (Nat.not_succ_le_zero _)
  | x :: l, n + 1, p, h, hn => by rw [h.1, walk, Seg.walk_eq h.2 (Nat.le_of_succ_le_succ hn)]

theorem seg_append {next : α → Option α} {l₂ : List α} {q : Option α} : ∀ {l₁ : List α} {p : Option α},
    Seg next p (l₁ ++ l₂) q ↔ ∃ r, Seg next p l₁ r ∧ Seg next r l₂ q
  | [], p => ⟨fun h => ⟨p, rfl, h⟩, fun ⟨_, hr, h⟩ => hr ▸ h⟩
  | x :: l₁, p => by
    rw [cons_append, Seg, seg_append]
    exact ⟨fun ⟨hp, r, h₁, h₂⟩ => ⟨r, ⟨hp, h₁⟩, h₂⟩, fun ⟨r, ⟨hp, h₁⟩, h₂⟩ => ⟨hp, r, h₁, h₂⟩⟩

theorem seg_concat {next : α → Option α} {l : List α} {x : α} {p q : Option α} :
    Seg next p (l ++ [x]) q ↔ Seg next p l (some x) ∧ next x = q := by
  rw [seg_append]
  exact ⟨fun ⟨_, h, hr, hq⟩ => ⟨hr ▸ h, hq⟩, fun ⟨h, hq⟩ => ⟨_, h, rfl, hq⟩⟩

theorem Seg.head {next : α → Option α} {l : List α} {p : Option α} (h : Seg next p l none) : p = l.head? := by
  cases l with
  | nil => exact h
  | cons x l => exact h.1

section
variable [DecidableEq α] {next : α → Option α} {x n : α} {v p : Option α} {pre post : List α}

theorem Seg.update {q : Option α} : ∀ {l : List α} {p : Option α}, Seg next p l q → x ∉ l →
    Seg (Function.update next x v) p l q
  | [], _, h, _ => h
  | y :: l, p, h, hx => by
    refine ⟨h.1, ?_⟩
    rw [Function.update_of_ne (show y ≠ x from fun he => hx (he ▸ mem_cons_self))]
    exact h.2.update fun hm => hx (mem_cons_of_mem y hm)

theorem Seg.relink {q : Option α} (h : Seg next p (pre ++ [x]) q) (hx : x ∉ pre) :
    Seg (Function.update next x v) p (pre ++ [x]) v :=
  seg_concat.mpr ⟨(seg_concat.mp h).1.update hx, Function.update_self ..⟩

theorem Seg.insert_first (h : Seg next p post none) (hn : n ∉ post) :
    Seg (Function.update next n p) (some n) (n :: post) none := by
  refine ⟨rfl, ?_⟩
  grind [update]

theorem Seg.insert_after (h : Seg next p (pre ++ [x] ++ post) none) (hd : (pre ++ [x] ++ post).Nodup)
    (hn : n ∉ pre ++ [x] ++ post) :
    Seg (Function.update (Function.update next n (next x)) x (some n)) p (pre ++ [x] ++ n :: post) none := by
  obtain ⟨r, hpre, hpost⟩ := seg_append.mp h
  have hr : next x = r := (seg_concat.mp hpre).2
  have hxpre : x ∉ pre := fun hm => disjoint_of_nodup_append hd.of_append_left hm (mem_singleton_self x)
  have hxpost : x ∉ post := disjoint_of_nodup_append hd (mem_append_right pre (mem_singleton_self x))
  rw [mem_append, not_or] at hn
  have hne : n ≠ x := fun he => hn.1 (he ▸ mem_append_right pre (mem_singleton_self n))
  refine seg_append.mpr ⟨some n, (hpre.update hn.1).relink hxpre, rfl, ?_⟩
  grind [update, update]

theorem Seg.remove_after {y : α} (h : Seg next p (pre ++ [x] ++ y :: post) none)
    (hd : (pre ++ [x] ++ y :: post).Nodup) :
    Seg (Function.update next x (next y)) p (pre ++ [x] ++ post) none := by
  obtain ⟨r, hpre, -, hpost⟩ := seg_append.mp h
  have hxpre : x ∉ pre := fun hm => disjoint_of_nodup_append hd.of_append_left hm (mem_singleton_self x)
  have hxpost : x ∉ post := fun hm =>
    disjoint_of_nodup_append hd (mem_append_right pre (mem_singleton_self x)) (mem_cons_of_mem y hm)
  exact seg_append.mpr ⟨next y, hpre.relink hxpre, hpost.update hxpost⟩

end

end Sonic
