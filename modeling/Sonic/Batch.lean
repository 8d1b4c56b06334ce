import Sonic.Run

/-! # Buffered commands

A handler reads a store and answers with commands for it. The commands of a list of messages are
either written after each message or buffered and written once at the end; a handler then reads a
store that lacks what is still in the buffer. Both ways agree on every start of the list just if each
message does the same to the store, whether it reads it as it was at first or as it is by now. -/

namespace Sonic.Batch

section
variable {σ γ μ : Type*} (write : σ → γ → σ) (handle : μ → σ → Option (List γ))

def buffer (s : σ) : List μ → Option (List γ)
  | [] => some []
  | m :: ms => (handle m s).bind fun cs => (buffer s ms).map (cs ++ ·)

def atOnce (s : σ) (ms : List μ) : Option σ := (buffer handle s ms).map (·.foldl write s)

def oneByOne (s : σ) : List μ → Option σ
  | [] => some s
  | m :: ms => (handle m s).bind fun cs => oneByOne (cs.foldl write s) ms

variable {write handle}

theorem part_foldl {τ : Type*} (part : σ → τ) {on : γ → τ → τ} {q : γ → Bool}
    (h : ∀ s c, part (write s c) = if q c then on c (part s) else part s) :
    ∀ (cs : List γ) (s : σ), part (cs.foldl write s) = (cs.filter q).foldl (fun t c => on c t) (part s)
  | [], _ => rfl
  | c :: cs, s => by
    rw [List.foldl_cons, part_foldl part h cs, h, List.filter_cons]
    cases q c <;> rfl

variable (write handle) in
def step (s : σ) (m : μ) : Option σ := (handle m s).map (·.foldl write s)

variable {Same : σ → σ → Prop} {Inv : σ → Prop} {Ok : μ → Prop} {Undisturbed : σ → σ → μ → Prop}
  (hsame : Equivalence Same)
  (hwrite : ∀ {s t} (cs : List γ), Same s t → Same (cs.foldl write s) (cs.foldl write t))
  (hinv : ∀ {f s m cs}, Inv f → Inv s → Ok m → handle m f = some cs → Inv (cs.foldl write s))
  (hstep : ∀ {f s m cs ds}, Inv f → Inv s → Ok m → handle m f = some cs → handle m s = some ds →
    (Same (cs.foldl write s) (ds.foldl write s) ↔ Undisturbed f s m))
include hsame hwrite hinv hstep

/-- `b` is the store with the commands so far of the buffer, `s` the one of the run. -/
theorem buffer_same_iff {f : σ} (hf : Inv f) :
    ∀ {ms : List μ} {b s e : σ} {cs : List γ}, Inv s → Same b s → (∀ m ∈ ms, Ok m) →
    buffer handle f ms = some cs → oneByOne write handle s ms = some e →
    ((∀ pre, pre <+: ms → ∀ cs e, buffer handle f pre = some cs → oneByOne write handle s pre = some e →
        Same (cs.foldl write b) e) ↔ Along (step write handle) (Undisturbed f) s ms)
  | [], b, s, e, cs, _, hbs, _, _, _ => by
    refine iff_of_true (fun pre hpre cs e hc he => ?_) trivial
    rw [List.prefix_nil.mp hpre] at hc he
    cases hc
    cases he
    exact hbs
  | m :: ms, b, s, e, cs, hs, hbs, hok, hb, he => by
    obtain ⟨c, hc, hb⟩ := Option.bind_eq_some_iff.mp hb
    obtain ⟨cs', hcs', -⟩ := Option.map_eq_some_iff.mp hb
    obtain ⟨d, hd, he⟩ := Option.bind_eq_some_iff.mp he
    have hm := hok m List.mem_cons_self
    have hnext : Same (c.foldl write b) (d.foldl write s) ↔ Undisturbed f s m :=
      ⟨fun h => (hstep hf hs hm hc hd).mp (hsame.trans (hsame.symm (hwrite c hbs)) h),
        fun h => hsame.trans (hwrite c hbs) ((hstep hf hs hm hc hd).mpr h)⟩
    have ih := fun h : Same (c.foldl write b) (d.foldl write s) =>
      buffer_same_iff hf (hinv hs hs hm hd) h (fun m' hm' => hok m' (List.mem_cons_of_mem _ hm')) hcs' he
    have halong : Along (step write handle) (Undisturbed f) s (m :: ms) ↔
        Undisturbed f s m ∧ Along (step write handle) (Undisturbed f) (d.foldl write s) ms := by
      rw [Along, step, hd]
      rfl
    rw [halong, ← hnext]
    constructor
    · intro hall
      have hone := hall [m] (List.prefix_append [m] ms) c (d.foldl write s) (by simp [buffer, hc])
        (by simp [oneByOne, hd])
      refine ⟨hone, (ih hone).mp fun pre hpre cs e hcs he => ?_⟩
      have hcons := hall (m :: pre) ((List.prefix_cons_inj m).mpr hpre) (c ++ cs) e (by simp [buffer, hc, hcs])
        (by simp [oneByOne, hd, he])
      rwa [List.foldl_append] at hcons
    · rintro ⟨hone, hrest⟩ pre hpre cs e hcs hrun
      cases pre with
      | nil =>
        cases hcs
        cases hrun
        exact hbs
      | cons m' pre =>
        obtain ⟨rfl, htail⟩ := List.cons_prefix_cons.mp hpre
        obtain ⟨c', hc', hcs⟩ := Option.bind_eq_some_iff.mp hcs
        obtain ⟨rest, hrest', rfl⟩ := Option.map_eq_some_iff.mp hcs
        obtain ⟨d', hd', hpre'⟩ := Option.bind_eq_some_iff.mp hrun
        obtain rfl : c = c' := Option.some.inj (hc.symm.trans hc')
        obtain rfl : d = d' := Option.some.inj (hd.symm.trans hd')
        rw [List.foldl_append]
        exact (ih hone).mpr hrest pre htail rest e hrest' hpre'

theorem atOnce_same_iff {f g e : σ} {ms : List μ} (hf : Inv f) (hok : ∀ m ∈ ms, Ok m)
    (hg : atOnce write handle f ms = some g) (he : oneByOne write handle f ms = some e) :
    (∀ pre, pre <+: ms → ∀ g e, atOnce write handle f pre = some g → oneByOne write handle f pre = some e → Same g e) ↔
      Along (step write handle) (Undisturbed f) f ms := by
  obtain ⟨cs, hcs, -⟩ := Option.map_eq_some_iff.mp hg
  rw [← buffer_same_iff hsame hwrite hinv hstep hf hf (hsame.refl f) hok hcs he]
  refine forall₂_congr fun pre _ => ⟨fun h cs e hcs => h _ e (congrArg _ hcs), fun h g e hg he => ?_⟩
  obtain ⟨cs, hcs, rfl⟩ := Option.map_eq_some_iff.mp hg
  exact h cs e hcs he

end

end Sonic.Batch
