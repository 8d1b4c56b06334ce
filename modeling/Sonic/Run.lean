import Mathlib.Data.List.Forall2
import Mathlib.Logic.Basic

/-! # Runs of an event-driven machine

A daemon handles one event at a time. `step s e` is the state after the handler of `e` has returned,
and `none` when the handler raises; a run stops at the first handler that raises. `Along ok` says
that every step of a run meets `ok`, which reads the state before the step and the event. -/

namespace Sonic
open List Option

section
variable {σ ε : Type*} (step : σ → ε → Option σ)

def run : σ → List ε → Option σ
  | s, [] => some s
  | s, e :: es =>
    match step s e with
    | some s' => run s' es
    | none => none

def Along (ok : σ → ε → Prop) : σ → List ε → Prop
  | _, [] => True
  | s, e :: es =>
    ok s e ∧
      match step s e with
      | some s' => Along ok s' es
      | none => True

instance decAlong (ok : σ → ε → Prop) [∀ s e, Decidable (ok s e)] : ∀ s es, Decidable (Along step ok s es)
  | _, [] => isTrue trivial
  | s, e :: es =>
    have : Decidable (match step s e with | some s' => Along step ok s' es | none => True) :=
      match step s e with
      | some s' => decAlong ok s' es
      | none => isTrue trivial
    inferInstanceAs (Decidable (_ ∧ _))

theorem run_cons {s s' : σ} {e : ε} (h : step s e = some s') (es : List ε) :
    run step s (e :: es) = run step s' es := by rw [run, h]

theorem run_cons_some {s t : σ} {e : ε} {es : List ε} (h : run step s (e :: es) = some t) :
    ∃ s', step s e = some s' ∧ run step s' es = some t := by grind [run]

theorem Along_cons {ok : σ → ε → Prop} {s s' : σ} {e : ε} {es : List ε} (h : Along step ok s (e :: es))
    (hs : step s e = some s') : ok s e ∧ Along step ok s' es := by rw [Along, hs] at h; exact h

theorem along_last {P : σ → ε → Prop} {e : ε} :
    ∀ {s t : σ} {es : List ε}, Along step P s (es ++ [e]) → run step s es = some t → P t e
  | s, t, [], ha, hr => by cases hr; exact ha.1
  | s, t, e' :: es, ha, hr => by
    obtain ⟨s', hs, hr'⟩ := run_cons_some step hr
    exact along_last (Along_cons step ha hs).2 hr'

theorem run_inv {ok : σ → ε → Prop} {Inv : σ → Prop}
    (hstep : ∀ s e s', Inv s → ok s e → step s e = some s' → Inv s') :
    ∀ {s t : σ} {es : List ε}, Inv s → Along step ok s es → run step s es = some t → Inv t
  | s, t, [], hi, _, hr => by cases hr; exact hi
  | s, t, e :: es, hi, ha, hr => by
    obtain ⟨s', hs, hr'⟩ := run_cons_some step hr
    obtain ⟨hok, ha'⟩ := Along_cons step ha hs
    exact run_inv hstep (hstep s e s' hi hok hs) ha' hr'

theorem run_total {ok : σ → ε → Prop} {Inv : σ → Prop} (htotal : ∀ s e, Inv s → ok s e → ∃ s', step s e = some s')
    (hstep : ∀ s e s', Inv s → ok s e → step s e = some s' → Inv s') :
    ∀ {s : σ} {es : List ε}, Inv s → Along step ok s es → ∃ t, run step s es = some t ∧ Inv t
  | s, [], hi, _ => ⟨s, rfl, hi⟩
  | s, e :: es, hi, ha => by
    obtain ⟨s', hs⟩ := htotal s e hi ha.1
    obtain ⟨hok, ha'⟩ := Along_cons step ha hs
    rw [run_cons step hs]
    exact run_total htotal hstep (hstep s e s' hi hok hs) ha'

theorem run_done {Inv : List ε → σ → Prop} {es : List ε}
    (hstep : ∀ done e rest s, done ++ e :: rest = es → Inv done s → ∃ s', step s e = some s' ∧ Inv (done ++ [e]) s') :
    ∀ {rest done : List ε} {s : σ}, done ++ rest = es → Inv done s → ∃ t, run step s rest = some t ∧ Inv es t
  | [], done, s, he, hi => by
    rw [append_nil] at he
    exact ⟨s, rfl, he ▸ hi⟩
  | e :: rest, done, s, he, hi => by
    obtain ⟨s', hs, hi'⟩ := hstep done e rest s he hi
    rw [run_cons step hs]
    exact run_done hstep (by rw [← he, append_assoc]; rfl) hi'

theorem along_iff_inv {ok : σ → ε → Prop} {Inv : List ε → σ → Prop} (htotal : ∀ s e, ∃ s', step s e = some s')
    (hstep : ∀ done e s s', Inv done s → step s e = some s' → (Inv (done ++ [e]) s' ↔ ok s e)) :
    ∀ {es done : List ε} {s : σ}, Inv done s →
      ((∀ now later t, now ++ later = es → run step s now = some t → Inv (done ++ now) t) ↔ Along step ok s es)
  | [], done, s, hi => by
    refine ⟨fun _ => trivial, fun _ now later t he hr => ?_⟩
    obtain ⟨rfl, -⟩ := List.append_eq_nil_iff.mp he
    cases hr
    rwa [append_nil]
  | e :: es, done, s, hi => by
    obtain ⟨s', hs⟩ := htotal s e
    have hmove := hstep done e s s' hi hs
    constructor
    · intro h
      have hi' : Inv (done ++ [e]) s' := h [e] es s' rfl (run_cons step hs [])
      refine ⟨hmove.mp hi', ?_⟩
      rw [hs]
      refine (along_iff_inv htotal hstep hi').mp fun now later t he hr => ?_
      grind [run_cons]
    · intro ha now later t he hr
      obtain ⟨hok, ha'⟩ := Along_cons step ha hs
      cases now with
      | nil =>
        cases hr
        rwa [append_nil]
      | cons e' now =>
        obtain ⟨rfl, hes⟩ := List.cons_eq_cons.mp he
        have hrest := (along_iff_inv htotal hstep (hmove.mpr hok)).mpr ha' now later t hes
          ((run_cons step hs now).symm.trans hr)
        rwa [append_assoc] at hrest

theorem along_inv {ok P : σ → ε → Prop} {Inv : σ → Prop}
    (hstep : ∀ s e s', Inv s → ok s e → step s e = some s' → Inv s') (hP : ∀ s e, Inv s → ok s e → P s e) :
    ∀ {s : σ} {es : List ε}, Inv s → Along step ok s es → Along step P s es
  | s, [], _, _ => trivial
  | s, e :: es, hi, ha => by
    refine ⟨hP s e hi ha.1, ?_⟩
    cases hs : step s e with
    | none => trivial
    | some s' =>
      obtain ⟨hok, ha'⟩ := Along_cons step ha hs
      exact along_inv hstep hP (hstep s e s' hi hok hs) ha'

end

theorem foldlM_inv {σ α : Type*} {f : σ → α → Option σ} (Inv : σ → Prop) :
    ∀ {l : List α} {s t : σ}, (∀ s a t, a ∈ l → Inv s → f s a = some t → Inv t) → Inv s →
      l.foldlM f s = some t → Inv t
  | [], s, t, _, hi, he => by cases he; exact hi
  | a :: l, s, t, hf, hi, he => by
    simp only [foldlM_cons, bind_eq_bind, bind_eq_some_iff] at he
    obtain ⟨u, hu, he⟩ := he
    exact foldlM_inv Inv (fun s b t hb => hf s b t (mem_cons_of_mem _ hb))
      (hf s a u mem_cons_self hi hu) he

theorem foldlM_each {σ α : Type*} {f : σ → α → Option σ} (Inv : σ → Prop) (P : σ → α → Prop) :
    ∀ {l : List α} {s t : σ},
      (∀ s a t, a ∈ l → Inv s → f s a = some t → Inv t ∧ P t a ∧ ∀ b, P s b → P t b) → Inv s →
      l.foldlM f s = some t → Inv t ∧ (∀ a ∈ l, P t a) ∧ ∀ b, P s b → P t b
  | [], s, t, _, hi, he => by grind
  | a :: l, s, t, hf, hi, he => by
    simp only [foldlM_cons, bind_eq_bind, bind_eq_some_iff] at he
    obtain ⟨u, hu, he⟩ := he
    obtain ⟨hi', ha, hkeep⟩ := hf s a u mem_cons_self hi hu
    obtain ⟨hi'', hall, hkeep'⟩ := foldlM_each Inv P (fun s b t hb => hf s b t (mem_cons_of_mem _ hb)) hi' he
    grind

theorem foldl_each {σ α : Type*} {f : σ → α → σ} (Inv : σ → Prop) (P : σ → α → Prop) :
    ∀ {l : List α} {s : σ}, (∀ s, ∀ a ∈ l, Inv s → Inv (f s a) ∧ P (f s a) a ∧ ∀ b, P s b → P (f s a) b) → Inv s →
      Inv (l.foldl f s) ∧ (∀ a ∈ l, P (l.foldl f s) a) ∧ ∀ b, P s b → P (l.foldl f s) b
  | [], _, _, hi => ⟨hi, nofun, fun _ hb => hb⟩
  | a :: l, s, h, hi => by
    obtain ⟨hi', ha, hkeep⟩ := h s a mem_cons_self hi
    obtain ⟨hi'', hall, hkeep'⟩ := foldl_each Inv P (fun s b hb => h s b (mem_cons_of_mem a hb)) hi'
    simp_all

theorem foldlM_total {σ α : Type*} {f : σ → α → Option σ} : ∀ {l : List α} {s : σ}, (∀ s, ∀ a ∈ l, (f s a).isSome) →
    ∃ t, l.foldlM f s = some t
  | [], s, _ => ⟨s, rfl⟩
  | a :: l, s, h => by
    obtain ⟨u, hu⟩ := Option.isSome_iff_exists.mp (h s a mem_cons_self)
    obtain ⟨t, ht⟩ := foldlM_total (s := u) fun s b hb => h s b (mem_cons_of_mem _ hb)
    grind

theorem foldlM_isSome_iff {σ α : Type*} {f : σ → α → Option σ} {q : α → Prop} (h : ∀ s a, (f s a).isSome = true ↔ q a) :
    ∀ {l : List α} {s : σ}, (l.foldlM f s).isSome = true ↔ ∀ a ∈ l, q a
  | [], s => ⟨nofun, fun _ => rfl⟩
  | a :: l, s => by
    rw [foldlM_cons, forall_mem_cons, ← h s a]
    cases ha : f s a with
    | none => simp
    | some t =>
      rw [bind_eq_bind, bind_some, foldlM_isSome_iff h]
      simp

theorem mapM_isSome_iff {α β : Type*} {f : α → Option β} : ∀ {l : List α}, (l.mapM f).isSome = true ↔
    ∀ a ∈ l, (f a).isSome = true
  | [] => ⟨nofun, fun _ => rfl⟩
  | a :: l => by
    rw [mapM_cons, forall_mem_cons, ← mapM_isSome_iff (l := l)]
    cases f a with
    | none => simp
    | some b => cases l.mapM f <;> simp

theorem mapM_of_forall {α β : Type*} {f : α → Option β} {g : α → β} : ∀ {l : List α}, (∀ a ∈ l, f a = some (g a)) →
    l.mapM f = some (l.map g)
  | [], _ => rfl
  | a :: l, h => by
    rw [mapM_cons, h a mem_cons_self, mapM_of_forall fun b hb => h b (mem_cons_of_mem _ hb)]
    rfl

theorem mapM_some {α β : Type*} {f : α → Option β} : ∀ {l : List α} {bs : List β}, l.mapM f = some bs →
    List.Forall₂ (fun a b => f a = some b) l bs
  | [], bs, h => by simp_all
  | a :: l, bs, h => by
    rw [mapM_cons] at h
    obtain ⟨b, hb, h⟩ := Option.bind_eq_some_iff.mp h
    obtain ⟨bs', hbs, h⟩ := Option.bind_eq_some_iff.mp h
    cases h
    exact .cons hb (mapM_some hbs)

theorem exists_of_mem_mapM {α β : Type*} {f : α → Option β} {b : β} :
    ∀ {l : List α} {l' : List β}, l.mapM f = some l' → b ∈ l' →
    ∃ a ∈ l, f a = some b
  | [], l', h, hb => by
    cases h
    cases hb
  | a :: l, l', h, hb => by
    rw [mapM_cons] at h
    obtain ⟨c, hc, h⟩ := Option.bind_eq_some_iff.mp h
    obtain ⟨m, hm, h⟩ := Option.bind_eq_some_iff.mp h
    cases h
    rcases List.mem_cons.mp hb with rfl | hb
    · simp_all
    · obtain ⟨a', ha', hb⟩ := exists_of_mem_mapM hm hb
      grind

end Sonic
