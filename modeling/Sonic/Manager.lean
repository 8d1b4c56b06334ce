import Mathlib.Logic.Function.Basic
import Sonic.Run
import Sonic.Text

/-! # The Manager of bgpcfgd

A `Manager` handles the SET and DEL messages of one table and puts a SET that is not ready into
`set_queue`, to be tried again when a dependency changes. The subclass is arbitrary: its handlers
work on an environment that also holds the `Directory`, and the environment may change between two
messages. -/

namespace Sonic

inductive Op (D : Type*) where
  | set (data : D)
  | del
  | other
  deriving DecidableEq

structure Manager (σ K D : Type*) where
  waitForAllDeps : Bool
  availableDeps : σ → Bool
  setHandler : σ → K → D → Bool × σ
  delHandler : σ → K → σ

namespace Manager

structure St (σ K D : Type*) where
  env : σ
  setQueue : List (K × D)
  latest : K → Option (Op D)      -- the last operation on a key, read by no handler

inductive Ev (σ K D : Type*) where
  | handler (key : K) (op : Op D)
  | onDepsChange
  | change (env : σ)

section
variable {σ K D : Type*} [DecidableEq K] (m : Manager σ K D)

def handler (s : St σ K D) (key : K) (op : Op D) : St σ K D :=
  match op with
  | .set data =>
    let s := { s with latest := Function.update s.latest key (some op) }
    if !m.waitForAllDeps || m.availableDeps s.env then
      let (res, env) := m.setHandler s.env key data
      -- the set handler is not ready, save it for later
      if res then { s with env } else { s with env, setQueue := s.setQueue ++ [(key, data)] }
    else { s with setQueue := s.setQueue ++ [(key, data)] }
  | .del => { s with env := m.delHandler s.env key, latest := Function.update s.latest key (some op) }
  | .other => s

def replay : σ → List (K × D) → σ × List (K × D) × List (K × D)
  | env, [] => (env, [], [])
  | env, (key, data) :: queue =>
    let (res, env) := m.setHandler env key data
    let (env, newQueue, calls) := replay env queue
    (env, if res then newQueue else (key, data) :: newQueue, (key, data) :: calls)

def onDepsChange (s : St σ K D) : St σ K D × List (K × D) :=
  if m.waitForAllDeps && !m.availableDeps s.env then (s, [])
  else
    let (env, newQueue, calls) := m.replay s.env s.setQueue
    ({ s with env, setQueue := newQueue }, calls)

def step (s : St σ K D) : Ev σ K D → Option (St σ K D)
  | .handler key op => some (m.handler s key op)
  | .onDepsChange => some (m.onDepsChange s).1
  | .change env => some { s with env }

def init (env : σ) : St σ K D := ⟨env, [], fun _ => none⟩

/-- Every call that a dependency change makes carries the data of the last
operation on its key. -/
def Current (s : St σ K D) : Ev σ K D → Prop
  | .onDepsChange => ∀ c ∈ (m.onDepsChange s).2, s.latest c.1 = some (.set c.2)
  | _ => True

def queueOk (s : St σ K D) : Ev σ K D → Prop
  | .handler key (.set data) => ∀ c ∈ s.setQueue, c.1 = key → c.2 = data
  | .handler key .del => ∀ c ∈ s.setQueue, c.1 ≠ key
  | _ => True

instance [DecidableEq D] (s : St σ K D) : ∀ e, Decidable (Current m s e)
  | .onDepsChange => inferInstanceAs (Decidable (∀ c ∈ (m.onDepsChange s).2, s.latest c.1 = some (.set c.2)))
  | .handler _ _ | .change _ => isTrue trivial

instance [DecidableEq D] (s : St σ K D) : ∀ e, Decidable (queueOk s e)
  | .handler key (.set data) => inferInstanceAs (Decidable (∀ c ∈ s.setQueue, c.1 = key → c.2 = data))
  | .handler key .del => inferInstanceAs (Decidable (∀ c ∈ s.setQueue, c.1 ≠ key))
  | .handler _ .other | .onDepsChange | .change _ => isTrue trivial

/-! ## The queue -/

omit [DecidableEq K] in
theorem replay_spec : ∀ (env : σ) (queue : List (K × D)),
    (m.replay env queue).2.1.Sublist queue ∧ (m.replay env queue).2.2 = queue
  | _, [] => ⟨.slnil, rfl⟩
  | env, (key, data) :: queue => by
    obtain ⟨hsub, hcalls⟩ := replay_spec (m.setHandler env key data).2 queue
    grind [replay]

def Inv (s : St σ K D) : Prop := ∀ c ∈ s.setQueue, s.latest c.1 = some (.set c.2)

theorem inv_append {s : St σ K D} {key : K} {data : D} (h : Inv s) (hk : ∀ c ∈ s.setQueue, c.1 = key → c.2 = data) :
    ∀ c ∈ s.setQueue ++ [(key, data)], Function.update s.latest key (some (.set data)) c.1 = some (.set c.2) := by
  intro c hc
  by_cases he : c.1 = key
  · grind
  · rw [Function.update_of_ne he]
    rcases List.mem_append.mp hc with hc | hc
    · exact h c hc
    · grind

theorem inv_handler {s : St σ K D} {key : K} {op : Op D} (h : Inv s) (hok : queueOk s (.handler key op)) :
    Inv (m.handler s key op) := by
  cases op with
  | other => exact h
  | del =>
    intro c hc
    simp only [handler, Function.update_of_ne (hok c hc)]
    exact h c hc
  | set data =>
    have happ := inv_append h hok
    have hold : ∀ c ∈ s.setQueue, Function.update s.latest key (some (.set data)) c.1 = some (.set c.2) :=
      fun c hc => happ c (List.mem_append_left _ hc)
    simp only [handler]
    split
    · split
      · exact hold
      · exact happ
    · exact happ

theorem inv_step {s s' : St σ K D} {e : Ev σ K D} (h : Inv s) (hok : queueOk s e) (hs : m.step s e = some s') :
    Inv s' := by
  cases e with
  | handler key op => cases hs; exact m.inv_handler h hok
  | change env => cases hs; exact h
  | onDepsChange =>
    cases hs
    unfold onDepsChange
    split
    · exact h
    · exact fun c hc => h c ((m.replay_spec s.env s.setQueue).1.subset hc)

omit [DecidableEq K] in
theorem current_of_inv {s : St σ K D} (h : Inv s) : ∀ e, Current m s e
  | .handler _ _ => trivial
  | .change _ => trivial
  | .onDepsChange => by
    intro c hc
    unfold onDepsChange at hc
    split at hc
    · cases hc
    · rw [show (_, _).2 = (m.replay s.env s.setQueue).2.2 from rfl, (m.replay_spec s.env s.setQueue).2] at hc
      exact h c hc

/-- **No stale SET.** In every run in which no DEL and no other SET overtakes
a SET that waits, a dependency change replays the last operation on each key. -/
theorem current_of_run (env : σ) (es : List (Ev σ K D)) (hok : Along m.step queueOk (init env) es) :
    Along m.step (Current m) (init env) es :=
  along_inv m.step (fun _ _ _ => m.inv_step) (fun _ e h _ => m.current_of_inv h e)
    (fun _ hc => (List.not_mem_nil hc).elim) hok

end

def sidMgr : Manager (List Str) (Str × Str) Str where
  waitForAllDeps := false
  availableDeps _ := true
  setHandler locators key _ := (key.1 ∈ locators, locators)
  delHandler locators _ := locators

theorem current_sid_waits : Along sidMgr.step (Current sidMgr) (init [])
    [.handler ("loc1", "fcbb::/48") (.set "uN"), .onDepsChange, .handler ("loc2", "fcbc::/48") .del,
      .change ["loc1"], .onDepsChange, .handler ("loc1", "fcbb::/48") (.set "uDT46")] :=
  sidMgr.current_of_run [] _ (by decide)

theorem not_current_deleted_sid : ¬ Along sidMgr.step (Current sidMgr) (init [])
    [.handler ("loc1", "fcbb::/48") (.set "uN"), .handler ("loc1", "fcbb::/48") .del, .change ["loc1"],
      .onDepsChange] := by
  decide

end Manager

end Sonic
