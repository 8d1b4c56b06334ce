import Sonic.MlacpTurn

/-! # The mLACP session state

The reply routine moves `current_state` on by itself, and its caller in the requesting stage moves
it on again. A node therefore keeps to the four session states as long as a tick never finds more
synchronisation requests in its queue than it still has to answer. -/

namespace Sonic.Mlacp

def AppState.valid : AppState → Bool
  | .init | .stage1 | .stage2 | .exchange => true
  | _ => false

def allowance (role : Role) : AppState → Nat
  | .init | .stage1 => 1
  | .stage2 => if answering role .stage2 then 1 else 0
  | _ => 0

def requestsOk (n : Node) : Ev → Prop
  | .tick _ => n.msgList.countP isSyncRequest ≤ allowance n.role n.currentState
  | _ => True

instance (n : Node) : ∀ e, Decidable (requestsOk n e)
  | .tick _ => inferInstanceAs (Decidable (_ ≤ _))
  | .recv _ | .session .. | .disconnect | .configure _ | .syncNeigh _ | .warmboot => isTrue trivial

structure Safe (q : List Msg) (c : Ctl) : Prop where
  valid : c.currentState.valid = true
  requests : q.countP isSyncRequest ≤ allowance c.role c.currentState

theorem allowance_le_one (role : Role) (s : AppState) : allowance role s ≤ 1 := by cases s <;> grind [allowance]

theorem Safe.keep {q : List Msg} {msg : Option Msg} {c c' : Ctl} (h : Safe (msg.toList ++ q) c)
    (hr : c'.role = c.role) (hc : c'.currentState = c.currentState) : Safe q c' := by
  refine ⟨hc ▸ h.valid, ?_⟩
  grind [h.requests]

theorem Safe.last {q : List Msg} {m : Msg} {c : Ctl} (h : Safe (m :: q) c) (hm : isSyncRequest m = true) :
    q.countP isSyncRequest = 0 := by grind [h.requests, allowance_le_one]

theorem Safe.moved {q : List Msg} {c : Ctl} {s : AppState} (hc : c.currentState = s) (hs : s.valid = true)
    (hq : q.countP isSyncRequest ≤ allowance c.role s) : Safe q c :=
  ⟨hc ▸ hs, hc ▸ hq⟩

theorem answering_next {role : Role} (h : answering role .stage1 = false) : answering role .stage2 = true := by
  grind [answering]

theorem Turn.safe {c c' : Ctl} {msg : Option Msg} {ts : List Tlv} (ht : Turn c msg c' ts) {q : List Msg}
    (h : Safe (msg.toList ++ q) c) : Safe q c' := by
  cases ht with
  | startActive hi | startAsk hi =>
    refine Safe.moved rfl rfl ?_
    have hq := h.requests
    rw [hi] at hq
    exact hq
  | nak | idle | lose | ask | await => exact h.keep rfl rfl
  | answer m a ts hst ha hw hm hr =>
    rcases hst with hst | hst
    · exact Safe.moved (congrArg AppState.next hst) rfl ((h.last hr).trans_le (Nat.zero_le _))
    · exact Safe.moved (congrArg AppState.next hst) rfl ((h.last hr).trans_le (Nat.zero_le _))
  | receive m hst ha hw hr =>
    obtain ⟨w, hd, d, hc⟩ := c.received_eq m
    rw [hc, Ctl.advance]
    split
    · exact h.keep rfl rfl
    · have hq := h.requests
      rw [Option.toList_some, List.singleton_append, List.countP_cons_of_neg (by rw [hr]; decide)] at hq
      rcases hst with hst | hst <;> rw [hst] at ha hq
      · refine Safe.moved (congrArg AppState.next hst) rfl ?_ <;> simp_all [AppState.next, allowance, answering_next]
      · refine Safe.moved (congrArg AppState.next hst) rfl ?_ <;> grind [allowance]
  | answerAsking m a ts hst ha hw hr =>
    rcases hst with hst | hst
    · exact Safe.moved (congrArg (fun s => s.next.next) hst) rfl ((h.last hr).trans_le (Nat.zero_le _))
    · -- a node that asks in STAGE2 has no request left to answer
      have hq := h.requests
      simp_all [allowance]
  | exchange msg r ts hx hm ho =>
    obtain ⟨w, hd, d, hc⟩ := c.exchanged_eq msg
    rw [hc]
    exact h.keep rfl rfl
  | answerExchange m a r ts hx ht hr =>
    have hq := h.requests
    rw [Option.toList_some, List.singleton_append, List.countP_cons_of_pos hr, hx] at hq
    exact absurd hq (Nat.not_succ_le_zero _)
  | stuck msg he =>
    have hv := h.valid
    rw [he] at hv
    cases hv

/-! ## A tick and a run -/

theorem Turns.safe {c c' : Ctl} {q : List Msg} {ts : List Tlv} (ht : Turns c q c' ts) (h : Safe q c) : Safe [] c' := by
  induction ht with
  | done ht => exact ht.safe (q := []) (by simp_all)
  | next ht _ ih => exact ih (ht.safe ⟨h.valid, h.requests⟩)

theorem Tick.safe {c c' : Ctl} {ts : List Tlv} (ht : Tick c c' ts) (h : Safe c.msgList c) : Safe [] c' := by
  cases ht with
  | live _ ht => exact ht.safe h
  | start _ h₀ ht => exact ht.safe (h₀.safe h)

theorem AppState.valid_cases {s : AppState} (h : s.valid = true) :
    s = .init ∨ (s = .stage1 ∨ s = .stage2) ∨ s = .exchange ∨ s = .error := by cases s <;> simp_all [AppState.valid]

section
variable (env : Handlers) {n : Node}

theorem transit_valid (hv : n.currentState.valid = true) {due : Bool} (hq : requestsOk n (.tick due)) :
    (mlacpFsmTransit env n due).currentState.valid = true := by
  by_cases hs : n.sock = true ∧ n.operational = true
  · obtain ⟨c, ts, ht, hm⟩ := transit_tick env hs.1 hs.2 (AppState.valid_cases hv) due
    have h := (ht.safe ⟨hv, hq⟩).valid
    rw [← hm.ctl] at h
    exact h
  · rw [mlacpFsmTransit, if_neg (by rwa [Bool.and_eq_true])]
    split
    next hi => rw [hi]; rfl
    next => rfl

theorem step_valid {e : Ev} (hv : n.currentState.valid = true) (hok : requestsOk n e) :
    (step env n e).currentState.valid = true := by
  have keep : ∀ {n' : Node}, n'.ctl = n.ctl → n'.currentState.valid = true := fun h =>
    (congrArg (fun c : Ctl => c.currentState.valid) h).trans hv
  cases e with
  | tick due => exact transit_valid env hv hok
  | recv m => grind [step, appCsmEnqueueMsg]
  | session _ _ _ => exact hv
  | disconnect => rfl
  | configure _ => exact hv
  | syncNeigh infos => grind [step, synLocalNeigh, sendEach_ctl]
  | warmboot => grind [step, send_ctl]

end

def Node.init (loc : LocalData) : Node :=
  ⟨.none, false, false, .init, .init, false, false, 0xFFFF, 0, ⟨0, 0, 0⟩, [], [], loc, 0, [], [], [], [], [], 0⟩

def session (env : Handlers) (n : Node) (e : Ev) : Option Node := some (step env n e)

/-- **Session state.** In a run whose ticks find no more requests than the node
still has to answer, the session is in INIT, STAGE1, STAGE2 or EXCHANGE. -/
theorem valid_of_run (env : Handlers) {loc : LocalData} {es : List Ev} {n : Node}
    (hok : Along (session env) requestsOk (Node.init loc) es) (hr : run (session env) (Node.init loc) es = some n) :
    n.currentState.valid = true := by
  refine run_inv (session env) (fun s e s' (hv : s.currentState.valid = true) hok he => ?_) rfl hok hr
  cases he
  exact step_valid env hv hok

def noData : LocalData := ⟨0, 0, false, [], [], none, [], [], [], [], []⟩
def noHandlers : Handlers := ⟨fun l _ => (l, []), fun l => (l, [])⟩

theorem valid_active_start : ∃ n,
    run (session noHandlers) (Node.init noData)
      [.session true true .active, .tick true, .recv ⟨.rgAppData, 0, .syncRequest 0, 0⟩, .tick false,
        .recv ⟨.rgAppData, 1, .syncData 0 1, 0⟩, .tick false] = some n ∧
      n.currentState = .exchange ∧ n.currentState.valid = true :=
  ⟨_, (Option.some_get (by decide +kernel)).symm, by decide +kernel,
    valid_of_run noHandlers (by decide +kernel) (Option.some_get _).symm⟩

theorem not_valid_resync : ∃ n,
    run (session noHandlers) (Node.init noData)
      [.session true true .active, .tick true, .recv ⟨.rgAppData, 0, .syncRequest 0, 0⟩, .tick false,
        .recv ⟨.rgAppData, 1, .syncData 0 1, 0⟩, .tick false,
        .recv ⟨.rgAppData, 2, .syncRequest 0, 0⟩, .tick false,
        .recv ⟨.rgAppData, 3, .aggregatorState 1 0, 0⟩, .tick false] = some n ∧
      n.currentState = .error ∧ n.currentState.valid = false ∧ ⟨.rgAppData, 3, .aggregatorState 1 0, 0⟩ ∈ n.dropped :=
  ⟨_, (Option.some_get (by decide +kernel)).symm, by decide +kernel, by decide +kernel, by decide +kernel⟩

end Sonic.Mlacp
