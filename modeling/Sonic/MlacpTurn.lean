import Sonic.MlacpSteps

/-! # The mLACP protocol of one node

`Turn` is the state machine without its data: the control part before a turn of the loop, the
message it takes, the control part after it and the TLVs it sends. `fsmMsg` and `fsmStep` refine it,
and a tick refines a sequence of turns. -/

namespace Sonic.Mlacp

def InStage (c : Ctl) : Prop := c.currentState = .stage1 ∨ c.currentState = .stage2

def Live (c : Ctl) : Prop := InStage c ∨ c.currentState = .exchange ∨ c.currentState = .error

inductive Turn (c : Ctl) : Option Msg → Ctl → List Tlv → Prop
  | startActive : c.currentState = .init → c.role = .active →
      Turn c none { c with waitForSyncData := false, currentState := .stage1 } []
  | startAsk : c.currentState = .init → c.role ≠ .active →
      Turn c none { c with waitForSyncData := true, currentState := .stage1 } [.syncRequest 0]
  | nak (m : Msg) : Live c → m.msgType = .notification → Turn c (some m) { c with handled := c.handled ++ [m] } []
  | idle : InStage c → answering c.role c.currentState = true → Turn c none c []
  | lose (m : Msg) : InStage c → answering c.role c.currentState = true →
      c.waitForSyncData = true ∨ m.msgType ≠ .rgAppData ∨ isSyncRequest m = false →
      Turn c (some m) { c with dropped := c.dropped ++ [m] } []
  | answer (m : Msg) (a : Answer) (ts : List Tlv) : InStage c → answering c.role c.currentState = true →
      c.waitForSyncData = false → m.msgType = .rgAppData → isSyncRequest m = true → Serves a ts →
      Turn c (some m)
        { c with
          waitForSyncData := false
          currentState := c.currentState.next
          handled := c.handled ++ [m]
          answers := c.answers ++ [a] } ts
  | ask (msg : Option Msg) : InStage c → answering c.role c.currentState = false → c.waitForSyncData = false →
      Turn c msg { c with waitForSyncData := true, dropped := c.dropped ++ msg.toList } [.syncRequest 0]
  | await : InStage c → answering c.role c.currentState = false → c.waitForSyncData = true → Turn c none c []
  | receive (m : Msg) : InStage c → answering c.role c.currentState = false → c.waitForSyncData = true →
      isSyncRequest m = false → Turn c (some m) (c.received m).advance []
  | answerAsking (m : Msg) (a : Answer) (ts : List Tlv) : InStage c → answering c.role c.currentState = false →
      c.waitForSyncData = true → isSyncRequest m = true →
      Turn c (some m)
        { c with
          waitForSyncData := false
          currentState := c.currentState.next.next
          handled := c.handled ++ [m]
          answers := c.answers ++ [a] } ts
  | exchange (msg : Option Msg) (r : Nat) (ts : List Tlv) : c.currentState = .exchange →
      (∀ m ∈ msg, m.msgType = .rgAppData → isSyncRequest m = false) →
      (r = c.resyncs ∧ (∀ t ∈ ts, t.plain = true) ∨ c.resyncs < r) →
      Turn c msg { c.exchanged msg with resyncs := r } ts
  | answerExchange (m : Msg) (a : Answer) (r : Nat) (ts : List Tlv) : c.currentState = .exchange →
      m.msgType = .rgAppData → isSyncRequest m = true → c.resyncs ≤ r →
      Turn c (some m)
        { c with
          waitForSyncData := false
          currentState := .error
          handled := c.handled ++ [m]
          answers := c.answers ++ [a]
          resyncs := r } ts
  | stuck (msg : Option Msg) : c.currentState = .error →
      Turn c msg { c with dropped := c.dropped ++ msg.toList } []

inductive Turns : Ctl → List Msg → Ctl → List Tlv → Prop
  | done {c c' : Ctl} {ts : List Tlv} : Turn c none c' ts → Turns c [] c' ts
  | next {c c₁ c' : Ctl} {m : Msg} {q : List Msg} {ts ts' : List Tlv} :
      Turn { c with msgList := q } (some m) c₁ ts → Turns c₁ q c' ts' → Turns c (m :: q) c' (ts ++ ts')

inductive Tick (c : Ctl) : Ctl → List Tlv → Prop
  | live {c' : Ctl} {ts : List Tlv} : Live c → Turns c c.msgList c' ts → Tick c c' ts
  | start {c₀ c' : Ctl} {ts₀ ts : List Tlv} : c.currentState = .init → Turn c none c₀ ts₀ →
      Turns c₀ c.msgList c' ts → Tick c c' (ts₀ ++ ts)

theorem Turn.live {c c' : Ctl} {msg : Option Msg} {ts : List Tlv} (h : Turn c msg c' ts) : Live c' := by
  cases h with
  | startActive | startAsk => exact Or.inl (Or.inl rfl)
  | nak m hl => exact hl
  | idle hst | await hst => exact Or.inl hst
  | lose m hst | ask _ hst => exact Or.inl hst
  | answer m a ts hst =>
    rcases hst with hst | hst
    · exact Or.inl (Or.inr (congrArg AppState.next hst))
    · exact Or.inr (Or.inl (congrArg AppState.next hst))
  | receive m hst =>
    obtain ⟨w, h, d, hc⟩ := c.received_eq m
    rw [hc, Ctl.advance]
    split
    · exact Or.inl hst
    · rcases hst with hst | hst
      · exact Or.inl (Or.inr (congrArg AppState.next hst))
      · exact Or.inr (Or.inl (congrArg AppState.next hst))
  | answerAsking m a ts hst =>
    rcases hst with hst | hst
    · exact Or.inr (Or.inl (congrArg (fun s => s.next.next) hst))
    · exact Or.inr (Or.inr (congrArg (fun s => s.next.next) hst))
  | exchange msg r ts hx =>
    obtain ⟨w, h, d, hc⟩ := c.exchanged_eq msg
    rw [hc]
    exact Or.inr (Or.inl hx)
  | answerExchange => exact Or.inr (Or.inr rfl)
  | stuck _ he => exact Or.inr (Or.inr he)

theorem Ctl.advance_eq (c : Ctl) : ∃ s, c.advance = { c with currentState := s } := by
  rw [Ctl.advance]
  split
  · grind
  · exact ⟨_, rfl⟩

theorem Turn.same {c c' : Ctl} {msg : Option Msg} {ts : List Tlv} (h : Turn c msg c' ts) :
    c'.role = c.role ∧ c'.sock = c.sock ∧ c'.operational = c.operational ∧ c'.msgList = c.msgList ∧
      c.resyncs ≤ c'.resyncs := by
  cases h with
  | receive m =>
    obtain ⟨w, h, d, hc⟩ := c.received_eq m
    obtain ⟨s, hs⟩ := (c.received m).advance_eq
    simp_all
  | exchange msg r ts hx hm ho =>
    obtain ⟨w, h, d, hc⟩ := c.exchanged_eq msg
    grind
  | answerExchange m a r ts hx ht hr hle => simp_all
  | _ => simp_all

theorem Turns.same {c c' : Ctl} {q : List Msg} {ts : List Tlv} (h : Turns c q c' ts) : c.resyncs ≤ c'.resyncs := by
  induction h with
  | done h => exact h.same.2.2.2.2
  | next h _ ih => exact Nat.le_trans h.same.2.2.2.2 ih

section
variable (env : Handlers) {n : Node} (hs : n.sock = true)
include hs

theorem fsmStep_stuck (he : n.currentState = .error) (msg : Option Msg) :
    Moves n (fsmStep env n msg) { n.ctl with dropped := n.dropped ++ msg.toList } [] := by
  obtain ⟨ts, hm, _, hts⟩ := noteState_updates env hs
  have hc : (noteState env n).currentState = .error := (congrArg Ctl.currentState hm.ctl).trans he
  rw [hts (by rw [he]; decide)] at hm
  rw [fsmStep, enterStage1, hc, if_neg (by decide)]
  simp only [hc]
  cases msg with
  | none => exact ⟨by rw [Option.elim_none, hm.ctl, Option.toList_none, List.append_nil]; rfl, hm.out⟩
  | some m =>
    have hd : ((noteState env n).drop m).ctl = { (noteState env n).ctl with
        dropped := (noteState env n).ctl.dropped ++ [m] } := rfl
    exact ⟨by rw [Option.elim_some, hd, hm.ctl]; rfl, hm.out⟩

theorem fsmStep_turn (hl : Live n.ctl) (msg : Option Msg) :
    ∃ c ts, Turn n.ctl msg c ts ∧ Moves n (fsmStep env n msg) c ts := by
  rcases hl with hst | hx | he
  · cases ha : answering n.role n.currentState with
    | true =>
      cases msg with
      | none => exact ⟨_, _, .idle hst ha, turn_answering_none env hs hst ha⟩
      | some m =>
        by_cases hm : n.waitForSyncData = true ∨ m.msgType ≠ .rgAppData ∨ isSyncRequest m = false
        · exact ⟨_, _, .lose m hst ha hm, turn_answering_drop env hs hst ha hm⟩
        · simp only [not_or, Bool.not_eq_true, not_not, Bool.not_eq_false] at hm
          obtain ⟨hw, ht, hr⟩ := hm
          obtain ⟨a, ts, hsv, hmv⟩ := turn_answering_request env hs hst ha hw ht hr
          exact ⟨_, _, .answer m a ts hst ha hw ht hr hsv, hmv⟩
    | false =>
      cases hw : n.waitForSyncData with
      | false => exact ⟨_, _, .ask msg hst ha hw, turn_asking_first env hs hst ha hw msg⟩
      | true =>
        cases msg with
        | none => exact ⟨_, _, .await hst ha hw, turn_asking_none env hs hst ha hw⟩
        | some m =>
          cases hr : isSyncRequest m with
          | false => exact ⟨_, _, .receive m hst ha hw hr, turn_asking_recv env hs hst ha hw hr⟩
          | true =>
            obtain ⟨a, ts, hmv⟩ := turn_asking_request env hs hst ha hw hr
            exact ⟨_, _, .answerAsking m a ts hst ha hw hr, hmv⟩
  · by_cases hm : ∀ m ∈ msg, m.msgType = .rgAppData → isSyncRequest m = false
    · obtain ⟨r, ts, hmv, ho⟩ := turn_exchange env hs hx msg hm
      exact ⟨_, _, .exchange msg r ts hx hm ho, hmv⟩
    · simp only [not_forall, Bool.not_eq_false] at hm
      obtain ⟨m, hmem, ht, hr⟩ := hm
      cases hmem
      obtain ⟨k, a, r, pre, post, hle, hmv⟩ := turn_exchange_request env hs hx ht hr
      exact ⟨_, _, .answerExchange m a r _ hx ht hr hle, hmv⟩
  · exact ⟨_, _, .stuck msg he, fsmStep_stuck env hs he msg⟩

theorem fsmStep_start (hi : n.currentState = .init) :
    ∃ c ts, Turn n.ctl none c ts ∧ Moves n (fsmStep env n none) c ts := by
  by_cases hr : n.role = .active
  · exact ⟨_, _, .startActive hi hr, turn_init_active env hs hi hr⟩
  · exact ⟨_, _, .startAsk hi hr, turn_init_ask env hs hi hr⟩

theorem fsmMsg_turn (hl : Live n.ctl) (m : Msg) : ∃ c ts, Turn n.ctl (some m) c ts ∧ Moves n (fsmMsg env n m) c ts := by
  rw [fsmMsg]
  split
  next hm =>
    refine ⟨_, [], .nak m hl hm.1, ?_⟩
    rw [mlacpSyncRecvNakHandler]
    split <;> exact Moves.of_eq rfl
  next => exact fsmStep_turn env hs hl (some m)

theorem fsmLoop_turns (hl : Live n.ctl) (q : List Msg) :
    ∃ c ts, Turns n.ctl q c ts ∧ Moves n (fsmLoop env q n) c ts := by
  induction q generalizing n with
  | nil =>
    obtain ⟨c, ts, ht, hm⟩ := fsmStep_turn env hs hl none
    exact ⟨c, ts, .done ht, hm⟩
  | cons m q ih =>
    obtain ⟨c, ts, ht, hm⟩ := fsmMsg_turn env (n := { n with msgList := q }) hs hl m
    have hs' : (fsmMsg env { n with msgList := q } m).sock = true :=
      (congrArg Ctl.sock hm.ctl).trans (ht.same.2.1.trans hs)
    obtain ⟨c', ts', ht', hm'⟩ := ih hs' (by rw [hm.ctl]; exact ht.live)
    rw [hm.ctl] at ht'
    exact ⟨c', ts ++ ts', .next ht ht',
      (hm.congr n (fsmMsg env { n with msgList := q } m) rfl rfl rfl).trans hm'⟩

theorem transit_tick (ho : n.operational = true) (hl : n.currentState = .init ∨ Live n.ctl) (due : Bool) :
    ∃ c ts, Tick n.ctl c ts ∧
      Moves n (mlacpFsmTransit env n due) c ((if due then [.heartbeat] else []) ++ ts) := by
  have hb : Moves n (mlacpSyncSendHeartbeat n due) n.ctl (if due then [.heartbeat] else []) := by
    cases due with
    | true => exact send_moves hs _
    | false => exact Moves.of_eq rfl
  rw [mlacpFsmTransit, hs, ho, Bool.and_self, if_pos rfl]
  generalize mlacpSyncSendHeartbeat n due = k at hb
  have hk : k.sock = true := (congrArg Ctl.sock hb.ctl).trans hs
  have hc : k.currentState = n.currentState := congrArg Ctl.currentState hb.ctl
  rcases hl with hi | hl
  · obtain ⟨c₀, ts₀, h₀, hm₀⟩ := fsmStep_start env hk (hc.trans hi)
    rw [hb.ctl] at h₀
    obtain ⟨_, hsock, _, hq, _⟩ := h₀.same
    have hq' : (fsmStep env k none).msgList = n.msgList := (congrArg Ctl.msgList hm₀.ctl).trans hq
    obtain ⟨c, ts, h, hm⟩ := fsmLoop_turns env (n := fsmStep env k none)
      ((congrArg Ctl.sock hm₀.ctl).trans (hsock.trans hs)) (by rw [hm₀.ctl]; exact h₀.live) n.msgList
    rw [hm₀.ctl] at h
    refine ⟨c, ts₀ ++ ts, .start hi h₀ h, ?_⟩
    simp only [hc, hi, if_true, hq']
    exact hb.trans (hm₀.trans hm)
  · have hn : n.currentState ≠ .init := by
      intro h
      rcases hl with (hl | hl) | hl | hl <;> rw [show n.ctl.currentState = _ from h] at hl <;> cases hl
    obtain ⟨c, ts, h, hm⟩ := fsmLoop_turns env hk (by rw [hb.ctl]; exact hl) n.msgList
    rw [hb.ctl] at h
    refine ⟨c, ts, .live hl h, ?_⟩
    simp only [hc, hn, if_false, show k.msgList = n.msgList from congrArg Ctl.msgList hb.ctl]
    exact hb.trans hm

end

end Sonic.Mlacp
