import Sonic.MlacpState

/-! # The initial synchronisation of two mLACP nodes

An active and a standby node over two FIFO channels. The standby node asks first, the active node
answers and asks back, and the standby node answers before it enters EXCHANGE. `Phase` lists the six
situations two nodes can be in between ticks, with what is still on the way to each of them. -/

namespace Sonic.Mlacp
open List

variable {ts pre : List Tlv} {m : Msg} {c : Ctl}

/-! ## Turns of a node in a known situation -/

section
variable {c c' : Ctl} {ts : List Tlv}

theorem InStage.ne_init (h : InStage c) : c.currentState ≠ .init := by
  intro he; rcases h with h | h <;> rw [he] at h <;> cases h

theorem InStage.ne_exchange (h : InStage c) : c.currentState ≠ .exchange := by
  intro he; rcases h with h | h <;> rw [he] at h <;> cases h

theorem InStage.ne_error (h : InStage c) : c.currentState ≠ .error := by
  intro he; rcases h with h | h <;> rw [he] at h <;> cases h

section
variable (hst : InStage c) (ha : answering c.role c.currentState = true)
include hst ha

theorem Turn.of_answering (hw : c.waitForSyncData = false) (hm : m.msgType = .rgAppData)
    (h : Turn c (some m) c' ts) :
    isSyncRequest m = false ∧ c' = { c with dropped := c.dropped ++ [m] } ∧ ts = [] ∨
    isSyncRequest m = true ∧ ∃ a, Serves a ts ∧
      c' = { c with
        waitForSyncData := false
        currentState := c.currentState.next
        handled := c.handled ++ [m]
        answers := c.answers ++ [a] } := by
  cases h <;> simp_all [Sonic.Mlacp.InStage.ne_exchange, Sonic.Mlacp.InStage.ne_error]

theorem Turn.of_answering_none (h : Turn c none c' ts) : c' = c ∧ ts = [] := by
  cases h <;> simp_all [Sonic.Mlacp.InStage.ne_init, Sonic.Mlacp.InStage.ne_exchange, Sonic.Mlacp.InStage.ne_error]

end

section
variable (hst : InStage c) (ha : answering c.role c.currentState = false)
include hst ha

theorem Turn.of_asking {msg : Option Msg} (hw : c.waitForSyncData = false)
    (hm : ∀ m ∈ msg, m.msgType = .rgAppData) (h : Turn c msg c' ts) :
    c' = { c with waitForSyncData := true, dropped := c.dropped ++ msg.toList } ∧ ts = [.syncRequest 0] := by
  cases h <;> simp_all [Sonic.Mlacp.InStage.ne_init, Sonic.Mlacp.InStage.ne_exchange, Sonic.Mlacp.InStage.ne_error]

theorem Turn.of_waiting (hw : c.waitForSyncData = true) (hm : m.msgType = .rgAppData)
    (hr : isSyncRequest m = false) (h : Turn c (some m) c' ts) : c' = (c.received m).advance ∧ ts = [] := by
  cases h <;> simp_all [Sonic.Mlacp.InStage.ne_exchange, Sonic.Mlacp.InStage.ne_error]

theorem Turn.of_waiting_none (hw : c.waitForSyncData = true) (h : Turn c none c' ts) : c' = c ∧ ts = [] := by
  cases h <;> simp_all [Sonic.Mlacp.InStage.ne_init, Sonic.Mlacp.InStage.ne_exchange, Sonic.Mlacp.InStage.ne_error]

end

theorem Turn.of_init (hi : c.currentState = .init) (h : Turn c none c' ts) :
    c.role = .active ∧ c' = { c with waitForSyncData := false, currentState := .stage1 } ∧ ts = [] ∨
    c.role ≠ .active ∧ c' = { c with waitForSyncData := true, currentState := .stage1 } ∧ ts = [.syncRequest 0] := by
  cases h with
  | startActive _ hr => simp_all
  | startAsk _ hr => simp_all
  | idle hst | ask _ hst | await hst => exact absurd hi hst.ne_init
  | exchange _ _ _ hx => simp_all
  | stuck _ he => simp_all

theorem Turn.of_exchange {msg : Option Msg} (hx : c.currentState = .exchange)
    (hm : ∀ m ∈ msg, m.msgType = .rgAppData ∧ isSyncRequest m = false) (hr : c'.resyncs = c.resyncs)
    (h : Turn c msg c' ts) : c' = c.exchanged msg ∧ ∀ t ∈ ts, t.plain = true := by
  have hns : ¬InStage c := fun h => h.ne_exchange hx
  cases h with
  | startActive hi | startAsk hi => simp_all
  | nak m _ hn => simp_all
  | idle hst | lose _ hst | answer _ _ _ hst | ask _ hst | await hst | receive _ hst | answerAsking _ _ _ hst =>
    simp_all
  | exchange _ r ts _ _ ho =>
    obtain ⟨w, h, d, hc⟩ := c.exchanged_eq msg
    simp_all
  | answerExchange m _ _ _ _ _ hr' => simp_all
  | stuck _ he => simp_all

end

/-! ## What is on the way -/

def Quiet (ts : List Tlv) : Prop := ∀ t ∈ ts, t = .heartbeat

def AllPlain (ts : List Tlv) : Prop := ∀ t ∈ ts, t.plain = true

def Asks (ts : List Tlv) : Prop := ∃ pre r post, ts = pre ++ .syncRequest r :: post ∧ Quiet pre ∧ Quiet post

def Ends (pre post ts : List Tlv) : Prop := ∃ r, ts = pre ++ .syncData r 1 :: post ∧ AllPlain pre

/-- Nothing about the other node was handled yet. -/
def Blank (handled : List Msg) : Prop := (handled.map Msg.tlv).filter Tlv.tells = []

/-- What was handled and what is still on the way make up the answer. -/
def Got (x : Answer) (handled : List Msg) (pre : List Tlv) : Prop :=
  (handled.map Msg.tlv ++ pre).filter Tlv.tells = x.required

/-- The whole answer was handled, up to the message that ends it. -/
def Has (x : Answer) (handled : List Msg) : Prop :=
  ∃ before m after r, handled = before ++ m :: after ∧ m.tlv = .syncData r 1 ∧ Got x before []

theorem Quiet.nil : Quiet [] := fun _ h => (not_mem_nil h).elim

theorem Quiet.append {ts' : List Tlv} (h : Quiet ts) (h' : Quiet ts') : Quiet (ts ++ ts') := fun t ht =>
  (List.mem_append.mp ht).elim (h t) (h' t)

theorem Quiet.tail {t : Tlv} (h : Quiet (t :: ts)) : Quiet ts := fun t' ht' =>
  h t' (mem_cons_of_mem _ ht')

theorem Quiet.plain (h : Quiet ts) : AllPlain ts := fun t ht => by rw [h t ht]; rfl

theorem AllPlain.append {ts' : List Tlv} (h : AllPlain ts) (h' : AllPlain ts') : AllPlain (ts ++ ts') := fun t ht =>
  (List.mem_append.mp ht).elim (h t) (h' t)

theorem AllPlain.tail {t : Tlv} (h : AllPlain (t :: ts)) : AllPlain ts := fun t' ht' =>
  h t' (mem_cons_of_mem _ ht')

theorem Asks.append {ts' : List Tlv} (h : Asks ts) (h' : Quiet ts') : Asks (ts ++ ts') := by
  obtain ⟨pre, r, post, rfl, hpre, hpost⟩ := h
  exact ⟨pre, r, post ++ ts', by simp, hpre, hpost.append h'⟩

theorem Asks.head {t : Tlv} (h : Asks (t :: ts)) :
    t = .heartbeat ∧ Asks ts ∨ (∃ r, t = .syncRequest r) ∧ Quiet ts := by
  obtain ⟨pre, r, post, he, hpre, hpost⟩ := h
  cases pre with
  | nil => grind
  | cons t' pre => cases he; exact Or.inl ⟨hpre _ mem_cons_self, pre, r, post, rfl, hpre.tail, hpost⟩

theorem Ends.append {post : List Tlv} (h : Ends pre post ts) (ts' : List Tlv) :
    Ends pre (post ++ ts') (ts ++ ts') := by
  obtain ⟨r, rfl, hpre⟩ := h
  exact ⟨r, by simp, hpre⟩

theorem Ends.head {post : List Tlv} {t : Tlv} (h : Ends pre post (t :: ts)) :
    (∃ pre', pre = t :: pre' ∧ t.plain = true ∧ Ends pre' post ts) ∨
    pre = [] ∧ (∃ r, t = .syncData r 1) ∧ ts = post := by
  obtain ⟨r, he, hpre⟩ := h
  cases pre with
  | nil => grind
  | cons t' pre => cases he; exact Or.inl ⟨pre, rfl, hpre _ mem_cons_self, r, rfl, hpre.tail⟩

theorem Blank.handle {handled : List Msg} (h : Blank handled) (hm : m.tlv.tells = false) :
    Blank (handled ++ [m]) := by
  rw [Blank, map_append, filter_append, h, nil_append, map_singleton, filter_singleton, hm]
  rfl

theorem Got.handle {x : Answer} {handled : List Msg} (h : Got x handled (m.tlv :: pre)) :
    Got x (handled ++ [m]) pre := by
  rw [Got, map_append, append_assoc]
  exact h

theorem Got.has {x : Answer} {handled : List Msg} {r : UInt16} (h : Got x handled [])
    (hm : m.tlv = .syncData r 1) : Has x (handled ++ [m]) := ⟨handled, m, [], r, rfl, hm, h⟩

theorem Has.handle {x : Answer} {handled : List Msg} (h : Has x handled) (m : Msg) : Has x (handled ++ [m]) := by
  obtain ⟨before, m', after, r, rfl, hm', hg⟩ := h
  exact ⟨before, m', after ++ [m], r, by rw [append_assoc, cons_append], hm', hg⟩

theorem Quiet.blank (h : Quiet ts) : ts.filter Tlv.tells = [] :=
  filter_eq_nil_iff.mpr fun t ht => by rw [h t ht]; exact Bool.false_ne_true

theorem Serves.ends {a : Answer} (h : Serves a ts) (hp : Quiet pre) {handled : List Msg}
    (hb : Blank handled) : ∃ body, Ends body [] (pre ++ ts) ∧ Got a handled body := by
  obtain ⟨body, r, rfl, hbody, hreq⟩ := h
  refine ⟨pre ++ body, ⟨r, by simp, hp.plain.append hbody⟩, ?_⟩
  rw [Got, filter_append, filter_append, hb, hp.blank, hreq]
  rfl

/-! ## Phases -/

structure Side where
  currentState : AppState
  waitForSyncData : Bool
  answers : List Answer
  handled : List Msg

def Ctl.side (c : Ctl) : Side := ⟨c.currentState, c.waitForSyncData, c.answers, c.handled⟩

def Side.fresh (s : Side) : Prop := s.answers = [] ∧ Blank s.handled

def Side.gave (s : Side) (x : Answer) : Prop := s.answers = [x] ∧ Blank s.handled

def Side.idle (s : Side) : Prop :=
  (s.currentState = .init ∨ s.currentState = .stage1 ∧ s.waitForSyncData = false) ∧ s.fresh

def Side.waits (s : Side) (st : AppState) : Prop := s.currentState = st ∧ s.waitForSyncData = true

inductive Phase (a b : Side) (toA toB : List Tlv) : Prop
  | start : a.idle → b.currentState = .init → b.fresh → Quiet toA → Quiet toB → Phase a b toA toB
  | asked : a.idle → b.waits .stage1 → b.fresh → Asks toA → Quiet toB → Phase a b toA toB
  | answered (x : Answer) (pre post : List Tlv) : a.waits .stage2 → b.waits .stage1 → a.gave x →
      b.answers = [] → Quiet toA → Ends pre post toB → Asks post → Got x b.handled pre → Phase a b toA toB
  | swapped (x : Answer) : a.waits .stage2 → b.currentState = .stage2 → b.waitForSyncData = false →
      a.gave x → b.answers = [] → Quiet toA → Asks toB → Has x b.handled → Phase a b toA toB
  | returned (x y : Answer) (pre post : List Tlv) : a.waits .stage2 → b.currentState = .exchange →
      a.answers = [x] → b.answers = [y] → Ends pre post toA → AllPlain post → Quiet toB → Has x b.handled →
      Got y a.handled pre → Phase a b toA toB
  | synced (x y : Answer) : a.currentState = .exchange → b.currentState = .exchange → a.answers = [x] →
      b.answers = [y] → AllPlain toA → AllPlain toB → Has x b.handled → Has y a.handled → Phase a b toA toB

structure Answered (a b : Side) (toA toB : List Tlv) (x : Answer) (pre post : List Tlv) : Prop where
  active : a.currentState = .stage2
  wait : a.waitForSyncData = false
  standby : b.waits .stage1
  answers : a.gave x
  none : b.answers = []
  toA : Quiet toA
  toB : Ends pre post toB
  rest : Quiet post
  got : Got x b.handled pre

def Busy (a b : Side) (toA toB : List Tlv) : Prop :=
  Phase a b toA toB ∨ ∃ x pre post, Answered a b toA toB x pre post

theorem Ctl.received_plain (c : Ctl) (h : m.tlv.plain = true) :
    c.received m = { c with handled := c.handled ++ [m] } := by
  rw [Ctl.received]
  cases ht : m.tlv with
  | nak | other => rw [ht] at h; cases h
  | syncData r flags => simp_all [Tlv.plain]
  | _ => rfl

theorem Ctl.received_done (c : Ctl) {r : UInt16} (h : m.tlv = .syncData r 1) :
    c.received m = { c with handled := c.handled ++ [m], waitForSyncData := false } := by
  rw [Ctl.received, h]
  rfl

theorem not_request_of_plain (h : m.tlv.plain = true) : isSyncRequest m = false := by
  rw [isSyncRequest]
  cases ht : m.tlv with
  | syncRequest => rw [ht] at h; cases h
  | _ => rfl

def Loses (c c' : Ctl) : Prop := ∀ d ∈ c'.dropped, d ∈ c.dropped ∨ d.tlv = .heartbeat

theorem Loses.of_eq {c' : Ctl} (h : c'.dropped = c.dropped) : Loses c c' := fun _ hd => Or.inl (h ▸ hd)

theorem Loses.heartbeat {c' : Ctl} (h : c'.dropped = c.dropped ++ [m]) (hm : m.tlv = .heartbeat) :
    Loses c c' := by
  intro d hd
  grind

section
variable {c c' : Ctl} {m : Msg} {ts : List Tlv} (hm : m.msgType = .rgAppData)
include hm

section
variable (hst : InStage c) (ha : answering c.role c.currentState = false) (hw : c.waitForSyncData = true)
include hst ha hw

theorem Turn.of_waiting_plain (hp : m.tlv.plain = true) (h : Turn c (some m) c' ts) :
    c' = { c with handled := c.handled ++ [m] } ∧ ts = [] := by
  obtain ⟨rfl,
    rfl⟩ := Turn.of_waiting hst ha hw hm (not_request_of_plain hp) h <;> simp_all [Sonic.Mlacp.Ctl.received_plain,
    Ctl.advance]

theorem Turn.of_waiting_done {r : UInt16} (hd : m.tlv = .syncData r 1) (h : Turn c (some m) c' ts) :
    c' = { c with
      handled := c.handled ++ [m], waitForSyncData := false, currentState := c.currentState.next } ∧ ts = [] := by
  obtain ⟨rfl, rfl⟩ := Turn.of_waiting hst ha hw hm (by rw [isSyncRequest, hd]) h
  refine ⟨?_, rfl⟩
  rw [c.received_done hd]
  rfl

end

theorem Turn.of_exchange_plain (hx : c.currentState = .exchange) (hp : m.tlv.plain = true)
    (hr : c'.resyncs = c.resyncs) (h : Turn c (some m) c' ts) :
    c' = { c with handled := c.handled ++ [m] } ∧ AllPlain ts := by
  obtain ⟨rfl, hts⟩ := Turn.of_exchange hx (fun m' hm' => by cases hm'; exact ⟨hm, not_request_of_plain hp⟩) hr h
  refine ⟨?_, hts⟩
  rw [Ctl.exchanged, if_pos hm, c.received_plain hp]

end

section
variable {a a' : Ctl} {b : Side} {toA toB ts : List Tlv} (hr : a.role = .active)
include hr

theorem active_msg (hm : m.msgType = .rgAppData) (hl : a.currentState ≠ .init)
    (hp : Busy a.side b (m.tlv :: toA) toB) (h : Turn a (some m) a' ts) (hn : a'.resyncs = a.resyncs) :
    Busy a'.side b toA (toB ++ ts) ∧ Loses a a' := by
  have idle : a.side.idle → a.currentState = .stage1 ∧ a.waitForSyncData = false ∧ a.answers = [] := fun hi =>
    ⟨(hi.1.resolve_left hl).1, (hi.1.resolve_left hl).2, hi.2.1⟩
  rcases hp with hp | ⟨x, pre, post, hp⟩
  · cases hp with
    | start hi hb hb' hA hB =>
      obtain ⟨hs, hw, _⟩ := idle hi
      have ht : m.tlv = .heartbeat := hA _ mem_cons_self
      rcases h.of_answering (Or.inl hs) (by rw [hs, hr]; rfl) hw hm with ⟨_, rfl, rfl⟩ | ⟨hq, _⟩
      · rw [append_nil]
        exact ⟨Or.inl (.start hi hb hb' hA.tail hB), Loses.heartbeat rfl ht⟩
      · rw [isSyncRequest, ht] at hq; cases hq
    | asked hi hb hb' hA hB =>
      obtain ⟨hs, hw, han⟩ := idle hi
      rcases hA.head with ⟨ht, hA'⟩ | ⟨⟨r, ht⟩, hA'⟩
      · rcases h.of_answering (Or.inl hs) (by rw [hs, hr]; rfl) hw hm with ⟨_, rfl, rfl⟩ | ⟨hq, _⟩
        · rw [append_nil]
          exact ⟨Or.inl (.asked hi hb hb' hA' hB), Loses.heartbeat rfl ht⟩
        · rw [isSyncRequest, ht] at hq; cases hq
      · rcases h.of_answering (Or.inl hs) (by rw [hs, hr]; rfl) hw hm with ⟨hq, _⟩ | ⟨_, x, hsv, rfl⟩
        · rw [isSyncRequest, ht] at hq; cases hq
        · obtain ⟨body, he, hg⟩ := hsv.ends hB hb'.2
          refine ⟨Or.inr ⟨x, body, [], ?_⟩, Loses.of_eq rfl⟩
          exact ⟨congrArg AppState.next hs, rfl, hb,
            ⟨by rw [Ctl.side, han]; rfl, hi.2.2.handle (by rw [ht]; rfl)⟩, hb'.1, hA', he, Quiet.nil, hg⟩
    | answered x pre post ha hb han hbn hA hB hpost hg =>
      have ht : m.tlv = .heartbeat := hA _ mem_cons_self
      obtain ⟨rfl, rfl⟩ := Turn.of_waiting_plain hm (Or.inr ha.1) (by rw [show a.currentState = _ from ha.1, hr]; rfl)
        ha.2 (by rw [ht]; rfl) h
      rw [append_nil]
      exact ⟨Or.inl (.answered x pre post ha hb ⟨han.1, han.2.handle (by rw [ht]; rfl)⟩ hbn hA.tail hB hpost hg),
        Loses.of_eq rfl⟩
    | swapped x ha hb hbw han hbn hA hB hg =>
      have ht : m.tlv = .heartbeat := hA _ mem_cons_self
      obtain ⟨rfl, rfl⟩ := Turn.of_waiting_plain hm (Or.inr ha.1) (by rw [show a.currentState = _ from ha.1, hr]; rfl)
        ha.2 (by rw [ht]; rfl) h
      rw [append_nil]
      exact ⟨Or.inl (.swapped x ha hb hbw ⟨han.1, han.2.handle (by rw [ht]; rfl)⟩ hbn hA.tail hB hg), Loses.of_eq rfl⟩
    | returned x y pre post ha hb han hbn hA hpost hB hg hg' =>
      have hans : answering a.role a.currentState = false := by rw [show a.currentState = _ from ha.1, hr]; rfl
      rcases hA.head with ⟨pre', rfl, ht, hA'⟩ | ⟨rfl, ⟨r, ht⟩, rfl⟩
      · obtain ⟨rfl, rfl⟩ := Turn.of_waiting_plain hm (Or.inr ha.1) hans ha.2 ht h
        rw [append_nil]
        exact ⟨Or.inl (.returned x y pre' post ha hb han hbn hA' hpost hB hg hg'.handle), Loses.of_eq rfl⟩
      · obtain ⟨rfl, rfl⟩ := Turn.of_waiting_done hm (Or.inr ha.1) hans ha.2 ht h
        rw [append_nil]
        exact ⟨Or.inl (.synced x y (congrArg AppState.next ha.1) hb han hbn hpost hB.plain hg (hg'.has ht)),
          Loses.of_eq rfl⟩
    | synced x y ha hb han hbn hA hB hg hg' =>
      obtain ⟨rfl, hts⟩ := Turn.of_exchange_plain hm ha (hA _ mem_cons_self) hn h
      exact ⟨Or.inl (.synced x y ha hb han hbn hA.tail (hB.append hts) hg (hg'.handle m)), Loses.of_eq rfl⟩
  · have ht : m.tlv = .heartbeat := hp.toA _ mem_cons_self
    obtain ⟨rfl, rfl⟩ := Turn.of_asking (Or.inr hp.active) (by rw [show a.currentState = _ from hp.active, hr]; rfl)
      hp.wait (fun m' hm' => by simp_all) h
    refine ⟨Or.inl (.answered x pre (post ++ [.syncRequest 0]) ⟨hp.active,
      rfl⟩ hp.standby hp.answers hp.none hp.toA.tail
      (hp.toB.append _) ⟨post, 0, [], rfl, hp.rest, Quiet.nil⟩ hp.got), Loses.heartbeat rfl ht⟩

theorem active_none (hl : a.currentState ≠ .init) (hp : Busy a.side b toA toB) (h : Turn a none a' ts)
    (hn : a'.resyncs = a.resyncs) : Phase a'.side b toA (toB ++ ts) ∧ Loses a a' := by
  rcases hp with hp | ⟨x, pre, post, hp⟩
  · have same : a' = a ∧ ts = [] → Phase a'.side b toA (toB ++ ts) ∧ Loses a a' := by grind [Loses.of_eq]
    have waits : a.side.waits .stage2 → a' = a ∧ ts = [] := fun ha =>
      Turn.of_waiting_none (Or.inr ha.1) (by rw [show a.currentState = _ from ha.1, hr]; rfl) ha.2 h
    have idle : a.side.idle → a' = a ∧ ts = [] := fun hi => by
      have hs : a.currentState = .stage1 := (hi.1.resolve_left hl).1
      exact Turn.of_answering_none (Or.inl hs) (by rw [hs, hr]; rfl) h
    cases hp with
    | start hi | asked hi => simp_all
    | answered _ _ _ ha | swapped _ ha | returned _ _ _ _ ha => simp_all
    | synced x y ha hb han hbn hA hB hg hg' =>
      obtain ⟨rfl, hts⟩ := Turn.of_exchange ha (fun m hm => by cases hm) hn h
      exact ⟨.synced x y ha hb han hbn hA (hB.append hts) hg hg', Loses.of_eq rfl⟩
  · -- the request that follows the answer
    obtain ⟨rfl, rfl⟩ := Turn.of_asking (Or.inr hp.active) (by rw [show a.currentState = _ from hp.active, hr]; rfl)
      hp.wait (fun m hm => by cases hm) h
    exact ⟨.answered x pre (post ++ [.syncRequest 0]) ⟨hp.active, rfl⟩ hp.standby hp.answers hp.none hp.toA
      (hp.toB.append _) ⟨post, 0, [], rfl, hp.rest, Quiet.nil⟩ hp.got, Loses.of_eq (append_nil _)⟩

theorem active_start (hi : a.currentState = .init) (hp : Phase a.side b toA toB) (h : Turn a none a' ts) :
    Phase a'.side b toA (toB ++ ts) ∧ Loses a a' := by
  rcases h.of_init hi with ⟨_, rfl, rfl⟩ | ⟨hne, _⟩
  · rw [append_nil]
    refine ⟨?_, Loses.of_eq rfl⟩
    cases hp with
    | start ha hb hb' hA hB => exact .start ⟨Or.inr ⟨rfl, rfl⟩, ha.2⟩ hb hb' hA hB
    | asked ha hb hb' hA hB => exact .asked ⟨Or.inr ⟨rfl, rfl⟩, ha.2⟩ hb hb' hA hB
    | answered x pre post ha | swapped x ha | returned x y pre post ha => grind [Side.waits, Ctl.side]
    | synced x y ha => rw [Ctl.side, hi] at ha; cases ha
  · simp_all

end

section
variable {a : Side} {b b' : Ctl} {toA toB ts : List Tlv} (hr : b.role = .standby)
include hr

theorem standby_msg (hm : m.msgType = .rgAppData) (hl : b.currentState ≠ .init)
    (hp : Phase a b.side toA (m.tlv :: toB)) (h : Turn b (some m) b' ts) (hn : b'.resyncs = b.resyncs) :
    Phase a b'.side (toA ++ ts) toB ∧ Loses b b' := by
  have asking : b.side.waits .stage1 → answering b.role b.currentState = false := fun hb => by
    rw [show b.currentState = _ from hb.1, hr]; rfl
  cases hp with
  | start _ hb => exact absurd hb hl
  | asked hi hb hbn hA hB =>
    have ht : m.tlv = .heartbeat := hB _ mem_cons_self
    obtain ⟨rfl, rfl⟩ := Turn.of_waiting_plain hm (Or.inl hb.1) (asking hb) hb.2 (by rw [ht]; rfl) h
    rw [append_nil]
    exact ⟨.asked hi hb ⟨hbn.1, hbn.2.handle (by rw [ht]; rfl)⟩ hA hB.tail, Loses.of_eq rfl⟩
  | answered x pre post ha hb han hbn hA hB hpost hg =>
    rcases hB.head with ⟨pre', rfl, ht, hB'⟩ | ⟨rfl, ⟨r, ht⟩, rfl⟩
    · obtain ⟨rfl, rfl⟩ := Turn.of_waiting_plain hm (Or.inl hb.1) (asking hb) hb.2 ht h
      rw [append_nil]
      exact ⟨.answered x pre' post ha hb han hbn hA hB' hpost hg.handle, Loses.of_eq rfl⟩
    · obtain ⟨rfl, rfl⟩ := Turn.of_waiting_done hm (Or.inl hb.1) (asking hb) hb.2 ht h
      rw [append_nil]
      exact ⟨.swapped x ha (congrArg AppState.next hb.1) rfl han hbn hA hpost (hg.has ht), Loses.of_eq rfl⟩
  | swapped x ha hb hbw han hbn hA hB hg =>
    have hans : answering b.role b.currentState = true := by rw [show b.currentState = _ from hb, hr]; rfl
    rcases hB.head with ⟨ht, hB'⟩ | ⟨⟨r, ht⟩, hB'⟩
    · rcases h.of_answering (Or.inr hb) hans hbw hm with ⟨_, rfl, rfl⟩ | ⟨hq, _⟩
      · rw [append_nil]
        exact ⟨.swapped x ha hb hbw han hbn hA hB' hg, Loses.heartbeat rfl ht⟩
      · rw [isSyncRequest, ht] at hq; cases hq
    · rcases h.of_answering (Or.inr hb) hans hbw hm with ⟨hq, _⟩ | ⟨_, y, hsv, rfl⟩
      · rw [isSyncRequest, ht] at hq; cases hq
      · obtain ⟨body, he, hg'⟩ := hsv.ends hA han.2
        refine ⟨.returned x y body [] ha (congrArg AppState.next hb) han.1 ?_ he Quiet.nil.plain hB' (hg.handle m) hg',
          Loses.of_eq rfl⟩
        rw [Ctl.side, show b.answers = [] from hbn]
        rfl
  | returned x y pre post ha hb han hbn hA hpost hB hg hg' =>
    have ht : m.tlv = .heartbeat := hB _ mem_cons_self
    obtain ⟨rfl, hts⟩ := Turn.of_exchange_plain hm hb (by rw [ht]; rfl) hn h
    exact ⟨.returned x y pre (post ++ ts) ha hb han hbn (hA.append ts) (hpost.append hts) hB.tail (hg.handle m) hg',
      Loses.of_eq rfl⟩
  | synced x y ha hb han hbn hA hB hg hg' =>
    obtain ⟨rfl, hts⟩ := Turn.of_exchange_plain hm hb (hB _ mem_cons_self) hn h
    exact ⟨.synced x y ha hb han hbn (hA.append hts) hB.tail (hg.handle m) hg', Loses.of_eq rfl⟩

theorem standby_none (hl : b.currentState ≠ .init) (hp : Phase a b.side toA toB) (h : Turn b none b' ts)
    (hn : b'.resyncs = b.resyncs) : Phase a b'.side (toA ++ ts) toB ∧ Loses b b' := by
  have same : b' = b ∧ ts = [] → Phase a b'.side (toA ++ ts) toB ∧ Loses b b' := by grind [Loses.of_eq]
  have waits : b.side.waits .stage1 → b' = b ∧ ts = [] := fun hb =>
    Turn.of_waiting_none (Or.inl hb.1) (by rw [show b.currentState = _ from hb.1, hr]; rfl) hb.2 h
  cases hp with
  | start _ hb => exact absurd hb hl
  | asked _ hb | answered _ _ _ _ hb => simp_all
  | swapped _ _ hb =>
    exact same (Turn.of_answering_none (Or.inr hb) (by rw [show b.currentState = _ from hb, hr]; rfl) h)
  | returned x y pre post ha hb han hbn hA hpost hB hg hg' =>
    obtain ⟨rfl, hts⟩ := Turn.of_exchange hb (fun m hm => by cases hm) hn h
    exact ⟨.returned x y pre (post ++ ts) ha hb han hbn (hA.append ts) (hpost.append hts) hB hg hg', Loses.of_eq rfl⟩
  | synced x y ha hb han hbn hA hB hg hg' =>
    obtain ⟨rfl, hts⟩ := Turn.of_exchange hb (fun m hm => by cases hm) hn h
    exact ⟨.synced x y ha hb han hbn (hA.append hts) hB hg hg', Loses.of_eq rfl⟩

theorem standby_start (hi : b.currentState = .init) (hp : Phase a b.side toA toB) (h : Turn b none b' ts) :
    Phase a b'.side (toA ++ ts) toB ∧ Loses b b' := by
  rcases h.of_init hi with ⟨he, _⟩ | ⟨_, rfl, rfl⟩
  · simp_all
  · refine ⟨?_, Loses.of_eq rfl⟩
    cases hp with
    | start ha hb hbn hA hB => exact .asked ha ⟨rfl, rfl⟩ hbn ⟨toA, 0, [], rfl, hA, Quiet.nil⟩ hB
    | asked _ hb | answered _ _ _ _ hb => grind [Side.waits, Ctl.side]
    | swapped _ _ hb | returned _ _ _ _ _ hb | synced _ _ _ hb => rw [Ctl.side, hi] at hb; cases hb

end

theorem Live.ne_init (h : Live c) : c.currentState ≠ .init := by
  rcases h with h | h | h
  · exact h.ne_init
  · rw [h]; decide
  · rw [h]; decide

theorem Loses.trans {c' c'' : Ctl} (h : Loses c c') (h' : Loses c' c'') : Loses c c'' := fun d hd =>
  (h' d hd).elim (h d) Or.inr

theorem Turn.resyncs_eq {c₁ : Ctl} {k : Nat} {msg : Option Msg} (h : Turn c msg c₁ ts)
    (h' : c₁.resyncs ≤ k) (hn : k = c.resyncs) : c₁.resyncs = c.resyncs :=
  Nat.le_antisymm (hn ▸ h') h.same.2.2.2.2

theorem active_turns {a a' : Ctl} {b : Side} {q : List Msg} (h : Turns a q a' ts) :
    ∀ {toA toB : List Tlv}, a.role = .active → Live a → (∀ m ∈ q, m.msgType = .rgAppData) →
      Busy a.side b (q.map Msg.tlv ++ toA) toB → a'.resyncs = a.resyncs →
      Phase a'.side b toA (toB ++ ts) ∧ Loses a a' := by
  induction h with
  | done h => intro toA toB hr hl _ hp hn; exact active_none hr hl.ne_init hp h hn
  | @next c _ _ _ q _ _ h hs ih =>
    intro toA toB hr hl hq hp hn
    have hn₁ := h.resyncs_eq hs.same hn
    obtain ⟨hp₁, hl₁⟩ := active_msg (a := { c with msgList := q }) hr (hq _ mem_cons_self) hl.ne_init hp h hn₁
    obtain ⟨hp₂, hl₂⟩ := ih (h.same.1.trans hr) h.live (fun m hm => hq m (mem_cons_of_mem _ hm)) hp₁
      (hn.trans hn₁.symm)
    rw [append_assoc] at hp₂
    exact ⟨hp₂, Loses.trans hl₁ hl₂⟩

theorem standby_turns {a : Side} {b b' : Ctl} {q : List Msg} (h : Turns b q b' ts) :
    ∀ {toA toB : List Tlv}, b.role = .standby → Live b → (∀ m ∈ q, m.msgType = .rgAppData) →
      Phase a b.side toA (q.map Msg.tlv ++ toB) → b'.resyncs = b.resyncs →
      Phase a b'.side (toA ++ ts) toB ∧ Loses b b' := by
  induction h with
  | done h => intro toA toB hr hl _ hp hn; exact standby_none hr hl.ne_init hp h hn
  | @next c _ _ _ q _ _ h hs ih =>
    intro toA toB hr hl hq hp hn
    have hn₁ := h.resyncs_eq hs.same hn
    obtain ⟨hp₁, hl₁⟩ := standby_msg (b := { c with msgList := q }) hr (hq _ mem_cons_self) hl.ne_init hp h hn₁
    obtain ⟨hp₂, hl₂⟩ := ih (h.same.1.trans hr) h.live (fun m hm => hq m (mem_cons_of_mem _ hm)) hp₁
      (hn.trans hn₁.symm)
    rw [append_assoc] at hp₂
    exact ⟨hp₂, Loses.trans hl₁ hl₂⟩

theorem active_tick {a a' : Ctl} {b : Side} {toA toB : List Tlv} (h : Tick a a' ts) (hr : a.role = .active)
    (hq : ∀ m ∈ a.msgList, m.msgType = .rgAppData) (hp : Phase a.side b (a.msgList.map Msg.tlv ++ toA) toB)
    (hn : a'.resyncs = a.resyncs) : Phase a'.side b toA (toB ++ ts) ∧ Loses a a' := by
  cases h with
  | live hl h => exact active_turns h hr hl hq (Or.inl hp) hn
  | start hi h₀ h =>
    have hn₁ := h₀.resyncs_eq h.same hn
    obtain ⟨hp₁, hl₁⟩ := active_start hr hi hp h₀
    obtain ⟨hp₂, hl₂⟩ := active_turns h (h₀.same.1.trans hr) h₀.live hq (Or.inl hp₁) (hn.trans hn₁.symm)
    grind [Loses.trans]

theorem standby_tick {a : Side} {b b' : Ctl} {toA toB : List Tlv} (h : Tick b b' ts) (hr : b.role = .standby)
    (hq : ∀ m ∈ b.msgList, m.msgType = .rgAppData) (hp : Phase a b.side toA (b.msgList.map Msg.tlv ++ toB))
    (hn : b'.resyncs = b.resyncs) : Phase a b'.side (toA ++ ts) toB ∧ Loses b b' := by
  cases h with
  | live hl h => exact standby_turns h hr hl hq hp hn
  | start hi h₀ h =>
    have hn₁ := h₀.resyncs_eq h.same hn
    obtain ⟨hp₁, hl₁⟩ := standby_start hr hi hp h₀
    grind [standby_turns, Turn.same, Turn.live, Loses.trans]

end Sonic.Mlacp
