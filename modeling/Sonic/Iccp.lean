import Sonic.Run

/-! # The ICCP connection

`iccp_csm_transit` brings a connection up: capabilities are exchanged, then both sides connect to
the redundancy group. The transitions read flags and a status code that received messages leave
behind. The socket is up throughout. -/

namespace Sonic.Iccp
open List

/-! ## Messages -/

structure IccParameter where
  uBit : Nat
  fBit : Nat
  type : Nat
  len : Nat
  deriving DecidableEq

inductive Body where
  | capability (param : IccParameter) (sBit majorVer miniorVer : Nat)
  | rgConnect (param : IccParameter)
  | rgDisconnect (param : IccParameter) (statusCode : Nat)
  | notification
  | rgAppData
  | unknown (msgType : Nat)
  deriving DecidableEq

structure Msg where
  rgId : Nat
  body : Body
  deriving DecidableEq

def statusCodeUIccpRg : Nat := 0x00010001
def statusCodeIccpRgRemoved : Nat := 0x00010010

def tlvIccpCapability : Nat := 0x0700
def tlvIccSenderName : Nat := 0x0001
def tlvDisconnectCode : Nat := 0x0004

def Body.isCapability : Body → Bool
  | .capability .. => true
  | _ => false

def Body.isRgConnect : Body → Bool
  | .rgConnect _ => true
  | _ => false

def Body.isRgDisconnect : Body → Bool
  | .rgDisconnect .. => true
  | _ => false

def Body.capable : Body → Bool
  | .capability p sBit majorVer miniorVer =>
    p.uBit = 1 ∧ p.fBit = 0 ∧ p.type = tlvIccpCapability ∧ p.len = 4 ∧ sBit = 1 ∧ majorVer = 1 ∧ miniorVer = 0
  | _ => false

def Body.connects : Body → Bool
  | .rgConnect p => p.uBit = 0 ∧ p.fBit = 0 ∧ p.type = tlvIccSenderName
  | _ => false

def Body.disconnects : Body → Bool
  | .rgDisconnect p statusCode =>
    p.uBit = 0 ∧ p.fBit = 0 ∧ p.type = tlvDisconnectCode ∧ p.len = 4 ∧ statusCode = statusCodeIccpRgRemoved
  | _ => false

inductive Sent where
  | capability (sBit : Bool)
  | nak (statusCode rejectedMsgId : Nat)
  | rgConnect
  | rgDisconnect (statusCode : Nat)
  deriving DecidableEq

/-! ## The state machine -/

inductive ConnState where
  | nonexistent
  | initialized
  | capsent
  | caprec
  | connecting
  | operational
  deriving DecidableEq

structure Csm where
  currentState : ConnState
  statusCode : Nat
  rejectedMsgId : Nat
  peerCapabilityFlag : Bool
  peerRgConnectFlag : Bool
  senderCapabilityFlag : Bool
  senderRgConnectFlag : Bool
  msgList : List Msg
  uMsgInCount : Nat

def Csm.reset : Csm := ⟨.nonexistent, 0, 0, false, false, false, false, [], 0⟩

section
variable (iccRgId : Nat)

def Csm.checkIdFromMsg (c : Csm) (m : Msg) : Csm :=
  if m.body.isCapability then c
  else if m.rgId = iccRgId then
    if c.statusCode = statusCodeUIccpRg then { c with statusCode := 0, rejectedMsgId := 0 } else c
  else { c with statusCode := statusCodeUIccpRg, rejectedMsgId := m.rgId }

def Csm.correspondFromMsg (c : Csm) (m : Msg) : Csm :=
  let c := c.checkIdFromMsg iccRgId m
  match m.body with
  | .capability .. => if m.body.capable then { c with peerCapabilityFlag := true } else c
  | .rgConnect _ => if m.body.connects then { c with peerRgConnectFlag := true } else c
  | .rgDisconnect .. =>
    if m.body.disconnects then { c with senderRgConnectFlag := false, peerRgConnectFlag := false } else c
  | .notification => c
  | .rgAppData => c
  | .unknown _ => { c with uMsgInCount := c.uMsgInCount + 1 }

def Csm.correspond (c : Csm) : Option Msg → Csm
  | some m => c.correspondFromMsg iccRgId m
  | none => c

def Csm.prepareNakMsg (c : Csm) : Sent :=
  if c.statusCode = statusCodeUIccpRg then .nak c.statusCode c.rejectedMsgId else .nak 0 0

def Csm.prepareIccpMsg (c : Csm) : Option Sent :=
  match c.currentState with
  | .nonexistent => none
  | .initialized => some (.capability c.senderCapabilityFlag)
  | .capsent => none
  | .caprec => if 0 < c.statusCode then some c.prepareNakMsg else some .rgConnect
  | .connecting => if 0 < c.statusCode then some c.prepareNakMsg else none
  | .operational => if c.peerRgConnectFlag then none else some (.rgDisconnect c.statusCode)

def Csm.transitState (ready : Bool) (c : Csm) (msg : Option Msg) : Csm × Option Sent :=
  match c.currentState with
  | .nonexistent => (if ready then { c with currentState := .initialized } else c, none)
  | .initialized =>
    let c := c.correspond iccRgId msg
    (if c.senderCapabilityFlag && !c.peerCapabilityFlag then { c with currentState := .capsent }
      else if c.senderCapabilityFlag && c.peerCapabilityFlag then { c with currentState := .caprec }
      else c, c.prepareIccpMsg)
  | .capsent =>
    let c := c.correspond iccRgId msg
    (if c.senderCapabilityFlag && c.peerCapabilityFlag then { c with currentState := .caprec } else c, none)
  | .caprec =>
    let c := c.correspond iccRgId msg
    (if !c.peerRgConnectFlag && c.statusCode == 0 then { c with currentState := .connecting }
      else if c.peerRgConnectFlag && c.statusCode == 0 then { c with currentState := .operational }
      else c, c.prepareIccpMsg)
  | .connecting =>
    let c := c.correspond iccRgId msg
    (if 0 < c.statusCode then { c with currentState := .caprec }
      else if c.peerRgConnectFlag && c.statusCode == 0 then { c with currentState := .operational }
      else c, c.prepareIccpMsg)
  | .operational =>
    let c := c.correspond iccRgId msg
    if !c.senderRgConnectFlag || !c.peerRgConnectFlag then ({ c with currentState := .caprec }, c.prepareIccpMsg)
    else (c, none)

def Csm.enterState (c : Csm) : Csm :=
  match c.currentState with
  | .nonexistent => c
  | .initialized => { c with senderCapabilityFlag := true }
  | .capsent => c
  | .caprec => { c with senderCapabilityFlag := true, peerCapabilityFlag := true }
  | .connecting => { c with senderRgConnectFlag := true }
  | .operational => { c with senderRgConnectFlag := true, peerRgConnectFlag := true }

def Csm.transit (ready : Bool) (c : Csm) : Csm × Option Sent :=
  let msg := c.msgList.head?
  let r := { c with msgList := c.msgList.tail }.transitState iccRgId ready msg
  (if c.currentState ≠ r.1.currentState ∨ r.1.currentState ≠ .nonexistent ∧ msg ≠ none then r.1.enterState else r.1,
    r.2)

def Csm.enqueueMsg (c : Csm) (m : Msg) (toApp : Bool) : Csm :=
  match m.body with
  | .rgAppData => c
  | .notification => if toApp then c else { c with msgList := c.msgList ++ [m] }
  | _ => { c with msgList := c.msgList ++ [m] }

end

/-! ## Runs with their history -/

structure Conn where
  csm : Csm
  consumed : List Msg
  sent : List Sent

def Conn.new : Conn := ⟨Csm.reset, [], []⟩

inductive Event where
  | receive (m : Msg) (toApp : Bool)
  | tick (ready : Bool)

def step (iccRgId : Nat) (s : Conn) : Event → Option Conn
  | .receive m toApp => some { s with csm := s.csm.enqueueMsg m toApp }
  | .tick ready =>
    let (c, out) := s.csm.transit iccRgId ready
    some ⟨c, s.consumed ++ s.csm.msgList.head?.toList, s.sent ++ out.toList⟩

/-- An RG_CONNECT with the node's own RG id was taken, and no RG_DISCONNECT after it. -/
def Connected (iccRgId : Nat) (consumed : List Msg) : Prop :=
  ∃ before m after, consumed = before ++ m :: after ∧ m.body.isRgConnect ∧ m.rgId = iccRgId ∧
    ∀ d ∈ after, d.body.isRgDisconnect = false

def Capable (consumed : List Msg) : Prop := ∃ m ∈ consumed, m.body.capable

theorem Connected.append {iccRgId : Nat} {consumed : List Msg} (h : Connected iccRgId consumed) {m : Msg}
    (hm : m.body.isRgDisconnect = false) : Connected iccRgId (consumed ++ [m]) := by
  obtain ⟨before, c, after, rfl, hc, hid, hd⟩ := h
  refine ⟨before, c, after ++ [m], by simp, hc, hid, fun d hmem => ?_⟩
  grind

theorem Capable.append {consumed : List Msg} (h : Capable consumed) (l : List Msg) : Capable (consumed ++ l) := by
  obtain ⟨m, hm, hc⟩ := h
  exact ⟨m, mem_append_left _ hm, hc⟩

/-- A message is taken only where it cannot make up for a missing RG_CONNECT or hide an RG_DISCONNECT. -/
def msgOk (iccRgId : Nat) (c : Csm) (m : Msg) : Prop :=
  (m.body.isRgDisconnect → m.body.disconnects ∨ c.peerRgConnectFlag = false) ∧
  (c.currentState ≠ .operational → c.peerRgConnectFlag = true → c.statusCode = statusCodeUIccpRg → m.rgId = iccRgId →
    m.body.isCapability ∨ m.body.isRgConnect ∨ m.body.disconnects)

instance (iccRgId : Nat) (c : Csm) (m : Msg) : Decidable (msgOk iccRgId c m) := by unfold msgOk; exact inferInstance

def connOk (iccRgId : Nat) (s : Conn) : Event → Prop
  | .receive _ _ => True
  | .tick _ => ∀ m ∈ s.csm.msgList.head?, msgOk iccRgId s.csm m

instance (iccRgId : Nat) (s : Conn) : ∀ e, Decidable (connOk iccRgId s e)
  | .receive _ _ => inferInstanceAs (Decidable True)
  | .tick _ => by
    unfold connOk
    dsimp only
    cases s.csm.msgList.head? with
    | none => exact isTrue fun m hm => nomatch hm
    | some m => exact decidable_of_iff (msgOk iccRgId s.csm m) (by simp)

/-! ## What a message leaves behind -/

structure Known (iccRgId : Nat) (c : Csm) (consumed : List Msg) : Prop where
  capable : c.peerCapabilityFlag = true → Capable consumed
  connected : c.peerRgConnectFlag = true → c.statusCode ≠ statusCodeUIccpRg → Connected iccRgId consumed

section
variable {iccRgId : Nat} {c : Csm} {m : Msg}

theorem checkId_state : (c.checkIdFromMsg iccRgId m).currentState = c.currentState ∧
    (c.checkIdFromMsg iccRgId m).peerCapabilityFlag = c.peerCapabilityFlag ∧
    (c.checkIdFromMsg iccRgId m).peerRgConnectFlag = c.peerRgConnectFlag ∧
    (c.checkIdFromMsg iccRgId m).senderRgConnectFlag = c.senderRgConnectFlag ∧
    (c.checkIdFromMsg iccRgId m).senderCapabilityFlag = c.senderCapabilityFlag := by
  unfold Csm.checkIdFromMsg
  grind

theorem checkId_status (hm : m.body.isCapability = false)
    (h : (c.checkIdFromMsg iccRgId m).statusCode ≠ statusCodeUIccpRg) : m.rgId = iccRgId := by
  unfold Csm.checkIdFromMsg at h
  grind

theorem correspondFromMsg_state : (c.correspondFromMsg iccRgId m).currentState = c.currentState := by
  grind [Csm.correspondFromMsg, checkId_state]

theorem correspondFromMsg_statusCode :
    (c.correspondFromMsg iccRgId m).statusCode = (c.checkIdFromMsg iccRgId m).statusCode := by
  grind [Csm.correspondFromMsg]

theorem correspondFromMsg_peerCapabilityFlag :
    (c.correspondFromMsg iccRgId m).peerCapabilityFlag = (c.peerCapabilityFlag || m.body.capable) := by
  obtain ⟨rgId, body⟩ := m
  cases body with
  | capability p s v w =>
    simp only [Csm.correspondFromMsg]
    split <;> simp_all [checkId_state]
  | rgConnect p | rgDisconnect p s =>
    simp only [Csm.correspondFromMsg, Body.capable, Bool.or_false]
    split <;> exact checkId_state.2.1
  | _ => simp_all [Csm.correspondFromMsg, Body.capable, checkId_state]

theorem correspondFromMsg_peerRgConnectFlag : (c.correspondFromMsg iccRgId m).peerRgConnectFlag =
    if m.body.connects then true else if m.body.disconnects then false else c.peerRgConnectFlag := by
  obtain ⟨rgId, body⟩ := m
  cases body with
  | capability p s v w =>
    simp only [Csm.correspondFromMsg, Body.connects, Body.disconnects, Bool.false_eq_true, if_false]
    split <;> exact checkId_state.2.2.1
  | rgConnect p =>
    simp only [Csm.correspondFromMsg, Body.disconnects, Bool.false_eq_true, if_false]
    grind [checkId_state]
  | rgDisconnect p s =>
    simp only [Csm.correspondFromMsg, Body.connects, Bool.false_eq_true, if_false]
    grind [checkId_state]
  | _ => simp_all [Csm.correspondFromMsg, Body.connects, Body.disconnects, checkId_state]

theorem connects_isRgConnect {b : Body} (h : b.connects = true) : b.isRgConnect = true := by
  cases b <;> first | rfl | cases h

variable {consumed : List Msg}

theorem Known.correspondFromMsg (hk : Known iccRgId c consumed)
    (hop : c.currentState = .operational → Connected iccRgId consumed) (hok : msgOk iccRgId c m) :
    Known iccRgId (c.correspondFromMsg iccRgId m) (consumed ++ [m]) := by
  refine ⟨fun h => ?_, fun hflag hstatus => ?_⟩
  · rw [correspondFromMsg_peerCapabilityFlag, Bool.or_eq_true] at h
    rcases h with h | h
    · exact (hk.capable h).append _
    · exact ⟨m, by simp, h⟩
  · rw [correspondFromMsg_statusCode] at hstatus
    rw [correspondFromMsg_peerRgConnectFlag] at hflag
    by_cases hconn : m.body.isRgConnect = true
    · -- an RG_CONNECT of another group leaves the status set
      have hid : m.rgId = iccRgId := by
        refine checkId_status ?_ hstatus
        cases hb : m.body <;> rw [hb] at hconn <;> first | rfl | cases hconn
      exact ⟨consumed, m, [], rfl, hconn, hid, forall_mem_nil _⟩
    · have hc : m.body.connects = false := eq_false_of_ne_true fun h => hconn (connects_isRgConnect h)
      rw [hc, if_neg Bool.false_ne_true] at hflag
      split at hflag
      · cases hflag
      · rename_i hdis
        have hnd : m.body.isRgDisconnect = false := by
          refine eq_false_of_ne_true fun h => ?_
          rcases hok.1 h with h | h <;> simp_all
        refine Connected.append ?_ hnd
        by_cases hs : c.statusCode = statusCodeUIccpRg
        · by_cases hstate : c.currentState = .operational
          · exact hop hstate
          · have hcap : m.body.isCapability = false := by
              refine eq_false_of_ne_true fun h => hstatus ?_
              grind [Csm.checkIdFromMsg]
            rcases hok.2 hstate hflag hs (checkId_status hcap hstatus) with h | h | h <;> simp_all
        · exact hk.connected hflag hs

theorem Connected.correspondFromMsg (h : Connected iccRgId consumed) (hflag : c.peerRgConnectFlag = true)
    (hok : msgOk iccRgId c m) (hafter : (c.correspondFromMsg iccRgId m).peerRgConnectFlag = true) :
    Connected iccRgId (consumed ++ [m]) := by
  refine h.append (eq_false_of_ne_true fun hd => ?_)
  have hdis : m.body.disconnects = true := (hok.1 hd).resolve_right (by rw [hflag]; decide)
  have hnc : m.body.connects = false := by cases hb : m.body <;> rw [hb] at hd <;> first | rfl | cases hd
  grind [correspondFromMsg_peerRgConnectFlag]

end

/-! ## Runs -/

def SentCapability (sent : List Sent) : Prop := ∃ b, Sent.capability b ∈ sent

def Stands (iccRgId : Nat) (c : Csm) (consumed : List Msg) (sent : List Sent) : ConnState → Prop
  | .nonexistent => c.peerRgConnectFlag = false ∧ c.peerCapabilityFlag = false
  | .initialized => True
  | .capsent => SentCapability sent
  | .caprec => c.peerCapabilityFlag = true ∧ SentCapability sent
  | .connecting => c.peerCapabilityFlag = true ∧ SentCapability sent ∧ Sent.rgConnect ∈ sent
  | .operational => c.peerCapabilityFlag = true ∧ SentCapability sent ∧ Sent.rgConnect ∈ sent ∧
    c.peerRgConnectFlag = true ∧ Connected iccRgId consumed

structure Safe (iccRgId : Nat) (s : Conn) : Prop where
  known : Known iccRgId s.csm s.consumed
  stands : Stands iccRgId s.csm s.consumed s.sent s.csm.currentState

theorem safe_new (iccRgId : Nat) : Safe iccRgId Conn.new :=
  ⟨⟨fun h => absurd h (by decide), fun h => absurd h (by decide)⟩, rfl, rfl⟩

theorem SentCapability.append {sent : List Sent} (h : SentCapability sent) (l : List Sent) :
    SentCapability (sent ++ l) := by
  obtain ⟨b, hb⟩ := h
  exact ⟨b, mem_append_left _ hb⟩

section
variable {iccRgId : Nat} {c : Csm} {consumed : List Msg} {sent : List Sent}

theorem Known.safe (hk : Known iccRgId c consumed) {st : ConnState} (hs : Stands iccRgId c consumed sent st) :
    Safe iccRgId ⟨{ c with currentState := st }, consumed, sent⟩ := by
  refine ⟨⟨hk.capable, hk.connected⟩, ?_⟩
  cases st <;> exact hs

theorem Known.safe_same (hk : Known iccRgId c consumed) {st : ConnState} (hst : c.currentState = st)
    (hs : Stands iccRgId c consumed sent st) : Safe iccRgId ⟨c, consumed, sent⟩ := by
  subst hst
  exact ⟨hk, hs⟩

theorem Safe.enterState (h : Safe iccRgId ⟨c, consumed, sent⟩) : Safe iccRgId ⟨c.enterState, consumed, sent⟩ := by
  obtain ⟨hk, hs⟩ := h
  obtain ⟨st, statusCode, rejectedMsgId, peerCap, peerRg, senderCap, senderRg, msgList, cnt⟩ := c
  cases st with
  | nonexistent | initialized | capsent | connecting => exact ⟨⟨hk.capable, hk.connected⟩, hs⟩
  | caprec =>
    obtain ⟨hp, hsent⟩ := hs
    exact ⟨⟨fun _ => hk.capable hp, hk.connected⟩, rfl, hsent⟩
  | operational =>
    obtain ⟨hp, hsent, hconn, hrg, hcon⟩ := hs
    exact ⟨⟨hk.capable, fun _ => hk.connected hrg⟩, hp, hsent, hconn, rfl, hcon⟩

theorem Safe.correspond (h : Safe iccRgId ⟨c, consumed, sent⟩) {msg : Option Msg}
    (hok : ∀ m ∈ msg, msgOk iccRgId c m) :
    Known iccRgId (c.correspond iccRgId msg) (consumed ++ msg.toList) ∧
    (c.peerCapabilityFlag = true → (c.correspond iccRgId msg).peerCapabilityFlag = true) ∧
    (c.currentState = .operational → (c.correspond iccRgId msg).peerRgConnectFlag = true →
      Connected iccRgId (consumed ++ msg.toList)) ∧
    (c.correspond iccRgId msg).currentState = c.currentState := by
  have hop : c.currentState = .operational → c.peerRgConnectFlag = true ∧ Connected iccRgId consumed := by
    intro hc
    have hs := h.stands
    rw [hc] at hs
    exact hs.2.2.2
  cases msg with
  | none =>
    rw [Option.toList_none, append_nil]
    exact ⟨h.known, id, fun hc _ => (hop hc).2, rfl⟩
  | some m =>
    have hm := hok m rfl
    refine ⟨h.known.correspondFromMsg (fun hc => (hop hc).2) hm, fun hp => ?_, fun hc hafter => ?_,
      correspondFromMsg_state⟩
    · simp_all [Csm.correspond, correspondFromMsg_peerCapabilityFlag]
    · exact (hop hc).2.correspondFromMsg (hop hc).1 hm hafter

theorem Safe.transitState (h : Safe iccRgId ⟨c, consumed, sent⟩) (ready : Bool) {msg : Option Msg}
    (hok : ∀ m ∈ msg, msgOk iccRgId c m) :
    Safe iccRgId ⟨(c.transitState iccRgId ready msg).1, consumed ++ msg.toList,
      sent ++ (c.transitState iccRgId ready msg).2.toList⟩ := by
  obtain ⟨hk, hcap, hop, hstate⟩ := h.correspond hok
  have hs := h.stands
  unfold Csm.transitState
  cases hc : c.currentState with
  | nonexistent =>
    rw [hc] at hs
    obtain ⟨hrg, hpc⟩ := hs
    -- the message is dropped, the flags are clear
    have hk' : Known iccRgId c (consumed ++ msg.toList) :=
      ⟨fun h' => absurd (h'.symm.trans hpc) (by decide), fun h' => absurd (h'.symm.trans hrg) (by decide)⟩
    dsimp only
    split
    · exact hk'.safe trivial
    · exact hk'.safe_same hc ⟨hrg, hpc⟩
  | initialized =>
    rw [hc] at hstate
    have hsent : SentCapability (sent ++ (c.correspond iccRgId msg).prepareIccpMsg.toList) := by
      rw [Csm.prepareIccpMsg, hstate]
      exact ⟨_, mem_append_right _ mem_cons_self⟩
    dsimp only
    split
    · exact hk.safe hsent
    · split
      · rename_i hflags
        exact hk.safe ⟨(Bool.and_eq_true_iff.mp hflags).2, hsent⟩
      · exact hk.safe_same hstate trivial
  | capsent =>
    rw [hc] at hstate hs
    dsimp only
    split
    · rename_i hflags
      exact hk.safe ⟨(Bool.and_eq_true_iff.mp hflags).2, hs.append _⟩
    · exact hk.safe_same hstate (hs.append _)
  | caprec =>
    rw [hc] at hstate hs
    obtain ⟨hp, hsent⟩ := hs
    -- an RG_CONNECT goes out whenever the state is left
    have hconn : (c.correspond iccRgId msg).statusCode = 0 →
        Sent.rgConnect ∈ sent ++ (c.correspond iccRgId msg).prepareIccpMsg.toList := by grind [Csm.prepareIccpMsg]
    dsimp only
    split
    · rename_i hflags
      exact hk.safe ⟨hcap hp, hsent.append _, hconn (eq_of_beq (Bool.and_eq_true_iff.mp hflags).2)⟩
    · split
      · rename_i hflags
        obtain ⟨hrg, h0⟩ := Bool.and_eq_true_iff.mp hflags
        have h0 := eq_of_beq h0
        exact hk.safe ⟨hcap hp, hsent.append _, hconn h0, hrg, hk.connected hrg (by rw [h0]; decide)⟩
      · exact hk.safe_same hstate ⟨hcap hp, hsent.append _⟩
  | connecting =>
    rw [hc] at hstate hs
    obtain ⟨hp, hsent, hconn⟩ := hs
    dsimp only
    split
    · exact hk.safe ⟨hcap hp, hsent.append _⟩
    · split
      · rename_i hflags
        obtain ⟨hrg, h0⟩ := Bool.and_eq_true_iff.mp hflags
        exact hk.safe ⟨hcap hp, hsent.append _, mem_append_left _ hconn, hrg,
          hk.connected hrg (by rw [eq_of_beq h0]; decide)⟩
      · exact hk.safe_same hstate ⟨hcap hp, hsent.append _, mem_append_left _ hconn⟩
  | operational =>
    rw [hc] at hstate hs
    obtain ⟨hp, hsent, hconn, -⟩ := hs
    dsimp only
    split
    · exact hk.safe ⟨hcap hp, hsent.append _⟩
    · rename_i hflags
      have hrg : (c.correspond iccRgId msg).peerRgConnectFlag = true := by simp_all
      exact hk.safe_same hstate ⟨hcap hp, hsent.append _, mem_append_left _ hconn, hrg, hop hc hrg⟩

theorem safe_step {s s' : Conn} {e : Event} (h : Safe iccRgId s) (hok : connOk iccRgId s e)
    (he : step iccRgId s e = some s') : Safe iccRgId s' := by
  cases e with
  | receive m toApp =>
    cases he
    have hq : ∃ q, s.csm.enqueueMsg m toApp = { s.csm with msgList := q } := by
      unfold Csm.enqueueMsg
      split
      · exact ⟨_, rfl⟩
      · split <;> exact ⟨_, rfl⟩
      · exact ⟨_, rfl⟩
    obtain ⟨q, hq⟩ := hq
    rw [hq]
    exact ⟨⟨h.known.capable, h.known.connected⟩, h.stands⟩
  | tick ready =>
    have h' : Safe iccRgId ⟨{ s.csm with msgList := s.csm.msgList.tail }, s.consumed, s.sent⟩ :=
      ⟨⟨h.known.capable, h.known.connected⟩, h.stands⟩
    have ht := h'.transitState ready hok
    have hs' : s' = ⟨(s.csm.transit iccRgId ready).1, s.consumed ++ s.csm.msgList.head?.toList,
      s.sent ++ (s.csm.transit iccRgId ready).2.toList⟩ := (Option.some.inj he).symm
    grind [Csm.transit, Safe.enterState]

theorem operational_of_run {es : List Event} {s : Conn} (hok : Along (step iccRgId) (connOk iccRgId) Conn.new es)
    (hr : run (step iccRgId) Conn.new es = some s) (ho : s.csm.currentState = .operational) :
    Capable s.consumed ∧ Connected iccRgId s.consumed ∧ (∃ b, Sent.capability b ∈ s.sent) ∧
      Sent.rgConnect ∈ s.sent := by
  have h : Safe iccRgId s := run_inv _ (fun _ _ _ hi hok he => safe_step hi hok he) (safe_new iccRgId) hok hr
  have hs := h.stands
  rw [ho] at hs
  obtain ⟨hp, hsent, hconn, -, hcon⟩ := hs
  exact ⟨h.known.capable hp, hcon, hsent, hconn⟩

end

def capabilityMsg : Msg := ⟨0, .capability ⟨1, 0, tlvIccpCapability, 4⟩ 1 1 0⟩
def rgConnectMsg (rgId : Nat) : Msg := ⟨rgId, .rgConnect ⟨0, 0, tlvIccSenderName, 3⟩⟩

def connects : List Event :=
  [.tick true, .receive capabilityMsg false, .tick true, .receive (rgConnectMsg 7) false, .tick true,
   .receive (rgConnectMsg 1) false, .tick true]

theorem operational_connects : ∃ s, run (step 1) Conn.new connects = some s ∧ s.csm.currentState = .operational ∧
    Capable s.consumed ∧ Connected 1 s.consumed ∧ (∃ b, Sent.capability b ∈ s.sent) ∧ Sent.rgConnect ∈ s.sent :=
  ⟨_, (Option.some_get (by decide +kernel)).symm, by decide +kernel,
    operational_of_run (by decide +kernel) (Option.some_get (by decide +kernel)).symm (by decide +kernel)⟩

def wrongGroup : List Event :=
  [.tick true, .receive capabilityMsg false, .tick true, .receive (rgConnectMsg 7) false, .tick true,
   .receive ⟨1, .notification⟩ false, .tick true]

theorem operational_wrong_group : ∃ s, run (step 1) Conn.new wrongGroup = some s ∧
    s.csm.currentState = .operational ∧ ¬ Connected 1 s.consumed := by
  refine ⟨_, (Option.some_get (by decide +kernel)).symm, by decide +kernel, ?_⟩
  rintro ⟨before, m, after, hsplit, hc, hid, -⟩
  have hm : m ∈ before ++ m :: after := by simp
  rw [← hsplit] at hm
  exact absurd ⟨hc, hid⟩ ((by decide +kernel : ∀ m ∈ _, ¬ (m.body.isRgConnect = true ∧ m.rgId = 1)) m hm)

end Sonic.Iccp
