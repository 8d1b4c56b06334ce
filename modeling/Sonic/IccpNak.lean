import Mathlib
import Sonic.Iccp
import Sonic.Mlacp
import Sonic.Ring

/-! # Rejected messages

A node answers a message it rejects with a NAK that names it by a message id. The other node looks
the id up in the log of what it has sent, and puts the NAK into the queue of the message it found.
The two nodes stay connected throughout. -/

namespace Sonic.IccpNak
open List

open Iccp (statusCodeUIccpRg)
open Mlacp (tlvMlacpConnect tlvMlacpMacInfo tlvMlacpListEnd maxMsgLogSize)

/-! ## Nodes -/

inductive MsgType where
  | capability
  | rgConnect
  | rgDisconnect
  | notification
  | rgAppData
  deriving DecidableEq

def tlvNak : Nat := 0x0002
def tlvMlacpSystemConfig : Nat := 0x0032
def tlvMlacpAggregatorConfig : Nat := 0x0036
def tlvMlacpAggregatorState : Nat := 0x0037
def tlvMlacpPortChannelInfo : Nat := 0x1034

def statusCodeIccpRejectedMsg : Nat := 0x00010006

structure Msg where
  msgType : MsgType
  msgId : Nat
  iccRgId : Nat
  tlv : Nat
  iccpStatusCode : Nat
  rejectedMsgId : Nat
  seq : Nat
  rejects : Option Nat
  deriving DecidableEq

structure MsgTypeSet where
  msgId : Nat
  type : Option MsgType
  tlv : Nat
  deriving DecidableEq

structure Node where
  iccRgId : Nat
  iccpMsgId : Nat
  msgLog : Ring MsgTypeSet maxMsgLogSize
  statusCode : Nat
  rejectedMsgId : Nat
  invalidMsgId : Nat
  msgList : List Msg
  appMsgList : List Msg
  mlacpMsgList : List Msg
  sent : List Msg
  rejected : Option Nat

def Msg.logged (m : Msg) : MsgTypeSet := ⟨m.msgId, some m.msgType, m.tlv⟩

namespace Node

def msgId (n : Node) : Nat := n.iccpMsgId % 2 ^ 32

def header (n : Node) (msgType : MsgType) (tlv : Nat) : Msg where
  msgType := msgType
  msgId := n.msgId
  iccRgId := n.iccRgId
  tlv := tlv
  iccpStatusCode := 0
  rejectedMsgId := 0
  seq := n.sent.length
  rejects := none

def iccpCsmSend (n : Node) (m : Msg) : Node :=
  { n with
    iccpMsgId := n.iccpMsgId + 1
    msgLog := n.msgLog.push m.logged
    sent := n.sent ++ [m] }

def iccpCsmPrepareNakMsg (n : Node) : Msg :=
  if n.statusCode = statusCodeUIccpRg then
    { n.header .notification tlvNak with
      iccpStatusCode := n.statusCode
      rejectedMsgId := n.rejectedMsgId
      rejects := n.rejected }
  else { n.header .notification tlvNak with rejects := n.rejected }

def appCsmPrepareNakMsg (n : Node) (m : Msg) : Msg :=
  { n.header .notification tlvNak with
    iccpStatusCode := statusCodeIccpRejectedMsg
    rejectedMsgId := n.invalidMsgId
    rejects := some m.seq }

def lookup (n : Node) (id : Nat) : Option Nat := n.msgLog.slots.findIdx? (·.msgId == id)

def found (n : Node) (id : Nat) : Option MsgTypeSet := (n.lookup id).bind (n.msgLog.slots[·]?)

inductive Queue where
  | connection
  | app
  | mlacp
  deriving DecidableEq

def insert (n : Node) (m : Msg) : Queue → Node
  | .connection => { n with msgList := n.msgList ++ [m] }
  | .app => { n with appMsgList := n.appMsgList ++ [m] }
  | .mlacp => { n with mlacpMsgList := n.mlacpMsgList ++ [m] }

def appCsmEnqueueMsg (n : Node) (m : Msg) : Node :=
  match m.msgType with
  | .rgAppData =>
    if tlvMlacpConnect < m.tlv ∧ m.tlv < tlvMlacpListEnd then n.insert m .mlacp else n.insert m .app
  | .notification =>
    match n.found m.rejectedMsgId with
    | some e =>
      if tlvMlacpConnect < e.tlv ∧ e.tlv ≤ tlvMlacpMacInfo then n.insert m .mlacp else n.insert m .app
    | none => n.insert m .app
  | _ => n

def iccpCsmEnqueueMsg (n : Node) (m : Msg) : Node :=
  match m.msgType with
  | .rgAppData => n.appCsmEnqueueMsg m
  | .notification =>
    if (n.found m.rejectedMsgId).bind (·.type) = some .rgAppData then n.appCsmEnqueueMsg m
    else n.insert m .connection
  | _ => n.insert m .connection

def iccpCsmCheckIdFromMsg (n : Node) (m : Msg) : Node :=
  if m.msgType = .capability then n
  else if m.iccRgId = n.iccRgId then
    if n.statusCode = statusCodeUIccpRg then { n with statusCode := 0, rejectedMsgId := 0, rejected := none } else n
  else
    { n with statusCode := statusCodeUIccpRg, rejectedMsgId := m.iccRgId, rejected := some m.seq }

end Node

def rejectable (tlv : Nat) : Bool :=
  tlv = tlvMlacpSystemConfig || tlv = tlvMlacpAggregatorConfig || tlv = tlvMlacpAggregatorState ||
    tlv = tlvMlacpPortChannelInfo

/-! ## Two nodes -/

structure Pair where
  left : Node
  right : Node
  toLeft : List Msg
  toRight : List Msg

def Pair.swap (p : Pair) : Pair := ⟨p.right, p.left, p.toRight, p.toLeft⟩

inductive Act where
  | take (ids : Nat)
  | send (msgType : MsgType) (tlv : Nat)
  | deliver
  | correspond
  | nak
  | receiver (error : Bool)
  deriving DecidableEq

def Pair.sends (p : Pair) (m : Msg) : Pair :=
  { p with left := p.left.iccpCsmSend m, toRight := p.toRight ++ [m] }

def Pair.act (p : Pair) : Act → Option Pair
  | .take ids => some { p with left := { p.left with iccpMsgId := p.left.iccpMsgId + ids } }
  | .send msgType tlv => if msgType = .notification then none else some (p.sends (p.left.header msgType tlv))
  | .deliver =>
    match p.toLeft with
    | [] => none
    | m :: ms => some { p with left := p.left.iccpCsmEnqueueMsg m, toLeft := ms }
  | .correspond =>
    match p.left.msgList with
    | [] => none
    | m :: ms => some { p with left := { p.left with msgList := ms }.iccpCsmCheckIdFromMsg m }
  | .nak => if 0 < p.left.statusCode then some (p.sends p.left.iccpCsmPrepareNakMsg) else none
  | .receiver error =>
    match p.left.mlacpMsgList with
    | [] => none
    | m :: ms =>
      let p := { p with left := { p.left with mlacpMsgList := ms } }
      if m.msgType = .notification ∧ m.tlv = tlvNak then some p
      else if rejectable m.tlv && error then
        let p := { p with left := { p.left with invalidMsgId := m.msgId } }
        some (p.sends (p.left.appCsmPrepareNakMsg m))
      else some p

inductive Side where
  | left
  | right
  deriving DecidableEq

def Pair.of (p : Pair) : Side → Pair
  | .left => p
  | .right => p.swap

def Pair.step (p : Pair) (e : Side × Act) : Option Pair := ((p.of e.1).act e.2).map (·.of e.1)

def Node.start (iccRgId iccpMsgId : Nat) : Node where
  iccRgId := iccRgId
  iccpMsgId := iccpMsgId
  msgLog := Ring.fill (by decide) ⟨0, none, 0⟩
  statusCode := 0
  rejectedMsgId := 0
  invalidMsgId := 0
  msgList := []
  appMsgList := []
  mlacpMsgList := []
  sent := []
  rejected := none

def Pair.start (a b : Node) : Pair := ⟨a, b, [], []⟩

/-! ## What a NAK should come to -/

def Msg.queue (m : Msg) : Node.Queue :=
  if m.msgType = .rgAppData then
    if tlvMlacpConnect < m.tlv ∧ m.tlv < tlvMlacpListEnd then .mlacp else .app
  else .connection

/-- The NAK `nak` for the `k`-th message that `n` has sent is taken for that message. -/
def Attributed (n : Node) (nak : Msg) (k : Nat) : Prop :=
  ∃ m, n.sent[k]? = some m ∧ n.lookup nak.rejectedMsgId = some (k % maxMsgLogSize) ∧
    n.iccpCsmEnqueueMsg nak = n.insert nak m.queue

/-- At each delivery of a NAK for one of the last messages. -/
def attributed (p : Pair) (e : Side × Act) : Prop :=
  e.2 = .deliver → ∀ nak naks k, (p.of e.1).toLeft = nak :: naks → nak.rejects = some k →
    (p.of e.1).left.sent.length ≤ k + maxMsgLogSize → Attributed (p.of e.1).left nak k

/-- The next id is none of those that stay in the log when it is taken. -/
def Node.Fresh (n : Node) : Prop := ∀ m ∈ n.sent.drop (n.sent.length + 1 - maxMsgLogSize), m.msgId ≠ n.msgId

/-- No message is rejected for its redundancy group, unless the number of the group happens to be its id. -/
def accepts (n : Node) : Prop :=
  ∀ m ∈ n.msgList.head?, m.msgType = .capability ∨ m.iccRgId = n.iccRgId ∨ m.iccRgId = m.msgId

instance (n : Node) : Decidable n.Fresh := inferInstanceAs (Decidable (∀ m ∈ _, _))
instance (n : Node) : Decidable (accepts n) := inferInstanceAs (Decidable (∀ m ∈ n.msgList.head?, _))

def Act.sends : Act → Bool
  | .send _ _ => true
  | .nak => true
  | .receiver error => error
  | _ => false

def ok (p : Pair) (e : Side × Act) : Prop :=
  (e.2.sends = true → (p.of e.1).left.Fresh) ∧ (e.2 = .correspond → accepts (p.of e.1).left)

instance (p : Pair) (e : Side × Act) : Decidable (ok p e) := inferInstanceAs (Decidable (_ ∧ _))

/-! ## A node and its log -/

structure Own (n : Node) : Prop where
  log : Ring.Holds n.msgLog (n.sent.map Msg.logged)
  seq : ∀ (k : Nat) (m : Msg), n.sent[k]? = some m → m.seq = k
  distinct : ∀ (i j : Nat) (m m' : Msg), n.sent.length ≤ i + maxMsgLogSize → n.sent.length ≤ j + maxMsgLogSize →
    n.sent[i]? = some m → n.sent[j]? = some m' → m.msgId = m'.msgId → i = j

theorem own_start (iccRgId iccpMsgId : Nat) : Own (Node.start iccRgId iccpMsgId) :=
  ⟨Ring.holds_fill _ _, nofun, nofun⟩

theorem Own.congr {n n' : Node} (h : Own n) (hlog : n'.msgLog = n.msgLog) (hsent : n'.sent = n.sent) : Own n' := by
  obtain ⟨h1, h2, h3⟩ := h
  constructor <;> rw [hsent]
  · rwa [hlog]
  · exact h2
  · exact h3

theorem getElem?_snoc {α : Type*} {l : List α} {x y : α} {k : Nat} (h : (l ++ [x])[k]? = some y) :
    k < l.length ∧ l[k]? = some y ∨ k = l.length ∧ y = x := by
  rcases Nat.lt_or_ge k l.length with hk | hk <;> grind

theorem Node.Fresh.ne {n : Node} (h : n.Fresh) {j : Nat} {m : Msg} (hj : n.sent.length + 1 ≤ j + maxMsgLogSize)
    (hm : n.sent[j]? = some m) : m.msgId ≠ n.msgId := by
  apply h
  apply mem_of_getElem? (i := j - (n.sent.length + 1 - maxMsgLogSize))
  simp_all

theorem Own.send {n : Node} (h : Own n) (hf : n.Fresh) {m : Msg} (hseq : m.seq = n.sent.length)
    (hid : m.msgId = n.msgId) : Own (n.iccpCsmSend m) where
  log := by
    show Ring.Holds (n.msgLog.push m.logged) ((n.sent ++ [m]).map Msg.logged)
    grind [Ring.holds_push, h.log]
  seq k m' hk := by
    rcases getElem?_snoc hk with ⟨-, hk⟩ | ⟨rfl, rfl⟩ <;> grind [h.seq]
  distinct i j mi mj hi hj hmi hmj he := by
    have hlen : (n.iccpCsmSend m).sent.length = n.sent.length + 1 := length_append
    rw [hlen] at hi hj
    -- the new message has an id that the others in the log do not have
    rcases getElem?_snoc hmi with ⟨hil, hi'⟩ | ⟨rfl, hi'⟩ <;> rcases getElem?_snoc hmj with ⟨hjl, hj'⟩ | ⟨rfl, hj'⟩
    · exact h.distinct i j mi mj (by omega) (by omega) hi' hj' he
    · exact absurd (he.trans (hj' ▸ hid)) (hf.ne hi hi')
    · grind [Sonic.IccpNak.Node.Fresh.ne]
    · rfl

section
variable {n : Node} {m : Msg} {k : Nat}

theorem Own.lookup_eq (h : Own n) (hk : n.sent[k]? = some m) (hw : n.sent.length ≤ k + maxMsgLogSize) :
    n.lookup m.msgId = some (k % maxMsgLogSize) := by
  have hmap (j : Nat) (b : MsgTypeSet) (hb : (n.sent.map Msg.logged)[j]? = some b) :
      ∃ m', n.sent[j]? = some m' ∧ m'.logged = b := by grind
  refine h.log.findIdx?_eq (a := m.logged) ?_ ?_ (beq_self_eq_true _) ?_
  · rw [List.getElem?_map, hk]
    rfl
  · rwa [length_map]
  · intro j b hj hb he
    obtain ⟨m', hm', rfl⟩ := hmap j b hb
    rw [length_map] at hj
    exact h.distinct j k m' m hj hw hm' hk (beq_iff_eq.mp he)

theorem Own.found_eq (h : Own n) (hk : n.sent[k]? = some m) (hw : n.sent.length ≤ k + maxMsgLogSize) :
    n.found m.msgId = some m.logged := by
  have hlt : k < n.sent.length := (List.getElem?_eq_some_iff.mp hk).1
  rw [Node.found, h.lookup_eq hk hw, Option.bind_some, h.log.slot k (by simp_all)
    (by simp_all), List.getElem?_map, hk]
  rfl

end

theorem rejectable_range {tlv : Nat} (h : rejectable tlv = true) :
    tlvMlacpConnect < tlv ∧ tlv ≤ tlvMlacpMacInfo ∧ tlv < tlvMlacpListEnd := by
  simp only [rejectable, Bool.or_eq_true, decide_eq_true_eq] at h
  rcases h with ((rfl | rfl) | rfl) | rfl <;> decide

def Named (n : Node) (k id : Nat) : Prop :=
  ∃ m, n.sent[k]? = some m ∧ id = m.msgId ∧ (m.msgType = .rgAppData → rejectable m.tlv = true)

theorem Own.attributed {n : Node} (h : Own n) {nak : Msg} {k : Nat} (htype : nak.msgType = .notification)
    (hn : Named n k nak.rejectedMsgId) (hw : n.sent.length ≤ k + maxMsgLogSize) : Attributed n nak k := by
  obtain ⟨m, hk, hid, hrej⟩ := hn
  have hfound := h.found_eq hk hw
  rw [← hid] at hfound
  refine ⟨m, hk, by rw [hid]; exact h.lookup_eq hk hw, ?_⟩
  simp only [Node.iccpCsmEnqueueMsg, htype, hfound, Msg.logged, Option.bind_some, Option.some.injEq, Msg.queue]
  by_cases happ : m.msgType = .rgAppData <;> simp_all [rejectable_range, Node.appCsmEnqueueMsg, Msg.logged]

/-! ## Messages from one node to the other -/

structure Flow (a b : Node) (wire : List Msg) : Prop where
  wire : ∀ m ∈ wire, a.sent[m.seq]? = some m
  connection : ∀ m ∈ b.msgList, a.sent[m.seq]? = some m ∧ m.msgType ≠ .rgAppData
  mlacp : ∀ m ∈ b.mlacpMsgList, a.sent[m.seq]? = some m
  rejected : ∀ k, b.rejected = some k → b.statusCode = statusCodeUIccpRg ∧ Named a k b.rejectedMsgId
  naks : ∀ m ∈ b.sent, ∀ k, m.rejects = some k → m.msgType = .notification ∧ Named a k m.rejectedMsgId

theorem sent_iccpCsmSend {n : Node} (m : Msg) {k : Nat} {m' : Msg} (h : n.sent[k]? = some m') :
    (n.iccpCsmSend m).sent[k]? = some m' := by
  show (n.sent ++ [m])[k]? = some m'
  grind

theorem Named.send {n : Node} {k id : Nat} (h : Named n k id) (m : Msg) : Named (n.iccpCsmSend m) k id := by
  obtain ⟨m', hk, hid, hrej⟩ := h
  exact ⟨m', sent_iccpCsmSend m hk, hid, hrej⟩

theorem Node.enqueue_insert (n : Node) (m : Msg) :
    ∃ q, n.iccpCsmEnqueueMsg m = n.insert m q ∧ (q = .connection → m.msgType ≠ .rgAppData) := by
  rw [Node.iccpCsmEnqueueMsg, Node.appCsmEnqueueMsg]
  cases ht : m.msgType with
  | rgAppData =>
    dsimp only
    split <;> grind
  | notification =>
    dsimp only
    split
    · split
      · split <;> simp_all
      · simp_all
    · simp_all
  | _ => simp_all

theorem Node.enqueue_frame (n : Node) (m : Msg) :
    (n.iccpCsmEnqueueMsg m).msgLog = n.msgLog ∧ (n.iccpCsmEnqueueMsg m).sent = n.sent := by
  obtain ⟨q, hq, -⟩ := n.enqueue_insert m
  rw [hq]
  cases q <;> exact ⟨rfl, rfl⟩

theorem Node.checkId_frame (n : Node) (m : Msg) :
    (n.iccpCsmCheckIdFromMsg m).msgLog = n.msgLog ∧ (n.iccpCsmCheckIdFromMsg m).sent = n.sent := by
  grind [Node.iccpCsmCheckIdFromMsg]

section
variable {a b : Node} {w : List Msg} {m : Msg}

theorem Flow.send (h : Flow a b w) (hseq : m.seq = a.sent.length) : Flow (a.iccpCsmSend m) b (w ++ [m]) where
  wire m' hm' := by
    rcases List.mem_append.mp hm' with hm' | hm'
    · exact sent_iccpCsmSend m (h.wire m' hm')
    · obtain rfl := List.mem_singleton.mp hm'
      show (a.sent ++ [m'])[m'.seq]? = some m'
      simp_all
  connection m' hm' := ⟨sent_iccpCsmSend m (h.connection m' hm').1, (h.connection m' hm').2⟩
  mlacp m' hm' := sent_iccpCsmSend m (h.mlacp m' hm')
  rejected k hk := ⟨(h.rejected k hk).1, (h.rejected k hk).2.send m⟩
  naks m' hm' k hk := ⟨(h.naks m' hm' k hk).1, (h.naks m' hm' k hk).2.send m⟩

theorem Flow.congr {a' : Node} (h : Flow a b w) (hsent : a'.sent = a.sent) : Flow a' b w := by
  obtain ⟨h1, h2, h3, h4, h5⟩ := h
  have hnamed (k id : Nat) : Named a k id → Named a' k id := by grind [Named]
  refine ⟨?_, ?_, ?_, fun k hk => ⟨(h4 k hk).1, hnamed _ _ (h4 k hk).2⟩,
    fun m hm k hk => ⟨(h5 m hm k hk).1, hnamed _ _ (h5 m hm k hk).2⟩⟩ <;> rwa [hsent]

theorem Flow.reply (h : Flow a b w)
    (hm : ∀ k, m.rejects = some k → m.msgType = .notification ∧ Named a k m.rejectedMsgId) :
    Flow a (b.iccpCsmSend m) w where
  wire := h.wire
  connection := h.connection
  mlacp := h.mlacp
  rejected := h.rejected
  naks m' hm' := by
    rcases List.mem_append.mp hm' with hm' | hm' <;> simp_all [h.naks]

theorem Flow.deliver (h : Flow a b (m :: w)) : Flow a (b.iccpCsmEnqueueMsg m) w := by
  obtain ⟨q, hq, hconn⟩ := b.enqueue_insert m
  have hm := h.wire m mem_cons_self
  have hw : ∀ m' ∈ w, a.sent[m'.seq]? = some m' := fun m' hm' => h.wire m' (mem_cons_of_mem _ hm')
  rw [hq]
  cases q with
  | connection =>
    refine ⟨hw, fun m' hm' => ?_, h.mlacp, h.rejected, h.naks⟩
    rcases List.mem_append.mp hm' with hm' | hm'
    · exact h.connection m' hm'
    · grind
  | app => exact ⟨hw, h.connection, h.mlacp, h.rejected, h.naks⟩
  | mlacp =>
    refine ⟨hw, h.connection, fun m' hm' => ?_, h.rejected, h.naks⟩
    rcases List.mem_append.mp hm' with hm' | hm'
    · exact h.mlacp m' hm'
    · grind

theorem Flow.correspond {ms : List Msg} (h : Flow a b w) (hb : b.msgList = m :: ms)
    (hok : m.msgType = .capability ∨ m.iccRgId = b.iccRgId ∨ m.iccRgId = m.msgId) :
    Flow a ({ b with msgList := ms }.iccpCsmCheckIdFromMsg m) w := by
  obtain ⟨hm, htype⟩ := h.connection m (hb ▸ mem_cons_self)
  have hms : ∀ m' ∈ ms, a.sent[m'.seq]? = some m' ∧ m'.msgType ≠ .rgAppData :=
    fun m' hm' => h.connection m' (hb ▸ mem_cons_of_mem _ hm')
  rw [Node.iccpCsmCheckIdFromMsg]
  split
  · exact ⟨h.wire, hms, h.mlacp, h.rejected, h.naks⟩
  next hcap =>
    split
    · split
      · exact ⟨h.wire, hms, h.mlacp, nofun, h.naks⟩
      · exact ⟨h.wire, hms, h.mlacp, h.rejected, h.naks⟩
    next hrg =>
      have hid : m.iccRgId = m.msgId := (hok.resolve_left hcap).resolve_left hrg
      refine ⟨h.wire, hms, h.mlacp, fun k hk => ?_, h.naks⟩
      cases hk
      exact ⟨rfl, m, hm, hid, fun happ => absurd happ htype⟩

end

/-! ## Runs -/

structure Inv (p : Pair) : Prop where
  left : Own p.left
  right : Own p.right
  toRight : Flow p.left p.right p.toRight
  toLeft : Flow p.right p.left p.toLeft

theorem Inv.swap {p : Pair} (h : Inv p) : Inv p.swap := ⟨h.right, h.left, h.toLeft, h.toRight⟩

theorem Inv.of {p : Pair} (h : Inv p) : ∀ s : Side, Inv (p.of s)
  | .left => h
  | .right => h.swap

theorem Inv.sends {p : Pair} (h : Inv p) (hf : p.left.Fresh) {m : Msg} (hseq : m.seq = p.left.sent.length)
    (hid : m.msgId = p.left.msgId)
    (hm : ∀ k, m.rejects = some k → m.msgType = .notification ∧ Named p.right k m.rejectedMsgId) :
    Inv (p.sends m) :=
  ⟨h.left.send hf hseq hid, h.right, h.toRight.send hseq, h.toLeft.reply hm⟩

theorem Inv.receives {p : Pair} (h : Inv p) {n : Node} {w : List Msg} (hlog : n.msgLog = p.left.msgLog)
    (hsent : n.sent = p.left.sent) (hflow : Flow p.right n w) : Inv { p with left := n, toLeft := w } :=
  ⟨h.left.congr hlog hsent, h.right, h.toRight.congr hsent, hflow⟩

theorem Node.nak_seq (n : Node) : n.iccpCsmPrepareNakMsg.seq = n.sent.length := by
  rw [Node.iccpCsmPrepareNakMsg]
  split <;> rfl

theorem Node.nak_msgId (n : Node) : n.iccpCsmPrepareNakMsg.msgId = n.msgId := by
  rw [Node.iccpCsmPrepareNakMsg]
  split <;> rfl

theorem Flow.nak {a b : Node} {w : List Msg} (h : Flow a b w) {k : Nat} (hk : b.iccpCsmPrepareNakMsg.rejects = some k) :
    b.iccpCsmPrepareNakMsg.msgType = .notification ∧ Named a k b.iccpCsmPrepareNakMsg.rejectedMsgId := by
  rw [Node.iccpCsmPrepareNakMsg] at hk ⊢
  split at hk
  next hs =>
    rw [if_pos hs]
    exact ⟨rfl, (h.rejected k hk).2⟩
  simp_all [h.rejected]

theorem Inv.act {p p' : Pair} {e : Act} (h : Inv p) (hf : e.sends = true → p.left.Fresh)
    (hok : e = .correspond → accepts p.left) (hact : p.act e = some p') : Inv p' := by
  obtain ⟨hw, hc, hml, hrej, hnaks⟩ := h.toLeft
  cases e with
  | take ids =>
    cases hact
    exact h.receives rfl rfl ⟨hw, hc, hml, hrej, hnaks⟩
  | send msgType tlv =>
    rw [Pair.act] at hact
    split at hact
    · cases hact
    · cases hact
      exact h.sends (hf rfl) rfl rfl nofun
  | deliver =>
    rw [Pair.act] at hact
    split at hact
    · cases hact
    next m ms hms =>
      cases hact
      have hflow := h.toLeft
      rw [hms] at hflow
      exact h.receives (p.left.enqueue_frame m).1 (p.left.enqueue_frame m).2 hflow.deliver
  | correspond =>
    rw [Pair.act] at hact
    split at hact
    · cases hact
    next m ms hms =>
      cases hact
      have hframe := { p.left with msgList := ms }.checkId_frame m
      exact h.receives hframe.1 hframe.2 (h.toLeft.correspond hms (hok rfl m (by rw [hms]; rfl)))
  | nak =>
    rw [Pair.act] at hact
    split at hact
    · cases hact
      exact h.sends (hf rfl) p.left.nak_seq p.left.nak_msgId fun k => h.toLeft.nak
    · cases hact
  | receiver error =>
    rw [Pair.act] at hact
    split at hact
    · cases hact
    next m ms hms =>
      have hms' : ∀ m' ∈ ms, p.right.sent[m'.seq]? = some m' := fun m' hm' => hml m' (hms ▸ mem_cons_of_mem _ hm')
      -- with the message taken out, and with its id noted for the NAK
      have hout : Inv { p with left := { p.left with mlacpMsgList := ms } } :=
        h.receives rfl rfl ⟨hw, hc, hms', hrej, hnaks⟩
      dsimp only at hact
      split at hact
      · cases hact
        exact hout
      · split at hact
        next herr =>
          cases hact
          have hnoted : Inv { p with left := { p.left with mlacpMsgList := ms, invalidMsgId := m.msgId } } :=
            h.receives rfl rfl ⟨hw, hc, hms', hrej, hnaks⟩
          rw [Bool.and_eq_true] at herr
          refine hnoted.sends (hf herr.2) rfl rfl fun k hk => ?_
          cases hk
          exact ⟨rfl, m, hml m (hms ▸ mem_cons_self), rfl, fun _ => herr.1⟩
        · cases hact
          exact hout

theorem Inv.step {p p' : Pair} {e : Side × Act} (h : Inv p) (hok : ok p e) (hs : p.step e = some p') : Inv p' := by
  obtain ⟨q, hq, rfl⟩ := Option.map_eq_some_iff.mp hs
  exact ((h.of e.1).act hok.1 hok.2 hq).of e.1

theorem Inv.attributed {p : Pair} {e : Side × Act} (h : Inv p) : attributed p e := by
  intro _ nak naks k hto hk hw
  obtain ⟨hown, -, -, hflow⟩ := h.of e.1
  have hsent : nak ∈ (p.of e.1).right.sent := by
    have := hflow.wire nak (hto ▸ mem_cons_self)
    grind
  -- the NAK was sent by the right node and names a message of the left
  obtain ⟨htype, hnamed⟩ := (h.of e.1).toRight.naks nak hsent k hk
  exact hown.attributed htype hnamed hw

theorem inv_start (rg id rg' id' : Nat) : Inv (Pair.start (Node.start rg id) (Node.start rg' id')) :=
  ⟨own_start _ _, own_start _ _, ⟨nofun, nofun, nofun, nofun, nofun⟩, ⟨nofun, nofun, nofun, nofun, nofun⟩⟩

theorem nak_attributed (rg id rg' id' : Nat) (es : List (Side × Act))
    (hok : Along Pair.step ok (Pair.start (Node.start rg id) (Node.start rg' id')) es) :
    Along Pair.step attributed (Pair.start (Node.start rg id) (Node.start rg' id')) es :=
  along_inv Pair.step (fun _ _ _ h hok hs => h.step hok hs) (fun _ _ h _ => h.attributed) (inv_start rg id rg' id') hok

theorem nak_attributed_aggConf :
    Along Pair.step attributed (Pair.start (Node.start 100 1) (Node.start 100 7))
        [(.left, .send .rgAppData tlvMlacpAggregatorConfig), (.right, .deliver), (.right, .receiver true),
          (.left, .deliver)] ∧
      ((run Pair.step (Pair.start (Node.start 100 1) (Node.start 100 7))
        [(.left, .send .rgAppData tlvMlacpAggregatorConfig), (.right, .deliver), (.right, .receiver true),
          (.left, .deliver)]).map fun p => p.left.mlacpMsgList.map (·.rejectedMsgId)) = some [1] :=
  ⟨nak_attributed 100 1 100 7 _ (by decide +kernel), by decide +kernel⟩

theorem nak_names_group :
    ¬ Along Pair.step attributed (Pair.start (Node.start 100 1) (Node.start 200 1))
      ([(.left, .send .capability 0x0700), (.left, .send .rgConnect 0x0001), (.right, .deliver), (.right, .deliver),
        (.right, .correspond), (.right, .correspond), (.right, .nak)] ++ [(.left, .deliver)]) := by
  intro h
  have hlast := along_last Pair.step h rfl
  obtain ⟨m, -, hlookup, -⟩ := hlast rfl _ _ 1 rfl rfl (by decide +kernel)
  exact absurd hlookup (by decide +kernel)

end Sonic.IccpNak
