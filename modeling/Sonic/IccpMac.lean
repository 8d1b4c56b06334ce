import Sonic.Dict
import Sonic.Run
import Sonic.Text

/-! # The MAC table of iccpd

An entry carries two age flags, one for each switch, and is dropped when both are set. A change that
the peer has to know is queued as a reference to the entry, so that the message is made from the
entry as it is when the queue is sent. -/

namespace Sonic.IccpMac

/-! ## Entries -/

structure Key where
  vid : Nat
  mac : Nat
  deriving DecidableEq

inductive Op where
  | add
  | del
  deriving DecidableEq

inductive FdbType where
  | static
  | dynamic
  deriving DecidableEq

structure AgeFlag where
  localAged : Bool
  peerAged : Bool
  deriving DecidableEq

/-- `MAC_AGE_LOCAL | MAC_AGE_PEER` -/
def AgeFlag.both : AgeFlag := ⟨true, true⟩

/-- The operation is unset in an entry that the peer sent. -/
structure MacMsg where
  opType : Option Op
  fdbType : FdbType
  ifname : Str
  originIfname : Str
  ageFlag : AgeFlag
  pendingLocalDel : Bool
  deriving DecidableEq

inductive PortState where
  | up
  | down
  deriving DecidableEq

structure LocalInterface where
  state : PortState
  -- a port-channel of the MLACP interface list
  mclag : Bool
  deriving DecidableEq

/-- What the handlers read beside the table. -/
structure Env where
  peerItfName : Str
  lifs : Dict Str LocalInterface
  pifs : Dict Str PortState
  exchange : Bool

def Env.fromMclagIntf (env : Env) (ifname : Str) : Bool := ((env.lifs.get? ifname).map LocalInterface.mclag).getD false

def Env.lifDown (env : Env) (ifname : Str) : Bool := (env.lifs.get? ifname).map LocalInterface.state = some .down

/-- What a handler does to an entry: its new content, whether it is queued for the peer, and whether
it is dropped. -/
structure Effect where
  entry : MacMsg
  queued : Bool
  removed : Bool

def MacMsg.keep (m : MacMsg) : Effect := ⟨m, false, false⟩

def setMacLocalAgeFlag (env : Env) (set : Bool) (f : Effect) : Effect :=
  if f.entry.ageFlag.localAged = set then f
  else
    let m := { f.entry with ageFlag := { f.entry.ageFlag with localAged := set } }
    if env.exchange then { f with entry := { m with opType := some (if set then .del else .add) }, queued := true }
    else { f with entry := m }

/-- An entry that is aged on both switches is dropped. -/
def Effect.dropAged (f : Effect) : Effect := if f.entry.ageFlag = .both then { f with removed := true } else f

def Effect.modify (f : Effect) (g : MacMsg → MacMsg) : Effect := { f with entry := g f.entry }

/-- MAC_SYNC_ADD of mclagsyncd for an entry that is there. -/
def syncdAdd (env : Env) (ifname : Str) (fdbType : FdbType) (info : MacMsg) : Effect :=
  if env.lifDown ifname ∧ env.fromMclagIntf ifname ∧ env.pifs.get? ifname = some .up then
    { info with
      pendingLocalDel := true, fdbType := fdbType, originIfname := ifname, ifname := env.peerItfName }.keep
  else if info.fdbType ≠ fdbType ∨ info.ifname ≠ ifname ∨ info.originIfname ≠ ifname then
    -- the flag that is tested here is that of the message and never set
    (setMacLocalAgeFlag env false
      { info with fdbType := fdbType, ifname := ifname, originIfname := ifname }.keep).modify
        fun m => { m with ageFlag := ⟨false, true⟩ }
  else setMacLocalAgeFlag env false info.keep

/-- MAC_SYNC_DEL of mclagsyncd. -/
def syncdDel (env : Env) (ifname : Str) (info : MacMsg) : Effect :=
  if info.ifname = env.peerItfName then
    if info.pendingLocalDel then info.keep else (setMacLocalAgeFlag env true info.keep).dropAged
  else
    let f := setMacLocalAgeFlag env true info.keep
    if f.entry.ageFlag = .both then f.dropAged
    else if ifname ≠ env.peerItfName ∧ env.fromMclagIntf ifname ∧ env.lifDown ifname ∧ env.peerItfName ≠ [] then
      f.modify fun m => { m with ifname := env.peerItfName }
    else f

/-- The flag of the peer is removed; an entry that was to be deleted is aged here instead. -/
def clearPeerAge (env : Env) (ifname : Str) (m : MacMsg) : Effect :=
  if env.fromMclagIntf ifname ∧ m.pendingLocalDel then
    ⟨{ m with pendingLocalDel := false, ageFlag := ⟨true, false⟩, opType := some .del }, true, false⟩
  else { m with ageFlag := { m.ageFlag with peerAged := false } }.keep

/-- An entry of another port goes to the port of the peer, or to the peer link where that port is
not usable. -/
def takePort (env : Env) (ifname : Str) (f : Effect) : Effect :=
  if env.fromMclagIntf ifname = false ∨ env.lifDown ifname then
    if env.peerItfName ≠ [] then
      (setMacLocalAgeFlag env true f).modify fun m => { m with originIfname := ifname, ifname := env.peerItfName }
    else if env.fromMclagIntf ifname then
      (setMacLocalAgeFlag env true f).modify fun m => { m with originIfname := ifname, ifname := ifname }
    else
      { (setMacLocalAgeFlag env true f).modify fun m => { m with originIfname := ifname, ifname := ifname } with
        removed := true }
  else f.modify fun m => { m with originIfname := ifname, ifname := ifname }

/-- MAC_SYNC_ADD of the peer for an entry that is there. -/
def peerAdd (env : Env) (ifname : Str) (m : MacMsg) : Effect :=
  if m.ifname ≠ ifname ∨ m.originIfname ≠ ifname then
    if m.fdbType = .static then
      (clearPeerAge env ifname m).modify fun m => { m with ageFlag := { m.ageFlag with peerAged := true } }
    else takePort env ifname (clearPeerAge env ifname m)
  else if env.fromMclagIntf ifname = false ∧ env.peerItfName ≠ [] then
    (clearPeerAge env ifname m).modify fun m => { m with ifname := env.peerItfName }
  else clearPeerAge env ifname m

def peerDel (m : MacMsg) : Effect :=
  { m with ageFlag := { m.ageFlag with peerAged := true } }.keep.dropAged

/-- A port-channel goes down or comes up: one turn of `update_l2_mac_state`. -/
def updateL2MacState (env : Env) (name : Str) (poState : Bool) (m : MacMsg) : Effect :=
  if m.originIfname ≠ name then m.keep
  else if poState then
    if m.ifname = env.peerItfName then { m with pendingLocalDel := false, ifname := m.originIfname }.keep
    else if m.pendingLocalDel then
      if m.fdbType = .static then { m with pendingLocalDel := false }.keep
      else ⟨{ m with opType := some .del }, false, true⟩
    else m.keep
  else if m.ageFlag = ⟨false, true⟩ ∧ env.pifs.get? name = some .up then
    { m with ifname := env.peerItfName, pendingLocalDel := true }.keep
  else
    let f := setMacLocalAgeFlag env true m.keep
    if f.entry.ageFlag = .both then f.dropAged
    else if env.peerItfName ≠ [] then f.modify fun m => { m with ifname := env.peerItfName }
    else f

/-- One turn of `mlacp_peer_disconn_fdb_handler`. -/
def peerDisconnFdb (env : Env) (m : MacMsg) : Effect :=
  if m.ifname = env.peerItfName then
    let m := { m with ageFlag := { m.ageFlag with peerAged := true } }
    ⟨m, false, m.ageFlag = .both ∨ m.pendingLocalDel⟩
  else if m.ageFlag = ⟨false, false⟩ ∨ m.ageFlag = ⟨true, false⟩ then { m with ageFlag := ⟨false, true⟩ }.keep
  else m.keep

/-- One turn of `mlacp_peerlink_down_handler`. -/
def peerlinkDown (env : Env) (m : MacMsg) : Effect :=
  if m.ifname ≠ env.peerItfName then m.keep
  else if m.pendingLocalDel then m.keep.dropAged
  else (setMacLocalAgeFlag env true m.keep).dropAged

/-! ## The table and the queue -/

/-- A reference in `mac_msg_list`: to the entry of the table, or to one that was dropped since. -/
inductive Item where
  | live (k : Key)
  | gone (k : Key) (m : MacMsg)
  deriving DecidableEq

structure Node where
  env : Env
  macRb : Dict Key MacMsg
  macMsgList : List Item

def Node.enqueue (s : Node) (k : Key) : List Item :=
  if .live k ∈ s.macMsgList then s.macMsgList else s.macMsgList ++ [.live k]

def Node.apply (s : Node) (k : Key) (f : Effect) : Node :=
  let list := if f.queued then s.enqueue k else s.macMsgList
  if f.removed then
    { s with macRb := s.macRb.erase k, macMsgList := list.map fun i => if i = .live k then .gone k f.entry else i }
  else { s with macRb := s.macRb.set k f.entry, macMsgList := list }

def Node.change (s : Node) (k : Key) (f : MacMsg → Effect) : Node :=
  match s.macRb.get? k with
  | some m => s.apply k (f m)
  | none => s

/-- `RB_FOREACH_SAFE` -/
def Node.forEach (s : Node) (f : MacMsg → Effect) : Node := s.macRb.keys.foldl (fun s k => s.change k f) s

/-- A new entry of mclagsyncd. What is changed in the message after the entry is made from it is
lost. -/
def Node.learn (s : Node) (k : Key) (ifname : Str) (fdbType : FdbType) : Node :=
  if s.env.fromMclagIntf ifname ∧ s.env.lifDown ifname ∧ s.env.pifs.get? ifname = some .down then s
  else
    let m : MacMsg := ⟨some .add, fdbType, ifname, ifname, ⟨false, true⟩, false⟩
    s.apply k ⟨m, !s.env.lifDown ifname && s.env.exchange, false⟩

def doMacUpdateFromSyncd (s : Node) (k : Key) (ifname : Str) (fdbType : FdbType) (opType : Op) : Node :=
  if k.mac = 0 then s
  else
    match opType with
    | .add =>
      if s.env.lifs.get? ifname |>.isNone then s
      else if ifname = s.env.peerItfName then s
      else if (s.macRb.get? k).isSome then s.change k (syncdAdd s.env ifname fdbType)
      else s.learn k ifname fdbType
    | .del => s.change k (syncdDel s.env ifname)

structure MacData where
  key : Key
  type : Option Op
  macType : FdbType
  ifname : Str
  deriving DecidableEq

/-- A new entry of the peer. -/
def Node.learnPeer (s : Node) (d : MacData) : Node :=
  let m : MacMsg := ⟨none, d.macType, d.ifname, d.ifname, ⟨true, false⟩, false⟩
  if s.env.fromMclagIntf d.ifname = false ∨ s.env.lifDown d.ifname then
    if s.env.peerItfName = [] then if s.env.fromMclagIntf d.ifname then s.apply d.key m.keep else s
    else s.apply d.key { m with ifname := s.env.peerItfName }.keep
  else s.apply d.key m.keep

def updateMacEntryFromPeer (s : Node) (d : MacData) : Node :=
  if d.key.mac = 0 then s
  else
    match d.type with
    | some .add =>
      if (s.macRb.get? d.key).isSome then s.change d.key (peerAdd s.env d.ifname) else s.learnPeer d
    | some .del => s.change d.key peerDel
    | none => s

def MacMsg.data (m : MacMsg) (k : Key) : MacData := ⟨k, m.opType, m.fdbType, m.originIfname⟩

def Node.message (s : Node) : Item → Option MacData
  | .live k => (s.macRb.get? k).map (·.data k)
  | .gone k m => some (m.data k)

/-- `mlacp_sync_send_syncMacInfo`: the messages and the node. -/
def syncSendSyncMacInfo (s : Node) : List MacData × Node :=
  (s.macMsgList.filterMap s.message, { s with macMsgList := [] })

end Sonic.IccpMac
