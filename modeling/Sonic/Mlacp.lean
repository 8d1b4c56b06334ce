import Mathlib.Data.List.Dedup
import Sonic.Run
import Sonic.Text

/-! # The mLACP state machine of iccpd

`src/iccpd/src/mlacp_fsm.c`: one node keeps a session with its MC-LAG peer, answers the peer's
synchronisation request, sends its own, and then exchanges updates. `Node` is `struct mLACP` with
the fields of `struct CSM` it reads. A node writes to its socket by adding to `outbox`. The MAC, ARP
and ND tables, the kernel and the ASIC are behind `Handlers`: what their update functions do to the
local lists and which neighbour messages they send is arbitrary. -/

namespace Sonic.Mlacp

/-! ## Messages -/

abbrev Mac := BitVec 48

inductive IfType
  | port | portChannel | vlan | vxlan | bridge
  deriving DecidableEq

def portStateUp : UInt8 := 0x00

/-- A VLAN tree: distinct 12-bit identifiers. -/
abbrev VlanTree := { l : List Nat // l.Nodup ∧ ∀ v ∈ l, v < 4096 }

structure ArpMsg where
  opType : UInt8
  flag : UInt8
  ifname : Str
  ipv4Addr : BitVec 32
  macAddr : Mac
  deriving DecidableEq

structure NdiscMsg where
  opType : UInt8
  flag : UInt8
  ifname : Str
  ipv6Addr : BitVec 128
  macAddr : Mac
  deriving DecidableEq

structure MacMsg where
  opType : UInt8
  fdbType : UInt8
  macAddr : Mac
  vid : UInt16
  originIfname : Str
  deriving DecidableEq

inductive NeighInfo
  | mac (entries : List MacMsg)
  | arp (entries : List ArpMsg)
  | ndisc (entries : List NdiscMsg)
  deriving DecidableEq

def NeighInfo.length : NeighInfo → Nat
  | .mac l => l.length
  | .arp l => l.length
  | .ndisc l => l.length

def NeighInfo.take (k : Nat) : NeighInfo → NeighInfo
  | .mac l => .mac (l.take k)
  | .arp l => .arp (l.take k)
  | .ndisc l => .ndisc (l.take k)

/-- The flags `mlacp_prepare_for_Aggport_config` writes: `0x1` and `0x02`. -/
inductive AggFlag
  | add | purge
  deriving DecidableEq

/-- The TLV after the ICC header. The count of a variable-length TLV is its own field: a received
count need not match the data. -/
inductive Tlv
  | nak
  | systemConfig (sysId : Mac) (sysPriority : UInt16) (nodeId : UInt8)
  | portConfig
  | portPriority
  | portState
  | aggregatorConfig (flags : AggFlag) (aggId : UInt16) (aggName : Str) (macAddr : Mac)
  | aggregatorState (aggId : UInt16) (aggState : UInt8)
  | syncRequest (reqNum : UInt16)
  | syncData (reqNum flags : UInt16)
  | heartbeat
  | portChannelInfo (aggId : UInt16) (ifName : Str) (l3Mode : Bool) (ipv4Addr : BitVec 32) (numOfVlanId : Nat)
      (vlanData : List Nat)
  | peerlinkInfo (ifName : Str) (portType : IfType)
  | neighInfo (numOfEntry : Nat) (info : NeighInfo)
  | stpInfo
  | warmbootFlag
  | ifUpAck (ifType : UInt8) (ifId : UInt16) (portIsolationState : UInt8)
  | other (type : UInt16)
  deriving DecidableEq

def Tlv.type : Tlv → Nat
  | .nak => 0x0002
  | .systemConfig .. => 0x0032
  | .portConfig => 0x0033
  | .portPriority => 0x0034
  | .portState => 0x0035
  | .aggregatorConfig .. => 0x0036
  | .aggregatorState .. => 0x0037
  | .syncRequest _ => 0x0038
  | .syncData .. => 0x0039
  | .heartbeat => 0x003A
  | .portChannelInfo .. => 0x1034
  | .peerlinkInfo .. => 0x1035
  | .neighInfo _ (.arp _) => 0x1036
  | .stpInfo => 0x1037
  | .neighInfo _ (.mac _) => 0x1038
  | .warmbootFlag => 0x1039
  | .neighInfo _ (.ndisc _) => 0x103A
  | .ifUpAck .. => 0x103B
  | .other t => t.toNat

def tlvMlacpConnect : Nat := 0x0030
def tlvMlacpMacInfo : Nat := 0x1038
def tlvMlacpListEnd : Nat := 0x104a

inductive MsgType
  | rgAppData | notification
  deriving DecidableEq

/-- `rejectedMsgId` is the word a notification carries at the place of `NAKTLV.rejected_msg_id`. -/
structure Msg where
  msgType : MsgType
  msgId : Nat
  tlv : Tlv
  rejectedMsgId : Nat
  deriving DecidableEq

/-! ## Node state -/

structure LocalInterface where
  type : IfType
  name : Str
  macAddr : Mac
  state : UInt8
  ipv4Addr : BitVec 32
  l3Mode : Bool
  poId : UInt16
  vlanTree : VlanTree
  changed : Bool
  portConfigSync : Bool
  deriving DecidableEq

structure PeerInterface where
  name : Str
  macAddr : Mac
  state : UInt8
  ipv4Addr : BitVec 32
  l3Mode : Bool
  poId : UInt16
  poActive : Bool
  vlanTree : List Nat
  deriving DecidableEq

inductive AppState
  | init | stage1 | stage2 | exchange | error
  | beyond (n : Nat)
  deriving DecidableEq

/-- `current_state++`; the enumeration ends at `MLACP_STATE_ERROR`. -/
def AppState.next : AppState → AppState
  | .init => .stage1
  | .stage1 => .stage2
  | .stage2 => .exchange
  | .exchange => .error
  | .error => .beyond 0
  | .beyond n => .beyond (n + 1)

inductive SyncState
  | sysConf | aggConf | aggState | aggInfo | peerLinkInfo | arpInfo | ndiscInfo | done
  deriving DecidableEq

/-- The values `sync_state++` runs through, from `MLACP_SYNC_SYSCONF` to `MLACP_SYNC_DONE`. -/
def SyncState.all : List SyncState :=
  [.sysConf, .aggConf, .aggState, .aggInfo, .peerLinkInfo, .arpInfo, .ndiscInfo, .done]

inductive Role
  | none | active | standby
  deriving DecidableEq

structure RemoteSystem where
  systemId : Mac
  systemPriority : UInt16
  nodeId : UInt8
  deriving DecidableEq

/-- What the link handlers and the configuration own and the state machine reads, sends and clears.
-/
structure LocalData where
  systemId : Mac
  systemPriority : UInt16
  systemConfigChanged : Bool
  lifList : List LocalInterface
  lifPurgeList : List LocalInterface
  peerLinkIf : Option LocalInterface
  macMsgList : List MacMsg
  arpMsgList : List ArpMsg
  arpList : List ArpMsg
  ndiscMsgList : List NdiscMsg
  ndiscList : List NdiscMsg

/-- What a node had when it answered a request. -/
structure Answer where
  system : RemoteSystem
  lifList : List LocalInterface

/-- `outbox` is what the node has written to its socket and the network has not taken yet.
`handled`, `dropped`, `answers` and `resyncs` record, for each message taken from `msgList`, whether
a handler got it, and each answered and each repeated request. -/
structure Node where
  role : Role
  sock : Bool
  operational : Bool
  currentState : AppState
  prevState : AppState
  waitForSyncData : Bool
  needToSync : Bool
  syncReqNum : UInt16
  nodeId : UInt8
  remoteSystem : RemoteSystem
  msgList : List Msg
  pifList : List PeerInterface
  loc : LocalData
  msgId : Nat
  msgLog : List (Nat × Nat)
  outbox : List Msg
  handled : List Msg
  dropped : List Msg
  answers : List Answer
  resyncs : Nat

/-- What the MAC, ARP and ND update functions and `mlacp_peer_conn_handler` do to the local lists,
and what they hand to `syn_local_neigh_mac_info_to_peer`. -/
structure Handlers where
  updateNeigh : LocalData → NeighInfo → LocalData × List NeighInfo
  peerConn : LocalData → LocalData × List NeighInfo

/-- What the system config of the node says. -/
def Node.system (n : Node) : RemoteSystem := ⟨n.loc.systemId, n.loc.systemPriority, n.nodeId⟩

def Node.drop (n : Node) (m : Msg) : Node := { n with dropped := n.dropped ++ [m] }
def Node.handle (n : Node) (m : Msg) : Node := { n with handled := n.handled ++ [m] }

/-! ## Sending -/

def maxMsgLogSize : Nat := 128
def csmBufferSize : Nat := 65536

def iccpCsmSend (n : Node) (tlv : Tlv) : Node :=
  if n.sock then
    { n with
      outbox := n.outbox ++ [⟨.rgAppData, n.msgId, tlv, 0⟩]
      msgLog := ((n.msgId, tlv.type) :: n.msgLog).take maxMsgLogSize
      msgId := n.msgId + 1 }
  else { n with msgId := n.msgId + 1 }

def sendEach (n : Node) (tlvs : List Tlv) : Node := tlvs.foldl iccpCsmSend n

def prepareForSysConfig (n : Node) : Tlv := .systemConfig n.loc.systemId n.loc.systemPriority n.nodeId

def prepareForAggportConfig (lif : LocalInterface) (flag : AggFlag) : Tlv :=
  .aggregatorConfig flag lif.poId lif.name lif.macAddr

def prepareForAggportState (lif : LocalInterface) : Tlv := .aggregatorState lif.poId lif.state

def sizeofIccHdr : Nat := 16
def sizeofPortChannelInfo : Nat := 36
def sizeofVlanData : Nat := 2

def portChannelInfo (lif : LocalInterface) : Tlv :=
  .portChannelInfo lif.poId lif.name lif.l3Mode lif.ipv4Addr lif.vlanTree.val.length lif.vlanTree.val

/-- `none` is `MCLAG_ERROR`: the message does not fit the buffer, and `iccp_csm_send` then writes
nothing. -/
def prepareForPortChannelInfo (lif : LocalInterface) : Option Tlv :=
  if sizeofIccHdr + (sizeofPortChannelInfo + sizeofVlanData * lif.vlanTree.val.length) > csmBufferSize then none
  else some (portChannelInfo lif)

def prepareForPortPeerlinkInfo (lif : LocalInterface) : Tlv := .peerlinkInfo lif.name lif.type

/-- The loop of `mlacp_sync_send_syncArpInfo` and its MAC and ND siblings: `acc` is the buffer that
holds `count` entries. -/
def batches {α : Type*} (max : Nat) : List α → List α → List (List α)
  | acc, [] => if acc = [] then [] else [acc]
  | acc, x :: xs =>
    if max ≤ (acc ++ [x]).length then (acc ++ [x]) :: batches max [] xs else batches max (acc ++ [x]) xs

def maxMacEntryNum : Nat := 30
def maxNeighEntryNum : Nat := 40

def NeighInfo.tlv (i : NeighInfo) : Tlv := .neighInfo i.length i

def mlacpSyncSendSyncMacInfo (n : Node) : Node :=
  { sendEach n ((batches maxMacEntryNum [] n.loc.macMsgList).map fun l => (NeighInfo.mac l).tlv) with
    loc := { n.loc with macMsgList := [] } }

def mlacpSyncSendSyncArpInfo (n : Node) : Node :=
  { sendEach n ((batches maxNeighEntryNum [] n.loc.arpMsgList).map fun l => (NeighInfo.arp l).tlv) with
    loc := { n.loc with arpMsgList := [] } }

def mlacpSyncSendSyncNdiscInfo (n : Node) : Node :=
  { sendEach n ((batches maxNeighEntryNum [] n.loc.ndiscMsgList).map fun l => (NeighInfo.ndisc l).tlv) with
    loc := { n.loc with ndiscMsgList := [] } }

def LocalInterface.isPortChannel (lif : LocalInterface) : Bool := lif.type = .portChannel

/-- The port-channels of `lif_list`. -/
def LocalData.portChannels (l : LocalData) : List LocalInterface := l.lifList.filter (·.isPortChannel)

def LocalData.mapPortChannels (f : LocalInterface → LocalInterface) (l : LocalData) : LocalData :=
  { l with lifList := l.lifList.map fun lif => if lif.isPortChannel then f lif else lif }

def mlacpSyncSendSysConf (n : Node) : Node := iccpCsmSend n (prepareForSysConfig n)

def mlacpSyncSendAggConf (n : Node) : Node :=
  { sendEach n (n.loc.portChannels.map fun lif => prepareForAggportConfig lif .add) with
    loc := n.loc.mapPortChannels fun lif => { lif with portConfigSync := false } }

def mlacpSyncSendAggState (n : Node) : Node :=
  { sendEach n (n.loc.portChannels.map prepareForAggportState) with
    loc := n.loc.mapPortChannels fun lif => { lif with changed := false } }

def mlacpSyncSendSyncPortChannelInfo (n : Node) : Node :=
  { sendEach n (n.loc.portChannels.filterMap prepareForPortChannelInfo) with
    loc := n.loc.mapPortChannels fun lif => { lif with changed := false } }

def mlacpSyncSendSyncPeerLinkInfo (n : Node) : Node :=
  sendEach n (n.loc.peerLinkIf.toList.map prepareForPortPeerlinkInfo)

def mlacpSyncSendSyncDoneData (n : Node) : Node :=
  iccpCsmSend { n with waitForSyncData := false } (.syncData n.syncReqNum 1)

def mlacpSyncSenderHandler (n : Node) : SyncState → Node
  | .sysConf => mlacpSyncSendSysConf n
  | .aggConf => mlacpSyncSendAggConf n
  | .aggState => mlacpSyncSendAggState n
  | .aggInfo => mlacpSyncSendSyncPortChannelInfo n
  | .peerLinkInfo => mlacpSyncSendSyncPeerLinkInfo n
  | .arpInfo => mlacpSyncSendSyncArpInfo n
  | .ndiscInfo => mlacpSyncSendSyncNdiscInfo n
  | .done => mlacpSyncSendSyncDoneData n

def mlacpSyncSendAllInfoHandler (n : Node) : Node :=
  let n := { n with answers := n.answers ++ [⟨n.system, n.loc.lifList⟩] }
  let n := SyncState.all.foldl mlacpSyncSenderHandler (iccpCsmSend n (.syncData n.syncReqNum 0))
  { n with waitForSyncData := false, currentState := n.currentState.next }

/-- `mlacp_prepare_for_sync_request_tlv` and its send. -/
def sendSyncRequest (n : Node) : Node := iccpCsmSend { n with syncReqNum := 0 } (.syncRequest 0)

/-! ## Receiving -/

def mlacpFsmUpdateSystemConf (n : Node) (sysId : Mac) (sysPriority : UInt16) (nodeId : UInt8) : Node :=
  { n with
    nodeId := if nodeId = n.nodeId then n.nodeId + 1 else n.nodeId
    remoteSystem := ⟨sysId, sysPriority, nodeId⟩ }

def updateFirst {α : Type*} (p : α → Bool) (f : α → α) : List α → List α
  | [] => []
  | x :: xs => if p x then f x :: xs else x :: updateFirst p f xs

/-- `peer_if_create` puts a zeroed entry at the head, whose state `0` is `PORT_STATE_UP`. -/
def peerIfCreate (name : Str) (poId : UInt16) : PeerInterface := ⟨name, 0, 0, 0, false, poId, false, []⟩

def mlacpFsmUpdateAggConf (n : Node) (flags : AggFlag) (aggId : UInt16) (name : Str) (mac : Mac) : Node :=
  let known := n.pifList.any (·.name = name)
  match flags with
  | .purge =>
    if known then { n with pifList := n.pifList.eraseP (·.name = name) } else { n with needToSync := true }
  | .add =>
    let pifList := if known then n.pifList else peerIfCreate name aggId :: n.pifList
    { n with
      pifList := updateFirst (·.name = name)
        (fun p => { p with poId := aggId, macAddr := mac, poActive := p.state = portStateUp }) pifList }

def mlacpFsmUpdateAggportState (n : Node) (aggId : UInt16) (aggState : UInt8) : Node :=
  { n with
    pifList := updateFirst (·.poId = aggId)
      (fun p => { p with state := aggState, poActive := aggState = portStateUp }) n.pifList }

def mlacpFsmUpdatePortChannelInfo (n : Node) (aggId : UInt16) (l3Mode : Bool) (ipv4Addr : BitVec 32)
    (vlans : List Nat) : Node :=
  { n with
    pifList := updateFirst (·.poId = aggId)
      (fun p => { p with ipv4Addr := ipv4Addr, l3Mode := l3Mode, vlanTree := vlans.dedup }) n.pifList }

def ifUpAckTypePortChannel : UInt8 := 1
def portIsolationStateEnable : UInt8 := 1

def mlacpFsmSendIfUpAck (n : Node) (ifType : UInt8) (ifId : UInt16) (isolation : UInt8) : Node :=
  if n.currentState = .exchange then iccpCsmSend n (.ifUpAck ifType ifId isolation) else n

def mlacpSyncRecvAggState (n : Node) (aggId : UInt16) (aggState : UInt8) : Node :=
  let n := mlacpFsmUpdateAggportState n aggId aggState
  if aggState = portStateUp then mlacpFsmSendIfUpAck n ifUpAckTypePortChannel aggId portIsolationStateEnable else n

/-- `syn_local_neigh_mac_info_to_peer` sends in EXCHANGE only. -/
def synLocalNeigh (n : Node) (infos : List NeighInfo) : Node :=
  if n.currentState = .exchange then sendEach n (infos.map NeighInfo.tlv) else n

def mlacpSyncRecvSyncData (n : Node) (flags : UInt16) : Node :=
  if flags = 1 then { n with waitForSyncData := false } else n

def mlacpSyncRecvSyncReq (n : Node) (reqNum : UInt16) : Node :=
  mlacpSyncSendAllInfoHandler { n with syncReqNum := reqNum }

section
variable (env : Handlers)

def mlacpSyncRecvNeighInfo (n : Node) (numOfEntry : Nat) (info : NeighInfo) : Node :=
  -- the count is checked against the length of the message
  if info.length < numOfEntry then n
  else
    let r := env.updateNeigh n.loc (info.take numOfEntry)
    synLocalNeigh { n with loc := r.1 } r.2

def mlacpSyncReceiverHandler (n : Node) (m : Msg) : Node :=
  match m.tlv with
  | .systemConfig sysId prio nodeId => mlacpFsmUpdateSystemConf (n.handle m) sysId prio nodeId
  | .portConfig | .portPriority | .portState | .stpInfo => n.handle m
  | .aggregatorConfig flags aggId name mac => mlacpFsmUpdateAggConf (n.handle m) flags aggId name mac
  | .aggregatorState aggId st => mlacpSyncRecvAggState (n.handle m) aggId st
  | .syncData _ flags => mlacpSyncRecvSyncData (n.handle m) flags
  | .syncRequest reqNum => mlacpSyncRecvSyncReq (n.handle m) reqNum
  | .portChannelInfo aggId _ l3Mode ipv4Addr num vlans =>
    if vlans.length < num then n.handle m
    else mlacpFsmUpdatePortChannelInfo (n.handle m) aggId l3Mode ipv4Addr (vlans.take num)
  | .neighInfo num info => mlacpSyncRecvNeighInfo env (n.handle m) num info
  | .peerlinkInfo .. | .heartbeat | .warmbootFlag | .ifUpAck .. => n.handle m
  | .nak | .other _ => n.drop m

def mlacpSyncRecvNakHandler (n : Node) (m : Msg) : Node :=
  match n.msgLog.find? (·.1 = m.rejectedMsgId) with
  | some (_, 0x0032) =>
    { n.handle m with nodeId := n.nodeId - 1, loc := { n.loc with systemConfigChanged := true } }
  | _ => { n.handle m with needToSync := true }

/-! ## Stages -/

def mlacpStageSyncSendHandler (n : Node) : Option Msg → Node
  | none => n
  | some m =>
    if n.waitForSyncData then n.drop m
    else
      match m.msgType, m.tlv with
      | .rgAppData, .syncRequest reqNum =>
        mlacpSyncSendAllInfoHandler { n.handle m with waitForSyncData := true, syncReqNum := reqNum }
      | _, _ => n.drop m

def advanceStage (n : Node) : Node :=
  if n.waitForSyncData then n else { n with currentState := n.currentState.next }

def mlacpStageSyncRequestHandler (n : Node) (msg : Option Msg) : Node :=
  if n.waitForSyncData then
    advanceStage (msg.elim n (mlacpSyncReceiverHandler env n))
  else
    -- the message at hand, if any, is not looked at
    let n := msg.elim n n.drop
    { sendSyncRequest n with waitForSyncData := true }

/-- Whether the node answers in its stage, rather than asks. -/
def answering (role : Role) : AppState → Bool
  | .stage1 => role = .active
  | _ => role ≠ .active

def mlacpStageHandler (n : Node) (msg : Option Msg) : Node :=
  if answering n.role n.currentState then mlacpStageSyncSendHandler n msg
  else mlacpStageSyncRequestHandler env n msg

/-- What the exchange handler sends for one interface. -/
def lifUpdates (lif : LocalInterface) : List Tlv :=
  (if lif.isPortChannel && lif.portConfigSync then
    prepareForAggportConfig lif .add :: (prepareForPortChannelInfo lif).toList else []) ++
  (if lif.isPortChannel && lif.changed then [prepareForAggportState lif] else [])

def sendResync (n : Node) : Node :=
  if n.needToSync then { sendSyncRequest { n with needToSync := false } with resyncs := n.resyncs + 1 } else n

def sendSystemConfigChanged (n : Node) : Node :=
  if n.loc.systemConfigChanged then
    { mlacpSyncSendSyncPeerLinkInfo (mlacpSyncSendSysConf n) with
      loc := { n.loc with systemConfigChanged := false } }
  else n

def sendPurged (n : Node) : Node :=
  { sendEach n (n.loc.lifPurgeList.map fun lif => prepareForAggportConfig lif .purge) with
    loc := { n.loc with lifPurgeList := [] } }

def sendLifs (n : Node) : Node :=
  { sendEach n (n.loc.lifList.flatMap lifUpdates) with
    loc := n.loc.mapPortChannels fun lif => { lif with portConfigSync := false, changed := false } }

/-- The updates the exchange handler sends whether or not a message came. -/
def sendUpdates (n : Node) : Node :=
  mlacpSyncSendSyncNdiscInfo (mlacpSyncSendSyncArpInfo (mlacpSyncSendSyncMacInfo
    (sendLifs (sendPurged (sendSystemConfigChanged n)))))

def mlacpExchangeHandler (n : Node) (msg : Option Msg) : Node :=
  let n := msg.elim n fun m => if m.msgType = .rgAppData then mlacpSyncReceiverHandler env n m else n.drop m
  sendUpdates (sendResync n)

/-! ## One call of `mlacp_fsm_transit` -/

def mlacpResync (n : Node) : Node :=
  { n with
    loc :=
      { n.loc with
        arpMsgList := n.loc.arpMsgList ++ n.loc.arpList.map fun a => { a with opType := 1, flag := 0 }
        ndiscMsgList := n.loc.ndiscMsgList ++ n.loc.ndiscList.map fun a => { a with opType := 1, flag := 0 } } }

def mlacpPeerConnHandler (n : Node) : Node :=
  let r := env.peerConn n.loc
  synLocalNeigh { n with loc := r.1 } r.2

def noteState (n : Node) : Node :=
  if n.prevState = n.currentState then n
  else
    let n' := if n.currentState = .exchange then mlacpPeerConnHandler env n else n
    { n' with prevState := n.currentState }

def enterStage1 (n : Node) : Node :=
  if n.currentState = .init then mlacpResync { n with waitForSyncData := false, currentState := .stage1 } else n

/-- The body of the loop after the dequeue. -/
def fsmStep (n : Node) (msg : Option Msg) : Node :=
  let n := enterStage1 (noteState env n)
  match n.currentState with
  | .stage1 | .stage2 => mlacpStageHandler env n msg
  | .exchange => mlacpExchangeHandler env n msg
  | _ => msg.elim n n.drop

/-- One message of the queue: a NAK is taken out first. -/
def fsmMsg (n : Node) (m : Msg) : Node :=
  if m.msgType = .notification ∧ m.tlv = .nak then mlacpSyncRecvNakHandler n m else fsmStep env n (some m)

/-- The loop outside INIT: it takes messages until the queue is empty and runs its body once more
without a message. -/
def fsmLoop : List Msg → Node → Node
  | [], n => fsmStep env n none
  | m :: q, n => fsmLoop q (fsmMsg env { n with msgList := q } m)

def mlacpSyncSendHeartbeat (n : Node) (due : Bool) : Node := if due then iccpCsmSend n .heartbeat else n

def mlacpFsmTransit (n : Node) (heartbeatDue : Bool) : Node :=
  if n.sock && n.operational then
    let n := mlacpSyncSendHeartbeat n heartbeatDue
    -- in INIT the first turn of the loop takes no message
    let n := if n.currentState = .init then fsmStep env n none else n
    fsmLoop env n.msgList n
  else if n.currentState = .init then n
  else
    { n with
      sock := false
      currentState := .init
      msgList := []
      loc := { n.loc with arpMsgList := [], ndiscMsgList := [], macMsgList := [] } }

def appCsmEnqueueMsg (n : Node) (m : Msg) : Node :=
  match m.msgType with
  | .rgAppData =>
    if tlvMlacpConnect < m.tlv.type ∧ m.tlv.type < tlvMlacpListEnd then { n with msgList := n.msgList ++ [m] } else n
  | .notification =>
    match n.msgLog.find? (·.1 = m.rejectedMsgId) with
    | some (_, tlv) =>
      if tlvMlacpConnect < tlv ∧ tlv ≤ tlvMlacpMacInfo then { n with msgList := n.msgList ++ [m] } else n
    | none => n

def schedulerSessionDisconnectHandler (n : Node) : Node :=
  { n with
    sock := false
    operational := false
    role := .none
    currentState := .init
    needToSync := false
    syncReqNum := 0xFFFF
    remoteSystem := { n.remoteSystem with systemId := 0 }
    msgList := []
    pifList := []
    loc :=
      { n.loc with
        macMsgList := [], arpMsgList := [], ndiscMsgList := [], lifPurgeList := [], peerLinkIf := none }
    msgLog := [] }

/-- `session` is what the ICCP connection machine decides below mLACP, `configure` what the link
handlers do to the local data, `syncNeigh` and `warmboot` the messages they send themselves. -/
inductive Ev
  | tick (heartbeatDue : Bool)
  | recv (m : Msg)
  | session (sock operational : Bool) (role : Role)
  | disconnect
  | configure (loc : LocalData)
  | syncNeigh (infos : List NeighInfo)
  | warmboot

def step (n : Node) : Ev → Node
  | .tick due => mlacpFsmTransit env n due
  | .recv m => appCsmEnqueueMsg n m
  | .session sock operational role => { n with sock := sock, operational := operational, role := role }
  | .disconnect => schedulerSessionDisconnectHandler n
  | .configure loc => { n with loc := loc }
  | .syncNeigh infos => synLocalNeigh n infos
  | .warmboot => if n.currentState = .exchange then iccpCsmSend n .warmbootFlag else n

end

end Sonic.Mlacp
