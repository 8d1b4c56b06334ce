import Mathlib.Data.List.Perm.Subperm
import Sonic.Mlacp

/-! # What one turn of the mLACP loop does

`Ctl` is the part of a node that decides which messages it takes and answers. `Moves n n' c ts` says
that a function took the node from `n` to `n'`, left the control part `c` and wrote the TLVs `ts` to
the socket; every handler gets one such specification, and the data it updates beside that does not
matter to the state machine. -/

namespace Sonic.Mlacp
open List Option

variable {n n' n'' : Node} {m : Msg} {c : Ctl} {ts : List Tlv}

structure Ctl where
  role : Role
  sock : Bool
  operational : Bool
  currentState : AppState
  waitForSyncData : Bool
  msgList : List Msg
  handled : List Msg
  dropped : List Msg
  answers : List Answer
  resyncs : Nat

def Node.ctl (n : Node) : Ctl :=
  ⟨n.role, n.sock, n.operational, n.currentState, n.waitForSyncData, n.msgList, n.handled, n.dropped, n.answers,
    n.resyncs⟩

def Msg.payload (m : Msg) : MsgType × Tlv := (m.msgType, m.tlv)

def appData (ts : List Tlv) : List (MsgType × Tlv) := ts.map fun t => (.rgAppData, t)

structure Moves (n n' : Node) (c : Ctl) (ts : List Tlv) : Prop where
  ctl : n'.ctl = c
  out : n'.outbox.map Msg.payload = n.outbox.map Msg.payload ++ appData ts

theorem Moves.of_eq (ho : n'.outbox = n.outbox) : Moves n n' n'.ctl [] :=
  ⟨rfl, by rw [ho]; exact (append_nil _).symm⟩

theorem Moves.trans {c' : Ctl} {ts' : List Tlv} (h : Moves n n' c ts)
    (h' : Moves n' n'' c' ts') : Moves n n'' c' (ts ++ ts') := by
  refine ⟨h'.ctl, ?_⟩
  simp [h'.out, h.out, appData]

theorem Moves.congr (h : Moves n n' c ts) (m m' : Node)
    (ho : m.outbox = n.outbox) (hc : m'.ctl = n'.ctl) (ho' : m'.outbox = n'.outbox) : Moves m m' c ts :=
  ⟨hc.trans h.ctl, by rw [ho, ho']; exact h.out⟩

def Tlv.plain : Tlv → Bool
  | .nak | .other _ | .syncRequest _ => false
  | .syncData _ flags => flags ≠ 1
  | _ => true

theorem send_ctl (n : Node) (t : Tlv) : (iccpCsmSend n t).ctl = n.ctl := by
  rw [iccpCsmSend]
  split <;> rfl

theorem sendEach_ctl (ts : List Tlv) (n : Node) : (sendEach n ts).ctl = n.ctl := by
  induction ts generalizing n with
  | nil => rfl
  | cons t ts ih => exact (ih _).trans (send_ctl n t)

section
variable {n : Node} (hs : n.sock = true)
include hs

theorem send_moves (t : Tlv) : Moves n (iccpCsmSend n t) n.ctl [t] := by
  refine ⟨send_ctl n t, ?_⟩
  rw [iccpCsmSend, if_pos hs]
  exact map_append

theorem sendEach_moves (ts : List Tlv) : Moves n (sendEach n ts) n.ctl ts := by
  induction ts generalizing n with
  | nil => exact Moves.of_eq rfl
  | cons t ts ih =>
    have h := send_moves hs t
    have hs' : (iccpCsmSend n t).sock = true := (congrArg Ctl.sock h.ctl).trans hs
    have h' := ih hs'
    rw [h.ctl] at h'
    exact h.trans h'

theorem sendEach_loc_moves (ts : List Tlv) (l : LocalData) : Moves n { sendEach n ts with loc := l } n.ctl ts :=
  (sendEach_moves hs ts).congr _ _ rfl rfl rfl

end

theorem send_reads (n : Node) (t : Tlv) :
    (iccpCsmSend n t).loc = n.loc ∧ (iccpCsmSend n t).nodeId = n.nodeId ∧
      (iccpCsmSend n t).syncReqNum = n.syncReqNum := by grind [iccpCsmSend]

theorem sendEach_reads (ts : List Tlv) (n : Node) :
    (sendEach n ts).loc = n.loc ∧ (sendEach n ts).nodeId = n.nodeId ∧
      (sendEach n ts).syncReqNum = n.syncReqNum := by
  induction ts generalizing n with
  | nil => exact ⟨rfl, rfl, rfl⟩
  | cons t ts ih =>
    obtain ⟨hl, hi, hr⟩ := send_reads n t
    obtain ⟨hl', hi', hr'⟩ := ih (iccpCsmSend n t)
    exact ⟨hl'.trans hl, hi'.trans hi, hr'.trans hr⟩

/-! ## The answer to a request -/

def senderTlvs (n : Node) : SyncState → List Tlv
  | .sysConf => [prepareForSysConfig n]
  | .aggConf => n.loc.portChannels.map fun lif => prepareForAggportConfig lif .add
  | .aggState => n.loc.portChannels.map prepareForAggportState
  | .aggInfo => n.loc.portChannels.filterMap prepareForPortChannelInfo
  | .peerLinkInfo => n.loc.peerLinkIf.toList.map prepareForPortPeerlinkInfo
  | .arpInfo => (batches maxNeighEntryNum [] n.loc.arpMsgList).map fun l => (NeighInfo.arp l).tlv
  | .ndiscInfo => (batches maxNeighEntryNum [] n.loc.ndiscMsgList).map fun l => (NeighInfo.ndisc l).tlv
  | .done => [.syncData n.syncReqNum 1]

def answerTlvs (n : Node) : List Tlv := .syncData n.syncReqNum 0 :: SyncState.all.flatMap (senderTlvs n)

theorem sender_moves (hs : n.sock = true) (st : SyncState) :
    ∃ w, Moves n (mlacpSyncSenderHandler n st) { n.ctl with waitForSyncData := w } (senderTlvs n st) := by
  cases st with
  | sysConf => exact ⟨n.waitForSyncData, send_moves hs _⟩
  | peerLinkInfo => exact ⟨n.waitForSyncData, sendEach_moves hs _⟩
  | done => exact ⟨false, (send_moves (n := { n with waitForSyncData := false }) hs _).congr _ _ rfl rfl rfl⟩
  | _ => exact ⟨n.waitForSyncData, sendEach_loc_moves hs _ _⟩

theorem portChannels_map (f : LocalInterface → LocalInterface) (l : LocalData)
    (hf : ∀ lif, (f lif).isPortChannel = lif.isPortChannel) :
    (l.mapPortChannels f).portChannels = l.portChannels.map f := by
  rw [LocalData.portChannels, LocalData.portChannels, LocalData.mapPortChannels]
  induction l.lifList with
  | nil => rfl
  | cons lif lifs ih =>
    by_cases h : lif.isPortChannel = true <;> simp_all

def locAfter (l : LocalData) : SyncState → LocalData
  | .aggConf => l.mapPortChannels fun lif => { lif with portConfigSync := false }
  | .aggState | .aggInfo => l.mapPortChannels fun lif => { lif with changed := false }
  | .arpInfo => { l with arpMsgList := [] }
  | .ndiscInfo => { l with ndiscMsgList := [] }
  | _ => l

theorem sender_reads (n : Node) (st : SyncState) :
    (mlacpSyncSenderHandler n st).loc = locAfter n.loc st ∧
      (mlacpSyncSenderHandler n st).nodeId = n.nodeId ∧
      (mlacpSyncSenderHandler n st).syncReqNum = n.syncReqNum := by
  cases st with
  | sysConf => exact send_reads n _
  | peerLinkInfo => exact sendEach_reads _ n
  | done => exact send_reads { n with waitForSyncData := false } _
  | _ => exact ⟨rfl, (sendEach_reads _ n).2⟩

theorem locAfter_portChannels (l : LocalData) (st : SyncState) :
    ∃ f : LocalInterface → LocalInterface,
      (∀ lif, prepareForAggportConfig (f lif) .add = prepareForAggportConfig lif .add) ∧
      (∀ lif, prepareForAggportState (f lif) = prepareForAggportState lif) ∧
      (∀ lif, prepareForPortChannelInfo (f lif) = prepareForPortChannelInfo lif) ∧
      (locAfter l st).portChannels = l.portChannels.map f := by
  cases st with
  | aggConf =>
    exact ⟨fun lif => { lif with portConfigSync := false }, fun _ => rfl, fun _ => rfl, fun _ => rfl,
      portChannels_map _ l fun _ => rfl⟩
  | aggState | aggInfo =>
    exact ⟨fun lif => { lif with changed := false }, fun _ => rfl, fun _ => rfl, fun _ => rfl,
      portChannels_map _ l fun _ => rfl⟩
  | _ => exact ⟨id, fun _ => rfl, fun _ => rfl, fun _ => rfl, (List.map_id _).symm⟩

theorem senderTlvs_other (n : Node) {st st' : SyncState} (h : st ≠ st') :
    senderTlvs (mlacpSyncSenderHandler n st') st = senderTlvs n st := by
  obtain ⟨hl, hi, hr⟩ := sender_reads n st'
  obtain ⟨f, hc, hst, hp, hf⟩ := locAfter_portChannels n.loc st'
  cases st with
  | sysConf => simp only [senderTlvs, prepareForSysConfig, hl, hi]; cases st' <;> rfl
  | aggConf => simp_all [senderTlvs]
  | aggState => simp_all [senderTlvs]
  | aggInfo => simp_all [senderTlvs]
  | peerLinkInfo => simp only [senderTlvs, hl]; cases st' <;> rfl
  | arpInfo =>
    simp only [senderTlvs, hl]
    cases st' with
    | arpInfo => exact absurd rfl h
    | _ => rfl
  | ndiscInfo =>
    simp only [senderTlvs, hl]
    cases st' with
    | ndiscInfo => exact absurd rfl h
    | _ => rfl
  | done => simp only [senderTlvs, hr]

theorem senders_move {l : List SyncState} (hs : n.sock = true) (hn : l.Nodup) :
    ∃ w, Moves n (l.foldl mlacpSyncSenderHandler n) { n.ctl with waitForSyncData := w } (l.flatMap (senderTlvs n)) := by
  induction l generalizing n with
  | nil => exact ⟨n.waitForSyncData, Moves.of_eq rfl⟩
  | cons st l ih =>
    rw [nodup_cons] at hn
    obtain ⟨_, h⟩ := sender_moves hs st
    obtain ⟨w, h'⟩ := ih ((congrArg Ctl.sock h.ctl).trans hs) hn.2
    grind [flatMap_congr, senderTlvs_other, h.ctl, Moves.trans]

theorem senderTlvs_congr (hl : n'.loc = n.loc) (hi : n'.nodeId = n.nodeId)
    (hr : n'.syncReqNum = n.syncReqNum) : senderTlvs n' = senderTlvs n := by
  funext st
  cases st <;> simp only [senderTlvs, prepareForSysConfig, hl, hi, hr]

theorem answer_moves (hs : n.sock = true) :
    Moves n (mlacpSyncSendAllInfoHandler n)
      { n.ctl with
        waitForSyncData := false
        currentState := n.currentState.next
        answers := n.answers ++ [⟨n.system, n.loc.lifList⟩] }
      (answerTlvs n) := by
  let n₀ : Node := { n with answers := n.answers ++ [⟨n.system, n.loc.lifList⟩] }
  let n₁ := iccpCsmSend n₀ (.syncData n.syncReqNum 0)
  have h₁ : Moves n₀ n₁ n₀.ctl [.syncData n.syncReqNum 0] := send_moves (n := n₀) hs _
  obtain ⟨w, h₂⟩ := senders_move (l := SyncState.all) ((congrArg Ctl.sock h₁.ctl).trans hs) (by decide)
  obtain ⟨hl, hi, hr⟩ := send_reads n₀ (.syncData n.syncReqNum 0)
  rw [senderTlvs_congr (n := n) hl hi hr, h₁.ctl] at h₂
  have h₃ := h₁.trans h₂
  refine ⟨?_, h₃.out⟩
  change { Node.ctl (SyncState.all.foldl mlacpSyncSenderHandler n₁) with
    waitForSyncData := false
    currentState := (Node.ctl (SyncState.all.foldl mlacpSyncSenderHandler n₁)).currentState.next } = _
  rw [h₂.ctl]
  rfl

/-! ## Receivers -/

def Updates (n n' : Node) (c : Ctl) : Prop :=
  ∃ ts, Moves n n' c ts ∧ (∀ t ∈ ts, t.plain = true) ∧ (n.currentState ≠ .exchange → ts = [])

theorem Updates.of_eq (ho : n'.outbox = n.outbox) : Updates n n' n'.ctl :=
  ⟨[], Moves.of_eq ho, fun _ h => (not_mem_nil h).elim, fun _ => rfl⟩

theorem Updates.of_moves (hx : n.currentState = .exchange)
    (h : Moves n n' c ts) (hp : ∀ t ∈ ts, t.plain = true) : Updates n n' c :=
  ⟨ts, h, hp, fun hn => absurd hx hn⟩

theorem Updates.congr {k k' : Node} (h : Updates k k' c) (ho : k.outbox = n.outbox)
    (hx : k.currentState = n.currentState) (hc : n'.ctl = k'.ctl) (ho' : n'.outbox = k'.outbox) : Updates n n' c := by
  obtain ⟨ts, hm, hp, hn⟩ := h
  exact ⟨ts, hm.congr _ _ ho.symm hc ho', hp, fun h => hn (hx ▸ h)⟩

theorem Updates.trans {c' : Ctl} (h : Updates n n' c) (hc : c.currentState = n.currentState)
    (h' : Updates n' n'' c') : Updates n n'' c' := by
  obtain ⟨ts, hm, hp, hn⟩ := h
  obtain ⟨ts', hm', hp', hn'⟩ := h'
  refine ⟨ts ++ ts', hm.trans hm', fun t ht => ?_, fun hx => ?_⟩
  · grind
  · have hx' : n'.currentState ≠ .exchange := by
      rw [show n'.currentState = n.currentState from (congrArg Ctl.currentState hm.ctl).trans hc]; exact hx
    simp_all

theorem NeighInfo.tlv_plain {infos : List NeighInfo} : ∀ t ∈ infos.map NeighInfo.tlv, t.plain = true := by
  intro t ht
  obtain ⟨i, _, rfl⟩ := List.mem_map.mp ht
  rfl

section
variable (env : Handlers) {n : Node} (hs : n.sock = true)
include hs

theorem synLocalNeigh_updates (infos : List NeighInfo) : Updates n (synLocalNeigh n infos) n.ctl := by
  rw [synLocalNeigh]
  split
  next hx => exact Updates.of_moves hx (sendEach_moves hs _) NeighInfo.tlv_plain
  next => exact Updates.of_eq rfl

theorem ifUpAck_updates (ifType : UInt8) (ifId : UInt16) (isolation : UInt8) :
    Updates n (mlacpFsmSendIfUpAck n ifType ifId isolation) n.ctl := by
  rw [mlacpFsmSendIfUpAck]
  split
  next hx =>
    refine Updates.of_moves hx (send_moves hs _) fun t ht => ?_
    rw [List.mem_singleton.mp ht]
    rfl
  next => exact Updates.of_eq rfl

theorem aggState_updates (aggId : UInt16) (st : UInt8) : Updates n (mlacpSyncRecvAggState n aggId st) n.ctl := by
  rw [mlacpSyncRecvAggState]
  split
  next => exact (ifUpAck_updates (n := mlacpFsmUpdateAggportState n aggId st) hs _ _ _).congr rfl rfl rfl rfl
  next => exact Updates.of_eq rfl

theorem neighInfo_updates (num : Nat) (info : NeighInfo) :
    Updates n (mlacpSyncRecvNeighInfo env n num info) n.ctl := by
  rw [mlacpSyncRecvNeighInfo]
  split
  next => exact Updates.of_eq rfl
  next =>
    exact (synLocalNeigh_updates (n := { n with loc := (env.updateNeigh n.loc (info.take num)).1 }) hs _).congr
      rfl rfl rfl rfl

omit hs in
theorem aggConf_updates (flags : AggFlag) (aggId : UInt16) (name : Str) (mac : Mac) :
    Updates n (mlacpFsmUpdateAggConf n flags aggId name mac) n.ctl := by
  cases flags with
  | add => exact Updates.of_eq rfl
  | purge =>
    simp only [mlacpFsmUpdateAggConf]
    split <;> exact Updates.of_eq rfl

def Ctl.received (c : Ctl) (m : Msg) : Ctl :=
  match m.tlv with
  | .nak | .other _ => { c with dropped := c.dropped ++ [m] }
  | .syncData _ flags =>
    { c with handled := c.handled ++ [m], waitForSyncData := if flags = 1 then false else c.waitForSyncData }
  | _ => { c with handled := c.handled ++ [m] }

omit hs in
theorem Ctl.received_eq (c : Ctl) (m : Msg) :
    ∃ w h d, c.received m = { c with waitForSyncData := w, handled := h, dropped := d } := by
  rw [Ctl.received]
  split <;> simp_all

theorem receiver_updates (m : Msg) (hr : ∀ r, m.tlv ≠ .syncRequest r) :
    Updates n (mlacpSyncReceiverHandler env n m) (n.ctl.received m) := by
  have hh : Updates n (n.handle m) (n.handle m).ctl := Updates.of_eq rfl
  rw [mlacpSyncReceiverHandler, Ctl.received]
  cases ht : m.tlv with
  | aggregatorConfig flags aggId name mac => exact hh.trans rfl (aggConf_updates flags aggId name mac)
  | aggregatorState aggId st => exact hh.trans rfl (aggState_updates (n := n.handle m) hs aggId st)
  | neighInfo num info => exact hh.trans rfl (neighInfo_updates env (n := n.handle m) hs num info)
  | syncData r flags =>
    simp only [mlacpSyncRecvSyncData]
    split <;> exact Updates.of_eq rfl
  | portChannelInfo aggId name l3Mode ipv4Addr num vlans =>
    simp only
    split <;> exact Updates.of_eq rfl
  | syncRequest r => simp_all
  | _ => exact Updates.of_eq rfl

theorem noteState_updates : Updates n (noteState env n) n.ctl := by
  rw [noteState]
  split
  next => exact Updates.of_eq rfl
  next =>
    split
    next => exact (synLocalNeigh_updates (n := { n with loc := (env.peerConn n.loc).1 }) hs _).congr rfl rfl rfl rfl
    next => exact Updates.of_eq rfl

theorem fsmStep_stage (hst : n.currentState = .stage1 ∨ n.currentState = .stage2) (msg : Option Msg) :
    ∃ k, Moves n k n.ctl [] ∧ fsmStep env n msg = mlacpStageHandler env k msg := by
  obtain ⟨ts, hm, _, hts⟩ := noteState_updates env hs
  have hc : (noteState env n).currentState = n.currentState := congrArg Ctl.currentState hm.ctl
  have hx : n.currentState ≠ .exchange := by grind
  grind [fsmStep, enterStage1]

end

theorem prepareForPortChannelInfo_eq (lif : LocalInterface) :
    prepareForPortChannelInfo lif = some (portChannelInfo lif) := by
  have hsub : lif.vlanTree.val ⊆ List.range 4096 := fun v hv => List.mem_range.mpr (lif.vlanTree.property.2 v hv)
  have hlen := (subperm_of_subset lif.vlanTree.property.1 hsub).length_le
  grind [prepareForPortChannelInfo, sizeofIccHdr, sizeofPortChannelInfo, sizeofVlanData, csmBufferSize]

def Answer.portChannels (a : Answer) : List LocalInterface := a.lifList.filter (·.isPortChannel)

def Answer.required (a : Answer) : List Tlv :=
  .systemConfig a.system.systemId a.system.systemPriority a.system.nodeId ::
    (a.portChannels.map (prepareForAggportConfig · .add) ++ a.portChannels.map prepareForAggportState ++
      a.portChannels.map portChannelInfo)

/-- The message tells the receiver about the node's system or about its port-channels. -/
def Tlv.tells : Tlv → Bool
  | .systemConfig .. | .aggregatorConfig .. | .aggregatorState .. | .portChannelInfo .. => true
  | _ => false

def Serves (a : Answer) (ts : List Tlv) : Prop :=
  ∃ body r, ts = body ++ [.syncData r 1] ∧ (∀ t ∈ body, t.plain = true) ∧ body.filter Tlv.tells = a.required

theorem senderTlvs_plain (n : Node) {st : SyncState} (hst : st ≠ .done) : ∀ t ∈ senderTlvs n st, t.plain = true := by
  intro t ht
  cases st with
  | sysConf => rw [List.mem_singleton.mp ht]; rfl
  | done => simp_all
  | aggInfo =>
    obtain ⟨lif, _, he⟩ := List.mem_filterMap.mp ht
    rw [prepareForPortChannelInfo_eq] at he
    cases he
    rfl
  | _ => obtain ⟨_, _, rfl⟩ := List.mem_map.mp ht; rfl

theorem filter_tells_map {α : Type*} {f : α → Tlv} {b : Bool} (hf : ∀ x, (f x).tells = b) (l : List α) :
    (l.map f).filter Tlv.tells = if b then l.map f else [] := by
  cases b with
  | true => exact filter_eq_self.mpr fun t ht => by obtain ⟨x, -, rfl⟩ := List.mem_map.mp ht; exact hf x
  | false =>
    refine filter_eq_nil_iff.mpr fun t ht => ?_
    obtain ⟨x, -, rfl⟩ := List.mem_map.mp ht
    rw [hf x]
    exact Bool.false_ne_true

theorem filterMap_portChannelInfo (l : List LocalInterface) :
    l.filterMap prepareForPortChannelInfo = l.map portChannelInfo := by
  rw [show prepareForPortChannelInfo = some ∘ portChannelInfo from funext prepareForPortChannelInfo_eq]
  exact congrFun filterMap_eq_map l

theorem answer_serves (n : Node) : Serves ⟨n.system, n.loc.lifList⟩ (answerTlvs n) := by
  let l : List SyncState := [.sysConf, .aggConf, .aggState, .aggInfo, .peerLinkInfo, .arpInfo, .ndiscInfo]
  refine ⟨.syncData n.syncReqNum 0 :: l.flatMap (senderTlvs n), n.syncReqNum, ?_, ?_, ?_⟩
  · rw [answerTlvs, show SyncState.all = l ++ [.done] from rfl, flatMap_append, cons_append]
    rfl
  · intro t ht
    rcases List.mem_cons.mp ht with rfl | ht
    · rfl
    · obtain ⟨st, hst, ht⟩ := List.mem_flatMap.mp ht
      exact senderTlvs_plain n (by rintro rfl; revert hst; decide) t ht
  · rw [filter_cons_of_neg (by simp [Tlv.tells])]
    simp only [l, flatMap_cons, flatMap_nil, filter_append, append_nil, senderTlvs, filterMap_portChannelInfo]
    rw [filter_tells_map (f := fun lif => prepareForAggportConfig lif .add) (b := true) fun _ => rfl,
      filter_tells_map (f := prepareForAggportState) (b := true) fun _ => rfl,
      filter_tells_map (f := portChannelInfo) (b := true) fun _ => rfl,
      filter_tells_map (f := prepareForPortPeerlinkInfo) (b := false) fun _ => rfl,
      filter_tells_map (f := fun l => (NeighInfo.arp l).tlv) (b := false) fun _ => rfl,
      filter_tells_map (f := fun l => (NeighInfo.ndisc l).tlv) (b := false) fun _ => rfl]
    simp only [reduceIte, Bool.false_eq_true, append_nil]
    rw [Answer.required, append_assoc]
    rfl

/-! ## A turn in each state -/

def isSyncRequest (m : Msg) : Bool :=
  match m.tlv with
  | .syncRequest _ => true
  | _ => false

theorem not_syncRequest (h : isSyncRequest m = false) : ∀ r, m.tlv ≠ .syncRequest r := by
  grind [isSyncRequest]

theorem syncRequest_of (h : isSyncRequest m = true) : ∃ r, m.tlv = .syncRequest r := by
  rw [isSyncRequest] at h
  grind

def Ctl.advance (c : Ctl) : Ctl :=
  if c.waitForSyncData then c else { c with currentState := c.currentState.next }

theorem Moves.advance {k : Node} (h : Moves n k c ts) :
    Moves n (advanceStage k) c.advance ts := by
  rw [← h.ctl, Ctl.advance, advanceStage]
  by_cases hw : k.waitForSyncData = true
  · rw [if_pos hw, if_pos (c := k.ctl.waitForSyncData = true) hw]
    exact ⟨rfl, h.out⟩
  · rw [if_neg hw, if_neg (c := k.ctl.waitForSyncData = true) hw]
    exact ⟨rfl, h.out⟩

section
variable (env : Handlers) {n : Node} (hs : n.sock = true)
include hs

section
variable (hst : n.currentState = .stage1 ∨ n.currentState = .stage2)
include hst

section
variable (ha : answering n.role n.currentState = true)
include ha

theorem turn_answering (msg : Option Msg) :
    ∃ k, Moves n k n.ctl [] ∧ fsmStep env n msg = mlacpStageSyncSendHandler k msg := by
  obtain ⟨k, hk, he⟩ := fsmStep_stage env hs hst msg
  have hr : answering k.role k.currentState = answering n.role n.currentState :=
    congrArg (fun c : Ctl => answering c.role c.currentState) hk.ctl
  grind [mlacpStageHandler]

theorem turn_answering_none : Moves n (fsmStep env n none) n.ctl [] := by
  obtain ⟨k, hk, he⟩ := turn_answering env hs hst ha none
  rw [he]
  exact hk

theorem turn_answering_drop (hm : n.waitForSyncData = true ∨ m.msgType ≠ .rgAppData ∨ isSyncRequest m = false) :
    Moves n (fsmStep env n (some m)) { n.ctl with dropped := n.dropped ++ [m] } [] := by
  obtain ⟨k, hk, he⟩ := turn_answering env hs hst ha (some m)
  have hw : k.waitForSyncData = n.waitForSyncData := congrArg Ctl.waitForSyncData hk.ctl
  have hd : mlacpStageSyncSendHandler k (some m) = k.drop m := by grind [mlacpStageSyncSendHandler, not_syncRequest]
  rw [he, hd]
  have hkd : (k.drop m).ctl = { k.ctl with dropped := k.ctl.dropped ++ [m] } := rfl
  exact ⟨by rw [hkd, hk.ctl]; rfl, hk.out⟩

theorem turn_answering_request (hw : n.waitForSyncData = false) (hm : m.msgType = .rgAppData)
    (hr : isSyncRequest m = true) :
    ∃ a ts, Serves a ts ∧ Moves n (fsmStep env n (some m))
      { n.ctl with
        waitForSyncData := false
        currentState := n.currentState.next
        handled := n.handled ++ [m]
        answers := n.answers ++ [a] } ts := by
  obtain ⟨k, hk, he⟩ := turn_answering env hs hst ha (some m)
  obtain ⟨r, ht⟩ := syncRequest_of hr
  let k' : Node := { k.handle m with waitForSyncData := true, syncReqNum := r }
  have hh : mlacpStageSyncSendHandler k (some m) = mlacpSyncSendAllInfoHandler k' := by
    have hkw : k.waitForSyncData = false := (congrArg Ctl.waitForSyncData hk.ctl).trans hw
    rw [mlacpStageSyncSendHandler, hkw, if_neg Bool.false_ne_true]
    simp only [hm, ht]
    rfl
  have hks : k'.sock = true := (congrArg Ctl.sock hk.ctl).trans hs
  have hmv := answer_moves hks
  refine ⟨⟨k'.system, k'.loc.lifList⟩, answerTlvs k', answer_serves k', ?_⟩
  rw [he, hh]
  refine ⟨?_, ?_⟩
  · rw [hmv.ctl]
    have hkc : k'.ctl = { k.ctl with handled := k.ctl.handled ++ [m], waitForSyncData := true } := rfl
    have hkn : k'.currentState.next = k.ctl.currentState.next := rfl
    have hka : k'.answers = k.ctl.answers := rfl
    rw [hkc, hkn, hka, hk.ctl]
    rfl
  · have := hk.trans (hmv.congr k (mlacpSyncSendAllInfoHandler k') rfl rfl rfl)
    exact this.out

end

section
variable (ha : answering n.role n.currentState = false)
include ha

theorem turn_asking (msg : Option Msg) :
    ∃ k, Moves n k n.ctl [] ∧ fsmStep env n msg = mlacpStageSyncRequestHandler env k msg := by
  obtain ⟨k, hk, he⟩ := fsmStep_stage env hs hst msg
  have hr : answering k.role k.currentState = answering n.role n.currentState :=
    congrArg (fun c : Ctl => answering c.role c.currentState) hk.ctl
  exact ⟨k, hk, by simp_all [mlacpStageHandler]⟩

theorem turn_asking_first (hw : n.waitForSyncData = false) (msg : Option Msg) :
    Moves n (fsmStep env n msg) { n.ctl with waitForSyncData := true, dropped := n.dropped ++ msg.toList }
      [.syncRequest 0] := by
  obtain ⟨k, hk, he⟩ := turn_asking env hs hst ha msg
  have hkw : k.waitForSyncData = false := (congrArg Ctl.waitForSyncData hk.ctl).trans hw
  let k' : Node := { msg.elim k k.drop with syncReqNum := 0 }
  have hkc : k'.ctl = { k.ctl with dropped := k.ctl.dropped ++ msg.toList } ∧ k'.outbox = k.outbox := by
    cases msg with
    | none => exact ⟨by rw [toList_none, append_nil]; rfl, rfl⟩
    | some m => exact ⟨rfl, rfl⟩
  have hks : k'.sock = true := (congrArg Ctl.sock hkc.1).trans ((congrArg Ctl.sock hk.ctl).trans hs)
  have hsend := send_moves hks (.syncRequest 0)
  rw [he, mlacpStageSyncRequestHandler, hkw, if_neg Bool.false_ne_true]
  refine ⟨?_, ?_⟩
  · change { (iccpCsmSend k' (.syncRequest 0)).ctl with waitForSyncData := true } = _
    rw [hsend.ctl, hkc.1, hk.ctl]
    rfl
  · change (iccpCsmSend k' (.syncRequest 0)).outbox.map Msg.payload = _
    simp_all [hsend.out, hk.out, appData]

theorem turn_asking_none (hw : n.waitForSyncData = true) : Moves n (fsmStep env n none) n.ctl [] := by
  obtain ⟨k, hk, he⟩ := turn_asking env hs hst ha none
  have hkw : k.waitForSyncData = true := (congrArg Ctl.waitForSyncData hk.ctl).trans hw
  grind [mlacpStageSyncRequestHandler, advanceStage]

theorem turn_asking_recv (hw : n.waitForSyncData = true) (hr : isSyncRequest m = false) :
    Moves n (fsmStep env n (some m)) (n.ctl.received m).advance [] := by
  obtain ⟨k, hk, he⟩ := turn_asking env hs hst ha (some m)
  have hkw : k.waitForSyncData = true := (congrArg Ctl.waitForSyncData hk.ctl).trans hw
  have hkx : k.currentState ≠ .exchange := by
    rw [show k.currentState = n.currentState from congrArg Ctl.currentState hk.ctl]
    grind
  obtain ⟨ts, hm, _, hts⟩ :=
    receiver_updates env ((congrArg Ctl.sock hk.ctl).trans hs) m (not_syncRequest hr)
  rw [hts hkx, hk.ctl] at hm
  rw [he, mlacpStageSyncRequestHandler, hkw, if_pos rfl, elim_some]
  exact (hk.trans hm).advance

theorem turn_asking_request (hw : n.waitForSyncData = true) (hr : isSyncRequest m = true) :
    ∃ a ts, Moves n (fsmStep env n (some m))
      { n.ctl with
        waitForSyncData := false
        currentState := n.currentState.next.next
        handled := n.handled ++ [m]
        answers := n.answers ++ [a] } ts := by
  obtain ⟨k, hk, he⟩ := turn_asking env hs hst ha (some m)
  have hkw : k.waitForSyncData = true := (congrArg Ctl.waitForSyncData hk.ctl).trans hw
  obtain ⟨r, ht⟩ := syncRequest_of hr
  let k' : Node := { k.handle m with syncReqNum := r }
  have hh : mlacpSyncReceiverHandler env k m = mlacpSyncSendAllInfoHandler k' := by
    rw [mlacpSyncReceiverHandler, ht]; rfl
  have hmv := answer_moves (n := k') ((congrArg Ctl.sock hk.ctl).trans hs)
  refine ⟨⟨k'.system, k'.loc.lifList⟩, answerTlvs k', ?_⟩
  rw [he, mlacpStageSyncRequestHandler, hkw, if_pos rfl, elim_some, hh]
  have hkc : k'.ctl = { k.ctl with handled := k.ctl.handled ++ [m] } := rfl
  have hkn : k'.currentState.next = k.ctl.currentState.next := rfl
  have hka : k'.answers = k.ctl.answers := rfl
  rw [hkc, hkn, hka, hk.ctl] at hmv
  exact (hk.trans (hmv.congr k (mlacpSyncSendAllInfoHandler k') rfl rfl rfl)).advance

end

end

end

section
variable (env : Handlers) {n : Node} (hs : n.sock = true) (hi : n.currentState = .init)
include hs hi

theorem fsmStep_init :
    ∃ k, Moves n k { n.ctl with waitForSyncData := false, currentState := .stage1 } [] ∧
      fsmStep env n none = mlacpStageHandler env k none := by
  obtain ⟨ts, hm, _, hts⟩ := noteState_updates env hs
  have hc : (noteState env n).currentState = .init := (congrArg Ctl.currentState hm.ctl).trans hi
  rw [hts (by rw [hi]; decide)] at hm
  refine ⟨enterStage1 (noteState env n), ?_, ?_⟩
  · rw [enterStage1, if_pos hc]
    refine ⟨?_, hm.out⟩
    change { (noteState env n).ctl with waitForSyncData := false, currentState := AppState.stage1 } = _
    rw [hm.ctl]
  · rw [fsmStep, enterStage1, if_pos hc]
    rfl

theorem turn_init_active (hr : n.role = .active) :
    Moves n (fsmStep env n none) { n.ctl with waitForSyncData := false, currentState := .stage1 } [] := by
  obtain ⟨k, hk, he⟩ := fsmStep_init env hs hi
  have hkc : k.currentState = .stage1 := congrArg Ctl.currentState hk.ctl
  have hkr : k.role = .active := (congrArg Ctl.role hk.ctl).trans hr
  rw [he, mlacpStageHandler, hkc, hkr]
  exact hk

theorem turn_init_ask (hr : n.role ≠ .active) :
    Moves n (fsmStep env n none) { n.ctl with waitForSyncData := true, currentState := .stage1 } [.syncRequest 0] := by
  obtain ⟨k, hk, he⟩ := fsmStep_init env hs hi
  have hkc : k.currentState = .stage1 := congrArg Ctl.currentState hk.ctl
  have hkw : k.waitForSyncData = false := congrArg Ctl.waitForSyncData hk.ctl
  have hkr : answering k.role .stage1 = false := by
    rw [show k.role = n.role from congrArg Ctl.role hk.ctl, answering]
    simp_all
  let k' : Node := { k with syncReqNum := 0 }
  have hsend := send_moves (n := k') ((congrArg Ctl.sock hk.ctl).trans hs) (.syncRequest 0)
  rw [he, mlacpStageHandler, hkc, hkr, if_neg Bool.false_ne_true, mlacpStageSyncRequestHandler, hkw,
    if_neg Bool.false_ne_true, elim_none]
  refine ⟨?_, ?_⟩
  · change { (iccpCsmSend k' (.syncRequest 0)).ctl with waitForSyncData := true } = _
    rw [hsend.ctl, show k'.ctl = k.ctl from rfl, hk.ctl]
  · change (iccpCsmSend k' (.syncRequest 0)).outbox.map Msg.payload = _
    rw [hsend.out, show k'.outbox = k.outbox from rfl, hk.out, appData, map_nil, append_nil]

end

/-! ## A turn in EXCHANGE -/

theorem map_plain {α : Type*} {f : α → Tlv} (hf : ∀ x, (f x).plain = true) (l : List α) :
    ∀ t ∈ l.map f, t.plain = true := by grind

theorem lifUpdates_plain (lif : LocalInterface) : ∀ t ∈ lifUpdates lif, t.plain = true := by
  intro t ht
  rw [lifUpdates, prepareForPortChannelInfo_eq] at ht
  rcases List.mem_append.mp ht with ht | ht
  · split at ht
    · simp only [toList_some, mem_cons, not_mem_nil, or_false] at ht
      rcases ht with rfl | rfl <;> rfl
    · simp_all
  · split at ht
    · rw [List.mem_singleton.mp ht]; rfl
    · simp_all

def Plain (n n' : Node) : Prop := ∃ ts, Moves n n' n.ctl ts ∧ ∀ t ∈ ts, t.plain = true

theorem Plain.trans (h : Plain n n') (h' : Plain n' n'') : Plain n n'' := by
  obtain ⟨ts, hm, hp⟩ := h
  obtain ⟨ts', hm', hp'⟩ := h'
  rw [hm.ctl] at hm'
  refine ⟨ts ++ ts', hm.trans hm', fun t ht => ?_⟩
  grind

theorem Plain.sock (h : Plain n n') (hs : n.sock = true) : n'.sock = true := by
  obtain ⟨_, hm, _⟩ := h
  exact (congrArg Ctl.sock hm.ctl).trans hs

section
variable {n : Node} (hs : n.sock = true)
include hs

theorem sendEach_plain (hp : ∀ t ∈ ts, t.plain = true) (l : LocalData) :
    Plain n { sendEach n ts with loc := l } :=
  ⟨ts, sendEach_loc_moves hs ts l, hp⟩

theorem systemConfigChanged_plain : Plain n (sendSystemConfigChanged n) := by
  rw [sendSystemConfigChanged]
  split
  next =>
    have h := send_moves hs (prepareForSysConfig n)
    have h' := sendEach_moves (n := mlacpSyncSendSysConf n) ((congrArg Ctl.sock h.ctl).trans hs)
      ((mlacpSyncSendSysConf n).loc.peerLinkIf.toList.map prepareForPortPeerlinkInfo)
    rw [show (mlacpSyncSendSysConf n).ctl = n.ctl from h.ctl] at h'
    refine ⟨_, (h.trans h').congr _ _ rfl rfl rfl, fun t ht => ?_⟩
    rcases List.mem_cons.mp ht with rfl | ht
    · rfl
    · exact map_plain (fun _ => rfl) _ t ht
  next => exact ⟨[], Moves.of_eq rfl, fun _ h => (not_mem_nil h).elim⟩

theorem sendUpdates_plain : Plain n (sendUpdates n) := by
  have h₁ := systemConfigChanged_plain hs
  have h₂ : Plain _ (sendPurged (sendSystemConfigChanged n)) :=
    sendEach_plain (h₁.sock hs) (map_plain (fun _ => rfl) _) _
  have h₃ : Plain _ (sendLifs (sendPurged (sendSystemConfigChanged n))) :=
    sendEach_plain (h₂.sock (h₁.sock hs)) (fun t ht => by
      grind [lifUpdates_plain]) _
  have hs₃ := h₃.sock (h₂.sock (h₁.sock hs))
  have h₄ : Plain _ (mlacpSyncSendSyncMacInfo (sendLifs (sendPurged (sendSystemConfigChanged n)))) :=
    sendEach_plain hs₃ (map_plain (fun _ => rfl) _) _
  have h₅ := h₁.trans (h₂.trans (h₃.trans h₄))
  have h₆ : Plain _ (mlacpSyncSendSyncArpInfo _) := sendEach_plain (h₅.sock hs) (map_plain (fun _ => rfl) _) _
  have h₇ := h₅.trans h₆
  exact h₇.trans (sendEach_plain (h₇.sock hs) (map_plain (fun _ => rfl) _) _)

theorem exchange_sends :
    ∃ r ts, Moves n (sendUpdates (sendResync n)) { n.ctl with resyncs := r } ts ∧
      (r = n.resyncs ∧ (∀ t ∈ ts, t.plain = true) ∨ n.resyncs < r) := by
  rw [sendResync]
  split
  next =>
    let k : Node := { n with needToSync := false, syncReqNum := 0 }
    have h : Moves k (iccpCsmSend k (.syncRequest 0)) k.ctl [.syncRequest 0] := send_moves (n := k) hs _
    let k' : Node := { sendSyncRequest { n with needToSync := false } with resyncs := n.resyncs + 1 }
    have hk : k'.ctl = { n.ctl with resyncs := n.resyncs + 1 } := by
      change { (iccpCsmSend k (.syncRequest 0)).ctl with resyncs := n.resyncs + 1 } = _
      rw [h.ctl]
      rfl
    obtain ⟨ts, hm, _⟩ := sendUpdates_plain (n := k') ((congrArg Ctl.sock hk).trans hs)
    refine ⟨n.resyncs + 1, .syncRequest 0 :: ts, ?_, Or.inr (Nat.lt_succ_self _)⟩
    rw [hk] at hm
    exact (show Moves n k' _ _ from ⟨rfl, h.out⟩).trans hm
  next =>
    obtain ⟨ts, hm, hp⟩ := sendUpdates_plain hs
    exact ⟨n.resyncs, ts, hm, Or.inl ⟨rfl, hp⟩⟩

end

def Exchanges (n n' : Node) (c : Ctl) : Prop :=
  ∃ r ts, Moves n n' { c with resyncs := r } ts ∧ (r = n.resyncs ∧ (∀ t ∈ ts, t.plain = true) ∨ n.resyncs < r)

def Ctl.exchanged (c : Ctl) : Option Msg → Ctl
  | none => c
  | some m => if m.msgType = .rgAppData then c.received m else { c with dropped := c.dropped ++ [m] }

theorem Ctl.exchanged_eq (c : Ctl) (msg : Option Msg) :
    ∃ w h d, c.exchanged msg = { c with waitForSyncData := w, handled := h, dropped := d } := by
  rcases msg with _ | m
  · exact ⟨_, _, _, rfl⟩
  · rw [Ctl.exchanged]
    split
    · exact c.received_eq m
    · simp_all

section
variable (env : Handlers) {n : Node} (hs : n.sock = true) (hx : n.currentState = .exchange)
include hs hx

theorem fsmStep_exchange (msg : Option Msg) :
    ∃ k ts, Moves n k n.ctl ts ∧ (∀ t ∈ ts, t.plain = true) ∧ fsmStep env n msg = mlacpExchangeHandler env k msg := by
  obtain ⟨ts, hm, hp, _⟩ := noteState_updates env hs
  refine ⟨noteState env n, ts, hm, hp, ?_⟩
  have hc : (noteState env n).currentState = .exchange := (congrArg Ctl.currentState hm.ctl).trans hx
  grind [fsmStep, enterStage1]

theorem turn_exchange (msg : Option Msg) (hm : ∀ m ∈ msg, m.msgType = .rgAppData → isSyncRequest m = false) :
    Exchanges n (fsmStep env n msg) (n.ctl.exchanged msg) := by
  obtain ⟨k, ts, hk, hp, he⟩ := fsmStep_exchange env hs hx msg
  have hks : k.sock = true := (congrArg Ctl.sock hk.ctl).trans hs
  -- the message first: it leaves `exchanged` and writes plain TLVs
  obtain ⟨k', ts', hk', hp', he'⟩ : ∃ k' ts', Moves k k' (n.ctl.exchanged msg) ts' ∧ (∀ t ∈ ts', t.plain = true) ∧
      mlacpExchangeHandler env k msg = sendUpdates (sendResync k') := by
    cases msg with
    | none => exact ⟨k, [], ⟨hk.ctl, (append_nil _).symm⟩, fun _ h => (not_mem_nil h).elim, rfl⟩
    | some m =>
      by_cases ha : m.msgType = .rgAppData
      · obtain ⟨ts', hmv, hp', _⟩ := receiver_updates env hks m (not_syncRequest (hm m rfl ha))
        grind [mlacpExchangeHandler, Ctl.exchanged, hk.ctl]
      · refine ⟨k.drop m, [], ?_, fun _ h => (not_mem_nil h).elim,
          by grind [mlacpExchangeHandler]⟩
        rw [Ctl.exchanged, if_neg ha, ← hk.ctl]
        exact Moves.of_eq rfl
  obtain ⟨w, h, d, hc⟩ := n.ctl.exchanged_eq msg
  have hr' : k'.resyncs = n.resyncs := congrArg Ctl.resyncs (hk'.ctl.trans hc)
  have hs' : k'.sock = true := (congrArg Ctl.sock (hk'.ctl.trans hc)).trans hs
  obtain ⟨r, ts'', hm'', ho⟩ := exchange_sends hs'
  rw [hr'] at ho
  rw [hk'.ctl] at hm''
  rw [he, he']
  refine ⟨r, _, hk.trans (hk'.trans hm''), ho.imp (fun h => ⟨h.1, fun t ht => ?_⟩) id⟩
  grind

theorem turn_exchange_request (ha : m.msgType = .rgAppData) (hr : isSyncRequest m = true) :
    ∃ k a r pre post, n.resyncs ≤ r ∧ Moves n (fsmStep env n (some m))
      { n.ctl with
        waitForSyncData := false
        currentState := .error
        handled := n.handled ++ [m]
        answers := n.answers ++ [a]
        resyncs := r } (pre ++ answerTlvs k ++ post) := by
  obtain ⟨k, ts, hk, _, he⟩ := fsmStep_exchange env hs hx (some m)
  obtain ⟨q, ht⟩ := syncRequest_of hr
  let k' : Node := { k.handle m with syncReqNum := q }
  have hmv := answer_moves (n := k') ((congrArg Ctl.sock hk.ctl).trans hs)
  have hkc : k'.ctl = { k.ctl with handled := k.ctl.handled ++ [m] } := rfl
  have hkn : k'.currentState.next = k.ctl.currentState.next := rfl
  have hka : k'.answers = k.ctl.answers := rfl
  rw [hkc, hkn, hka, hk.ctl, show n.ctl.currentState = .exchange from hx] at hmv
  obtain ⟨r, post, hm', ho⟩ :=
    exchange_sends (n := mlacpSyncSendAllInfoHandler k') ((congrArg Ctl.sock hmv.ctl).trans hs)
  rw [hmv.ctl] at hm'
  have hle : n.resyncs ≤ r := by
    rw [show (mlacpSyncSendAllInfoHandler k').resyncs = n.resyncs from congrArg Ctl.resyncs hmv.ctl] at ho
    grind
  refine ⟨k', ⟨k'.system, k'.loc.lifList⟩, r, ts, post, hle, ?_⟩
  have hh : fsmStep env n (some m) = sendUpdates (sendResync (mlacpSyncSendAllInfoHandler k')) := by
    rw [he, mlacpExchangeHandler, elim_some, if_pos ha, mlacpSyncReceiverHandler, ht]
    rfl
  rw [hh, append_assoc]
  exact hk.trans ((hmv.congr k (mlacpSyncSendAllInfoHandler k') rfl rfl rfl).trans hm')

end

end Sonic.Mlacp
