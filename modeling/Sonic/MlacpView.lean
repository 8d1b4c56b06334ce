import Sonic.MlacpTurn

/-! # What an mLACP node knows of the other one

A node keeps the system config of its peer in `remoteSystem` and the peer's port-channels in `pifList`. Both are what
the handled messages say, in their order (`Node.Told`), because nothing but the receive handlers writes them. After an
answer was handled, every port-channel in it is found in the list with the data it had (`Shown`). -/

namespace Sonic.Mlacp
open List

/-! ## Messages about the other node -/

structure Known where
  system : RemoteSystem
  pifs : List PeerInterface

/-- What a handled message changes. -/
def Known.hear (k : Known) : Tlv → Known
  | .systemConfig sysId prio nodeId => { k with system := ⟨sysId, prio, nodeId⟩ }
  | .aggregatorConfig .purge _ name _ => { k with pifs := k.pifs.eraseP (·.name = name) }
  | .aggregatorConfig .add aggId name mac =>
    { k with
      pifs := updateFirst (·.name = name)
        (fun p => { p with poId := aggId, macAddr := mac, poActive := p.state = portStateUp })
        (if k.pifs.any (·.name = name) then k.pifs else peerIfCreate name aggId :: k.pifs) }
  | .aggregatorState aggId st =>
    { k with
      pifs := updateFirst (·.poId = aggId) (fun p => { p with state := st, poActive := st = portStateUp }) k.pifs }
  | .portChannelInfo aggId _ l3Mode ipv4Addr num vlans =>
    if vlans.length < num then k
    else
      { k with
        pifs := updateFirst (·.poId = aggId)
          (fun p => { p with ipv4Addr := ipv4Addr, l3Mode := l3Mode, vlanTree := (vlans.take num).dedup }) k.pifs }
  | _ => k

def Node.known (n : Node) : Known := ⟨n.remoteSystem, n.pifList⟩

def Known.none : Known := ⟨⟨0, 0, 0⟩, []⟩

/-- The node knows what the handled messages say. -/
def Node.Told (n : Node) : Prop := n.known = (n.handled.map Msg.tlv).foldl Known.hear .none

/-- The parts of a node that only the receive handlers write. -/
def Node.heard (n : Node) : Known × List Msg := (n.known, n.handled)

theorem Node.Told.congr {n n' : Node} (h : n.Told) (he : n'.heard = n.heard) : n'.Told := by
  rw [Node.Told, show n'.known = n.known from congrArg Prod.fst he,
    show n'.handled = n.handled from congrArg Prod.snd he]
  exact h

theorem Node.Told.hear {n n' : Node} {m : Msg} (h : n.Told) (hk : n'.known = n.known.hear m.tlv)
    (hh : n'.handled = n.handled ++ [m]) : n'.Told := by
  rw [Node.Told, hk, hh, map_append, foldl_append, h]
  rfl

/-! ## Everything else leaves it as it is -/

theorem heard_send (n : Node) (t : Tlv) : (iccpCsmSend n t).heard = n.heard := by
  rw [iccpCsmSend]
  split <;> rfl

theorem heard_sendEach (ts : List Tlv) (n : Node) : (sendEach n ts).heard = n.heard := by
  induction ts generalizing n with
  | nil => rfl
  | cons t ts ih => exact (ih _).trans (heard_send n t)

theorem heard_sender (n : Node) (st : SyncState) : (mlacpSyncSenderHandler n st).heard = n.heard := by
  cases st with
  | sysConf => exact heard_send n _
  | peerLinkInfo => exact heard_sendEach _ n
  | done => exact heard_send { n with waitForSyncData := false } _
  | _ => exact heard_sendEach _ n

theorem heard_senders (l : List SyncState) (n : Node) : (l.foldl mlacpSyncSenderHandler n).heard = n.heard := by
  induction l generalizing n with
  | nil => rfl
  | cons st l ih => exact (ih _).trans (heard_sender n st)

theorem heard_answer (n : Node) : (mlacpSyncSendAllInfoHandler n).heard = n.heard :=
  (heard_senders SyncState.all _).trans (heard_send { n with answers := n.answers ++ [⟨n.system, n.loc.lifList⟩] } _)

theorem heard_synLocalNeigh (n : Node) (infos : List NeighInfo) : (synLocalNeigh n infos).heard = n.heard := by
  rw [synLocalNeigh]
  split
  · exact heard_sendEach _ n
  · rfl

theorem heard_ifUpAck (n : Node) (ifType : UInt8) (ifId : UInt16) (isolation : UInt8) :
    (mlacpFsmSendIfUpAck n ifType ifId isolation).heard = n.heard := by
  rw [mlacpFsmSendIfUpAck]
  split
  · exact heard_send n _
  · rfl

theorem heard_resync (n : Node) : (sendResync n).heard = n.heard := by
  rw [sendResync]
  split
  · exact heard_send { n with needToSync := false, syncReqNum := 0 } _
  · rfl

theorem heard_systemConfigChanged (n : Node) : (sendSystemConfigChanged n).heard = n.heard := by
  rw [sendSystemConfigChanged]
  split
  · exact (heard_sendEach _ _).trans (heard_send n _)
  · rfl

theorem heard_updates (n : Node) : (sendUpdates n).heard = n.heard :=
  (heard_sendEach _ _).trans ((heard_sendEach _ _).trans ((heard_sendEach _ _).trans
    ((heard_sendEach _ _).trans ((heard_sendEach _ _).trans (heard_systemConfigChanged n)))))

theorem heard_enterStage1 (n : Node) : (enterStage1 n).heard = n.heard := by
  rw [enterStage1]
  split <;> rfl

theorem heard_advanceStage (n : Node) : (advanceStage n).heard = n.heard := by
  rw [advanceStage]
  split <;> rfl

section
variable (env : Handlers)

theorem heard_noteState (n : Node) : (noteState env n).heard = n.heard := by
  rw [noteState]
  split
  · rfl
  · split
    · exact heard_synLocalNeigh { n with loc := (env.peerConn n.loc).1 } _
    · rfl

/-! ## The receive handlers -/

theorem Node.Told.drop {n : Node} (h : n.Told) (m : Msg) : (n.drop m).Told := h

theorem Node.Told.receive {n : Node} (h : n.Told) (m : Msg) : (mlacpSyncReceiverHandler env n m).Told := by
  rw [mlacpSyncReceiverHandler]
  cases ht : m.tlv with
  | nak | other => exact h.drop m
  | aggregatorConfig flags aggId name mac =>
    cases flags with
    | add => exact h.hear (m := m) (by rw [ht]; rfl) rfl
    | purge =>
      simp only [mlacpFsmUpdateAggConf]
      split
      next => exact h.hear (m := m) (by rw [ht]; rfl) rfl
      next hn =>
        -- a purge of an unknown port-channel erases nothing
        refine h.hear (m := m) ?_ rfl
        rw [ht, Known.hear]
        refine congrArg (Known.mk _) (eraseP_of_forall_not fun p hp => ?_).symm
        exact fun hname => hn (any_eq_true.mpr ⟨p, hp, hname⟩)
  | aggregatorState aggId st =>
    have hu : (mlacpFsmUpdateAggportState (n.handle m) aggId st).Told := h.hear (m := m) (by rw [ht]; rfl) rfl
    simp only [mlacpSyncRecvAggState]
    split
    · exact hu.congr (heard_ifUpAck _ _ _ _)
    · exact hu
  | syncData r flags =>
    simp only [mlacpSyncRecvSyncData]
    split <;> exact h.hear (m := m) (by rw [ht]; rfl) rfl
  | syncRequest r =>
    have hh : (n.handle m).Told := h.hear (m := m) (by rw [ht]; rfl) rfl
    exact Node.Told.congr (n := { n.handle m with syncReqNum := r }) hh (heard_answer _)
  | portChannelInfo aggId name l3Mode ipv4Addr num vlans =>
    simp only
    split
    next hlt => exact h.hear (m := m) (by rw [ht, Known.hear, if_pos hlt]; rfl) rfl
    next hlt => exact h.hear (m := m) (by rw [ht, Known.hear, if_neg hlt]; rfl) rfl
  | neighInfo num info =>
    have hh : (n.handle m).Told := h.hear (m := m) (by rw [ht]; rfl) rfl
    simp only [mlacpSyncRecvNeighInfo]
    split
    · exact hh
    · exact Node.Told.congr (n := { n.handle m with loc := (env.updateNeigh n.loc (info.take num)).1 }) hh
        (heard_synLocalNeigh _ _)
  | _ => exact h.hear (m := m) (by rw [ht]; rfl) rfl

theorem Node.Told.exchange {n : Node} (h : n.Told) (msg : Option Msg) : (mlacpExchangeHandler env n msg).Told := by
  refine Node.Told.congr ?_ ((heard_updates _).trans (heard_resync _))
  cases msg with
  | none => exact h
  | some m =>
    simp only [Option.elim]
    split
    · exact h.receive env m
    · exact h.drop m

theorem Node.Told.stage {n : Node} (h : n.Told) (msg : Option Msg) : (mlacpStageHandler env n msg).Told := by
  rw [mlacpStageHandler]
  split
  · cases msg with
    | none => exact h
    | some m =>
      rw [mlacpStageSyncSendHandler]
      split
      · exact h.drop m
      · split
        next ht =>
          refine Node.Told.congr (n := n.handle m) ?_ (heard_answer _)
          exact h.hear (m := m) (by rw [ht]; rfl) rfl
        next => exact h.drop m
  · rw [mlacpStageSyncRequestHandler]
    split
    · refine Node.Told.congr ?_ (heard_advanceStage _)
      cases msg with
      | none => exact h
      | some m => exact h.receive env m
    · cases msg with
      | none => exact h.congr (heard_send { n with syncReqNum := 0 } _)
      | some m => exact (h.drop m).congr (heard_send { n.drop m with syncReqNum := 0 } _)

theorem Node.Told.fsmStep {n : Node} (h : n.Told) (msg : Option Msg) : (fsmStep env n msg).Told := by
  have hn : (enterStage1 (noteState env n)).Told := h.congr ((heard_enterStage1 _).trans (heard_noteState env n))
  simp only [Mlacp.fsmStep]
  split
  · exact hn.stage env msg
  · exact hn.stage env msg
  · exact hn.exchange env msg
  · cases msg with
    | none => exact hn
    | some m => exact hn.drop m

theorem Node.Told.fsmMsg {n : Node} (h : n.Told) (m : Msg) : (fsmMsg env n m).Told := by
  rw [Mlacp.fsmMsg]
  split
  next hm =>
    rw [mlacpSyncRecvNakHandler]
    split <;> exact h.hear (m := m) (by rw [hm.2]; rfl) rfl
  next => exact h.fsmStep env (some m)

theorem Node.Told.fsmLoop {q : List Msg} {n : Node} (h : n.Told) : (fsmLoop env q n).Told := by
  induction q generalizing n with
  | nil => exact h.fsmStep env none
  | cons m q ih => exact ih (Node.Told.fsmMsg (n := { n with msgList := q }) env h m)

theorem Node.Told.transit {n : Node} (h : n.Told) (due : Bool) : (mlacpFsmTransit env n due).Told := by
  rw [mlacpFsmTransit]
  split
  · have hb : (mlacpSyncSendHeartbeat n due).Told := by
      rw [mlacpSyncSendHeartbeat]
      split
      · exact h.congr (heard_send n _)
      · exact h
    dsimp only
    split
    · exact (hb.fsmStep env none).fsmLoop env
    · exact hb.fsmLoop env
  · split
    · exact h
    · exact h

end

/-! ## What an answer leaves in the list -/

section
variable {α κ : Type*} [DecidableEq κ] {key : α → κ} {f : α → α} {l : List α} {p : α}

theorem mem_updateFirst_of_ne {q : α → Bool} (hp : p ∈ l) (hq : q p = false) : p ∈ updateFirst q f l := by
  induction l with
  | nil => cases hp
  | cons x l ih =>
    rw [updateFirst]
    rcases mem_cons.mp hp with rfl | hp
    · rw [hq]
      exact mem_cons_self
    · split
      · exact mem_cons_of_mem _ hp
      · exact mem_cons_of_mem _ (ih hp)

theorem mem_updateFirst (hl : (l.map key).Nodup) (hp : p ∈ l) : f p ∈ updateFirst (fun x => key x = key p) f l := by
  induction l with
  | nil => cases hp
  | cons x l ih =>
    rw [map_cons, nodup_cons] at hl
    rw [updateFirst]
    rcases mem_cons.mp hp with rfl | hp
    · rw [decide_eq_true rfl, if_pos rfl]
      exact mem_cons_self
    · have hne : key x ≠ key p := fun he => hl.1 (he ▸ mem_map_of_mem hp)
      rw [decide_eq_false hne, if_neg Bool.false_ne_true]
      exact mem_cons_of_mem _ (ih hl.2 hp)

theorem map_updateFirst (q : α → Bool) (hf : ∀ x, key (f x) = key x) : (updateFirst q f l).map key = l.map key := by
  induction l with
  | nil => rfl
  | cons x l ih =>
    rw [updateFirst]
    split
    · rw [map_cons, map_cons, hf]
    · rw [map_cons, map_cons, ih]

end

section
variable {g : LocalInterface → PeerInterface → PeerInterface} (hg : ∀ lif p, (g lif p).poId = p.poId)
include hg

/-- One message about every port-channel: `g` with the data of each. -/
def eachById (g : LocalInterface → PeerInterface → PeerInterface) (lifs : List LocalInterface)
    (l : List PeerInterface) : List PeerInterface :=
  lifs.foldl (fun l lif => updateFirst (·.poId = lif.poId) (g lif) l) l

theorem map_eachById (lifs : List LocalInterface) (l : List PeerInterface) :
    (eachById g lifs l).map (·.poId) = l.map (·.poId) := by
  induction lifs generalizing l with
  | nil => rfl
  | cons lif lifs ih =>
    have hstep : (updateFirst (·.poId = lif.poId) (g lif) l).map (·.poId) = l.map (·.poId) := map_updateFirst _ (hg lif)
    exact (ih _).trans hstep

omit hg in
theorem mem_eachById_of_ne {lifs : List LocalInterface} {l : List PeerInterface} {p : PeerInterface} (hp : p ∈ l)
    (hn : ∀ lif ∈ lifs, lif.poId ≠ p.poId) : p ∈ eachById g lifs l := by
  induction lifs generalizing l with
  | nil => exact hp
  | cons lif lifs ih =>
    refine ih (mem_updateFirst_of_ne hp (decide_eq_false fun he => hn lif mem_cons_self he.symm)) fun x hx => ?_
    exact hn x (mem_cons_of_mem _ hx)

theorem mem_eachById {lifs : List LocalInterface} {l : List PeerInterface} {lif : LocalInterface} {p : PeerInterface}
    (hids : (lifs.map (·.poId)).Nodup) (hl : (l.map (·.poId)).Nodup) (hlif : lif ∈ lifs) (hp : p ∈ l)
    (he : p.poId = lif.poId) : g lif p ∈ eachById g lifs l := by
  induction lifs generalizing l with
  | nil => cases hlif
  | cons x lifs ih =>
    rw [map_cons, nodup_cons] at hids
    rcases mem_cons.mp hlif with rfl | hlif
    · have hfirst : g lif p ∈ updateFirst (·.poId = lif.poId) (g lif) l := by
        rw [← he]
        exact mem_updateFirst hl hp
      have hlater : ∀ y ∈ lifs, y.poId ≠ (g lif p).poId := fun y hy hyp => by
        rw [hg, he] at hyp
        exact hids.1 (hyp ▸ mem_map_of_mem hy)
      show g lif p ∈ eachById g lifs (updateFirst (·.poId = lif.poId) (g lif) l)
      exact mem_eachById_of_ne hfirst hlater
    · have hne : p.poId ≠ x.poId := fun h => hids.1 (by rw [← h, he]; exact mem_map_of_mem hlif)
      refine ih hids.2 ?_ hlif (mem_updateFirst_of_ne hp (decide_eq_false hne))
      have hstep : (updateFirst (·.poId = x.poId) (g x) l).map (·.poId) = l.map (·.poId) := map_updateFirst _ (hg x)
      rw [hstep]
      exact hl

end

/-- The entry that an aggregator config makes. -/
def created (lif : LocalInterface) : PeerInterface :=
  { peerIfCreate lif.name lif.poId with macAddr := lif.macAddr, poActive := true }

theorem hear_configs (lifs : List LocalInterface) (k : Known)
    (hn : (lifs.map (·.name) ++ k.pifs.map (·.name)).Nodup) :
    (lifs.map (prepareForAggportConfig · .add)).foldl Known.hear k =
      { k with pifs := (lifs.map created).reverse ++ k.pifs } := by
  induction lifs generalizing k with
  | nil => rfl
  | cons lif lifs ih =>
    rw [map_cons, cons_append, nodup_cons, mem_append, not_or] at hn
    have hnew : k.hear (prepareForAggportConfig lif .add) = { k with pifs := created lif :: k.pifs } := by
      have hany : k.pifs.any (·.name = lif.name) = false := by
        refine any_eq_false.mpr fun p hp he => hn.1.2 ?_
        rw [← of_decide_eq_true he]
        exact mem_map_of_mem hp
      simp only [prepareForAggportConfig, Known.hear, hany, Bool.false_eq_true, reduceIte]
      rw [updateFirst, if_pos (show decide ((peerIfCreate lif.name lif.poId).name = lif.name) = true from
        decide_eq_true rfl)]
      rfl
    rw [map_cons, foldl_cons, hnew, ih]
    · rw [map_cons, reverse_cons, append_assoc]
      rfl
    · refine (perm_middle.nodup_iff).mpr (nodup_cons.mpr ⟨fun h => ?_, hn.2⟩)
      exact (mem_append.mp h).elim hn.1.1 hn.1.2

theorem hear_states (lifs : List LocalInterface) (k : Known) :
    (lifs.map prepareForAggportState).foldl Known.hear k =
      { k with
        pifs := eachById (fun lif p => { p with state := lif.state, poActive := lif.state = portStateUp }) lifs
          k.pifs } := by
  induction lifs generalizing k with
  | nil => rfl
  | cons lif lifs ih => exact ih _

theorem hear_infos (lifs : List LocalInterface) (k : Known) :
    (lifs.map portChannelInfo).foldl Known.hear k =
      { k with
        pifs := eachById (fun lif p =>
          { p with ipv4Addr := lif.ipv4Addr, l3Mode := lif.l3Mode, vlanTree := lif.vlanTree.val }) lifs k.pifs } := by
  induction lifs generalizing k with
  | nil => rfl
  | cons lif lifs ih =>
    have hone : k.hear (portChannelInfo lif) =
        { k with
          pifs := updateFirst (·.poId = lif.poId) (fun p =>
            { p with ipv4Addr := lif.ipv4Addr, l3Mode := lif.l3Mode, vlanTree := lif.vlanTree.val }) k.pifs } := by
      rw [portChannelInfo, Known.hear, if_neg (Nat.lt_irrefl _), take_length, lif.vlanTree.property.1.dedup]
    rw [map_cons, foldl_cons, hone]
    exact ih _

/-- The port-channels have different names and ids; the source takes the id from the name. -/
def Answer.Distinct (x : Answer) : Prop :=
  (x.portChannels.map (·.name)).Nodup ∧ (x.portChannels.map (·.poId)).Nodup

instance (x : Answer) : Decidable x.Distinct := inferInstanceAs (Decidable (_ ∧ _))

/-- The list of peer interfaces has the port-channel, with its config, its state and its info. -/
def Shown (pifs : List PeerInterface) (lif : LocalInterface) : Prop :=
  ∃ p ∈ pifs, p.name = lif.name ∧ p.poId = lif.poId ∧ p.macAddr = lif.macAddr ∧ p.state = lif.state ∧
    (p.poActive = true ↔ lif.state = portStateUp) ∧ p.ipv4Addr = lif.ipv4Addr ∧ p.l3Mode = lif.l3Mode ∧
    p.vlanTree = lif.vlanTree.val

theorem hear_required (x : Answer) : (x.required.foldl Known.hear .none).system = x.system ∧
    (x.Distinct → ∀ lif ∈ x.portChannels, Shown (x.required.foldl Known.hear .none).pifs lif) := by
  rw [Answer.required, foldl_cons, foldl_append, foldl_append, hear_infos, hear_states]
  have hsys (lifs : List LocalInterface) (k : Known) :
      ((lifs.map (prepareForAggportConfig · .add)).foldl Known.hear k).system = k.system := by
    induction lifs generalizing k with
    | nil => rfl
    | cons lif lifs ih => exact ih _
  refine ⟨hsys _ _, fun hd lif hlif => ?_⟩
  have hnames : (x.portChannels.map (·.name) ++ Known.none.pifs.map (·.name)).Nodup := by
    rw [Known.none, map_nil, append_nil]
    exact hd.1
  rw [hear_configs _ (Known.none.hear (.systemConfig x.system.systemId x.system.systemPriority x.system.nodeId)) hnames]
  have hids : (((x.portChannels.map created).reverse ++ []).map PeerInterface.poId).Nodup := by
    rw [append_nil, map_reverse, map_map, nodup_reverse]
    exact hd.2
  have hmem : created lif ∈ (x.portChannels.map created).reverse ++ [] := by
    rw [append_nil, mem_reverse]
    exact mem_map_of_mem hlif
  have hstate := mem_eachById (g := fun lif p => { p with state := lif.state, poActive := lif.state = portStateUp })
    (fun _ _ => rfl) hd.2 hids hlif hmem rfl
  have hids' := (map_eachById (g := fun lif p => { p with state := lif.state, poActive := lif.state = portStateUp })
    (fun _ _ => rfl) x.portChannels _).symm ▸ hids
  have hinfo := mem_eachById (g := fun lif p =>
    { p with ipv4Addr := lif.ipv4Addr, l3Mode := lif.l3Mode, vlanTree := lif.vlanTree.val }) (fun _ _ => rfl) hd.2 hids'
    hlif hstate rfl
  exact ⟨_, hinfo, rfl, rfl, rfl, rfl, decide_eq_true_iff, rfl, rfl, rfl⟩

/-! ## What later messages leave -/

/-- The message is about the port-channel. -/
def Tlv.concerns (lif : LocalInterface) : Tlv → Prop
  | .aggregatorConfig _ _ name _ => name = lif.name
  | .aggregatorState aggId _ => aggId = lif.poId
  | .portChannelInfo aggId .. => aggId = lif.poId
  | _ => False

def Tlv.isSystemConfig : Tlv → Bool
  | .systemConfig .. => true
  | _ => false

theorem hear_of_not_tells {t : Tlv} (h : t.tells = false) (k : Known) : k.hear t = k := by
  cases t with
  | systemConfig | aggregatorConfig | aggregatorState | portChannelInfo => cases h
  | _ => rfl

theorem hear_filter (ts : List Tlv) (k : Known) : (ts.filter Tlv.tells).foldl Known.hear k = ts.foldl Known.hear k := by
  induction ts generalizing k with
  | nil => rfl
  | cons t ts ih =>
    cases ht : t.tells with
    | true => rw [filter_cons_of_pos ht]; exact ih _
    | false => rw [filter_cons_of_neg (by rw [ht]; decide), foldl_cons, hear_of_not_tells ht]; exact ih k

theorem hear_system {t : Tlv} (h : t.isSystemConfig = false) (k : Known) : (k.hear t).system = k.system := by
  cases t with
  | systemConfig => cases h
  | aggregatorConfig flags => cases flags <;> rfl
  | portChannelInfo =>
    rw [Known.hear]
    split <;> rfl
  | _ => rfl

theorem Shown.hear {k : Known} {lif : LocalInterface} {t : Tlv} (h : Shown k.pifs lif) (ht : ¬ t.concerns lif) :
    Shown (k.hear t).pifs lif := by
  obtain ⟨p, hp, hname, hid, hrest⟩ := h
  refine ⟨p, ?_, hname, hid, hrest⟩
  cases t with
  | aggregatorConfig flags aggId name mac =>
    have hne : decide (p.name = name) = false := decide_eq_false fun he => ht (he.symm.trans hname)
    cases flags with
    | purge =>
      refine (mem_eraseP_of_neg ?_).mpr hp
      rw [hne]
      exact Bool.false_ne_true
    | add =>
      refine mem_updateFirst_of_ne ?_ hne
      split
      · exact hp
      · exact mem_cons_of_mem _ hp
  | aggregatorState aggId st =>
    exact mem_updateFirst_of_ne hp (decide_eq_false fun he => ht (he.symm.trans hid))
  | portChannelInfo aggId name l3Mode ipv4Addr num vlans =>
    rw [Known.hear]
    split
    · exact hp
    · exact mem_updateFirst_of_ne hp (decide_eq_false fun he => ht (he.symm.trans hid))
  | _ => exact hp

theorem foldl_hear_system {ts : List Tlv} (h : ∀ t ∈ ts, t.isSystemConfig = false) (k : Known) :
    (ts.foldl Known.hear k).system = k.system := by
  induction ts generalizing k with
  | nil => rfl
  | cons t ts ih =>
    exact (ih (fun t' ht' => h t' (mem_cons_of_mem _ ht')) _).trans (hear_system (h t mem_cons_self) k)

theorem Shown.foldl_hear {ts : List Tlv} {k : Known} {lif : LocalInterface} (h : Shown k.pifs lif)
    (ht : ∀ t ∈ ts, ¬ t.concerns lif) : Shown (ts.foldl Known.hear k).pifs lif := by
  induction ts generalizing k with
  | nil => exact h
  | cons t ts ih => exact ih (h.hear (ht t mem_cons_self)) fun t' ht' => ht t' (mem_cons_of_mem _ ht')

end Sonic.Mlacp
