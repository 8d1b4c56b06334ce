import Sonic.MlacpSync
import Sonic.MlacpView

/-! # Two mLACP nodes over FIFO channels

The active node `a` and the standby node `b` start in INIT on an operational session. Each event is
a tick, a local change or a message of the link handlers of one node, or the delivery of the oldest
message of a channel. -/

namespace Sonic.Mlacp
open List

variable {ts : List Tlv} {n : Node} {c : Ctl}

inductive LocalEv
  | tick (heartbeatDue : Bool)
  | configure (loc : LocalData)
  | syncNeigh (infos : List NeighInfo)
  | warmboot

def LocalEv.ev : LocalEv → Ev
  | .tick due => .tick due
  | .configure loc => .configure loc
  | .syncNeigh infos => .syncNeigh infos
  | .warmboot => .warmboot

structure Pair where
  a : Node
  b : Node
  toA : List Msg
  toB : List Msg

inductive PairEv
  | active (e : LocalEv)
  | standby (e : LocalEv)
  | deliverActive
  | deliverStandby

section
variable (envA envB : Handlers)

def Pair.next (p : Pair) : PairEv → Pair
  | .active e =>
    let a := step envA p.a e.ev
    { p with a := { a with outbox := [] }, toB := p.toB ++ a.outbox }
  | .standby e =>
    let b := step envB p.b e.ev
    { p with b := { b with outbox := [] }, toA := p.toA ++ b.outbox }
  | .deliverActive =>
    match p.toA with
    | [] => p
    | m :: ms => { p with a := appCsmEnqueueMsg p.a m, toA := ms }
  | .deliverStandby =>
    match p.toB with
    | [] => p
    | m :: ms => { p with b := appCsmEnqueueMsg p.b m, toB := ms }

def pair (p : Pair) (e : PairEv) : Option Pair := some (p.next envA envB e)

def Pair.init (locA locB : LocalData) : Pair :=
  ⟨{ Node.init locA with role := .active, sock := true, operational := true },
    { Node.init locB with role := .standby, sock := true, operational := true }, [], []⟩

/-- The event repeats no request. -/
def noResync (p : Pair) (e : PairEv) : Prop :=
  (p.next envA envB e).a.resyncs = 0 ∧ (p.next envA envB e).b.resyncs = 0

instance (p : Pair) (e : PairEv) : Decidable (noResync envA envB p e) := inferInstanceAs (Decidable (_ ∧ _))

end

/-- The peer gave the answer `x`, and `n` has processed it: the messages of the answer were handled up to the one that
ends it, and what they say stands in `n` until a message of `after` says something else. -/
structure Processed (n : Node) (x : Answer) (after : List Msg) : Prop where
  handled : ∃ before m r, n.handled = before ++ m :: after ∧ m.tlv = .syncData r 1 ∧
    ∀ t ∈ x.required, ∃ m ∈ before, m.tlv = t
  system : (∀ m ∈ after, m.tlv.isSystemConfig = false) → n.remoteSystem = x.system
  portChannels : x.Distinct → ∀ lif ∈ x.portChannels, (∀ m ∈ after, ¬ m.tlv.concerns lif) → Shown n.pifList lif

/-- What `n` knows in EXCHANGE: both nodes answered once, and `n` has processed
everything the other one had when it answered. -/
def Synced (n peer : Node) : Prop :=
  n.currentState = .exchange → n.answers.length = 1 ∧ ∃ x after, peer.answers = [x] ∧ Processed n x after

def OnlyHeartbeatsLost (n : Node) : Prop := ∀ m ∈ n.dropped, m.tlv = .heartbeat

/-! ## Messages of the other node -/

def Tlv.known : Tlv → Bool
  | .nak | .other _ => false
  | _ => true

theorem Tlv.known_range {t : Tlv} (h : t.known = true) : tlvMlacpConnect < t.type ∧ t.type < tlvMlacpListEnd := by
  cases t with
  | nak | other => cases h
  | neighInfo num info => cases info <;> simp only [Tlv.type, tlvMlacpConnect, tlvMlacpListEnd] <;> omega
  | _ => simp only [Tlv.type, tlvMlacpConnect, tlvMlacpListEnd]; omega

theorem Tlv.known_of_plain {t : Tlv} (h : t.plain = true) : t.known = true := by
  cases t with
  | nak | other => cases h
  | _ => rfl

theorem Asks.known (h : Asks ts) : ∀ t ∈ ts, t.known = true := by
  obtain ⟨pre, r, post, rfl, hpre, hpost⟩ := h
  intro t ht
  rcases List.mem_append.mp ht with ht | ht
  · rw [hpre t ht]; rfl
  · rcases List.mem_cons.mp ht with rfl | ht
    · rfl
    · rw [hpost t ht]; rfl

theorem Ends.known {pre post : List Tlv} (h : Ends pre post ts) (hp : ∀ t ∈ post, t.known = true) :
    ∀ t ∈ ts, t.known = true := by
  obtain ⟨r, rfl, hpre⟩ := h
  intro t ht
  rcases List.mem_append.mp ht with ht | ht
  · exact Tlv.known_of_plain (hpre t ht)
  · rcases List.mem_cons.mp ht with rfl | ht
    · rfl
    · exact hp t ht

theorem AllPlain.known (h : AllPlain ts) : ∀ t ∈ ts, t.known = true := fun t ht =>
  Tlv.known_of_plain (h t ht)

section
variable {a b : Side} {toA toB : List Tlv} (hp : Phase a b toA toB)
include hp

theorem Phase.known : (∀ t ∈ toA, t.known = true) ∧ ∀ t ∈ toB, t.known = true := by
  cases hp with
  | start _ _ _ hA hB => exact ⟨hA.plain.known, hB.plain.known⟩
  | asked _ _ _ hA hB => exact ⟨hA.known, hB.plain.known⟩
  | answered _ _ _ _ _ _ _ hA hB hpost => exact ⟨hA.plain.known, hB.known hpost.known⟩
  | swapped _ _ _ _ _ _ hA hB => exact ⟨hA.plain.known, hB.known⟩
  | returned _ _ _ _ _ _ _ _ hA hpost hB => exact ⟨hA.known hpost.known, hB.plain.known⟩
  | synced _ _ _ _ _ _ hA hB => exact ⟨hA.known, hB.known⟩

theorem Phase.heartbeatB (hq : Quiet ts) : Phase a b toA (toB ++ ts) := by
  cases hp with
  | start hi hb hbn hA hB => exact .start hi hb hbn hA (hB.append hq)
  | asked hi hb hbn hA hB => exact .asked hi hb hbn hA (hB.append hq)
  | answered x pre post ha hb han hbn hA hB hpost hg =>
    exact .answered x pre (post ++ ts) ha hb han hbn hA (hB.append ts) (hpost.append hq) hg
  | swapped x ha hb hbw han hbn hA hB hg => exact .swapped x ha hb hbw han hbn hA (hB.append hq) hg
  | returned x y pre post ha hb han hbn hA hpost hB hg hg' =>
    exact .returned x y pre post ha hb han hbn hA hpost (hB.append hq) hg hg'
  | synced x y ha hb han hbn hA hB hg hg' => exact .synced x y ha hb han hbn hA (hB.append hq.plain) hg hg'

theorem Phase.heartbeatA (hq : Quiet ts) : Phase a b (toA ++ ts) toB := by
  cases hp with
  | start hi hb hbn hA hB => exact .start hi hb hbn (hA.append hq) hB
  | asked hi hb hbn hA hB => exact .asked hi hb hbn (hA.append hq) hB
  | answered x pre post ha hb han hbn hA hB hpost hg =>
    exact .answered x pre post ha hb han hbn (hA.append hq) hB hpost hg
  | swapped x ha hb hbw han hbn hA hB hg => exact .swapped x ha hb hbw han hbn (hA.append hq) hB hg
  | returned x y pre post ha hb han hbn hA hpost hB hg hg' =>
    exact .returned x y pre (post ++ ts) ha hb han hbn (hA.append ts) (hpost.append hq.plain) hB hg hg'
  | synced x y ha hb han hbn hA hB hg hg' => exact .synced x y ha hb han hbn (hA.append hq.plain) hB hg hg'

theorem Phase.activeSends (hx : a.currentState = .exchange) (hq : AllPlain ts) :
    Phase a b toA (toB ++ ts) := by
  cases hp with
  | start hi | asked hi =>
    rcases hi.1 with h | h <;> simp_all
  | answered _ _ _ ha | swapped _ ha | returned _ _ _ _ ha => rw [Side.waits, hx] at ha; cases ha.1
  | synced x y ha hb han hbn hA hB hg hg' => exact .synced x y ha hb han hbn hA (hB.append hq) hg hg'

theorem Phase.standbySends (hx : b.currentState = .exchange) (hq : AllPlain ts) :
    Phase a b (toA ++ ts) toB := by
  cases hp with
  | start _ hb | swapped _ _ hb => rw [hx] at hb; cases hb
  | asked _ hb | answered _ _ _ _ hb => rw [Side.waits, hx] at hb; cases hb.1
  | returned x y pre post ha hb han hbn hA hpost hB hg hg' =>
    exact .returned x y pre (post ++ ts) ha hb han hbn (hA.append ts) (hpost.append hq) hB hg hg'
  | synced x y ha hb han hbn hA hB hg hg' => exact .synced x y ha hb han hbn (hA.append hq) hB hg hg'

theorem Phase.valid : a.currentState.valid = true ∧ b.currentState.valid = true := by
  cases hp with
  | start hi hb =>
    rw [hb]
    rcases hi.1 with h | h
    · rw [h]; exact ⟨rfl, rfl⟩
    · rw [h.1]; exact ⟨rfl, rfl⟩
  | asked hi hb =>
    rw [hb.1]
    rcases hi.1 with h | h
    · rw [h]; exact ⟨rfl, rfl⟩
    · rw [h.1]; exact ⟨rfl, rfl⟩
  | answered _ _ _ ha hb => rw [ha.1, hb.1]; exact ⟨rfl, rfl⟩
  | swapped _ ha hb | returned _ _ _ _ ha hb => rw [ha.1, hb]; exact ⟨rfl, rfl⟩
  | synced _ _ ha hb => rw [ha, hb]; exact ⟨rfl, rfl⟩

theorem Phase.got : (a.currentState = .exchange → ∃ x y, a.answers = [x] ∧ b.answers = [y] ∧ Has y a.handled) ∧
    (b.currentState = .exchange → ∃ x y, a.answers = [x] ∧ b.answers = [y] ∧ Has x b.handled) := by
  refine ⟨fun hx => ?_, fun hx => ?_⟩
  · cases hp with
    | start hi | asked hi =>
      rcases hi.1 with h | h <;> simp_all
    | answered _ _ _ ha | swapped _ ha | returned _ _ _ _ ha => rw [Side.waits, hx] at ha; cases ha.1
    | synced x y _ _ han hbn _ _ _ hg => simp_all
  · cases hp <;> simp_all [Side.waits]

end

/-! ## Steps of the pair -/

structure Ready (n : Node) (role : Role) : Prop where
  role : n.role = role
  sock : n.sock = true
  operational : n.operational = true
  outbox : n.outbox = []
  app : ∀ m ∈ n.msgList, m.msgType = .rgAppData
  resyncs : n.resyncs = 0
  lost : OnlyHeartbeatsLost n

structure Pair.Inv (p : Pair) : Prop where
  a : Ready p.a .active
  b : Ready p.b .standby
  toA : ∀ m ∈ p.toA, m.msgType = .rgAppData
  toB : ∀ m ∈ p.toB, m.msgType = .rgAppData
  phase : Phase p.a.ctl.side p.b.ctl.side ((p.a.msgList ++ p.toA).map Msg.tlv) ((p.b.msgList ++ p.toB).map Msg.tlv)

theorem Moves.wrote {n' : Node} (h : Moves n n' c ts) (ho : n.outbox = []) :
    n'.outbox.map Msg.tlv = ts ∧ ∀ m ∈ n'.outbox, m.msgType = .rgAppData := by
  have he := h.out
  rw [ho, map_nil, nil_append, appData] at he
  refine ⟨?_, fun m hm => ?_⟩
  · have := congrArg (List.map Prod.snd) he
    rw [List.map_map, List.map_map] at this
    exact this.trans (List.map_id _)
  · have : m.payload ∈ ts.map fun t => (MsgType.rgAppData, t) := he ▸ List.mem_map_of_mem hm
    obtain ⟨t, _, ht⟩ := List.mem_map.mp this
    exact (congrArg Prod.fst ht).symm

theorem Turns.same_all {c' : Ctl} {q : List Msg} (h : Turns c q c' ts) (hq : c.msgList = q) :
    c'.role = c.role ∧ c'.sock = c.sock ∧ c'.operational = c.operational ∧ c'.msgList = [] := by
  induction h with
  | done h => grind [Sonic.Mlacp.Turn.same]
  | next h _ ih =>
    obtain ⟨h₁, h₂, h₃, h₄, _⟩ := h.same
    grind

theorem Tick.same {c' : Ctl} (h : Tick c c' ts) :
    c'.role = c.role ∧ c'.sock = c.sock ∧ c'.operational = c.operational ∧ c'.msgList = [] := by
  cases h with
  | live _ h => exact h.same_all rfl
  | start _ h₀ h =>
    obtain ⟨h₁, h₂, h₃, h₄, _⟩ := h₀.same
    grind [Sonic.Mlacp.Turns.same_all]

theorem local_updates (env : Handlers) (hs : n.sock = true) {e : LocalEv} (he : ∀ due, e ≠ .tick due) :
    Updates n (step env n e.ev) n.ctl := by
  cases e with
  | tick due => exact absurd rfl (he due)
  | configure loc => exact Updates.of_eq rfl
  | syncNeigh infos => exact synLocalNeigh_updates hs infos
  | warmboot =>
    change Updates n (if n.currentState = .exchange then iccpCsmSend n .warmbootFlag else n) n.ctl
    split
    next hx =>
      refine Updates.of_moves hx (send_moves hs _) fun t ht => ?_
      rw [List.mem_singleton.mp ht]
      rfl
    next => exact Updates.of_eq rfl

theorem Ready.moved {n' : Node} {role : Role} (h : Ready n role) (hm : Moves n n' c ts)
    (hr : c.role = n.role) (hs : c.sock = n.sock) (ho : c.operational = n.operational)
    (hq : ∀ m ∈ c.msgList, m.msgType = .rgAppData) (hn : n'.resyncs = 0) (hl : Loses n.ctl c) :
    Ready { n' with outbox := [] } role := by
  have hc := hm.ctl
  refine ⟨(congrArg Ctl.role hc).trans (hr.trans h.role), (congrArg Ctl.sock hc).trans (hs.trans h.sock),
    (congrArg Ctl.operational hc).trans (ho.trans h.operational), rfl, fun m h' => hq m ?_, hn, fun m h' => ?_⟩
  · rw [← hc]; exact h'
  · have hd : m ∈ c.dropped := by rw [← hc]; exact h'
    exact (hl m hd).elim (h.lost m) id

section
variable (env : Handlers) {p : Pair} (h : p.Inv)
include h

theorem Pair.Inv.active (e : LocalEv) (hn : (step env p.a e.ev).resyncs = 0) :
    ({ p with
      a := { step env p.a e.ev with outbox := [] }
      toB := p.toB ++ (step env p.a e.ev).outbox } : Pair).Inv := by
  obtain ⟨c, ts, hm, ⟨hr, hs, ho⟩, hq, hl, hp⟩ : ∃ c ts, Moves p.a (step env p.a e.ev) c ts ∧
      (c.role = p.a.role ∧ c.sock = p.a.sock ∧ c.operational = p.a.operational) ∧
      (∀ m ∈ c.msgList, m.msgType = .rgAppData) ∧ Loses p.a.ctl c ∧
      Phase c.side p.b.ctl.side ((c.msgList ++ p.toA).map Msg.tlv) ((p.b.msgList ++ p.toB).map Msg.tlv ++ ts) := by
    by_cases he : ∃ due, e = .tick due
    · obtain ⟨due, rfl⟩ := he
      obtain ⟨c, ts, ht, hm⟩ := transit_tick env h.a.sock h.a.operational (AppState.valid_cases h.phase.valid.1) due
      have hquiet : Quiet (if due then [.heartbeat] else []) := by cases due <;> simp [Quiet]
      have hb := h.phase.heartbeatB hquiet
      have hc : c.resyncs = p.a.ctl.resyncs :=
        (congrArg Ctl.resyncs hm.ctl).symm.trans (hn.trans h.a.resyncs.symm)
      rw [map_append] at hb
      obtain ⟨hp, hl⟩ := active_tick ht h.a.role h.a.app hb hc
      obtain ⟨hr, hs, ho, hq⟩ := ht.same
      refine ⟨c, _, hm, ⟨hr, hs, ho⟩, fun m hm' => ?_, hl, ?_⟩ <;> simp_all
    · obtain ⟨ts, hm, hts, hx⟩ := local_updates env h.a.sock (fun due hd => he ⟨due, hd⟩)
      refine ⟨p.a.ctl, ts, hm, ⟨rfl, rfl, rfl⟩, h.a.app, Loses.of_eq rfl, ?_⟩
      by_cases hc : p.a.currentState = .exchange
      · exact h.phase.activeSends hc hts
      · rw [hx hc, append_nil]; exact h.phase
  obtain ⟨hw, happ⟩ := hm.wrote h.a.outbox
  refine ⟨h.a.moved hm hr hs ho hq hn hl, h.b, h.toA, fun m hm' => ?_, ?_⟩
  · grind [h.toB]
  · have hc := hm.ctl
    rw [← hc, ← hw] at hp
    rw [← append_assoc, @map_append _ _ _ (p.b.msgList ++ p.toB)]
    exact hp

theorem Pair.Inv.standby (e : LocalEv) (hn : (step env p.b e.ev).resyncs = 0) :
    ({ p with
      b := { step env p.b e.ev with outbox := [] }
      toA := p.toA ++ (step env p.b e.ev).outbox } : Pair).Inv := by
  obtain ⟨c, ts, hm, ⟨hr, hs, ho⟩, hq, hl, hp⟩ : ∃ c ts, Moves p.b (step env p.b e.ev) c ts ∧
      (c.role = p.b.role ∧ c.sock = p.b.sock ∧ c.operational = p.b.operational) ∧
      (∀ m ∈ c.msgList, m.msgType = .rgAppData) ∧ Loses p.b.ctl c ∧
      Phase p.a.ctl.side c.side ((p.a.msgList ++ p.toA).map Msg.tlv ++ ts) ((c.msgList ++ p.toB).map Msg.tlv) := by
    by_cases he : ∃ due, e = .tick due
    · obtain ⟨due, rfl⟩ := he
      obtain ⟨c, ts, ht, hm⟩ := transit_tick env h.b.sock h.b.operational (AppState.valid_cases h.phase.valid.2) due
      have hquiet : Quiet (if due then [.heartbeat] else []) := by cases due <;> simp [Quiet]
      have hb := h.phase.heartbeatA hquiet
      have hc : c.resyncs = p.b.ctl.resyncs :=
        (congrArg Ctl.resyncs hm.ctl).symm.trans (hn.trans h.b.resyncs.symm)
      rw [@map_append _ _ _ p.b.msgList] at hb
      obtain ⟨hp, hl⟩ := standby_tick ht h.b.role h.b.app hb hc
      obtain ⟨hr, hs, ho, hq⟩ := ht.same
      refine ⟨c, _, hm, ⟨hr, hs, ho⟩, fun m hm' => ?_, hl, ?_⟩ <;> simp_all
    · obtain ⟨ts, hm, hts, hx⟩ := local_updates env h.b.sock (fun due hd => he ⟨due, hd⟩)
      refine ⟨p.b.ctl, ts, hm, ⟨rfl, rfl, rfl⟩, h.b.app, Loses.of_eq rfl, ?_⟩
      by_cases hc : p.b.currentState = .exchange
      · exact h.phase.standbySends hc hts
      · rw [hx hc, append_nil]; exact h.phase
  obtain ⟨hw, happ⟩ := hm.wrote h.b.outbox
  refine ⟨h.a, h.b.moved hm hr hs ho hq hn hl, fun m hm' => ?_, h.toB, ?_⟩
  · grind [h.toA]
  · have hc := hm.ctl
    rw [← hc, ← hw] at hp
    rw [← append_assoc, @map_append _ _ _ (p.a.msgList ++ p.toA)]
    exact hp

end

theorem enqueue_known (n : Node) {m : Msg} (hm : m.msgType = .rgAppData) (hk : m.tlv.known = true) :
    appCsmEnqueueMsg n m = { n with msgList := n.msgList ++ [m] } := by
  rw [appCsmEnqueueMsg, hm]
  exact if_pos (Tlv.known_range hk)

theorem Ready.enqueue {role : Role} (h : Ready n role) {m : Msg} (hm : m.msgType = .rgAppData) :
    Ready { n with msgList := n.msgList ++ [m] } role :=
  ⟨h.role, h.sock, h.operational, h.outbox,
    fun m' hm' => (List.mem_append.mp hm').elim (h.app m') fun h' => by simp_all,
    h.resyncs, h.lost⟩

section
variable (envA envB : Handlers)

theorem Pair.Inv.next {p : Pair} (h : p.Inv) {e : PairEv} (hn : noResync envA envB p e) :
    (p.next envA envB e).Inv := by
  cases e with
  | active e => exact h.active envA e hn.1
  | standby e => exact h.standby envB e hn.2
  | deliverActive =>
    rw [Pair.next]
    split
    next => exact h
    next m ms hms =>
      have hm : m.msgType = .rgAppData := h.toA m (hms ▸ mem_cons_self)
      have hp := h.phase
      rw [hms] at hp
      have hk : m.tlv.known = true := hp.known.1 _ (List.mem_map_of_mem (mem_append_right _ mem_cons_self))
      rw [enqueue_known p.a hm hk]
      refine ⟨h.a.enqueue hm, h.b, fun m' hm' => h.toA m' (hms ▸ mem_cons_of_mem _ hm'), h.toB, ?_⟩
      rw [append_assoc]
      exact hp
  | deliverStandby =>
    rw [Pair.next]
    split
    next => exact h
    next m ms hms =>
      have hm : m.msgType = .rgAppData := h.toB m (hms ▸ mem_cons_self)
      have hp := h.phase
      rw [hms] at hp
      have hk : m.tlv.known = true := hp.known.2 _ (List.mem_map_of_mem (mem_append_right _ mem_cons_self))
      rw [enqueue_known p.b hm hk]
      refine ⟨h.a, h.b.enqueue hm, h.toA, fun m' hm' => h.toB m' (hms ▸ mem_cons_of_mem _ hm'), ?_⟩
      rw [append_assoc]
      exact hp

theorem Pair.Inv.init (locA locB : LocalData) : (Pair.init locA locB).Inv := by
  refine ⟨⟨rfl, rfl, rfl, rfl, ?_, rfl, ?_⟩, ⟨rfl, rfl, rfl, rfl, ?_, rfl, ?_⟩, ?_, ?_, ?_⟩
  case refine_7 => exact .start ⟨Or.inl rfl, rfl, rfl⟩ rfl ⟨rfl, rfl⟩ Quiet.nil Quiet.nil
  all_goals exact fun m hm => (not_mem_nil hm).elim

theorem told_local {env : Handlers} (h : n.Told) (e : LocalEv) :
    Node.Told { step env n e.ev with outbox := [] } := by
  cases e with
  | tick due => exact h.transit env due
  | configure loc => exact h
  | syncNeigh infos => exact h.congr (heard_synLocalNeigh n infos)
  | warmboot =>
    change Node.Told { (if n.currentState = .exchange then iccpCsmSend n .warmbootFlag else n) with outbox := [] }
    split
    · exact h.congr (heard_send n _)
    · exact h

theorem told_enqueue (h : n.Told) (m : Msg) : (appCsmEnqueueMsg n m).Told := by
  rw [appCsmEnqueueMsg]
  split
  · split <;> exact h
  · split
    · split <;> exact h
    · exact h

theorem told_of_run {locA locB : LocalData} {es : List PairEv} {p : Pair}
    (hno : Along (pair envA envB) (noResync envA envB) (Pair.init locA locB) es)
    (hr : run (pair envA envB) (Pair.init locA locB) es = some p) : p.a.Told ∧ p.b.Told := by
  have hinit : (Pair.init locA locB).a.Told ∧ (Pair.init locA locB).b.Told := ⟨rfl, rfl⟩
  refine run_inv (pair envA envB) (fun p e p' (hi : p.a.Told ∧ p.b.Told) _ he => ?_) hinit hno hr
  cases he
  cases e with
  | active e => exact ⟨told_local hi.1 e, hi.2⟩
  | standby e => exact ⟨hi.1, told_local hi.2 e⟩
  | deliverActive =>
    rw [Pair.next]
    split
    · exact hi
    · exact ⟨told_enqueue hi.1 _, hi.2⟩
  | deliverStandby =>
    rw [Pair.next]
    split
    · exact hi
    · exact ⟨hi.1, told_enqueue hi.2 _⟩

omit envA envB in
theorem Has.processed {x : Answer} (h : Has x n.handled) (ht : n.Told) : ∃ after, Processed n x after := by
  obtain ⟨before, m, after, r, hh, hm, hg⟩ := h
  rw [Got, append_nil] at hg
  have hreq (t : Tlv) (h : t ∈ x.required) : ∃ m ∈ before, m.tlv = t := by
    rw [← hg] at h
    exact List.mem_map.mp (List.mem_filter.mp h).1
  have hk : n.known = (after.map Msg.tlv).foldl Known.hear (x.required.foldl Known.hear .none) := by
    rw [ht, hh, map_append, foldl_append, map_cons, foldl_cons, hm, ← hg, hear_filter]
    rfl
  have hafter {P : Tlv → Prop} (h : ∀ m ∈ after, P m.tlv) : ∀ t ∈ after.map Msg.tlv, P t := fun t ht => by
    obtain ⟨m, hm, rfl⟩ := List.mem_map.mp ht
    exact h m hm
  obtain ⟨hsys, hshown⟩ := hear_required x
  refine ⟨after, ⟨before, m, r, hh, hm, hreq⟩, fun hno => ?_, fun hd lif hlif hno => ?_⟩
  · rw [← hsys, ← foldl_hear_system (hafter hno), ← hk]
    rfl
  · have h := (hshown hd lif hlif).foldl_hear (hafter hno)
    rw [← hk] at h
    exact h

/-- **Initial synchronisation.** In every interleaving without a repeated
request, a node in EXCHANGE has answered one request and processed all that the
other node had when it answered, and only heartbeats are lost. -/
theorem synced_of_run {locA locB : LocalData} {es : List PairEv} {p : Pair}
    (hno : Along (pair envA envB) (noResync envA envB) (Pair.init locA locB) es)
    (hr : run (pair envA envB) (Pair.init locA locB) es = some p) :
    Synced p.a p.b ∧ Synced p.b p.a ∧ OnlyHeartbeatsLost p.a ∧ OnlyHeartbeatsLost p.b := by
  have h : p.Inv := by
    refine run_inv (pair envA envB) (fun p e p' (hi : p.Inv) hok he => ?_) (Pair.Inv.init locA locB) hno hr
    cases he
    exact hi.next envA envB hok
  obtain ⟨ga, gb⟩ := h.phase.got
  obtain ⟨ta, tb⟩ := told_of_run envA envB hno hr
  refine ⟨fun hx => ?_, fun hx => ?_, h.a.lost, h.b.lost⟩
  · obtain ⟨x, y, ha, hb, hg⟩ := ga hx
    obtain ⟨after, hp⟩ := Has.processed hg ta
    exact ⟨by rw [show p.a.answers = [x] from ha]; rfl, y, after, hb, hp⟩
  · obtain ⟨x, y, ha, hb, hg⟩ := gb hx
    obtain ⟨after, hp⟩ := Has.processed hg tb
    exact ⟨by rw [show p.b.answers = [y] from hb]; rfl, x, after, ha, hp⟩

end

def onePort : LocalData :=
  { noData with
    lifList := [⟨.portChannel, "PortChannel1", 1, portStateUp, 0, false, 1, ⟨[10, 20], by decide⟩, false, false⟩] }

theorem synced_one_port : ∃ p,
    run (pair noHandlers noHandlers) (Pair.init onePort { onePort with systemId := 7, systemPriority := 9 })
      ([.standby (.tick true), .deliverActive, .deliverActive, .active (.tick true)] ++
        List.replicate 8 .deliverStandby ++ [.standby (.tick false)] ++
        List.replicate 6 .deliverActive ++ [.active (.tick false)]) = some p ∧
      (p.a.currentState = .exchange ∧ p.b.currentState = .exchange ∧ p.a.dropped.length = 1 ∧
        p.a.remoteSystem = ⟨7, 9, 1⟩ ∧
        p.b.pifList = [⟨"PortChannel1", 1, portStateUp, 0, false, 1, true, [10, 20]⟩]) ∧
      Synced p.a p.b ∧ Synced p.b p.a ∧ OnlyHeartbeatsLost p.a ∧ OnlyHeartbeatsLost p.b :=
  ⟨_, (Option.some_get (by decide +kernel)).symm, by decide +kernel,
    synced_of_run noHandlers noHandlers (by decide +kernel) (Option.some_get _).symm⟩

end Sonic.Mlacp
