import Mathlib.Data.List.Nodup
import Sonic.Dict
import Sonic.Run
import Sonic.Text

/-! # Listen ranges of dynamic BGP peers

A dynamic peer of `BGPPeerMgrBase` is a peer group of FRR with the ranges that it listens to. The
directory keeps the last row of the peer, and a DEL takes the ranges to remove from it: FRR deletes
a peer group only when it has no range. -/

namespace Sonic.ListenRange

open Str

abbrev Data := Dict Str Str

abbrev Peer := Str × Str

inductive Cmd where
  | peerGroup (name : Str)
  | listenRange (ipRange name : Str)
  | noListenRange (ipRange name : Str)
  | shutdown (no : Bool) (name : Str)
  | noNeighbor (name : Str)

structure Frr where
  groups : List Peer
  listenRanges : List (Peer × Str)

namespace Frr

def ranges (f : Frr) (peer : Peer) : List Str := (f.listenRanges.filter (·.1 = peer)).map Prod.snd

def exec (vrf : Str) (f : Frr) : Cmd → Frr
  | .peerGroup name => { f with groups := f.groups.insert (vrf, name) }
  | .listenRange ipRange name => { f with listenRanges := f.listenRanges.insert ((vrf, name), ipRange) }
  | .noListenRange ipRange name => { f with listenRanges := f.listenRanges.filter (· ≠ ((vrf, name), ipRange)) }
  | .shutdown _ _ => f
  | .noNeighbor name => if f.ranges (vrf, name) = [] then { f with groups := f.groups.filter (· ≠ (vrf, name)) } else f

def applyOp (f : Frr) (vrf : Str) (cmds : List Cmd) : Frr := cmds.foldl (exec vrf) f

end Frr

/-! ## The manager -/

structure St where
  peers : List Peer
  directory : Dict Peer Data
  frr : Frr

def init : St := ⟨[], [], ⟨[], []⟩⟩

def splitKey (key : Str) : Peer := (splitOnce "|" key).getD ("default", key)

inductive Attempt where
  | notReady
  | templateError
  | rendered

def nameOf (data : Data) : Str := (data.get? "name").getD []

def rangesOf (data : Data) : List Str := (data.get? "ip_range").elim [] (split ',')

def addPeer (s : St) (peer : Peer) (data : Data) : Attempt → St
  | .notReady | .templateError => s
  | .rendered =>
    if (data.get? "ip_range").isNone then s
    else
      { peers := s.peers.insert peer
        directory := s.directory.set peer data
        frr := s.frr.applyOp peer.1 (.peerGroup (nameOf data) :: (rangesOf data).map (.listenRange · (nameOf data))) }

def changeAdminStatus (f : Frr) (peer : Peer) (status : Str) : Frr :=
  if status = "up" then f.applyOp peer.1 [.shutdown true peer.2]
  else if status = "down" then f.applyOp peer.1 [.shutdown false peer.2]
  else f

def diffTurn (p : List Str × List Str) (ipRange : Str) : List Str × List Str :=
  if ipRange ∉ p.1 then (p.1, p.2 ++ [ipRange]) else (p.1.erase ipRange, p.2)

section
-- whether FRR lists a range under IPv6
variable (isIpv6 : Str → Bool)

def getExistingIpRanges (f : Frr) (peer : Peer) : List Str × List Str :=
  ((f.ranges peer).filter (!isIpv6 ·), (f.ranges peer).filter isIpv6)

def rangeDiff (f : Frr) (peer : Peer) (data : Data) : List Str × List Str :=
  let existing := getExistingIpRanges isIpv6 f peer
  existing.2.foldl diffTurn (existing.1.foldl diffTurn (rangesOf data, []))

def applyRangeChanges (f : Frr) (peer : Peer) (toAdd toDel : List Str) (data : Data) : Frr :=
  f.applyOp peer.1 (toDel.map (.noListenRange · (nameOf data)) ++ toAdd.map (.listenRange · (nameOf data)))

def changeIpRange (f : Frr) (peer : Peer) (data : Data) : Frr :=
  if (data.get? "ip_range").getD [] = [] then f
  else
    let d := rangeDiff isIpv6 f peer data
    if d.2 ≠ [] ∨ d.1 ≠ [] then applyRangeChanges f peer d.1 d.2 data else f

def updatePeer (s : St) (peer : Peer) (data : Data) : St :=
  { s with
    frr := match data.get? "admin_status" with
      | some status => changeAdminStatus s.frr peer status
      | none => if (data.get? "ip_range").isSome then changeIpRange isIpv6 s.frr peer data else s.frr
    directory := s.directory.set peer data }

def setHandler (s : St) (key : Str) (data : Data) (attempt : Attempt) : St :=
  if splitKey key ∉ s.peers then addPeer s (splitKey key) data attempt
  else updatePeer isIpv6 s (splitKey key) data

def delHandler (s : St) (key : Str) : Option St :=
  let peer := splitKey key
  if peer ∉ s.peers then some s
  else (s.directory.get? peer).map fun data =>
    { peers := s.peers.filter (· ≠ peer)
      directory := s.directory.erase peer
      frr := s.frr.applyOp peer.1 ((rangesOf data).map (.noListenRange · peer.2) ++ [.noNeighbor peer.2]) }

inductive Event where
  | set (key : Str) (data : Data) (attempt : Attempt)
  | del (key : Str)

def step (s : St) : Event → Option St
  | .set key data attempt => some (setHandler isIpv6 s key data attempt)
  | .del key => delHandler s key

end

section
variable {f : Frr} {peer : Peer}

theorem mem_ranges {r : Str} : r ∈ f.ranges peer ↔ (peer, r) ∈ f.listenRanges := by simp_all [Frr.ranges]

theorem ranges_nodup (h : f.listenRanges.Nodup) (peer : Peer) : (f.ranges peer).Nodup := by
  refine List.Nodup.map_on ?_ (h.filter _)
  intro x hx y hy he
  have hx' := of_decide_eq_true (List.mem_filter.mp hx).2
  grind

theorem applyOp_listen (vrf name : Str) : ∀ (l : List Str) (f : Frr), f.listenRanges.Nodup →
    (f.applyOp vrf (l.map (.listenRange · name))).listenRanges.Nodup ∧
      (f.applyOp vrf (l.map (.listenRange · name))).groups = f.groups ∧
      ∀ x, x ∈ (f.applyOp vrf (l.map (.listenRange · name))).listenRanges ↔
        x ∈ f.listenRanges ∨ x.1 = (vrf, name) ∧ x.2 ∈ l
  | [], f, hn => ⟨hn, rfl, fun x => by simp [Frr.applyOp]⟩
  | r :: l, f, hn => by
    obtain ⟨hn', hg, hx⟩ := applyOp_listen vrf name l (f.exec vrf (.listenRange r name))
      (hn.insert (a := ((vrf, name), r)))
    refine ⟨hn', hg, fun x => (hx x).trans ?_⟩
    grind [Frr.exec]

theorem applyOp_noListen (vrf name : Str) : ∀ (l : List Str) (f : Frr), f.listenRanges.Nodup →
    (f.applyOp vrf (l.map (.noListenRange · name))).listenRanges.Nodup ∧
      (f.applyOp vrf (l.map (.noListenRange · name))).groups = f.groups ∧
      ∀ x, x ∈ (f.applyOp vrf (l.map (.noListenRange · name))).listenRanges ↔
        x ∈ f.listenRanges ∧ ¬ (x.1 = (vrf, name) ∧ x.2 ∈ l)
  | [], f, hn => ⟨hn, rfl, fun x => by simp [Frr.applyOp]⟩
  | r :: l, f, hn => by
    obtain ⟨hn', hg, hx⟩ := applyOp_noListen vrf name l (f.exec vrf (.noListenRange r name)) (hn.filter _)
    refine ⟨hn', hg, fun x => (hx x).trans ?_⟩
    simp only [Frr.exec, List.mem_filter, decide_eq_true_eq, List.mem_cons, ne_eq, Prod.ext_iff]
    tauto

theorem applyOp_append (f : Frr) (vrf : Str) (cmds cmds' : List Cmd) :
    f.applyOp vrf (cmds ++ cmds') = (f.applyOp vrf cmds).applyOp vrf cmds' :=
  List.foldl_append

theorem diff_spec : ∀ (existing new del : List Str), existing.Nodup →
    (∀ r, r ∈ (existing.foldl diffTurn (new, del)).2 ↔ r ∈ del ∨ r ∈ existing ∧ r ∉ new) ∧
      (∀ r ∈ (existing.foldl diffTurn (new, del)).1, r ∈ new) ∧
      ∀ r ∈ new, r ∉ existing → r ∈ (existing.foldl diffTurn (new, del)).1
  | [], new, del, _ => ⟨fun r => by simp, fun r hr => hr, fun r hr _ => hr⟩
  | e :: existing, new, del, hn => by
    obtain ⟨he, hn'⟩ := List.nodup_cons.mp hn
    rw [List.foldl_cons, diffTurn]
    split
    · rename_i hnew
      obtain ⟨hdel, hsub, hadd⟩ := diff_spec existing new (del ++ [e]) hn'
      refine ⟨fun r => (hdel r).trans ?_, hsub, fun r hr hne => hadd r hr fun h => hne (List.mem_cons_of_mem e h)⟩
      simp only [List.mem_append, List.mem_cons, List.not_mem_nil, or_false]
      grind
    · rename_i hnew
      rw [not_not] at hnew
      obtain ⟨hdel, hsub, hadd⟩ := diff_spec existing (new.erase e) del hn'
      refine ⟨fun r => (hdel r).trans ?_, fun r hr => List.mem_of_mem_erase (hsub r hr), fun r hr hne => ?_⟩
      · grind
      · simp_all

theorem changeIpRange_spec {isIpv6 : Str → Bool} {data : Data} (hn : f.listenRanges.Nodup)
    (hname : nameOf data = peer.2) (hr : (data.get? "ip_range").getD [] ≠ []) :
    (changeIpRange isIpv6 f peer data).listenRanges.Nodup ∧
      (∀ r, r ∈ (changeIpRange isIpv6 f peer data).ranges peer ↔ r ∈ rangesOf data) ∧
      ∀ p, p ≠ peer → ∀ r, r ∈ (changeIpRange isIpv6 f peer data).ranges p ↔ r ∈ f.ranges p := by
  have hperm : (((f.ranges peer).filter (!isIpv6 ·)) ++ (f.ranges peer).filter isIpv6).Perm (f.ranges peer) := by
    grind [List.filter_append_perm]
  have hspec := diff_spec _ (rangesOf data) [] (hperm.nodup_iff.mpr (ranges_nodup hn peer))
  have hdiff : rangeDiff isIpv6 f peer data =
      (((f.ranges peer).filter (!isIpv6 ·)) ++ (f.ranges peer).filter isIpv6).foldl diffTurn (rangesOf data, []) := by
    rw [List.foldl_append]
    rfl
  rw [← hdiff] at hspec
  simp only [hperm.mem_iff, List.not_mem_nil, false_or] at hspec
  obtain ⟨hdel, hsub, hadd⟩ := hspec
  -- without a change the commands are none
  have hboth : changeIpRange isIpv6 f peer data = (f.applyOp peer.1
      ((rangeDiff isIpv6 f peer data).2.map (.noListenRange · peer.2))).applyOp peer.1
        ((rangeDiff isIpv6 f peer data).1.map (.listenRange · peer.2)) := by
    rw [← applyOp_append, ← hname, changeIpRange, if_neg hr]
    dsimp only
    split
    · rfl
    · rename_i h
      rw [not_or, not_not, not_not] at h
      rw [h.1, h.2]
      rfl
  rw [hboth]
  obtain ⟨hn₁, _, hx₁⟩ := applyOp_noListen peer.1 peer.2 (rangeDiff isIpv6 f peer data).2 f hn
  obtain ⟨hn₂, _, hx₂⟩ := applyOp_listen peer.1 peer.2 (rangeDiff isIpv6 f peer data).1 _ hn₁
  refine ⟨hn₂, fun r => ?_, fun p hp r => ?_⟩
  · rw [mem_ranges, hx₂, hx₁, ← mem_ranges]
    simp only [true_and]
    rw [hdel]
    constructor
    · grind
    · grind
  · rw [mem_ranges, hx₂, hx₁, ← mem_ranges]
    grind

theorem addPeer_spec {s : St} {data : Data} (hn : s.frr.listenRanges.Nodup) (hname : nameOf data = peer.2)
    (hr : (data.get? "ip_range").isNone = false) (hnone : s.frr.ranges peer = []) :
    (addPeer s peer data .rendered).frr.listenRanges.Nodup ∧
      (∀ r, r ∈ (addPeer s peer data .rendered).frr.ranges peer ↔ r ∈ rangesOf data) ∧
      ∀ p, p ≠ peer → ∀ r, r ∈ (addPeer s peer data .rendered).frr.ranges p ↔ r ∈ s.frr.ranges p := by
  obtain ⟨hn', _, hx⟩ := applyOp_listen peer.1 peer.2 (rangesOf data) (s.frr.exec peer.1 (.peerGroup peer.2)) hn
  have hfrr : (addPeer s peer data .rendered).frr =
      (s.frr.exec peer.1 (.peerGroup peer.2)).applyOp peer.1 ((rangesOf data).map (.listenRange · peer.2)) := by
    rw [addPeer, hr, hname]
    rfl
  rw [hfrr]
  refine ⟨hn', fun r => ?_, fun p hp r => ?_⟩
  · rw [mem_ranges, hx, or_iff_right fun h => ?_]
    · simp only [true_and]
    · have : r ∈ s.frr.ranges peer := mem_ranges.mpr h
      simp_all
  · have hp' : ¬ p = (peer.1, peer.2) := hp
    rw [mem_ranges, hx]
    simp only [hp', false_and, or_false]
    exact mem_ranges.symm

theorem delHandler_spec {s : St} {key : Str} {data : Data} (hn : s.frr.listenRanges.Nodup)
    (hpeer : splitKey key ∈ s.peers) (hdata : s.directory.get? (splitKey key) = some data)
    (hranges : ∀ r, r ∈ s.frr.ranges (splitKey key) ↔ r ∈ rangesOf data) :
    ∃ s', delHandler s key = some s' ∧ s'.peers = s.peers.filter (· ≠ splitKey key) ∧
      s'.directory = s.directory.erase (splitKey key) ∧ s'.frr.listenRanges.Nodup ∧
      s'.frr.ranges (splitKey key) = [] ∧ splitKey key ∉ s'.frr.groups ∧
      ∀ p, p ≠ splitKey key → ∀ r, r ∈ s'.frr.ranges p ↔ r ∈ s.frr.ranges p := by
  generalize hk : splitKey key = peer at hpeer hdata hranges ⊢
  obtain ⟨hn', _, hx⟩ := applyOp_noListen peer.1 peer.2 (rangesOf data) s.frr hn
  set f₁ := s.frr.applyOp peer.1 ((rangesOf data).map (.noListenRange · peer.2)) with hf₁
  have hgone : f₁.ranges peer = [] := by simp_all [List.eq_nil_iff_forall_not_mem, mem_ranges, mem_ranges]
  refine ⟨⟨s.peers.filter (· ≠ peer), s.directory.erase peer, f₁.exec peer.1 (.noNeighbor peer.2)⟩, ?_, rfl, rfl, ?_⟩
  · unfold delHandler
    simp only [hk]
    rw [if_neg (not_not.mpr hpeer), hdata, Option.map_some, applyOp_append]
    rfl
  · have hexec : f₁.exec peer.1 (.noNeighbor peer.2) = { f₁ with groups := f₁.groups.filter (· ≠ (peer.1, peer.2)) } :=
      if_pos hgone
    rw [hexec]
    refine ⟨hn', hgone, fun h => ?_, fun p hp r => ?_⟩
    · simp_all
    · have hp' : ¬ p = (peer.1, peer.2) := hp
      refine mem_ranges.trans ((hx _).trans ?_) <;> simp_all [mem_ranges]

end

/-! ## Runs -/

/-- The row of every peer names the ranges that FRR has for it, so that a DEL removes all of them before the group. -/
def Recorded (s : St) : Prop :=
  ∀ peer ∈ s.peers, ∃ data, s.directory.get? peer = some data ∧ ∀ r, r ∈ s.frr.ranges peer ↔ r ∈ rangesOf data

def Clears (s : St) : Prop :=
  ∀ key, splitKey key ∈ s.peers →
    ∃ s', delHandler s key = some s' ∧ s'.frr.ranges (splitKey key) = [] ∧ splitKey key ∉ s'.frr.groups

/-- A row of its own name, which for a peer that is there either changes the range only or repeats the ranges of the
row before. -/
def rowOk (s : St) : Event → Prop
  | .set key data _ =>
    nameOf data = (splitKey key).2 ∧
      (splitKey key ∈ s.peers →
        data.get? "admin_status" = none ∧ (data.get? "ip_range").getD [] ≠ [] ∨
          ∀ row ∈ s.directory.get? (splitKey key), rangesOf data ⊆ rangesOf row ∧ rangesOf row ⊆ rangesOf data)
  | .del _ => True

instance (s : St) : ∀ e, Decidable (rowOk s e)
  | .set _ _ _ => inferInstanceAs (Decidable (_ ∧ (_ → _)))
  | .del _ => isTrue trivial

structure Inv (s : St) : Prop where
  nodup : s.frr.listenRanges.Nodup
  recorded : Recorded s
  others : ∀ peer, peer ∉ s.peers → s.frr.ranges peer = []

section
variable {isIpv6 : Str → Bool} {s s' : St}

theorem inv_init : Inv init := ⟨List.nodup_nil, nofun, fun _ _ => rfl⟩

theorem Inv.record (h : Inv s) {peer : Peer} {data : Data} (hn : s'.frr.listenRanges.Nodup)
    (hpeers : ∀ p, p ∈ s'.peers ↔ p = peer ∨ p ∈ s.peers) (hdir : s'.directory = s.directory.set peer data)
    (hown : ∀ r, r ∈ s'.frr.ranges peer ↔ r ∈ rangesOf data)
    (hother : ∀ p, p ≠ peer → ∀ r, r ∈ s'.frr.ranges p ↔ r ∈ s.frr.ranges p) : Inv s' := by
  refine ⟨hn, fun p hp => ?_, fun p hp => ?_⟩
  · by_cases he : p = peer
    · simp_all
    · obtain ⟨row, hrow, hr⟩ := h.recorded p (((hpeers p).mp hp).resolve_left he)
      simp_all [Dict.get?_set_ne, Ne.symm]
  · simp_all [List.eq_nil_iff_forall_not_mem, h.others]

theorem changeAdminStatus_eq (f : Frr) (peer : Peer) (status : Str) : changeAdminStatus f peer status = f := by
  unfold changeAdminStatus
  split
  · rfl
  · split <;> rfl

theorem Inv.set (h : Inv s) {key : Str} {data : Data} {attempt : Attempt} (hok : rowOk s (.set key data attempt)) :
    Inv (setHandler isIpv6 s key data attempt) := by
  obtain ⟨hname, hrow⟩ := hok
  unfold setHandler
  split
  · rename_i hnew
    cases attempt with
    | notReady => exact h
    | templateError => exact h
    | rendered =>
      cases hr : (data.get? "ip_range").isNone with
      | true =>
        rw [addPeer, if_pos hr]
        exact h
      | false =>
        obtain ⟨hn, hown, hother⟩ := addPeer_spec h.nodup hname hr (h.others _ hnew)
        have hadd : addPeer s (splitKey key) data .rendered = ⟨s.peers.insert (splitKey key),
            s.directory.set (splitKey key) data, (addPeer s (splitKey key) data .rendered).frr⟩ := by
          rw [addPeer, hr]
          rfl
        refine h.record hn (fun p => ?_) (congrArg St.directory hadd) hown hother
        grind
  · rename_i hold
    rw [not_not] at hold
    obtain ⟨row, hget, hranges⟩ := h.recorded _ hold
    have hpeers : ∀ p, p ∈ s.peers ↔ p = splitKey key ∨ p ∈ s.peers := fun p =>
      ⟨.inr, fun hp => hp.elim (fun he => he ▸ hold) id⟩
    -- the ranges stay, and the new row names the same ones
    have hsame : (∀ row ∈ s.directory.get? (splitKey key), rangesOf data ⊆ rangesOf row ∧
        rangesOf row ⊆ rangesOf data) →
        (updatePeer isIpv6 s (splitKey key) data).frr = s.frr → Inv (updatePeer isIpv6 s (splitKey key) data) := by
      intro heq hfrr
      refine h.record (hfrr ▸ h.nodup) hpeers rfl (fun r => ?_) fun p _ r => by rw [hfrr]
      grind
    cases hstatus : data.get? "admin_status" with
    | some status =>
      have heq := (hrow hold).resolve_left fun hc => by grind
      refine hsame heq ?_
      simp only [updatePeer, hstatus, changeAdminStatus_eq]
    | none =>
      by_cases hr : (data.get? "ip_range").getD [] = []
      · have heq := (hrow hold).resolve_left fun hc => hc.2 hr
        refine hsame heq ?_
        simp only [updatePeer, hstatus, changeIpRange, if_pos hr, ite_self]
      · obtain ⟨hn, hown, hother⟩ := @changeIpRange_spec s.frr (splitKey key) isIpv6 data h.nodup hname hr
        have hsome : (data.get? "ip_range").isSome = true := by
          cases hd : data.get? "ip_range" <;> grind
        have hfrr : (updatePeer isIpv6 s (splitKey key) data).frr = changeIpRange isIpv6 s.frr (splitKey key) data := by
          simp only [updatePeer, hstatus, hsome, if_true]
        exact h.record (hfrr ▸ hn) hpeers rfl (hfrr ▸ hown) (hfrr ▸ hother)

theorem Inv.del (h : Inv s) (key : Str) : ∃ s', delHandler s key = some s' ∧ Inv s' := by
  by_cases hpeer : splitKey key ∈ s.peers
  · obtain ⟨row, hget, hranges⟩ := h.recorded _ hpeer
    obtain ⟨s', hs', hpeers, hdir, hn, hgone, _, hother⟩ := delHandler_spec h.nodup hpeer hget hranges
    refine ⟨s', hs', hn, fun p hp => ?_, fun p hp => ?_⟩
    · rw [hpeers, List.mem_filter, decide_eq_true_eq] at hp
      obtain ⟨row, hrow, hr⟩ := h.recorded p hp.1
      simp_all [Dict.get?_erase_ne, Ne.symm]
    · by_cases he : p = splitKey key
      · rw [he, hgone]
      · have hp' : p ∉ s.peers := fun hmem => hp (by
          grind)
        simp_all [List.eq_nil_iff_forall_not_mem, h.others]
  · exact ⟨s, if_pos hpeer, h⟩

theorem Inv.clears (h : Inv s) : Clears s := by
  intro key hkey
  obtain ⟨row, hget, hranges⟩ := h.recorded _ hkey
  grind [delHandler_spec, h.nodup]

/-- In every run of rows that pass the test, no handler raises, the rows name the ranges of FRR, and a DEL removes them
with the group. -/
theorem listen_ranges_recorded {es : List Event} (hok : Along (step isIpv6) rowOk init es) :
    ∃ t, run (step isIpv6) init es = some t ∧ Recorded t ∧ Clears t := by
  have hstep : ∀ s e, Inv s → rowOk s e → ∃ s', step isIpv6 s e = some s' ∧ Inv s' := by
    intro s e hi ho
    cases e with
    | set key data attempt => exact ⟨_, rfl, hi.set ho⟩
    | del key => exact hi.del key
  obtain ⟨t, ht, hinv⟩ := run_total (step isIpv6) (fun s e hi ho => (hstep s e hi ho).imp fun _ h => h.1)
    (fun s e s' hi ho hs => by
      obtain ⟨u, hu, hinv⟩ := hstep s e hi ho
      rw [hs] at hu
      exact Option.some.inj hu ▸ hinv) inv_init hok
  exact ⟨t, ht, hinv.recorded, hinv.clears⟩

end

def group : Peer := ("default", "G")

def rangeRow (ipRange : String) (more : Data) : Data :=
  [("name".toList, "G".toList), ("ip_range".toList, ipRange.toList)] ++ more

theorem listen_ranges_recorded_shutdown :
    ∃ t, run (step fun _ => false) init [.set "G".toList (rangeRow "10.0.0.0/24" []) .rendered,
      .set "G".toList (rangeRow "10.1.0.0/24,10.2.0.0/24" []) .rendered,
      .set "G".toList (rangeRow "10.2.0.0/24,10.1.0.0/24" [("admin_status".toList, "down".toList)]) .rendered] =
        some t ∧
      Recorded t ∧ Clears t :=
  listen_ranges_recorded (by decide +kernel)

theorem listen_ranges_not_recorded :
    (∃ t, run (step fun _ => false) init [.set "G".toList (rangeRow "10.0.0.0/24" []) .rendered,
        .set "G".toList (rangeRow "10.1.0.0/24" [("admin_status".toList, "up".toList)]) .rendered] = some t ∧
      ¬ Recorded t ∧ ¬ Clears t) ∧
    ∃ t, run (step fun _ => false) init [.set "G".toList (rangeRow "10.0.0.0/24" []) .rendered,
        .set "G".toList [("name".toList, "G".toList), ("admin_status".toList, "down".toList)] .rendered] = some t ∧
      ¬ Recorded t ∧ ¬ Clears t := by
  have key : ∀ t : St, group ∈ t.peers → "10.0.0.0/24".toList ∈ t.frr.ranges group →
      ((t.directory.get? group).map fun row => decide ("10.0.0.0/24".toList ∈ rangesOf row)) = some false →
      ((delHandler t "G".toList).map fun s' => s'.frr.ranges group) = some ["10.0.0.0/24".toList] →
      ¬ Recorded t ∧ ¬ Clears t := by
    intro t hpeer hrange hrow hdel
    constructor
    · intro hrec
      obtain ⟨row, hget, hr⟩ := hrec group hpeer
      rw [hget, Option.map_some, Option.some.injEq, decide_eq_false_iff_not] at hrow
      exact hrow ((hr _).mp hrange)
    · intro hclears
      obtain ⟨s', hs', hgone, _⟩ := hclears "G".toList hpeer
      rw [hs', Option.map_some, Option.some.injEq] at hdel
      rw [show splitKey "G".toList = group from rfl, hdel] at hgone
      cases hgone
  exact ⟨⟨_, rfl, key _ (by decide +kernel) (by decide +kernel) (by decide +kernel) (by decide +kernel)⟩,
    _, rfl, key _ (by decide +kernel) (by decide +kernel) (by decide +kernel) (by decide +kernel)⟩

end Sonic.ListenRange
