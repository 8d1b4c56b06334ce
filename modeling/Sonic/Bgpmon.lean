import Mathlib.Data.List.Nodup
import Sonic.Dict
import Sonic.Run
import Sonic.Text

/-! # The neighbor table of bgpmon

`BgpStateGet` reads the BGP summary from time to time and brings NEIGH_STATE_TABLE up to date with
the difference to the summary before, in batches. Functions answer `none` where the source exits or
raises. -/

namespace Sonic.Bgpmon
open List Option

open Str

variable {r : Monitor × Data} {s : Monitor} {x : Str}

/-! ## Reading the summary -/

structure Peer where
  state : Str
  remoteAs : Int
  localAs : Int
  deriving DecidableEq

def Peer.peerType (p : Peer) : Str := if p.remoteAs = p.localAs then "i-BGP" else "e-BGP"

structure Row where
  state : Str
  peerType : Str
  deriving DecidableEq

def Peer.row (p : Peer) : Row := ⟨p.state, p.peerType⟩

abbrev Snapshot := Dict Str Peer

inductive Attempt where
  | failed
  | noOutput
  | raised
  | summary (peerInfo : Dict Str Snapshot)

structure Monitor where
  peerL : List Str
  peerState : Dict Str Str
  newPeerL : List Str
  newPeerState : Snapshot
  table : Dict Str Row

def Monitor.init : Monitor := ⟨[], [], [], [], []⟩

def updateNewPeerStates (s : Monitor) (peers : Snapshot) : Monitor :=
  { s with
    newPeerL := peers.keys.foldl (fun l peer => l.insert peer) s.newPeerL
    newPeerState := s.newPeerState.update peers }

def isUnicast (key : Str) : Bool := key = "ipv4Unicast" ∨ key = "ipv6Unicast"

def maxRetryAttempts : Nat := 3

def getAllNeighStates (s : Monitor) : Nat → List Attempt → Option Monitor
  | n + 1, .raised :: attempts => getAllNeighStates s n attempts
  | _ + 1, .failed :: _ | _ + 1, .noOutput :: _ => some s
  | _ + 1, .summary peerInfo :: _ =>
    some (peerInfo.foldl (fun s p => if isUnicast p.1 then updateNewPeerStates s p.2 else s)
      { s with newPeerL := [], newPeerState := [] })
  | _, _ => none

/-! ## Updating the table -/

def pipeBatchMaxCount : Nat := 50

abbrev Data := Dict Str (Option Row)

def tableKey (peer : Str) : Str := "NEIGH_STATE_TABLE|" ++ peer

def flushPipe (s : Monitor) (data : Data) : Monitor :=
  { s with
    table := data.foldl (fun t p => match p.2 with
      | none => t.erase p.1
      | some row => t.set p.1 row) s.table }

def flushFull (r : Monitor × Data) : Monitor × Data :=
  if pipeBatchMaxCount < r.2.length then (flushPipe r.1 r.2, []) else r

def updatePeer (r : Monitor × Data) (peer : Str) : Option (Monitor × Data) :=
  (r.1.newPeerState.get? peer).bind fun p =>
    let written := r.2.set (tableKey peer) (some p.row)
    if peer ∈ r.1.peerL then
      (r.1.peerState.get? peer).map fun state =>
        let s := { r.1 with peerL := r.1.peerL.filter (· ≠ peer) }
        if state ≠ p.state then flushFull ({ s with peerState := s.peerState.set peer p.state }, written)
        else flushFull (s, r.2)
    else some (flushFull ({ r.1 with peerState := r.1.peerState.set peer p.state }, written))

def removePeer (r : Monitor × Data) (peer : Str) : Monitor × Data :=
  flushFull ({ r.1 with peerState := r.1.peerState.erase peer }, r.2.set (tableKey peer) none)

section
variable (iter : List Str → List Str)

def updateNeighStates (s : Monitor) : Option Monitor :=
  ((iter s.newPeerL).foldlM updatePeer (s, [])).map fun r =>
    let r := (iter r.1.peerL).foldl removePeer r
    let s := if 0 < r.2.length then flushPipe r.1 r.2 else r.1
    { s with peerL := s.newPeerL }

def step (s : Monitor) (attempts : List Attempt) : Option Monitor :=
  (getAllNeighStates s maxRetryAttempts attempts).bind (updateNeighStates iter)

end

def readSummary : Nat → List Attempt → Option (Option Snapshot)
  | n + 1, .raised :: attempts => readSummary n attempts
  | _ + 1, .failed :: _ | _ + 1, .noOutput :: _ => some none
  | _ + 1, .summary peerInfo :: _ => some (some
      ((peerInfo.filter fun p => isUnicast p.1).foldl (fun d p => d.update p.2) []))
  | _, _ => none

def latest (reads : List (List Attempt)) : Snapshot :=
  reads.foldl (fun d attempts => ((readSummary maxRetryAttempts attempts).bind id).getD d) []

/-- The table has a row for each peer of the snapshot, with its state and type, and no other rows. -/
structure Shows (table : Dict Str Row) (snapshot : Snapshot) : Prop where
  row : ∀ peer, table.get? (tableKey peer) = (snapshot.get? peer).map Peer.row
  key : ∀ k, table.get? k ≠ none → ∃ peer, tableKey peer = k

/-- No peer becomes internal or external while its state stays as it was. -/
def TypesStable (s : Monitor) (attempts : List Attempt) : Prop :=
  ∀ snapshot, readSummary maxRetryAttempts attempts = some (some snapshot) → ∀ peer p q, s.newPeerState.get? peer =
    some p →
    snapshot.get? peer = some q → p.state = q.state → (p.remoteAs = p.localAs ↔ q.remoteAs = q.localAs)

instance (s : Monitor) (attempts : List Attempt) : Decidable (TypesStable s attempts) :=
  decidable_of_iff (∀ snapshot ∈ (readSummary maxRetryAttempts attempts).bind id, ∀ peer ∈ snapshot.keys,
      ∀ p ∈ s.newPeerState.get? peer, ∀ q ∈ snapshot.get? peer, p.state = q.state →
        (p.remoteAs = p.localAs ↔ q.remoteAs = q.localAs)) <| by
    constructor
    · intro h snapshot hread peer p q hp hq
      grind [Dict.mem_keys_of_get?]
    · intro h snapshot hread peer _ p hp q hq
      obtain ⟨read, hread, he⟩ := Option.bind_eq_some_iff.mp hread
      exact h snapshot (by simp_all) peer p q hp hq

theorem tableKey_injective {a b : Str} (h : tableKey a = tableKey b) : a = b := append_cancel_left h

theorem peerType_eq_iff {p q : Peer} : p.peerType = q.peerType ↔ (p.remoteAs = p.localAs ↔ q.remoteAs = q.localAs) := by
  have hne : "i-BGP" ≠ "e-BGP" := by decide +kernel
  unfold Peer.peerType
  by_cases hp : p.remoteAs = p.localAs <;> by_cases hq : q.remoteAs = q.localAs <;>
    simp_all

def view (r : Monitor × Data) : Dict Str Row := (flushPipe r.1 r.2).table

theorem flushFull_view (r : Monitor × Data) : view (flushFull r) = view r := by
  unfold flushFull
  split
  · rfl
  · rfl

theorem flushFull_nodup (h : r.2.keys.Nodup) : (flushFull r).2.keys.Nodup := by
  unfold flushFull
  split
  · exact nodup_nil
  · exact h

theorem flushFull_fst (r : Monitor × Data) : ∃ table, (flushFull r).1 = { r.1 with table } := by
  unfold flushFull
  split
  · exact ⟨_, rfl⟩
  · grind

theorem foldl_get? (k : Str) : ∀ {data : Data} (t : Dict Str Row), data.keys.Nodup →
    (data.foldl (fun t p => match p.2 with
      | none => t.erase p.1
      | some row => t.set p.1 row) t).get? k = (data.get? k).getD (t.get? k)
  | [], t, _ => rfl
  | (j, v) :: data, t, hn => by
    obtain ⟨hj, hn⟩ := List.nodup_cons.mp hn
    rw [foldl_cons, foldl_get? k _ hn, Dict.get?_cons]
    by_cases hk : j = k
    · subst hk
      rw [if_pos rfl, Dict.get?_eq_none_iff.mpr hj]
      grind
    · grind

theorem view_get? (hn : r.2.keys.Nodup) (k : Str) :
    (view r).get? k = (r.2.get? k).getD (r.1.table.get? k) := foldl_get? k _ hn

theorem view_set {s' : Monitor} {data : Data} (hs : s'.table = s.table) (hn : data.keys.Nodup) (j : Str)
    (v : Option Row) (k : Str) : (view (s', data.set j v)).get? k = if j = k then v else (view (s, data)).get? k := by
  grind [view_get?, Dict.nodup_set]

/-! ## The loop over the new peers -/

structure Updated (l : List Str) (r r' : Monitor × Data) : Prop where
  newPeerL : r'.1.newPeerL = r.1.newPeerL
  snapshot : r'.1.newPeerState = r.1.newPeerState
  nodup : r'.2.keys.Nodup
  peerL : ∀ x, x ∈ r'.1.peerL ↔ x ∈ r.1.peerL ∧ x ∉ l
  peerState : ∀ x, r'.1.peerState.get? x =
    if x ∈ l then (r.1.newPeerState.get? x).map Peer.state else r.1.peerState.get? x
  row : ∀ x ∈ l, (view r').get? (tableKey x) =
    if x ∈ r.1.peerL ∧ r.1.peerState.get? x = (r.1.newPeerState.get? x).map Peer.state then (view r).get? (tableKey x)
    else (r.1.newPeerState.get? x).map Peer.row
  frame : ∀ k, (∀ x ∈ l, tableKey x ≠ k) → (view r').get? k = (view r).get? k

theorem Updated.nil (hn : r.2.keys.Nodup) : Updated [] r r where
  newPeerL := rfl
  snapshot := rfl
  nodup := hn
  peerL x := by simp
  peerState x := by simp
  row x hx := absurd hx not_mem_nil
  frame _ _ := rfl

theorem Updated.cons {l : List Str} {u r' : Monitor × Data} (hx : x ∉ l) (h : Updated [x] r u)
    (h' : Updated l u r') : Updated (x :: l) r r' where
  newPeerL := h'.newPeerL.trans h.newPeerL
  snapshot := h'.snapshot.trans h.snapshot
  nodup := h'.nodup
  peerL y := by rw [h'.peerL, h.peerL]; simp [and_assoc]
  peerState y := by grind [h'.peerState, h.peerState, h.snapshot]
  row y hy := by
    rcases List.mem_cons.mp hy with rfl | hy
    · grind [h'.frame, tableKey_injective, h.row]
    · have hne : y ≠ x := fun he => hx (he ▸ hy)
      have hframe : (view u).get? (tableKey y) = (view r).get? (tableKey y) := h.frame _ fun z hz he =>
        hne (by grind [tableKey_injective])
      simp_all [h'.row, h.snapshot, h.peerState, h.peerL]
  frame k hk := by grind [h'.frame, h.frame]

theorem Updated.written {p : Peer} {peerL : List Str} (hn : r.2.keys.Nodup)
    (hp : r.1.newPeerState.get? x = some p) (hpeerL : ∀ y, y ∈ peerL ↔ y ∈ r.1.peerL ∧ y ≠ x)
    (hnew : ¬ (x ∈ r.1.peerL ∧ r.1.peerState.get? x = some p.state)) :
    Updated [x] r (flushFull ({ r.1 with peerL, peerState := r.1.peerState.set x p.state },
      r.2.set (tableKey x) (some p.row))) := by
  obtain ⟨table, ht⟩ := flushFull_fst ({ r.1 with peerL, peerState := r.1.peerState.set x p.state },
    r.2.set (tableKey x) (some p.row))
  have hview := fun k => @view_set r.1 { r.1 with peerL, peerState := r.1.peerState.set x p.state } r.2 rfl hn
    (tableKey x)
    (some p.row) k
  constructor
  · rw [ht]
  · rw [ht]
  · exact flushFull_nodup (Dict.nodup_set _ _ hn)
  · grind
  · intro y
    rw [ht]
    dsimp only
    rw [Dict.get?_set]
    by_cases hy : y = x
    · simp_all
    · grind
  · grind [flushFull_view]
  · grind [flushFull_view]

theorem updatePeer_updated (hn : r.2.keys.Nodup) (hnew : r.1.newPeerState.get? x ≠ none)
    (hold : x ∈ r.1.peerL → r.1.peerState.get? x ≠ none) : ∃ u, updatePeer r x = some u ∧ Updated [x] r u := by
  obtain ⟨p, hp⟩ := Option.ne_none_iff_exists'.mp hnew
  simp only [updatePeer, hp, bind_some]
  by_cases hx : x ∈ r.1.peerL
  · obtain ⟨state, hstate⟩ := Option.ne_none_iff_exists'.mp (hold hx)
    have hmem : ∀ y, y ∈ r.1.peerL.filter (· ≠ x) ↔ y ∈ r.1.peerL ∧ y ≠ x := fun y => by simp
    rw [if_pos hx, hstate, map_some]
    refine ⟨_, rfl, ?_⟩
    split
    · grind [Updated.written, Option.some.inj]
    · rename_i heq
      rw [ne_eq, not_not] at heq
      -- Nothing is written: the row stays as it is.
      obtain ⟨table, ht⟩ := flushFull_fst ({ r.1 with peerL := r.1.peerL.filter (· ≠ x) }, r.2)
      constructor
      · rw [ht]
      · rw [ht]
      · exact flushFull_nodup hn
      · grind
      · grind
      · intro y hy
        obtain rfl := List.mem_singleton.mp hy
        rw [flushFull_view, if_pos ⟨hx, by simp_all⟩]
        rfl
      · intro k _
        rw [flushFull_view]
        rfl
  · rw [if_neg hx]
    have hmem : ∀ y, y ∈ r.1.peerL ↔ y ∈ r.1.peerL ∧ y ≠ x := fun y =>
      ⟨fun hy => ⟨hy, fun he => hx (he ▸ hy)⟩, And.left⟩
    exact ⟨_, rfl, Updated.written hn hp hmem fun h => hx h.1⟩

theorem updatePeers_updated : ∀ {l : List Str} {r : Monitor × Data}, l.Nodup → r.2.keys.Nodup →
    (∀ x ∈ l, r.1.newPeerState.get? x ≠ none) → (∀ x ∈ r.1.peerL, r.1.peerState.get? x ≠ none) →
    ∃ r', l.foldlM updatePeer r = some r' ∧ Updated l r r'
  | [], r, _, hn, _, _ => ⟨r, rfl, Updated.nil hn⟩
  | x :: l, r, hl, hn, hnew, hold => by
    obtain ⟨hx, hl⟩ := List.nodup_cons.mp hl
    obtain ⟨u, hu, hxu⟩ := updatePeer_updated hn (hnew x mem_cons_self) (hold x)
    obtain ⟨r', hr', hlr⟩ := updatePeers_updated hl hxu.nodup
      (fun y hy => by grind [hxu.snapshot])
      (fun y hy => by
        grind [hxu.peerL, hxu.peerState])
    grind [Updated.cons]

structure Removed (l : List Str) (r r' : Monitor × Data) : Prop where
  newPeerL : r'.1.newPeerL = r.1.newPeerL
  snapshot : r'.1.newPeerState = r.1.newPeerState
  nodup : r'.2.keys.Nodup
  peerState : ∀ x, r'.1.peerState.get? x = if x ∈ l then none else r.1.peerState.get? x
  gone : ∀ x ∈ l, (view r').get? (tableKey x) = none
  frame : ∀ k, (∀ x ∈ l, tableKey x ≠ k) → (view r').get? k = (view r).get? k

theorem removePeer_removed (hn : r.2.keys.Nodup) (x : Str) : Removed [x] r (removePeer r x) := by
  obtain ⟨table, ht⟩ := flushFull_fst ({ r.1 with peerState := r.1.peerState.erase x }, r.2.set (tableKey x) none)
  have hview := fun k => @view_set r.1 { r.1 with peerState := r.1.peerState.erase x } r.2 rfl hn (tableKey x) none k
  constructor
  · rw [removePeer, ht]
  · rw [removePeer, ht]
  · exact flushFull_nodup (Dict.nodup_set _ _ hn)
  · intro y
    rw [removePeer, ht]
    by_cases hy : y = x
    · grind
    · grind
  · grind [removePeer, flushFull_view]
  · grind [removePeer, flushFull_view]

theorem removePeers_removed : ∀ (l : List Str) {r : Monitor × Data}, r.2.keys.Nodup →
    Removed l r (l.foldl removePeer r)
  | [], r, hn => ⟨rfl, rfl, hn, fun x => by simp, fun x hx => absurd hx not_mem_nil, fun _ _ => rfl⟩
  | x :: l, r, hn => by
    have hx := removePeer_removed hn x
    have hl := removePeers_removed l hx.nodup
    refine ⟨hl.newPeerL.trans hx.newPeerL, hl.snapshot.trans hx.snapshot, hl.nodup, fun y => ?_, fun y hy => ?_,
      fun k hk => ?_⟩ <;> grind [hl.peerState, hx.peerState, hl.gone, hl.frame, hx.gone, hx.frame]

structure Coherent (s : Monitor) : Prop where
  nodup : s.newPeerL.Nodup
  mem : ∀ x, x ∈ s.newPeerL ↔ s.newPeerState.get? x ≠ none

theorem mem_foldl_insert : ∀ (ks l : List Str), x ∈ ks.foldl (fun l k => l.insert k) l ↔ x ∈ l ∨ x ∈ ks
  | [], l => by simp
  | k :: ks, l => by
    rw [foldl_cons, mem_foldl_insert ks, mem_insert_iff, mem_cons]
    tauto

theorem nodup_foldl_insert : ∀ (ks : List Str) {l : List Str}, l.Nodup → (ks.foldl (fun l k => l.insert k) l).Nodup
  | [], _, h => h
  | _ :: ks, _, h => nodup_foldl_insert ks (List.Nodup.insert h)

theorem Coherent.updateNewPeerStates (h : Coherent s) (peers : Snapshot) :
    Coherent (updateNewPeerStates s peers) where
  nodup := nodup_foldl_insert _ h.nodup
  mem x := by
    show x ∈ peers.keys.foldl (fun l k => l.insert k) s.newPeerL ↔ (s.newPeerState.update peers).get? x ≠ none
    rw [mem_foldl_insert, h.mem, ne_eq, ne_eq, Dict.get?_eq_none_iff, Dict.get?_eq_none_iff, not_not, not_not,
      Dict.mem_keys_update]

theorem foldl_peerInfo : ∀ (infos : List (Str × Snapshot)) {s : Monitor}, Coherent s →
    let s' := infos.foldl (fun s p => updateNewPeerStates s p.2) s
    Coherent s' ∧ s'.newPeerState = infos.foldl (fun d p => d.update p.2) s.newPeerState ∧
      s'.peerL = s.peerL ∧ s'.peerState = s.peerState ∧ s'.table = s.table
  | [], _, h => ⟨h, rfl, rfl, rfl, rfl⟩
  | p :: infos, _, h => foldl_peerInfo infos (h.updateNewPeerStates p.2)

theorem getAllNeighStates_spec (h : Coherent s) : ∀ (n : Nat) (attempts : List Attempt),
    match readSummary n attempts with
    | none => getAllNeighStates s n attempts = none
    | some none => getAllNeighStates s n attempts = some s
    | some (some snapshot) => ∃ s', getAllNeighStates s n attempts = some s' ∧ Coherent s' ∧
        s'.newPeerState = snapshot ∧
      s'.peerL = s.peerL ∧ s'.peerState = s.peerState ∧ s'.table = s.table
  | 0, _ | _ + 1, [] | _ + 1, .failed :: _ | _ + 1, .noOutput :: _ => rfl
  | n + 1, .raised :: attempts => getAllNeighStates_spec h n attempts
  | n + 1, .summary peerInfo :: attempts => by
    have hfold := foldl_peerInfo (peerInfo.filter fun p => isUnicast p.1)
      (s := { s with newPeerL := [], newPeerState := [] })
      ⟨nodup_nil, fun x => by simp⟩
    rw [foldl_filter] at hfold
    exact ⟨_, rfl, hfold⟩

section
variable {iter : List Str → List Str} (hiter : ∀ l, (iter l).Perm l)
include hiter

theorem updateNeighStates_spec (h : Coherent s) (hold : ∀ x, x ∈ s.peerL ↔ s.peerState.get? x ≠ none) :
    ∃ t, updateNeighStates iter s = some t ∧ t.newPeerL = s.newPeerL ∧ t.newPeerState = s.newPeerState ∧
      t.peerL = s.newPeerL ∧ (∀ x, t.peerState.get? x = (s.newPeerState.get? x).map Peer.state) ∧
      (∀ x p, s.newPeerState.get? x = some p → t.table.get? (tableKey x) =
        if s.peerState.get? x = some p.state then s.table.get? (tableKey x) else some p.row) ∧
      (∀ x, s.newPeerState.get? x = none → t.table.get? (tableKey x) =
        if x ∈ s.peerL then none else s.table.get? (tableKey x)) ∧
      ∀ k, (∀ x, tableKey x ≠ k) → t.table.get? k = s.table.get? k := by
  obtain ⟨r, hr, hupd⟩ := @updatePeers_updated (iter s.newPeerL) (s, []) ((hiter _).nodup_iff.mpr h.nodup) nodup_nil
    (fun x hx => (h.mem x).mp ((hiter _).mem_iff.mp hx)) (fun x hx => (hold x).mp hx)
  have hrem := removePeers_removed (iter r.1.peerL) hupd.nodup
  obtain ⟨r', hr'⟩ : ∃ r', (iter r.1.peerL).foldl removePeer r = r' := ⟨_, rfl⟩
  rw [hr'] at hrem
  have hnew : ∀ x, x ∈ iter s.newPeerL ↔ s.newPeerState.get? x ≠ none := fun x => by rw [(hiter _).mem_iff, h.mem]
  have hleft : ∀ x, x ∈ iter r.1.peerL ↔ x ∈ s.peerL ∧ s.newPeerState.get? x = none := fun x => by
    rw [(hiter _).mem_iff, hupd.peerL, hnew, not_not]
  have hnotLeft : ∀ {x p}, s.newPeerState.get? x = some p → x ∉ iter r.1.peerL := fun hp hx => by simp_all
  -- The last flush leaves nothing pending.
  have hlast : ∃ t, (if 0 < r'.2.length then flushPipe r'.1 r'.2 else r'.1) = { r'.1 with table := t } ∧
    t = view r' := by
    split
    · exact ⟨_, rfl, rfl⟩
    · rename_i hlen
      have hnil : r'.2 = [] := eq_nil_of_length_eq_zero (by omega)
      exact ⟨r'.1.table, rfl, by rw [view, hnil]; rfl⟩
  obtain ⟨_, hlast, rfl⟩ := hlast
  refine ⟨{ r'.1 with table := view r', peerL := r'.1.newPeerL }, ?_, ?_, ?_, ?_, fun x => ?_, fun x p hp => ?_,
    fun x hx => ?_, fun k hk => ?_⟩
  · grind [updateNeighStates]
  · exact hrem.newPeerL.trans hupd.newPeerL
  · exact hrem.snapshot.trans hupd.snapshot
  · exact hrem.newPeerL.trans hupd.newPeerL
  · show r'.1.peerState.get? x = _
    rw [hrem.peerState, hupd.peerState]
    cases hp : s.newPeerState.get? x with
    | some p => grind
    | none =>
      split
      · rfl
      · simp_all
  · show (view r').get? _ = _
    rw [hrem.frame _ fun y hy he => hnotLeft hp (by rwa [← tableKey_injective he]),
      hupd.row x ((hnew x).mpr (by simp [hp])), hp, map_some]
    by_cases hs : s.peerState.get? x = some p.state
    · rw [if_pos ⟨(hold x).mpr (by simp [hs]), hs⟩, if_pos hs]
      rfl
    · grind
  · show (view r').get? _ = _
    by_cases hm : x ∈ s.peerL
    · grind [hrem.gone]
    · rw [if_neg hm, hrem.frame _ fun y hy he => hm ((hleft x).mp (by rwa [← tableKey_injective he])).1,
        hupd.frame _ fun y hy he => (hnew x).mp (by rwa [← tableKey_injective he]) hx]
      rfl
  · show (view r').get? _ = _
    rw [hrem.frame _ fun y _ => hk y, hupd.frame _ fun y _ => hk y]
    rfl

end

/-! ## Runs -/

structure Settled (s : Monitor) : Prop extends Coherent s where
  peerL : s.peerL = s.newPeerL
  peerState : ∀ x, s.peerState.get? x = (s.newPeerState.get? x).map Peer.state

theorem Settled.init : Settled Monitor.init where
  nodup := nodup_nil
  mem x := by simp [Monitor.init]
  peerL := rfl
  peerState _ := rfl

theorem Settled.hold (h : Settled s) (x : Str) : x ∈ s.peerL ↔ s.peerState.get? x ≠ none := by
  rw [h.peerL, h.mem, h.peerState, ne_eq, ne_eq, map_eq_none_iff]

section
variable {iter : List Str → List Str} (hiter : ∀ l, (iter l).Perm l)
include hiter

theorem step_spec (h : Settled s) (hshows : Shows s.table s.newPeerState) {attempts : List Attempt}
    {read : Option Snapshot} (hread : readSummary maxRetryAttempts attempts = some read) :
    ∃ t, step iter s attempts = some t ∧ Settled t ∧ t.newPeerState = read.getD s.newPeerState ∧
      (Shows t.table t.newPeerState ↔ TypesStable s attempts) := by
  have hget := getAllNeighStates_spec h.toCoherent maxRetryAttempts attempts
  rw [hread] at hget
  -- The state after the read, in both cases.
  obtain ⟨u, hu, hco, hsnap, hpeerL, hpeerState, htable⟩ : ∃ u, getAllNeighStates s maxRetryAttempts attempts = some u ∧
      Coherent u ∧ u.newPeerState = read.getD s.newPeerState ∧ u.peerL = s.peerL ∧ u.peerState = s.peerState ∧
      u.table = s.table := by grind [h.toCoherent]
  obtain ⟨t, ht, hl, hst, hpl, hps, hnew, hgone, hframe⟩ := updateNeighStates_spec hiter hco
    (by rw [hpeerL, hpeerState]; exact h.hold)
  refine ⟨t, by rw [step, hu]; exact ht, ⟨⟨hl ▸ hco.nodup, fun x => by rw [hl, hst]; exact hco.mem x⟩, hpl.trans hl.symm,
    fun x => by rw [hps, hst]⟩, hst.trans hsnap, ?_⟩
  -- The row of a peer that keeps its state is the one of the snapshot before.
  have hkept : ∀ {x p q}, s.newPeerState.get? x = some p → u.newPeerState.get? x = some q → p.state = q.state →
      t.table.get? (tableKey x) = some p.row := fun {x p q} hp hq he => by grind [h.peerState, hshows.row]
  constructor
  · intro hsh snapshot hsome x p q hp hq he
    rw [hread] at hsome
    cases hsome
    rw [hst.trans hsnap] at hsh
    have hrow := hsh.row x
    rw [hkept hp (by rw [hsnap]; exact hq) he] at hrow
    rw [getD_some, hq, map_some, Option.some.injEq] at hrow
    exact peerType_eq_iff.mp (congrArg Row.peerType hrow)
  · intro hstable
    rw [hst]
    refine ⟨fun x => ?_, fun k hk => ?_⟩
    · cases hq : u.newPeerState.get? x with
      | none =>
        rw [hgone x hq, hpeerL, htable, hshows.row, map_none]
        by_cases hx : x ∈ s.peerL
        · rw [if_pos hx]
        · rw [if_neg hx]
          rw [h.peerL, h.mem, not_not] at hx
          rw [hx, map_none]
      | some q =>
        rw [map_some]
        by_cases hsame : s.peerState.get? x = some q.state
        · rw [h.peerState, map_eq_some_iff] at hsame
          obtain ⟨p, hp, he⟩ := hsame
          rw [hkept hp hq he, Option.some.injEq, Peer.row, Peer.row, he, Row.mk.injEq]
          refine ⟨rfl, peerType_eq_iff.mpr ?_⟩
          cases read with
          | none => grind
          | some snapshot => exact hstable snapshot hread x p q hp (by rwa [hsnap] at hq) he
        · grind
    · grind [hshows.key]

theorem run_shows : ∀ {reads : List (List Attempt)} {s : Monitor}, Settled s → Shows s.table s.newPeerState →
    (∀ attempts ∈ reads, readSummary maxRetryAttempts attempts ≠ none) →
    ((∀ pre, pre <+: reads → ∃ t, run (step iter) s pre = some t ∧ Shows t.table
      (pre.foldl (fun d attempts => ((readSummary maxRetryAttempts attempts).bind id).getD d) s.newPeerState)) ↔
      Along (step iter) TypesStable s reads)
  | [], s, _, hshows, _ => by
    refine ⟨fun _ => trivial, fun _ pre hpre => ?_⟩
    rw [List.prefix_nil.mp hpre]
    exact ⟨s, rfl, hshows⟩
  | attempts :: reads, s, h, hshows, hreads => by
    obtain ⟨read, hread⟩ := Option.ne_none_iff_exists'.mp (hreads attempts mem_cons_self)
    obtain ⟨t, ht, hset, hsnap, hiff⟩ := step_spec hiter h hshows hread
    have hsnap' : ((readSummary maxRetryAttempts attempts).bind id).getD s.newPeerState = t.newPeerState := by
      simp_all
    have hrest := fun hs : Shows t.table t.newPeerState =>
      run_shows hset hs fun a ha => hreads a (mem_cons_of_mem _ ha)
    rw [Along, ht]
    constructor
    · intro hall
      have hone : Shows t.table t.newPeerState := by
        obtain ⟨t', ht', hs⟩ := hall [attempts] (by simp)
        rw [run_cons _ ht] at ht'
        cases ht'
        grind
      refine ⟨hiff.mp hone, (hrest hone).mp fun pre hpre => ?_⟩
      obtain ⟨t', ht', hs⟩ := hall (attempts :: pre) (by simpa using hpre)
      grind [run_cons]
    · rintro ⟨hstable, halong⟩ pre hpre
      cases pre with
      | nil => exact ⟨s, rfl, hshows⟩
      | cons a pre => grind [run_cons]

/-- After every update the table shows the latest summary, exactly if in every turn the peers that keep their state
keep their type. -/
theorem neigh_state_table_iff {reads : List (List Attempt)}
    (hreads : ∀ attempts ∈ reads, readSummary maxRetryAttempts attempts ≠ none) :
    (∀ pre, pre <+: reads → ∃ t, run (step iter) Monitor.init pre = some t ∧ Shows t.table (latest pre)) ↔
      Along (step iter) TypesStable Monitor.init reads :=
  run_shows hiter Settled.init ⟨fun _ => rfl, fun _ hk => absurd rfl hk⟩ hreads

end

def established (peer : String) (remoteAs localAs : Int) : Attempt :=
  .summary [("ipv4Unicast", [(peer.toList, ⟨"Established", remoteAs, localAs⟩)])]

/-- More peers than one batch of the pipe has, of both types. -/
def manyPeers : Snapshot :=
  (List.range 60).map fun i => (Nat.toDigits 10 i, ⟨"Established", 65000 + i % 2, 65000⟩)

def replaced : List (List Attempt) :=
  [[.raised, .summary [("ipv4Unicast", manyPeers)]], [.failed], [established "10.0.0.2" 65000 65000]]

theorem neigh_state_table_replaced : Along (step id) TypesStable Monitor.init replaced ∧
    ∀ pre, pre <+: replaced → ∃ t, run (step id) Monitor.init pre = some t ∧ Shows t.table (latest pre) :=
  ⟨by decide +kernel, (@neigh_state_table_iff id (fun _ => List.Perm.refl _) replaced (by decide +kernel)).mpr
    (by decide +kernel)⟩

def renumbered : List (List Attempt) := [[established "10.0.0.1" 65001 65000], [established "10.0.0.1" 65000 65000]]

theorem renumbered_stale : ¬ ∃ t, run (step id) Monitor.init renumbered = some t ∧
    Shows t.table (latest renumbered) := by
  rintro ⟨t, ht, hshows⟩
  have hrow : (run (step id) Monitor.init renumbered).map (fun t => t.table.get? (tableKey "10.0.0.1")) ≠
      some (((latest renumbered).get? "10.0.0.1").map Peer.row) := by decide +kernel
  rw [ht, Option.map_some, hshows.row] at hrow
  exact hrow rfl

end Sonic.Bgpmon
