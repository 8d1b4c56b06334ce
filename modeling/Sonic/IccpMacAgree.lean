import Sonic.IccpMacPair
import Sonic.Run
import Mathlib.Logic.Function.Basic

/-! # Two switches that exchange their MAC tables

Each switch learns and ages one address on the shared port-channels, sends its queue into a channel
and hears the channel of the other in order. When nothing is left to be said, what a switch holds of
its peer is what the peer holds of itself. -/

namespace Sonic.IccpMac
open List Function

inductive Side where
  | left
  | right
  deriving DecidableEq

def Side.other : Side → Side
  | .left => .right
  | .right => .left

theorem Side.other_other : ∀ i : Side, i.other.other = i
  | .left => rfl
  | .right => rfl

theorem Side.other_ne : ∀ i : Side, i.other ≠ i
  | .left => by decide
  | .right => by decide

theorem Side.eq_or_eq_other : ∀ i j : Side, j = i ∨ j = i.other
  | .left, .left => .inl rfl
  | .left, .right => .inr rfl
  | .right, .left => .inr rfl
  | .right, .right => .inl rfl

structure Pair where
  node : Side → Node
  chan : Side → List MacData
  learned : Side → Bool

namespace Pair

def new (env : Side → Env) : Pair := ⟨fun i => ⟨env i, [], []⟩, fun _ => [], fun _ => false⟩

inductive Event (ports : List Str) where
  | syncd (i : Side) (port : {p // p ∈ ports}) (opType : Op)
  | flush (i : Side)
  | deliver (i : Side)

section
variable {ports : List Str} (k : Key)

def deliver (s : Pair) (i : Side) : Pair :=
  match s.chan i with
  | [] => s
  | d :: rest =>
    { s with
      node := Function.update s.node i.other (updateMacEntryFromPeer (s.node i.other) d)
      chan := Function.update s.chan i rest }

def step (s : Pair) : Event ports → Option Pair
  | .syncd i port opType =>
    some { s with
      node := Function.update s.node i (doMacUpdateFromSyncd (s.node i) k port .dynamic opType)
      learned := Function.update s.learned i (opType = .add) }
  | .flush i =>
    let (messages, n) := syncSendSyncMacInfo (s.node i)
    some { s with node := Function.update s.node i n, chan := Function.update s.chan i (s.chan i ++ messages) }
  | .deliver i => some (s.deliver i)

/-- An address that mclagsyncd reports on another port than it was on is aged by the peer. -/
def moveOk (s : Pair) : Event ports → Prop
  | .syncd i port .add => ∀ m ∈ (s.node i).macRb.get? k,
      m.ifname = port ∧ m.originIfname = port ∨ m.ageFlag.peerAged = true
  | _ => True

instance (s : Pair) : ∀ e : Event ports, Decidable (moveOk k s e)
  | .syncd i port .add => inferInstanceAs (Decidable (∀ m ∈ (s.node i).macRb.get? k,
      m.ifname = port ∧ m.originIfname = port ∨ m.ageFlag.peerAged = true))
  | .syncd _ _ .del | .flush _ | .deliver _ => isTrue trivial

def Quiet (s : Pair) : Prop := ∀ i, (s.node i).macMsgList = [] ∧ s.chan i = []

/-- Each switch that has not aged the address is heard, and one that nobody has learned is held by nobody. -/
def Agree (s : Pair) : Prop :=
  (∀ i m, (s.node i).macRb.get? k = some m → m.ageFlag.localAged = false →
      ∃ m', (s.node i.other).macRb.get? k = some m' ∧ m'.ageFlag.peerAged = false) ∧
    ((∀ i, s.learned i = false) → ∀ i, (s.node i).macRb.get? k = none)

end

def said (b : Bool) (types : List (Option Op)) : Bool := types.foldl (fun _ t => decide (t = some .add)) b

theorem said_concat (b : Bool) (types : List (Option Op)) (t : Option Op) :
    said b (types ++ [t]) = decide (t = some .add) := by
  rw [said, foldl_append]
  rfl

/-! ## The invariant -/

section
variable {ports : List Str} {k : Key}

variable (ports k) in
structure Inv (s : Pair) (i : Side) : Prop where
  node : NodeOk ports k (s.node i)
  chan : ∀ d ∈ s.chan i, Fine ports k d
  heard : said ((s.node i.other).hears k) ((s.chan i).map MacData.type ++ (s.node i).types) = (s.node i).claims k
  learned : (s.node i).claims k = s.learned i

theorem Inv.new {env : Side → Env} (henv : ∀ i, Shared ports (env i)) (i : Side) : Inv ports k (Pair.new env) i :=
  ⟨⟨henv i, [], none, false, ⟨rfl, rfl, fun h => by cases h⟩, fun _ hm => (not_mem_nil hm).elim,
    fun _ hm => by cases hm⟩, fun _ hd => (not_mem_nil hd).elim, rfl, rfl⟩

section
variable {s : Pair} (hs : ∀ i, Inv ports k s i) (hk : k.mac ≠ 0)
include hs

theorem Inv.syncd {i : Side} {op : Op} {n : Node} (hn : Told ports k (s.node i) n op) (j : Side) :
    Inv ports k { s with node := Function.update s.node i n, learned := Function.update s.learned i (op = .add) } j := by
  rcases Side.eq_or_eq_other i j with rfl | rfl
  · refine ⟨?_, (hs j).chan, ?_, ?_⟩
    · grind [hn.ok]
    · simp only [update_self, update_of_ne (Side.other_ne j)]
      rcases hn.types with ⟨hclaims, htypes⟩ | ⟨l, htypes⟩
      · rw [htypes, hclaims]
        exact (hs j).heard
      · rw [htypes, ← append_assoc, said_concat, hn.claims]
        simp_all
    · grind [hn.claims]
  · refine ⟨?_, (hs _).chan, ?_, ?_⟩
    · grind [Side.other_ne, node]
    · simp only [Side.other_other, update_self, update_of_ne (Side.other_ne i), hn.hears]
      simpa only [Side.other_other] using (hs i.other).heard
    · simpa only [update_of_ne (Side.other_ne i)] using (hs i.other).learned

theorem Inv.flush (i j : Side) : Inv ports k
    { s with
      node := Function.update s.node i (syncSendSyncMacInfo (s.node i)).2
      chan := Function.update s.chan i (s.chan i ++ (syncSendSyncMacInfo (s.node i)).1) } j := by
  rcases Side.eq_or_eq_other i j with rfl | rfl
  · refine ⟨?_, ?_, ?_, ?_⟩
    · simpa only [update_self] using (hs j).node.sent
    · simp only [update_self]
      intro d hd
      exact (List.mem_append.mp hd).elim ((hs j).chan d) ((hs j).node.fine d)
    · simp only [update_self, update_of_ne (Side.other_ne j)]
      have htypes : ((s.chan j ++ (syncSendSyncMacInfo (s.node j)).1).map MacData.type ++
          (syncSendSyncMacInfo (s.node j)).2.types) = (s.chan j).map MacData.type ++ (s.node j).types := by
        rw [map_append]
        exact append_nil _
      rw [htypes]
      exact (hs j).heard
    · simp only [update_self]
      exact (hs j).learned
  · refine ⟨?_, ?_, ?_, ?_⟩
    · grind [Side.other_ne, node]
    · simpa only [update_of_ne (Side.other_ne i)] using (hs i.other).chan
    · simp only [Side.other_other, update_self, update_of_ne (Side.other_ne i)]
      have heard := (hs i.other).heard
      rw [Side.other_other] at heard
      exact heard
    · simpa only [update_of_ne (Side.other_ne i)] using (hs i.other).learned

include hk

theorem Inv.deliver (i j : Side) : Inv ports k (s.deliver i) j := by
  unfold Pair.deliver
  cases hc : s.chan i with
  | nil => exact hs j
  | cons d rest =>
    have hd : Fine ports k d := (hs i).chan d (hc ▸ mem_cons_self)
    obtain ⟨hok, hclaims, hhears, htypes⟩ := (hs i.other).node.hear hk hd
    rcases Side.eq_or_eq_other i j with rfl | rfl
    · refine ⟨?_, fun d hd => ?_, ?_, ?_⟩
      · simp_all [Side.other_ne, symm, node]
      · simp only [update_self] at hd
        exact (hs j).chan d (hc ▸ mem_cons_of_mem _ hd)
      · simp only [update_self, update_of_ne (Side.other_ne j).symm, hhears]
        have heard := (hs j).heard
        rw [hc] at heard
        exact heard
      · simpa only [update_of_ne (Side.other_ne j).symm] using (hs j).learned
    · refine ⟨?_, ?_, ?_, ?_⟩
      · simpa only [update_self] using hok
      · simpa only [update_of_ne (Side.other_ne i)] using (hs i.other).chan
      · simp only [Side.other_other, update_self, update_of_ne (Side.other_ne i),
          update_of_ne (Side.other_ne i).symm, htypes, hclaims]
        have heard := (hs i.other).heard
        grind [Side.other_other]
      · simp only [update_self, hclaims]
        exact (hs i.other).learned

theorem Inv.step {e : Event ports} {s' : Pair} (hok : moveOk k s e) (he : Pair.step k s e = some s') (j : Side) :
    Inv ports k s' j := by
  cases e with
  | syncd i port op =>
    cases he
    cases op with
    | add => exact Inv.syncd hs ((hs i).node.learn hk port.2 hok) j
    | del => exact Inv.syncd hs ((hs i).node.age hk port.2) j
  | flush i => cases he; exact Inv.flush hs i j
  | deliver i => cases he; exact Inv.deliver hs hk i j

omit hk

theorem Inv.agree (hq : s.Quiet) : s.Agree k := by
  have heard : ∀ i, (s.node i.other).hears k = (s.node i).claims k := by
    intro i
    have h := (hs i).heard
    have htypes : (s.node i).types = [] := by
      rw [Node.types, Node.messages, (hq i).1]
      rfl
    rw [(hq i).2, htypes] at h
    exact h
  refine ⟨fun i m hm haged => ?_, fun hl i => ?_⟩
  · have h := heard i
    rw [claims_of_get? hm, Option.map_some, haged, Node.hears] at h
    cases hm' : (s.node i.other).macRb.get? k with
    | none => rw [hm'] at h; cases h
    | some m' => grind
  · have hclaims : ∀ i, (s.node i).claims k = false := fun i => (hs i).learned.trans (hl i)
    cases hm : (s.node i).macRb.get? k with
    | none => rfl
    | some m =>
      obtain ⟨queued, hentry⟩ := (hs i).node.entryOk hm
      have hlocal := hclaims i
      have hpeer := heard i.other
      rw [hclaims, Side.other_other, hears_of_get? hm] at hpeer
      rw [claims_of_get? hm] at hlocal
      obtain ⟨op, fdb, ifname, origin, ⟨aged, peer⟩, pending⟩ := m
      have haged : aged = true := (Bool.not_eq_false' aged).mp hlocal
      have hpeer : peer = true := (Bool.not_eq_false' peer).mp hpeer
      exact absurd (by rw [haged, hpeer]; rfl) hentry.age

end

theorem step_null {env : Side → Env} (hk : k.mac = 0) {s s' : Pair} {e : Event ports}
    (hs : ∀ i, s.node i = ⟨env i, [], []⟩ ∧ s.chan i = []) (he : Pair.step k s e = some s') (i : Side) :
    s'.node i = ⟨env i, [], []⟩ ∧ s'.chan i = [] := by
  cases e with
  | syncd j port op =>
    cases he
    have hsame : doMacUpdateFromSyncd (s.node j) k port .dynamic op = s.node j := if_pos hk
    grind
  | flush j =>
    have hsent : syncSendSyncMacInfo (s.node j) = ([], s.node j) := by rw [(hs j).1]; rfl
    rw [Pair.step, hsent] at he
    dsimp only at he
    rw [append_nil, update_eq_self, update_eq_self] at he
    cases he
    exact hs i
  | deliver j =>
    cases he
    rw [Pair.deliver, (hs j).2]
    exact hs i

theorem agree_of_run {env : Side → Env} (henv : ∀ i, Shared ports (env i)) (events : List (Event ports))
    (hok : Along (Pair.step k) (moveOk k) (Pair.new env) events) :
    ∃ s, run (Pair.step k) (Pair.new env) events = some s ∧ (s.Quiet → s.Agree k) := by
  have htotal : ∀ (s : Pair) (e : Event ports), ∃ s', Pair.step k s e = some s' := by
    intro s e
    cases e <;> exact ⟨_, rfl⟩
  by_cases hk : k.mac = 0
  · obtain ⟨s, hr, hs⟩ := run_total (Pair.step k) (fun s e _ _ => htotal s e)
      (fun s e s' (hs : ∀ i, s.node i = ⟨env i, [], []⟩ ∧ s.chan i = []) _ he => step_null hk hs he)
      (fun i => ⟨rfl, rfl⟩) hok
    refine ⟨s, hr, fun _ => ⟨fun i m hm => ?_, fun _ i => ?_⟩⟩
    · rw [(hs i).1] at hm
      cases hm
    · rw [(hs i).1]
      rfl
  · obtain ⟨s, hr, hs⟩ := run_total (Pair.step k) (fun s e _ _ => htotal s e)
      (fun s e s' hs hok he => Inv.step hs hk hok he) (Inv.new henv) hok
    exact ⟨s, hr, Inv.agree hs⟩

end

def trunks : List Str := ["PortChannel1", "PortChannel2"]

def trunk1 : {p // p ∈ trunks} := ⟨"PortChannel1", by decide⟩

def trunk2 : {p // p ∈ trunks} := ⟨"PortChannel2", by decide⟩

def trunksEnv : Env :=
  ⟨"PortChannel10", [("PortChannel1", ⟨.up, true⟩), ("PortChannel2", ⟨.up, true⟩)],
    [("PortChannel1", .up), ("PortChannel2", .up)], true⟩

theorem trunksEnv_shared : Shared trunks trunksEnv := ⟨rfl, by decide, by decide⟩

def bothLearn : List (Event trunks) :=
  [.syncd .left trunk1 .add, .flush .left, .deliver .left, .syncd .right trunk1 .add, .flush .right, .deliver .right]

theorem agree_aged : ∃ s, run (Pair.step ⟨10, 1⟩) (Pair.new fun _ => trunksEnv)
      (bothLearn ++ [.syncd .left trunk1 .del, .flush .left, .syncd .right trunk1 .del, .flush .right,
        .deliver .left, .deliver .right]) = some s ∧ (s.Quiet → s.Agree ⟨10, 1⟩) :=
  agree_of_run (fun _ => trunksEnv_shared) _ (by decide +kernel)

theorem not_agree_moved : ∃ s, run (Pair.step ⟨10, 1⟩) (Pair.new fun _ => trunksEnv)
      (bothLearn ++ [.syncd .left trunk2 .add]) = some s ∧ s.Quiet ∧ ¬s.Agree ⟨10, 1⟩ := by
  refine ⟨_, (Option.some_get (by decide +kernel)).symm, ?_, fun h => ?_⟩
  · rintro (_ | _) <;> decide +kernel
  · obtain ⟨m, hm, hage⟩ := h.1 .right _ (Option.some_get (by decide +kernel)).symm (by decide +kernel)
    have hflag := congrArg (Option.map fun m => m.ageFlag.peerAged) hm
    rw [Option.map_some, hage] at hflag
    exact absurd hflag (by decide +kernel)

end Pair

end Sonic.IccpMac
