import Sonic.Dict
import Sonic.Ipaddress
import Sonic.Lines
import Sonic.Run

/-! # Aggregate addresses of bgpcfgd

`AggregateAddressMgr` announces the prefixes of BGP_AGGREGATE_ADDRESS, some of them only while BBR
is enabled. What it has announced is written to STATE_DB, and a removal is made from that row. -/

namespace Sonic.AggregateAddress
open List

open Ipaddress (Version ipNetwork)

variable {key asn : Str} {a : Attrs} {s : Sys}

/-! ## Rows and commands -/

def trueString : Str := "true"
def falseString : Str := "false"

structure Attrs where
  bbrRequired : Str
  summaryOnly : Str
  asSet : Str
  aggregatePrefixList : Str
  contributingPrefixList : Str
  deriving DecidableEq

abbrev Data := Dict Str Str

def Attrs.ofData (data : Data) : Attrs where
  bbrRequired := (data.get? "bbr-required").getD falseString
  summaryOnly := (data.get? "summary-only").getD falseString
  asSet := (data.get? "as-set").getD falseString
  aggregatePrefixList := (data.get? "aggregate-address-prefix-list").getD []
  contributingPrefixList := (data.get? "contributing-address-prefix-list").getD []

structure Entry where
  attrs : Attrs
  active : Bool

def key2Prefix (key : Str) : Str := (Str.split '|' key).getLastD []

def validatePrefix (ipPrefix : Str) : Option Version := if '/' ∈ ipPrefix then ipNetwork ipPrefix else none

structure ListEntry where
  isV4 : Bool
  name : Str
  ipPrefix : Str
  isCon : Bool
  deriving DecidableEq

inductive Command where
  | routerBgp (asn : Str)
  | addressFamily (isV4 : Bool)
  | aggregate (ipPrefix : Str) (summaryOnly asSet : Bool)
  | noAggregate (ipPrefix : Str)
  | exitAddressFamily
  | exit
  | prefixList (isRemove : Bool) (entry : ListEntry)

def generateAggregateAddressCommands (asn ipPrefix : Str) (isV4 isRemove : Bool) (summaryOnly asSet : Str) :
    List Command :=
  [.routerBgp asn, .addressFamily isV4,
    if isRemove then .noAggregate ipPrefix
    else .aggregate ipPrefix (summaryOnly = trueString) (asSet = trueString),
    .exitAddressFamily, .exit]

def generatePrefixListCommands (prefixListName ipPrefix : Str) (isV4 isCon isRemove : Bool) : List Command :=
  [.prefixList isRemove ⟨isV4, prefixListName, ipPrefix, isCon⟩]

def addressCommands (asn ipPrefix : Str) (isV4 isRemove : Bool) (a : Attrs) : List Command :=
  generateAggregateAddressCommands asn ipPrefix isV4 isRemove a.summaryOnly a.asSet ++
  (if a.aggregatePrefixList ≠ [] then
    generatePrefixListCommands a.aggregatePrefixList ipPrefix isV4 false isRemove else []) ++
  (if a.contributingPrefixList ≠ [] then
    generatePrefixListCommands a.contributingPrefixList ipPrefix isV4 true isRemove else [])

inductive Node where
  | config
  | bgp
  | bgpAf (isV4 : Bool)

structure Frr where
  node : Node
  aggregates : Dict (Bool × Str) (Bool × Bool)
  prefixLists : List ListEntry

def Frr.exec (f : Frr) : Command → Frr
  | .routerBgp _ => { f with node := .bgp }
  | .addressFamily isV4 =>
    match f.node with
    | .bgp => { f with node := .bgpAf isV4 }
    | _ => f
  | .aggregate ipPrefix summaryOnly asSet =>
    match f.node with
    | .bgpAf isV4 => { f with aggregates := f.aggregates.set (isV4, ipPrefix) (summaryOnly, asSet) }
    | _ => f
  | .noAggregate ipPrefix =>
    match f.node with
    | .bgpAf isV4 => { f with aggregates := f.aggregates.erase (isV4, ipPrefix) }
    | _ => f
  | .exitAddressFamily => { f with node := .bgp }
  | .exit => { f with node := .config }
  | .prefixList isRemove e =>
    { f with prefixLists := if isRemove then Lines.remove f.prefixLists e else Lines.add f.prefixLists e }

def Frr.push (f : Frr) (cmds : List Command) : Frr := cmds.foldl Frr.exec { f with node := .config }

/-! ## The manager -/

structure Sys where
  bbrStatus : Option Str
  stateDb : Dict Str Entry
  frr : Frr

def Sys.new : Sys := ⟨none, [], ⟨.config, [], []⟩⟩

def enabled : Str := "enabled"
def disabled : Str := "disabled"

section
variable (asn : Str)

def Sys.setAddressState (s : Sys) (key : Str) (a : Attrs) (active : Bool) : Sys :=
  { s with stateDb := s.stateDb.set key ⟨a, active⟩ }

def Sys.addressSetHandler (s : Sys) (key : Str) (a : Attrs) : Sys :=
  match validatePrefix (key2Prefix key) with
  | none => s.setAddressState key a false
  | some v =>
    { s with frr := s.frr.push (addressCommands asn (key2Prefix key) v.isV4 false a) }.setAddressState key a true

def Sys.addressDelHandler (s : Sys) (key : Str) (a : Attrs) : Sys :=
  let isV4 := ((validatePrefix (key2Prefix key)).map Version.isV4).getD false
  { s with frr := s.frr.push (addressCommands asn (key2Prefix key) isV4 true a) }

def bbrRequired (a : Attrs) : Bool := a.bbrRequired = trueString

def Sys.setHandler (s : Sys) (key : Str) (data : Data) : Sys :=
  let a := Attrs.ofData data
  if validatePrefix (key2Prefix key) = none then s.setAddressState key a false
  else
    let bbrStatus := s.bbrStatus.getD []
    if bbrStatus ≠ enabled ∧ bbrStatus ≠ disabled ∧ bbrRequired a then s.setAddressState key a false
    else if bbrStatus = disabled ∧ bbrRequired a then s.setAddressState key a false
    else s.addressSetHandler asn key a

def Sys.delHandler (s : Sys) (key : Str) : Sys :=
  let s := match s.stateDb.get? key with
    | some ⟨_, false⟩ => s
    | some ⟨a, true⟩ => s.addressDelHandler asn key a
    | none => s.addressDelHandler asn key (Attrs.ofData [])
  { s with stateDb := s.stateDb.erase key }

def Sys.bbrRequiredAddresses (s : Sys) (getKeys : List Str → List Str) : List (Str × Attrs) :=
  (getKeys s.stateDb.keys).filterMap fun key => (s.stateDb.get? key).bind fun e =>
    if bbrRequired e.attrs then some (key, e.attrs) else none

def Sys.onBbrChange (getKeys : List Str → List Str) (s : Sys) : Sys :=
  let addresses := s.bbrRequiredAddresses getKeys
  if s.bbrStatus = some enabled then
    addresses.foldl (fun s (key, a) => s.addressSetHandler asn key a) s
  else if s.bbrStatus = some disabled then
    addresses.foldl (fun s (key, a) => (s.addressDelHandler asn key a).setAddressState key a false) s
  else s

inductive Event where
  | set (key : Str) (data : Data)
  | del (key : Str)
  | bbr (status : Str)
  | bbrRemoved

def step (getKeys : List Str → List Str) (s : Sys) : Event → Option Sys
  | .set key data => some (s.setHandler asn key data)
  | .del key => some (s.delHandler asn key)
  | .bbr status => some ({ s with bbrStatus := some status }.onBbrChange asn getKeys)
  | .bbrRemoved => some { s with bbrStatus := none }

end

def listEntries (ipPrefix : Str) (isV4 : Bool) (a : Attrs) : List ListEntry :=
  (if a.aggregatePrefixList ≠ [] then [⟨isV4, a.aggregatePrefixList, ipPrefix, false⟩] else []) ++
  (if a.contributingPrefixList ≠ [] then [⟨isV4, a.contributingPrefixList, ipPrefix, true⟩] else [])

def wantedLists (key : Str) : Option Entry → List ListEntry
  | some ⟨a, true⟩ =>
    match validatePrefix (key2Prefix key) with
    | some v => listEntries (key2Prefix key) v.isV4 a
    | none => []
  | _ => []

def wantedAggregate (key : Str) : Option Entry → Option ((Bool × Str) × (Bool × Bool))
  | some ⟨a, true⟩ =>
    (validatePrefix (key2Prefix key)).map fun v =>
      ((v.isV4, key2Prefix key), (decide (a.summaryOnly = trueString), decide (a.asSet = trueString)))
  | _ => none

/-- FRR has the aggregates and the entries of the active rows and nothing else. -/
structure Announces (s : Sys) : Prop where
  aggregates : ∀ p opts, s.frr.aggregates.get? p = some opts ↔
    ∃ key, wantedAggregate key (s.stateDb.get? key) = some (p, opts)
  prefixLists : Lines.Holds s.frr.prefixLists fun key => wantedLists key (s.stateDb.get? key)

/-- No other row has the prefix of the key. -/
def ownsPrefix (s : Sys) (key : Str) : Prop := ∀ k ∈ s.stateDb.keys, key2Prefix k = key2Prefix key → k = key

/-- An active row stays active, and its prefix-lists stay the same. -/
def keepsLists (s : Sys) (key : Str) (a : Attrs) : Prop :=
  match s.stateDb.get? key with
  | some ⟨old, true⟩ =>
    (bbrRequired a → s.bbrStatus = some enabled) ∧
    (old.aggregatePrefixList = [] ∨ old.aggregatePrefixList = a.aggregatePrefixList) ∧
    (old.contributingPrefixList = [] ∨ old.contributingPrefixList = a.contributingPrefixList)
  | _ => True

def addressOk (s : Sys) : Event → Prop
  | .set key data => ownsPrefix s key ∧ keepsLists s key (Attrs.ofData data)
  | .del key => ownsPrefix s key
  | _ => True

instance (s : Sys) (key : Str) (a : Attrs) : Decidable (keepsLists s key a) := by
  unfold keepsLists
  split <;> exact inferInstance

instance (s : Sys) : ∀ e, Decidable (addressOk s e)
  | .set key data => by unfold addressOk ownsPrefix; exact inferInstance
  | .del key => by unfold addressOk ownsPrefix; exact inferInstance
  | .bbr _ => inferInstanceAs (Decidable True)
  | .bbrRemoved => inferInstanceAs (Decidable True)

/-! ## One row changes -/

theorem push_set (f : Frr) (asn ipPrefix : Str) (isV4 : Bool) (a : Attrs) :
    f.push (addressCommands asn ipPrefix isV4 false a) =
      ⟨.config, f.aggregates.set (isV4, ipPrefix) (a.summaryOnly = trueString, a.asSet = trueString),
        (listEntries ipPrefix isV4 a).foldl Lines.add f.prefixLists⟩ := by
  unfold addressCommands listEntries
  split <;> split <;> rfl

theorem push_remove (f : Frr) (asn ipPrefix : Str) (isV4 : Bool) (a : Attrs) :
    f.push (addressCommands asn ipPrefix isV4 true a) =
      ⟨.config, f.aggregates.erase (isV4, ipPrefix),
        (listEntries ipPrefix isV4 a).foldl Lines.remove f.prefixLists⟩ := by
  unfold addressCommands listEntries
  split <;> split <;> rfl

theorem wantedAggregate_key {e : Option Entry} {p : Bool × Str} {opts : Bool × Bool}
    (h : wantedAggregate key e = some (p, opts)) :
    e ≠ none ∧ ∃ v, validatePrefix (key2Prefix key) = some v ∧ p = (v.isV4, key2Prefix key) := by
  match e, h with
  | some ⟨a, true⟩, h =>
    obtain ⟨v, hv, he⟩ := Option.map_eq_some_iff.mp h
    simp_all

theorem listEntries_ipPrefix {ipPrefix : Str} {isV4 : Bool} {e : ListEntry}
    (h : e ∈ listEntries ipPrefix isV4 a) : e.ipPrefix = ipPrefix := by
  rcases List.mem_append.mp h with h | h <;> split at h
  all_goals grind

theorem wantedLists_key {r : Option Entry} {e : ListEntry} (h : e ∈ wantedLists key r) :
    r ≠ none ∧ e.ipPrefix = key2Prefix key := by
  match r, h with
  | some ⟨a, true⟩, h =>
    refine ⟨Option.some_ne_none _, ?_⟩
    grind [wantedLists, listEntries_ipPrefix]

theorem not_wanted {db : Dict Str Entry} {e : ListEntry} (h : ∀ k ∈ db.keys, e ∉ wantedLists k (db.get? k)) (k : Str) :
    e ∉ wantedLists k (db.get? k) := by
  intro he
  refine h k ?_ he
  by_contra hn
  exact (wantedLists_key he).1 (Dict.get?_eq_none_iff.mpr hn)

theorem listEntries_subset {ipPrefix : Str} {isV4 : Bool} {b : Attrs}
    (hagg : a.aggregatePrefixList = [] ∨ a.aggregatePrefixList = b.aggregatePrefixList)
    (hcon : a.contributingPrefixList = [] ∨ a.contributingPrefixList = b.contributingPrefixList) {e : ListEntry}
    (h : e ∈ listEntries ipPrefix isV4 a) : e ∈ listEntries ipPrefix isV4 b := by
  rcases List.mem_append.mp h with h | h <;> split at h
  · rename_i hne
    refine List.mem_append.mpr (.inl ?_)
    simp_all
  · cases h
  · rename_i hne
    refine List.mem_append.mpr (.inr ?_)
    simp_all
  · cases h

section
variable {s : Sys} (hs : Announces s)
include hs

theorem Announces.of_same {db : Dict Str Entry} {bbrStatus : Option Str}
    (hagg : ∀ key, wantedAggregate key (db.get? key) = wantedAggregate key (s.stateDb.get? key))
    (hlist : ∀ key, wantedLists key (db.get? key) = wantedLists key (s.stateDb.get? key)) :
    Announces ⟨bbrStatus, db, s.frr⟩ := by
  refine ⟨fun p opts => ?_, fun l => ?_⟩
  · grind [hs.aggregates]
  · refine (hs.prefixLists l).trans (exists_congr fun key => ?_)
    simp_all

variable {key : Str} (hown : ownsPrefix s key)
include hown

theorem Announces.activate {v : Version} (hv : validatePrefix (key2Prefix key) = some v)
    (hkeep : ∀ e ∈ wantedLists key (s.stateDb.get? key), e ∈ listEntries (key2Prefix key) v.isV4 a) :
    Announces (s.addressSetHandler asn key a) := by
  unfold Sys.addressSetHandler Sys.setAddressState
  rw [hv]
  dsimp only
  rw [push_set]
  have hnew : wantedAggregate key (some ⟨a, true⟩) =
      some ((v.isV4, key2Prefix key), (decide (a.summaryOnly = trueString), decide (a.asSet = trueString))) := by
    rw [wantedAggregate, hv]
    rfl
  refine ⟨fun p opts => ?_, ?_⟩
  · dsimp only
    rw [Dict.get?_set]
    constructor
    · intro h
      split at h
      · rename_i hp
        subst hp
        refine ⟨key, ?_⟩
        grind
      · rename_i hp
        obtain ⟨k, hk⟩ := (hs.aggregates p opts).mp h
        have hne : key ≠ k := by grind [wantedAggregate_key]
        exact ⟨k, by grind⟩
    · rintro ⟨k, hk⟩
      by_cases hne : key = k
      · grind
      · rw [Dict.get?_set_ne _ hne] at hk
        obtain ⟨hsome, v', -, rfl⟩ := wantedAggregate_key hk
        have hmem : k ∈ s.stateDb.keys := by grind [Dict.get?_eq_none_iff]
        rw [if_neg fun h => hne (hown k hmem (congrArg Prod.snd h).symm).symm]
        exact (hs.aggregates _ opts).mpr ⟨k, hk⟩
  · have hwant : (fun k => wantedLists k ((s.stateDb.set key ⟨a, true⟩).get? k)) =
        Function.update (fun k => wantedLists k (s.stateDb.get? k)) key (listEntries (key2Prefix key) v.isV4 a) := by
      grind [wantedLists]
    show Lines.Holds _ fun k => wantedLists k ((s.stateDb.set key ⟨a, true⟩).get? k)
    rw [hwant]
    exact hs.prefixLists.replace [] _ (fun l hl => .inl (hkeep l hl)) (fun l hl => hl) (fun l hl => .inl hl)
      (forall_mem_nil _)

theorem Announces.deactivate {db : Dict Str Entry}
    (hgone : ∀ e ∈ wantedLists key (s.stateDb.get? key),
      e ∈ listEntries (key2Prefix key) (((validatePrefix (key2Prefix key)).map Version.isV4).getD false) a)
    (hdb : ∀ k, k ≠ key → db.get? k = s.stateDb.get? k) (hagg : wantedAggregate key (db.get? key) = none)
    (hlist : wantedLists key (db.get? key) = []) :
    Announces { s.addressDelHandler asn key a with stateDb := db } := by
  unfold Sys.addressDelHandler
  dsimp only
  rw [push_remove]
  have hkey : ∀ k, s.stateDb.get? k ≠ none → key2Prefix k = key2Prefix key → k = key := by
    intro k hk he
    refine hown k ?_ he
    grind [Dict.get?_eq_none_iff]
  refine ⟨fun p opts => ?_, ?_⟩
  · dsimp only
    constructor
    · intro h
      have hp : p ≠ (((validatePrefix (key2Prefix key)).map Version.isV4).getD false, key2Prefix key) := by grind
      rw [Dict.get?_erase_ne fun h => hp h.symm] at h
      obtain ⟨k, hk⟩ := (hs.aggregates p opts).mp h
      have hne : k ≠ key := by grind [wantedAggregate_key]
      grind
    · rintro ⟨k, hk⟩
      have hne : k ≠ key := by grind
      rw [hdb k hne] at hk
      obtain ⟨hsome, v', -, rfl⟩ := wantedAggregate_key hk
      rw [Dict.get?_erase_ne fun h => hne (hkey k hsome (congrArg Prod.snd h).symm)]
      exact (hs.aggregates _ opts).mpr ⟨k, hk⟩
  · have hwant : (fun k => wantedLists k (db.get? k)) =
        Function.update (fun k => wantedLists k (s.stateDb.get? k)) key [] := by grind
    show Lines.Holds _ fun k => wantedLists k (db.get? k)
    rw [hwant]
    refine hs.prefixLists.replace _ [] (fun l hl => .inr (hgone l hl)) (forall_mem_nil _)
      (forall_mem_nil _) fun l hl k hne hk => ?_
    obtain ⟨hsome, he⟩ := wantedLists_key hk
    grind [listEntries_ipPrefix]

end

/-! ## Runs -/

def PrefixesDiffer (db : Dict Str Entry) : Prop :=
  ∀ k ∈ db.keys, ∀ k' ∈ db.keys, key2Prefix k = key2Prefix k' → k = k'

structure Consistent (s : Sys) : Prop where
  announces : Announces s
  differ : PrefixesDiffer s.stateDb

theorem Consistent.owns (hs : Consistent s) {e : Entry}
    (h : s.stateDb.get? key = some e) : ownsPrefix s key := by
  have hk : key ∈ s.stateDb.keys := Dict.mem_keys_of_get? h
  exact fun k hk' he => hs.differ k hk' key hk he

theorem PrefixesDiffer.set (h : PrefixesDiffer s.stateDb) (hown : ownsPrefix s key) (e : Entry) :
    PrefixesDiffer (s.stateDb.set key e) := by
  intro k hk k' hk' he
  rcases Dict.mem_keys_set hk with h₁ | h₁ <;> rcases Dict.mem_keys_set hk' with h₂ | h₂
  · simp_all
  · exact h₁.trans (hown k' h₂ (by rw [← he, h₁])).symm
  · exact (hown k h₁ (by rw [he, h₂])).trans h₂.symm
  · exact h k h₁ k' h₂ he

theorem wantedLists_subset {active : Bool} (h : s.stateDb.get? key = some ⟨a, active⟩) :
    ∀ e ∈ wantedLists key (s.stateDb.get? key),
      e ∈ listEntries (key2Prefix key) (((validatePrefix (key2Prefix key)).map Version.isV4).getD false) a := by
  intro e he
  rw [h] at he
  cases active <;> grind [wantedLists]

section
variable {s : Sys} (hs : Consistent s)
include hs

theorem Consistent.setInactive (hown : ownsPrefix s key)
    (hagg : wantedAggregate key (s.stateDb.get? key) = none) (hlist : wantedLists key (s.stateDb.get? key) = []) :
    Consistent (s.setAddressState key a false) := by
  refine ⟨hs.announces.of_same (fun k => ?_) fun k => ?_, hs.differ.set hown _⟩
  · rw [Dict.get?_set]
    split
    · rename_i h
      subst h
      exact hagg.symm
    · rfl
  · rw [Dict.get?_set]
    split
    · rename_i h
      subst h
      exact hlist.symm
    · rfl

theorem Consistent.addressSetHandler (hown : ownsPrefix s key)
    (hkeep : ∀ old, s.stateDb.get? key = some ⟨old, true⟩ →
      (old.aggregatePrefixList = [] ∨ old.aggregatePrefixList = a.aggregatePrefixList) ∧
      (old.contributingPrefixList = [] ∨ old.contributingPrefixList = a.contributingPrefixList)) :
    Consistent (s.addressSetHandler asn key a) := by
  cases hv : validatePrefix (key2Prefix key) with
  | none => grind [Sys.addressSetHandler, setInactive, wantedAggregate.eq_def, wantedLists.eq_def]
  | some v =>
    refine ⟨hs.announces.activate hown hv fun e he => ?_, ?_⟩
    · cases hr : s.stateDb.get? key with
      | none => rw [hr] at he; cases he
      | some r =>
        obtain ⟨old, active⟩ := r
        rw [hr] at he
        cases active <;> grind [wantedLists, listEntries_subset]
    · rw [Sys.addressSetHandler, hv]
      exact hs.differ.set hown _

theorem Consistent.addressDelHandler {active : Bool}
    (h : s.stateDb.get? key = some ⟨a, active⟩) :
    Consistent ((s.addressDelHandler asn key a).setAddressState key a false) := by
  have hown := hs.owns h
  refine ⟨hs.announces.deactivate hown (wantedLists_subset h) (fun k hk => ?_) ?_ ?_, hs.differ.set hown _⟩
  · exact Dict.get?_set_ne _ hk.symm _
  · grind [wantedAggregate]
  · grind [wantedLists]

theorem Consistent.setHandler {data : Data} (hown : ownsPrefix s key)
    (hkeep : keepsLists s key (Attrs.ofData data)) : Consistent (s.setHandler asn key data) := by
  have hlists : ∀ old, s.stateDb.get? key = some ⟨old, true⟩ →
      (bbrRequired (Attrs.ofData data) → s.bbrStatus = some enabled) ∧
      (old.aggregatePrefixList = [] ∨ old.aggregatePrefixList = (Attrs.ofData data).aggregatePrefixList) ∧
      (old.contributingPrefixList = [] ∨ old.contributingPrefixList = (Attrs.ofData data).contributingPrefixList) := by
    intro old ho
    rw [keepsLists, ho] at hkeep
    exact hkeep
  have hset : Consistent (s.addressSetHandler asn key (Attrs.ofData data)) :=
    hs.addressSetHandler hown fun old ho => (hlists old ho).2
  -- a row that BBR turns off was not active
  have hoff : bbrRequired (Attrs.ofData data) = true → s.bbrStatus ≠ some enabled →
      Consistent (s.setAddressState key (Attrs.ofData data) false) := by
    intro hreq hne
    have hinactive : ∀ old, s.stateDb.get? key ≠ some ⟨old, true⟩ := fun old ho => hne ((hlists old ho).1 hreq)
    cases hr : s.stateDb.get? key with
    | none => exact hs.setInactive hown (by rw [hr]; rfl) (by rw [hr]; rfl)
    | some r =>
      obtain ⟨old, active⟩ := r
      cases active with
      | false => exact hs.setInactive hown (by rw [hr]; rfl) (by rw [hr]; rfl)
      | true => simp_all
  unfold Sys.setHandler
  dsimp only
  split
  · rename_i hv
    rw [Sys.addressSetHandler, hv] at hset
    exact hset
  · split
    · rename_i h
      exact hoff h.2.2 fun he => h.1 (by rw [he]; rfl)
    · split
      · rename_i h
        refine hoff h.2 fun he => ?_
        rw [he] at h
        exact absurd h.1 (by decide)
      · exact hset

theorem Consistent.delHandler (hown : ownsPrefix s key) : Consistent (s.delHandler asn key) := by
  have hdiffer : PrefixesDiffer (s.stateDb.erase key) := by
    intro k hk k' hk' he
    obtain ⟨p, hp, rfl⟩ := List.mem_map.mp hk
    obtain ⟨p', hp', rfl⟩ := List.mem_map.mp hk'
    exact hs.differ _ (List.mem_map_of_mem (Dict.mem_erase.mp hp).1) _
      (List.mem_map_of_mem (Dict.mem_erase.mp hp').1) he
  have hother : ∀ k, k ≠ key → (s.stateDb.erase key).get? k = s.stateDb.get? k :=
    fun k hk => Dict.get?_erase_ne hk.symm _
  have hself : (s.stateDb.erase key).get? key = none := Dict.get?_erase_self _ _
  have hagg : wantedAggregate key ((s.stateDb.erase key).get? key) = none := by rw [hself]; rfl
  have hlist : wantedLists key ((s.stateDb.erase key).get? key) = [] := by rw [hself]; rfl
  unfold Sys.delHandler
  cases hr : s.stateDb.get? key with
  | none =>
    refine ⟨hs.announces.deactivate hown (fun e he => ?_) hother hagg hlist, hdiffer⟩ <;> simp_all
  | some r =>
    obtain ⟨a, active⟩ := r
    cases active with
    | true =>
      exact ⟨hs.announces.deactivate hown (wantedLists_subset hr) hother hagg hlist,
        hdiffer⟩
    | false =>
      refine ⟨hs.announces.of_same (fun k => ?_) fun k => ?_, hdiffer⟩
      · by_cases hk : k = key
        · subst hk
          rw [hself, hr]
          rfl
        · rw [hother k hk]
      · by_cases hk : k = key
        · subst hk
          rw [hself, hr]
          rfl
        · rw [hother k hk]

end

def Lists (s : Sys) (addresses : List (Str × Attrs)) : Prop :=
  ∀ p ∈ addresses, ∃ active, s.stateDb.get? p.1 = some ⟨p.2, active⟩

theorem Lists.set {s' : Sys} {addresses : List (Str × Attrs)} (h : Lists s addresses)
    (hp : (key, a) ∈ addresses) (active : Bool) (hdb : s'.stateDb = s.stateDb.set key ⟨a, active⟩) :
    Lists s' addresses := by
  intro q hq
  rw [hdb, Dict.get?_set]
  split
  · rename_i hk
    -- the same row has the same attributes
    obtain ⟨act, h₁⟩ := h _ hp
    obtain ⟨act', h₂⟩ := h q hq
    grind
  · exact h q hq

theorem Consistent.onBbrChange {getKeys : List Str → List Str} (hs : Consistent s) :
    Consistent (s.onBbrChange asn getKeys) := by
  have hlists : Lists s (s.bbrRequiredAddresses getKeys) := by
    intro p hp
    obtain ⟨key, -, hp⟩ := List.mem_filterMap.mp hp
    obtain ⟨e, he, hp⟩ := Option.bind_eq_some_iff.mp hp
    split at hp
    · cases hp
      exact ⟨e.active, he⟩
    · cases hp
  unfold Sys.onBbrChange
  dsimp only
  split
  · refine (List.foldlRecOn (motive := fun s' => Consistent s' ∧ Lists s' (s.bbrRequiredAddresses getKeys)) _ _
      ⟨hs, hlists⟩ fun s' hs' p hp => ?_).1
    obtain ⟨active, hr⟩ := hs'.2 p hp
    refine ⟨hs'.1.addressSetHandler (hs'.1.owns hr) fun old ho => ?_, ?_⟩
    · grind
    · cases hv : validatePrefix (key2Prefix p.1) with
      | none =>
        refine hs'.2.set hp false ?_
        rw [Sys.addressSetHandler, hv]
        rfl
      | some v =>
        refine hs'.2.set hp true ?_
        rw [Sys.addressSetHandler, hv]
        rfl
  · split
    · refine (List.foldlRecOn (motive := fun s' => Consistent s' ∧ Lists s' (s.bbrRequiredAddresses getKeys)) _ _
        ⟨hs, hlists⟩ fun s' hs' p hp => ?_).1
      obtain ⟨active, hr⟩ := hs'.2 p hp
      exact ⟨hs'.1.addressDelHandler hr, hs'.2.set hp false rfl⟩
    · exact hs

theorem consistent_step {getKeys : List Str → List Str} {s' : Sys} {e : Event} (hs : Consistent s)
    (hok : addressOk s e) (he : step asn getKeys s e = some s') : Consistent s' := by
  cases e with
  | set key data => cases he; exact hs.setHandler hok.1 hok.2
  | del key => cases he; exact hs.delHandler hok
  | bbr status =>
    cases he
    exact Consistent.onBbrChange ⟨hs.announces.of_same (fun _ => rfl) fun _ => rfl, hs.differ⟩
  | bbrRemoved =>
    cases he
    exact ⟨hs.announces.of_same (fun _ => rfl) fun _ => rfl, hs.differ⟩

theorem consistent_new : Consistent Sys.new := by
  refine ⟨⟨fun p opts => ?_, fun l => ?_⟩, fun k hk => (not_mem_nil hk).elim⟩
  · exact iff_of_false (fun h => nomatch h) fun ⟨key, h⟩ => nomatch h
  · exact iff_of_false not_mem_nil fun ⟨key, h⟩ => nomatch h

theorem announces_of_run {asn : Str} {getKeys : List Str → List Str} {es : List Event} {s : Sys}
    (hok : Along (step asn getKeys) addressOk Sys.new es) (hr : run (step asn getKeys) Sys.new es = some s) :
    Announces s :=
  (run_inv _ (fun _ _ _ hs hok he => consistent_step hs hok he) consistent_new hok hr).announces

def bbrAddress : Data :=
  [("bbr-required", trueString), ("aggregate-address-prefix-list", "AGG")]

def bbrRun : List Event :=
  [.set "10.0.0.0/8" bbrAddress, .set "bad" bbrAddress, .set "2001:db8::/32" [],
   .bbr enabled, .set "10.0.0.0/8" (("summary-only", trueString) :: bbrAddress), .bbr disabled,
   .del "2001:db8::/32"]

theorem announces_bbr_run : ∃ s, run (step "65000" id) Sys.new bbrRun = some s ∧ Announces s :=
  ⟨_, (Option.some_get (by decide +kernel)).symm,
    announces_of_run (by decide +kernel) (Option.some_get (by decide +kernel)).symm⟩

def renamedList : List Event :=
  [.set "10.0.0.0/8" [("aggregate-address-prefix-list", "OLD")],
   .set "10.0.0.0/8" [("aggregate-address-prefix-list", "NEW")]]

theorem not_announces_renamed_list :
    ∃ s, run (step "65000" id) Sys.new renamedList = some s ∧ ¬ Announces s := by
  refine ⟨_, (Option.some_get (by decide +kernel)).symm, fun h => ?_⟩
  obtain ⟨key, hkey⟩ := (h.prefixLists ⟨true, "OLD", "10.0.0.0/8", false⟩).mp (by decide +kernel)
  exact not_wanted (by decide +kernel) key hkey

end Sonic.AggregateAddress
