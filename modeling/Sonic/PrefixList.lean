import Sonic.Dict
import Sonic.Ipaddress

/-! # Prefix lists of bgpcfgd

`PrefixListMgr` writes an entry of a prefix list for every SET of a row of PREFIX_LIST. The lists of
two types come from templates, all others from the attributes of the row itself. A DEL is made from
the attributes of the last SET that was accepted, and without one it removes the whole list. -/

namespace Sonic.PrefixList

open Str
open Ipaddress (Version)

abbrev Data := Dict Str Str

/-! ## FRR -/

structure Entry where
  ipv : Str
  name : Str
  seq : Option Str
  action : Str
  prefixStr : Str
  ge : Option Str
  le : Option Str
  deriving DecidableEq

inductive Cmd where
  | add (e : Entry)
  | no (e : Entry)
  | noList (ipv name : Str)
  | rendered (template : Str) (data : Data)

structure Net where
  cidr : Str
  prefixlen : Nat
  version : Version

structure Env where
  ipNetwork : Str → Option Net
  plOverrides : Str → Str → Option Str
  render : Str → Data → Str
  applied : Str → List Entry → List Entry      -- what FRR makes of the text of a template

def Cmd.replay (env : Env) (frr : List Entry) : Cmd → List Entry
  | add e => frr.insert e
  | no e => frr.filter (· ≠ e)
  | noList ipv name => frr.filter fun e => ¬ (e.ipv = ipv ∧ e.name = name)
  | rendered template data => env.applied (env.render template data) frr

structure TypeCfg where
  addTemplate : Str
  delTemplate : Str
  allowedDevices : Option (List (Str × Option Str))
  prefixListName : Str → Str

def prefixTypeConfig : Dict Str TypeCfg :=
  [("ANCHOR_PREFIX",
    { addTemplate := "bgpd/radian/add_radian"
      delTemplate := "bgpd/radian/del_radian"
      allowedDevices := some [("SpineRouter", some "UpstreamLC"), ("UpperSpineRouter", none)]
      prefixListName := fun _ => "ANCHOR_CONTRIBUTING_ROUTES" }),
   ("SUPPRESS_PREFIX",
    { addTemplate := "bgpd/suppress_prefix/add_suppress_prefix"
      delTemplate := "bgpd/suppress_prefix/del_suppress_prefix"
      allowedDevices := none
      prefixListName := fun ipv =>
        if ipv = "ip" then "SUPPRESS_IPV4_PREFIX" else "SUPPRESS_IPV6_PREFIX" })]

def isDeviceAllowed (deviceType deviceSubtype : Str) : Option (List (Str × Option Str)) → Bool
  | none => true
  | some allowed => allowed.any fun p => deviceType = p.1 ∧ (p.2 = none ∨ p.2 = some deviceSubtype)

def getIpType : Version → Str
  | .v4 => "ip"
  | .v6 => "ipv6"

structure St where
  metadata : Option Data      -- `localhost` of DEVICE_METADATA
  slot : Dict Str Data        -- the directory's copy of the accepted rows
  frr : List Entry

def missingAction (data : Data) : Bool := (data.get? "action").getD [] = []

def entryOf (name : Str) (data : Data) : Entry where
  ipv := (data.get? "ipv").getD []
  name := name
  seq := data.get? "seq"
  action := (data.get? "action").getD []
  prefixStr := (data.get? "prefix").getD []
  ge := data.get? "ge"
  le := data.get? "le"

def generatePrefixListConfig (env : Env) (s : St) (prefixType : Str) (data : Data) (add : Bool) : Option (Cmd × Data) :=
  match prefixTypeConfig.get? prefixType with
  | none =>
    if !add && missingAction data then some (.noList ((data.get? "ipv").getD []) prefixType, data)
    else if missingAction data then none
    else some (if add then .add (entryOf prefixType data) else .no (entryOf prefixType data), data)
  | some typeCfg => do
    let metadata ← s.metadata
    let deviceType ← metadata.get? "type"
    let deviceSubtype := (metadata.get? "subtype").getD []
    let bgpAsn ← metadata.get? "bgp_asn"
    guard (isDeviceAllowed deviceType deviceSubtype typeCfg.allowedDevices)
    let ipv := (data.get? "ipv").getD []
    let nameKey := if ipv = "ip" then "ipv4_name" else "ipv6_name"
    let data := (((data.set "bgp_asn" bgpAsn).set "device_type" deviceType).set "device_subtype"
      deviceSubtype).set "prefix_list_name"
        ((env.plOverrides prefixType nameKey).getD (typeCfg.prefixListName ipv))
    return (.rendered (if add then typeCfg.addTemplate else typeCfg.delTemplate) data, data)

def fill (net : Net) (data : Data) : Data :=
  ((data.set "prefix" net.cidr).set "prefixlen" (ofNat net.prefixlen)).set "ipv"
    (getIpType net.version)

def readKey (env : Env) (key : Str) : Option (Str × Net) := do
  let (prefixType, prefixStr) ← splitOnce "|" key
  return (prefixType, ← env.ipNetwork prefixStr)

def setHandler (env : Env) (key : Str) (s : St) (data : Data) : St :=
  match readKey env key with
  | none => s
  | some (prefixType, net) =>
    match generatePrefixListConfig env s prefixType (fill net data) true with
    | none => s
    | some (cmd, data) => { s with frr := cmd.replay env s.frr, slot := s.slot.set key data }

def delHandler (env : Env) (key : Str) (s : St) : St :=
  match readKey env key with
  | none => s
  | some (prefixType, net) =>
    let data := if (prefixTypeConfig.get? prefixType).isNone then (s.slot.get? key).getD [] else []
    match generatePrefixListConfig env s prefixType (fill net data) false with
    | none => s
    | some (cmd, _) => { s with frr := cmd.replay env s.frr, slot := s.slot.erase key }

/-! ## A list of the user -/

def attributes (data : Data) : Option Str × Option Str × Option Str × Option Str :=
  (data.get? "seq", data.get? "action", data.get? "ge", data.get? "le")

theorem get?_fill (net : Net) (data : Data) {k : Str} (hp : k ≠ "prefix") (hl : k ≠ "prefixlen")
    (hi : k ≠ "ipv") : (fill net data).get? k = data.get? k := by grind [fill]

theorem missingAction_fill (net : Net) (data : Data) : missingAction (fill net data) = missingAction data := by
  rw [missingAction, get?_fill net data (by decide) (by decide) (by decide), missingAction]

theorem fill_ipv (net : Net) (data : Data) : (fill net data).get? "ipv" = some (getIpType net.version) :=
  Dict.get?_set_self _ _ _

def rowEntry (name : Str) (net : Net) (data : Data) : Entry where
  ipv := getIpType net.version
  name := name
  seq := data.get? "seq"
  action := (data.get? "action").getD []
  prefixStr := net.cidr
  ge := data.get? "ge"
  le := data.get? "le"

theorem entryOf_fill (name : Str) (net : Net) (data : Data) :
    entryOf name (fill net data) = rowEntry name net data := by
  have hprefix : (fill net data).get? "prefix" = some net.cidr := by grind [fill]
  rw [entryOf, hprefix, fill_ipv, get?_fill net data (by decide) (by decide) (by decide),
    get?_fill net data (by decide) (by decide) (by decide), get?_fill net data (by decide) (by decide) (by decide),
    get?_fill net data (by decide) (by decide) (by decide), rowEntry]
  rfl

theorem rowEntry_fill (name : Str) (net : Net) (data : Data) :
    rowEntry name net (fill net data) = rowEntry name net data := by
  simp only [rowEntry]
  rw [get?_fill net data (by decide) (by decide) (by decide), get?_fill net data (by decide) (by decide) (by decide),
    get?_fill net data (by decide) (by decide) (by decide), get?_fill net data (by decide) (by decide) (by decide)]

theorem rowEntry_inj {name : Str} {net : Net} {d d' : Data} (h : missingAction d = false)
    (h' : missingAction d' = false) :
    rowEntry name net d = rowEntry name net d' ↔ attributes d = attributes d' := by
  have hsome : ∀ {x : Data}, missingAction x = false →
      x.get? "action" = some ((x.get? "action").getD []) := by
    intro x hx
    cases ha : x.get? "action" with
    | none =>
      rw [missingAction, ha] at hx
      simp_all
    | some a => rfl
  constructor
  · intro he
    have hact : d.get? "action" = d'.get? "action" := by
      rw [hsome h, hsome h']
      exact congrArg (some ∘ Entry.action) he
    rw [attributes, hact, show d.get? "seq" = d'.get? "seq" from congrArg Entry.seq he,
      show d.get? "ge" = d'.get? "ge" from congrArg Entry.ge he,
      show d.get? "le" = d'.get? "le" from congrArg Entry.le he, attributes]
  · grind [attributes, rowEntry]

section
variable {env : Env} {key name : Str} {net : Net} {s : St}
  (hkey : readKey env key = some (name, net)) (huser : prefixTypeConfig.get? name = none)
include hkey huser

theorem setHandler_user (data : Data) : setHandler env key s data =
    if missingAction data then s
    else { s with frr := s.frr.insert (rowEntry name net data), slot := s.slot.set key (fill net data) } := by
  rw [setHandler, hkey]
  simp only [generatePrefixListConfig, huser, missingAction_fill, entryOf_fill]
  cases missingAction data <;> rfl

theorem delHandler_none (h : s.slot.get? key = none) : delHandler env key s =
    { s with frr := s.frr.filter fun e => ¬ (e.ipv = getIpType net.version ∧ e.name = name), slot :=
      s.slot.erase key } := by
  rw [delHandler, hkey]
  simp only [huser, h, generatePrefixListConfig, fill_ipv]
  rfl

theorem delHandler_some {data : Data} (h : s.slot.get? key = some (fill net data)) (hacc : missingAction data = false) :
    delHandler env key s =
      { s with frr := s.frr.filter (· ≠ rowEntry name net data), slot := s.slot.erase key } := by
  rw [delHandler, hkey]
  simp only [huser, h, generatePrefixListConfig, Option.isNone_none, if_true, Option.getD_some, missingAction_fill,
    entryOf_fill, rowEntry_fill, hacc]
  rfl

theorem setHandlers_frr : ∀ (sets : List Data) (s : St),
    (∀ e, e ∈ (sets.foldl (setHandler env key) s).frr ↔
      e ∈ s.frr ∨ ∃ d ∈ sets, missingAction d = false ∧ e = rowEntry name net d) ∧
    ((∀ d ∈ sets, missingAction d = true) ∧ (sets.foldl (setHandler env key) s).slot.get? key = s.slot.get? key ∨
      ∃ d ∈ sets, missingAction d = false ∧
        (sets.foldl (setHandler env key) s).slot.get? key = some (fill net d))
  | [], s => ⟨fun e => by simp, .inl ⟨nofun, rfl⟩⟩
  | d :: sets, s => by
    obtain ⟨hfrr, hslot⟩ := setHandlers_frr sets (setHandler env key s d)
    rw [List.foldl_cons]
    rw [setHandler_user hkey huser] at hfrr hslot ⊢
    cases hd : missingAction d with
    | true => simp_all
    | false =>
      rw [hd, if_neg Bool.false_ne_true] at hfrr hslot
      rw [if_neg Bool.false_ne_true]
      refine ⟨fun e => ?_, .inr ?_⟩
      · grind
      · grind

end

/-- The entries of the list for the prefix of the row. -/
def Own (name : Str) (net : Net) (e : Entry) : Prop :=
  e.ipv = getIpType net.version ∧ e.name = name ∧ e.prefixStr = net.cidr

/-- No entry of the row is left, and those of all other rows are as before. -/
def Undone (name : Str) (net : Net) (before after : List Entry) : Prop :=
  (∀ e ∈ after, ¬ Own name net e) ∧ ∀ e, ¬ Own name net e → (e ∈ after ↔ e ∈ before)

/-- The DEL undoes the SETs of a row exactly if those with an action, at least one, have the same attributes, or if no
SET has an action and the list has no entry of another row. -/
theorem undone_iff {env : Env} {key name : Str} {net : Net} (hkey : readKey env key = some (name, net))
    (huser : prefixTypeConfig.get? name = none) {s : St} (hslot : s.slot.get? key = none)
    (hnew : ∀ e ∈ s.frr, ¬ Own name net e) (sets : List Data) :
    Undone name net s.frr (delHandler env key (sets.foldl (setHandler env key) s)).frr ↔
      ((∃ d ∈ sets, missingAction d = false) ∧ ∀ d ∈ sets, ∀ d' ∈ sets, missingAction d = false →
          missingAction d' = false → attributes d = attributes d') ∨
        (∀ d ∈ sets, missingAction d = true) ∧ ∀ e ∈ s.frr, ¬ (e.ipv = getIpType net.version ∧ e.name = name) := by
  obtain ⟨hfrr, hcache⟩ := setHandlers_frr hkey huser sets s
  have hown : ∀ d, Own name net (rowEntry name net d) := fun d => ⟨rfl, rfl, rfl⟩
  obtain ⟨hall, hnone⟩ | ⟨d, hd, hacc, hsome⟩ := hcache
  · -- nothing was written, and the DEL goes by the name of the list
    have hno : ¬ ∃ d ∈ sets, missingAction d = false := by
      rintro ⟨d, hd, h⟩
      rw [hall d hd] at h
      cases h
    rw [delHandler_none hkey huser (hnone.trans hslot)]
    simp only [Undone, hno, false_and, false_or, List.mem_filter, decide_eq_true_eq, hfrr]
    constructor
    · rintro ⟨_, hkeep⟩
      refine ⟨hall, fun e he => ?_⟩
      exact ((hkeep e (hnew e he)).mpr he).2
    · rintro ⟨_, hother⟩
      refine ⟨fun e he ho => he.2 ⟨ho.1, ho.2.1⟩, fun e ho => ⟨fun he => ?_, fun he => ⟨.inl he, hother e he⟩⟩⟩
      refine he.1.resolve_right ?_
      rintro ⟨d, hd, h, _⟩
      exact hno ⟨d, hd, h⟩
  · have hex : ∃ d ∈ sets, missingAction d = false := ⟨d, hd, hacc⟩
    have hnall : ¬ ∀ d ∈ sets, missingAction d = true := by
      intro h
      rw [h d hd] at hacc
      cases hacc
    rw [delHandler_some hkey huser hsome hacc]
    simp only [Undone, hex, hnall, true_and, false_and, or_false, List.mem_filter, decide_eq_true_eq, hfrr]
    have hlast : ((∀ d ∈ sets, ∀ d' ∈ sets, missingAction d = false → missingAction d' = false →
        attributes d = attributes d') ↔
        ∀ d' ∈ sets, missingAction d' = false → rowEntry name net d' = rowEntry name net d) := by
      constructor
      · exact fun h d' hd' h' => (rowEntry_inj h' hacc).mpr (h d' hd' d hd h' hacc)
      · intro h d₁ h₁ d₂ h₂ ha₁ ha₂
        exact (rowEntry_inj ha₁ ha₂).mp ((h d₁ h₁ ha₁).trans (h d₂ h₂ ha₂).symm)
    rw [hlast]
    constructor
    · rintro ⟨hgone, _⟩ d' hd' h'
      by_contra hne
      exact hgone _ ⟨.inr ⟨d', hd', h', rfl⟩, hne⟩ (hown d')
    · intro hsame
      refine ⟨?_, fun e ho => ⟨fun he => ?_, fun he => ⟨.inl he, ?_⟩⟩⟩
      · rintro e ⟨he | ⟨d', hd', h', rfl⟩, hne⟩ ho
        · exact hnew e he ho
        · exact hne (hsame d' hd' h')
      · refine he.1.resolve_right ?_
        rintro ⟨d', _, _, rfl⟩
        exact ho (hown d')
      · rintro rfl
        exact ho (hown d)

def plainEnv : Env := ⟨fun p => some ⟨p, 8, .v4⟩, fun _ _ => none, fun _ _ => [], fun _ frr => frr⟩

def otherRow : St := ⟨none, [], [⟨"ip", "PL", none, "permit", "11.0.0.0/8", none, none⟩]⟩

def sameRow : Net := ⟨"10.0.0.0/8", 8, .v4⟩

def actionIs (action : String) : Data := [("action", action.toList)]

theorem undone_repeated : Undone "PL".toList sameRow otherRow.frr
    (delHandler plainEnv "PL|10.0.0.0/8".toList
      ([actionIs "permit", actionIs "", actionIs "permit"].foldl
        (setHandler plainEnv "PL|10.0.0.0/8".toList) otherRow)).frr :=
  (undone_iff (show readKey plainEnv "PL|10.0.0.0/8".toList = some ("PL".toList, sameRow) from rfl) rfl rfl
    (fun e he ho => by cases List.mem_singleton.mp he; exact absurd ho.2.2 (by decide)) _).mpr
    (.inl (by decide +kernel))

theorem not_undone :
    ¬ Undone "PL" sameRow otherRow.frr
      (delHandler plainEnv "PL|10.0.0.0/8"
        ([actionIs "permit", actionIs "deny"].foldl (setHandler plainEnv "PL|10.0.0.0/8") otherRow)).frr ∧
    ¬ Undone "PL" sameRow otherRow.frr
      (delHandler plainEnv "PL|10.0.0.0/8"
        ([actionIs ""].foldl (setHandler plainEnv "PL|10.0.0.0/8") otherRow)).frr := by
  refine ⟨fun h => ?_, fun h => ?_⟩
  · exact h.1 ⟨"ip", "PL", none, "permit", "10.0.0.0/8", none, none⟩ (by decide +kernel)
      ⟨rfl, rfl, rfl⟩
  · exact absurd ((h.2 ⟨"ip", "PL", none, "permit", "11.0.0.0/8", none, none⟩
      fun ho => absurd ho.2.2 (by decide)).mpr (by decide +kernel)) (by decide +kernel)

end Sonic.PrefixList
