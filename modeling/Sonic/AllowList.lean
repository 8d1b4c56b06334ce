import Sonic.Batch
import Sonic.Dict
import Sonic.Text

/-! # The allow-list manager and the configuration of FRR

`BGPAllowListMgr` keeps, for each key of BGP_ALLOWED_PREFIXES, two prefix-lists, a community-list
and an entry in each of two route-maps. It reads the running configuration as text and pushes
commands to `ConfigMgr`, which hands them to FRR only when it commits. -/

namespace Sonic.AllowList

open Str

inductive Af where
  | v4
  | v6
  deriving DecidableEq

def Af.family : Af → Str
  | .v4 => "ip"
  | .v6 => "ipv6"

/-! ## FRR -/

/-- A line of a route-map entry. The manager writes those of the first four kinds. -/
inductive Clause where
  | matchPrefixList (af : Af) (pl : Str)
  | matchCommunity (name : Str)
  | setTag (tag : Str)
  | setCommunity (value : Str)
  | description (text : Str)
  | otherMatch (text : Str)
  | otherSet (text : Str)
  | call (text : Str)
  | onMatch (text : Str)
  deriving DecidableEq

namespace Clause

def text : Clause → Str
  | matchPrefixList af pl => " match " ++ (af.family ++ (" address prefix-list " ++ pl))
  | matchCommunity name => " match community " ++ name
  | setTag tag => " set tag " ++ tag
  | setCommunity value => " set community " ++ value
  | description text => " description " ++ text
  | otherMatch text => " match " ++ text
  | otherSet text => " set " ++ text
  | call text => " call " ++ text
  | onMatch text => " on-match " ++ text

/-- Where FRR shows the clause among those of its entry. -/
def rank : Clause → Nat
  | description _ => 0
  | matchPrefixList .. | matchCommunity _ | otherMatch _ => 1
  | setTag _ | setCommunity _ | otherSet _ => 2
  | call _ => 3
  | onMatch _ => 4

/-- The later of two such commands replaces the earlier one. -/
def replaces : Clause → Clause → Bool
  | matchPrefixList af _, matchPrefixList af' _ => af = af'
  | matchCommunity _, matchCommunity _ | setTag _, setTag _ | setCommunity _, setCommunity _
  | description _, description _ | call _, call _ | onMatch _, onMatch _ => true
  | otherMatch t, otherMatch t' | otherSet t, otherSet t' => t = t'
  | _, _ => false

def add (l : List Clause) (c : Clause) : List Clause :=
  if l.any c.replaces then l.map fun d => if c.replaces d then c else d
  else l.takeWhile (fun d => d.rank ≤ c.rank) ++ c :: l.dropWhile fun d => d.rank ≤ c.rank

end Clause

structure Entry where
  permit : Bool
  clauses : List Clause
  deriving DecidableEq

/-- Items with a sequence number, in its order. -/
def insertSeq {β : Type*} (seq : Nat) (v : β) : List (Nat × β) → List (Nat × β)
  | [] => [(seq, v)]
  | (j, w) :: l =>
    if seq < j then (seq, v) :: (j, w) :: l
    else if seq = j then (seq, v) :: l
    else (j, w) :: insertSeq seq v l

/-- The lines of `other` belong to the rest of the configuration. -/
structure Frr where
  other : List Str
  noRouteMap : ∀ l ∈ other, startsWith "route-map " (lstrip l) = false
  prefixLists : Dict (Af × Str) (List (Nat × Str))
  communityLists : Dict Str (List Str)
  routeMaps : Dict Str (List (Nat × Entry))
  deriving DecidableEq

/-- `routeMap` is the line `route-map name permit seq` with the indented lines after it. -/
inductive Cmd where
  | noPrefixList (af : Af) (pl : Str)
  | prefixList (af : Af) (pl : Str) (seq : Nat) (rule : Str)
  | noCommunityList (name : Str)
  | communityList (name value : Str)
  | routeMap (name : Str) (seq : Nat) (clauses : List Clause)
  | noRouteMap (name : Str) (seq : Nat)
  deriving DecidableEq

namespace Frr

def entry (f : Frr) (name : Str) (seq : Nat) : Option Entry := ((f.routeMaps.get? name).getD []).lookup seq

def write (f : Frr) : Cmd → Frr
  | .noPrefixList af pl => { f with prefixLists := f.prefixLists.erase (af, pl) }
  | .prefixList af pl seq rule =>
    { f with prefixLists := f.prefixLists.set (af, pl) (insertSeq seq rule ((f.prefixLists.get? (af, pl)).getD [])) }
  | .noCommunityList name => { f with communityLists := f.communityLists.erase name }
  | .communityList name value =>
    let values := (f.communityLists.get? name).getD []
    { f with communityLists := f.communityLists.set name (if value ∈ values then values else values ++ [value]) }
  | .routeMap name seq clauses =>
    let old := ((f.entry name seq).map Entry.clauses).getD []
    let new : Entry := ⟨true, clauses.foldl Clause.add old⟩
    { f with routeMaps := f.routeMaps.set name (insertSeq seq new ((f.routeMaps.get? name).getD [])) }
  | .noRouteMap name seq =>
    let left := ((f.routeMaps.get? name).getD []).filter fun e => e.1 ≠ seq
    { f with routeMaps := if left = [] then f.routeMaps.erase name else f.routeMaps.set name left }

def prefixListLines (p : (Af × Str) × List (Nat × Str)) : List Str :=
  p.2.map fun r => p.1.1.family ++ (" prefix-list " ++ (p.1.2 ++ (" seq " ++ (ofNat r.1 ++ ' ' :: r.2))))

def communityListLines (p : Str × List Str) : List Str :=
  p.2.map fun v => "bgp community-list standard " ++ (p.1 ++ (" permit " ++ v))

def entryLines (name : Str) (e : Nat × Entry) : List Str :=
  ("route-map ".toList ++ (name ++ ((if e.2.permit then " permit " else " deny ").toList ++ ofNat e.1)))
    :: (e.2.clauses.map Clause.text ++ ["exit".toList, "!".toList])

def routeMapLines (p : Str × List (Nat × Entry)) : List Str := p.2.flatMap (entryLines p.1)

def showRunningConfig (f : Frr) : List Str :=
  f.other ++ (f.prefixLists.flatMap prefixListLines ++ (f.communityLists.flatMap communityListLines ++
    (f.routeMaps.flatMap routeMapLines ++ ["end".toList])))

end Frr

/-- What `ConfigMgr.update` keeps of the running configuration. -/
def getText (f : Frr) : List Str :=
  f.showRunningConfig.filter (fun l => !startsWith ['!'] (lstrip l)) ++ ["     ".toList]

/-! ## Reading the running configuration -/

/-- `ipv6Network s` is `str(ipaddress.IPv6Network(s))`, `none` where it raises. -/
structure Addresses where
  isIpv4 : Str → Bool
  isIpv6 : Str → Bool
  ipv6Network : Str → Option Str

/-- The `allow_list` section of the constants. -/
structure Constants where
  enabled : Bool
  prefixMatchTag : Option Str
  constantsV4 : List Str
  constantsV6 : List Str
  dropCommunity : Str
  defaultAction : Option Str

def emptyCommunity : Str := "empty"

section
variable (lib : Addresses) (conf : List Str)

def normalizeItem (af : Af) (item : Str) : Option Str :=
  let tmp := split ' ' item
  match af with
  | .v4 => some (join [' '] tmp)
  | .v6 => do
    let network ← lib.ipv6Network (← tmp[1]?)
    return join [' '] (tmp.set 1 network)

def normalizeIpnetwork (af : Af) (l : List Str) : Option (List Str) := l.mapM (normalizeItem lib af)

def sameSet (a b : List Str) : Bool := a.all (· ∈ b) && b.all (· ∈ a)

def prefixListMatch (af : Af) (pl : Str) : Str := af.family ++ (" prefix-list " ++ (pl ++ " seq "))

/-- The rule after the sequence number. -/
def ruleOf (af : Af) (pl line : Str) : Str :=
  join [' '] ((split ' ' (strip (line.drop (prefixListMatch af pl).length))).drop 1)

/-- Whether the prefix-list exists, and whether it has these entries. -/
def isPrefixListValid (af : Af) (pl : Str) (allowList constantList : List Str) : Option (Bool × Bool) := do
  if ¬ conf.any fun l => startsWith (prefixListMatch af pl) (strip l) then return (false, false)
  let expectSet := (← normalizeIpnetwork lib af constantList) ++ (← normalizeIpnetwork lib af allowList)
  let configList := (conf.filter (startsWith (prefixListMatch af pl))).map (ruleOf af pl)
  return (true, sameSet expectSet (← normalizeIpnetwork lib af configList))

def communityMatch (name : Str) : Str := "bgp community-list standard " ++ (name ++ " permit ")

/-- The value of the community-list, if there is one. -/
def isCommunityPresented (name : Str) : Option Str :=
  ((conf.filter fun l => startsWith (communityMatch name) (strip l)).head?).map
    fun l => remove (communityMatch name) (strip l)

def routeMapMatch (rm : Str) : Str := "route-map " ++ (rm ++ " permit ")

def matchPlAllowList : Af → Str
  | .v4 => "match ip address prefix-list "
  | .v6 => "match ipv6 address prefix-list "

/-- `inside` is the sequence number of the entry that is read. -/
structure EntryScan where
  inside : Option Nat
  pl : Option Str
  community : Str
  entries : Dict Nat (Str × Str)

def EntryScan.init : EntryScan := ⟨none, none, emptyCommunity, []⟩

def EntryScan.close (s : EntryScan) (seq : Nat) : EntryScan :=
  { EntryScan.init with
    entries := match s.pl with
      | some pl => s.entries.set seq (pl, s.community)
      | none => s.entries }

def EntryScan.enter (rm : Str) (s : EntryScan) (line : Str) : Option EntryScan :=
  if startsWith (routeMapMatch rm) line then
    let found := line.drop (routeMapMatch rm).length
    if isdigit found then some { s with inside := some (decimal found) } else none
  else some s

def entryLine (af : Af) (rm : Str) (s : EntryScan) (line : Str) : Option EntryScan :=
  match s.inside with
  | none => s.enter rm line
  | some seq =>
    if startsWith (matchPlAllowList af) (strip line) then
      some { s with pl := some ((strip line).drop (matchPlAllowList af).length) }
    else if startsWith "match community " (strip line) then
      some { s with community := (strip line).drop "match community ".length }
    else (s.close seq).enter rm line

/-- The prefix-list and the community of each entry; `none` for a sequence number that is not a
number. -/
def parseAllowRouteMapEntries (af : Af) (rm : Str) : Option (Dict Nat (Str × Str)) :=
  ((conf ++ [[]]).foldlM (entryLine af rm) EntryScan.init).map EntryScan.entries

/-- The group of `^set community (\S+) additive$`. -/
def setCommunityMatch (line : Str) : Option Str :=
  if startsWith "set community " line then
    let rest := line.drop "set community ".length
    let value := rest.takeWhile fun c => !isSpace c
    if value ≠ [] ∧ rest.drop value.length = " additive" then some value else none
  else none

structure DefaultScan where
  inside : Bool
  found : Option Str

def defaultLine (rm : Str) (s : DefaultScan) (line : Str) : DefaultScan :=
  if s.found.isSome then s
  else if s.inside then ⟨false, setCommunityMatch (strip line)⟩
  else if strip line = routeMapMatch rm ++ "65535" then { s with inside := true }
  else s

def parseDefaultActionRouteMapEntry (rm : Str) : Str :=
  (((conf ++ [[]]).foldl (defaultLine rm) ⟨false, none⟩).found).getD []

end

/-! ## Names -/

/-- What a key of BGP_ALLOWED_PREFIXES says; `neighborType` is empty where the key has none. -/
structure Policy where
  deploymentId : Int
  communityValue : Str
  neighborType : Str

structure Names where
  plV4 : Str
  plV6 : Str
  rmV4 : Str
  rmV6 : Str
  community : Str
  deriving DecidableEq

def Names.pl (n : Names) : Af → Str
  | .v4 => n.plV4
  | .v6 => n.plV6

def Names.rm (n : Names) : Af → Str
  | .v4 => n.rmV4
  | .v6 => n.rmV6

/-- `DEPLOYMENT_ID_%d`, with the neighbor type if there is one. -/
def Policy.scope (p : Policy) : Str :=
  "DEPLOYMENT_ID_".toList ++ ofInt p.deploymentId ++
    if p.neighborType = [] then [] else "_NEIGHBOR_".toList ++ p.neighborType

def generateNames (p : Policy) : Names where
  plV4 := "PL_ALLOW_LIST_" ++ p.scope ++ "_COMMUNITY_" ++ p.communityValue ++ "_V4"
  plV6 := "PL_ALLOW_LIST_" ++ p.scope ++ "_COMMUNITY_" ++ p.communityValue ++ "_V6"
  rmV4 := "ALLOW_LIST_" ++ p.scope ++ "_V4"
  rmV6 := "ALLOW_LIST_" ++ p.scope ++ "_V6"
  community :=
    if p.communityValue = emptyCommunity then emptyCommunity
    else "COMMUNITY_ALLOW_LIST_" ++ p.scope ++ "_COMMUNITY_" ++ p.communityValue

/-- `$` of a regular expression. -/
def atEnd (s : Str) : Bool := s = [] ∨ s = ['\n']

def nonBlank (s : Str) : Str := s.takeWhile fun c => !isSpace c

/-- `key_re.match(key)`; its third alternative is a case of the first. -/
def keyRe (key : Str) : Bool :=
  startsWith "DEPLOYMENT_ID|" key &&
    let id := (key.drop "DEPLOYMENT_ID|".length).takeWhile Char.isDigit
    let rest := (key.drop "DEPLOYMENT_ID|".length).drop id.length
    id ≠ [] &&
      (atEnd rest ||
        (startsWith ['|'] rest && nonBlank (rest.drop 1) ≠ [] &&
          atEnd ((rest.drop 1).drop (nonBlank (rest.drop 1)).length)) ||
        (startsWith "|NEIGHBOR_TYPE|" rest && nonBlank (rest.drop "|NEIGHBOR_TYPE|".length) ≠ []))

/-- The part before the first `|` and the community after it. -/
def splitCommunity (s : Str) : Str × Str := (splitOnce ['|'] s).getD (s, emptyCommunity)

/-- `none` where the indexing or `int` raises. -/
def parseKey (key : Str) : Option Policy :=
  if contains "NEIGHBOR_TYPE" key then do
    let (key, neighbor) ← splitOnce "|NEIGHBOR_TYPE|" key
    let (neighborType, communityValue) := splitCommunity neighbor
    return ⟨← int (remove "DEPLOYMENT_ID|" key), communityValue, neighborType⟩
  else do
    let (deploymentId, communityValue) := splitCommunity (remove "DEPLOYMENT_ID|" key)
    return ⟨← int deploymentId, communityValue, []⟩

/-! ## Policies -/

section
variable (lib : Addresses) (constants : Constants) (conf : List Str)

def getConstantList : Af → List Str
  | .v4 => constants.constantsV4
  | .v6 => constants.constantsV6

def toPrefixRule (af : Af) (pfx : Str) : Option Str :=
  let maskDefault : Nat := match af with
    | .v4 => 32
    | .v6 => 128
  if contains "le" pfx ∨ contains "ge" pfx then some ("permit " ++ pfx)
  else do
    let mask ← int (← (split '/' pfx)[1]?)
    return if mask = maskDefault then "permit " ++ pfx
      else "permit " ++ pfx ++ " le " ++ ofNat maskDefault

def updatePrefixList (af : Af) (pl : Str) (allowList : List Str) : Option (List Cmd) := do
  let constantList := getConstantList constants af
  let allowList ← allowList.mapM (toPrefixRule af)
  let (exist, correct) ← isPrefixListValid lib conf af pl allowList constantList
  if correct then return []
  let rules ← normalizeIpnetwork lib af (constantList ++ allowList)
  return (if exist then [.noPrefixList af pl] else []) ++
    rules.zipIdx.map fun (rule, i) => .prefixList af pl (10 + 10 * i) rule

def removePrefixList (af : Af) (pl : Str) : Option (List Cmd) := do
  let (exist, _) ← isPrefixListValid lib conf af pl [] []
  return if exist then [.noPrefixList af pl] else []

def updateCommunity (name value : Str) : List Cmd :=
  if value = emptyCommunity then []
  else match isCommunityPresented conf name with
    | some found => if value = found then [] else [.noCommunityList name, .communityList name value]
    | none => [.communityList name value]

def removeCommunity (name : Str) : List Cmd :=
  if name = emptyCommunity then []
  else if (isCommunityPresented conf name).isSome then [.noCommunityList name] else []

def findRouteMapEntry (entries : Dict Nat (Str × Str)) (pl community : Str) : Option Nat :=
  (entries.find? fun e => e.1 ≠ 65535 ∧ e.2 = (pl, community)).map Prod.fst

/-- `range(start, end, 10)` -/
def seqNumbers (hasCommunity : Bool) : List Nat :=
  if hasCommunity then (List.range 2998).map (10 + 10 * ·) else (List.range 3553).map (30000 + 10 * ·)

/-- `none` where no number is free. -/
def findNextSeqNumber (used : List Nat) (hasCommunity : Bool) : Option Nat :=
  (seqNumbers hasCommunity).find? (· ∉ used)

def updateAllowRouteMapEntry (af : Af) (pl community rm : Str) : Option (List Cmd) := do
  let entries ← parseAllowRouteMapEntries conf af rm
  if (findRouteMapEntry entries pl community).isSome then return []
  let seq ← findNextSeqNumber entries.keys (community ≠ emptyCommunity)
  let clauses : List Clause :=
    if ¬ endsWith emptyCommunity community then [.matchCommunity community]
    else match constants.prefixMatchTag with
      | some tag => if tag = [] then [] else [.setTag tag]
      | none => []
  return [.routeMap rm seq (.matchPrefixList af pl :: clauses)]

def removeAllowRouteMapEntry (af : Af) (pl community rm : Str) : Option (List Cmd) := do
  let entries ← parseAllowRouteMapEntries conf af rm
  return match findRouteMapEntry entries pl community with
    | some seq => [.noRouteMap rm seq]
    | none => []

def updateDefaultRouteMapEntry (rm defaultActionCommunity : Str) : List Cmd :=
  if parseDefaultActionRouteMapEntry conf rm ≠ defaultActionCommunity then
    [.routeMap rm 65535 [.setCommunity (defaultActionCommunity ++ " additive")]]
  else []

def updatePolicy (p : Policy) (prefixesV4 prefixesV6 : List Str) (defaultAction : Str) : Option (List Cmd) := do
  let names := generateNames p
  let plV4 ← updatePrefixList lib constants conf .v4 names.plV4 prefixesV4
  let plV6 ← updatePrefixList lib constants conf .v6 names.plV6 prefixesV6
  let rmV4 ← updateAllowRouteMapEntry constants conf .v4 names.plV4 names.community names.rmV4
  let rmV6 ← updateAllowRouteMapEntry constants conf .v6 names.plV6 names.community names.rmV6
  return plV4 ++ plV6 ++ updateCommunity conf names.community p.communityValue ++ rmV4 ++ rmV6 ++
    updateDefaultRouteMapEntry conf names.rmV4 defaultAction ++
    updateDefaultRouteMapEntry conf names.rmV6 defaultAction

def removePolicy (p : Policy) (defaultAction : Str) : Option (List Cmd) := do
  let names := generateNames p
  let rmV4 ← removeAllowRouteMapEntry conf .v4 names.plV4 names.community names.rmV4
  let rmV6 ← removeAllowRouteMapEntry conf .v6 names.plV6 names.community names.rmV6
  let plV4 ← removePrefixList lib conf .v4 names.plV4
  let plV6 ← removePrefixList lib conf .v6 names.plV6
  return rmV4 ++ rmV6 ++ plV4 ++ plV6 ++ removeCommunity conf names.community ++
    updateDefaultRouteMapEntry conf names.rmV4 defaultAction ++
    updateDefaultRouteMapEntry conf names.rmV6 defaultAction

/-! ## Messages -/

abbrev Row := Dict Str Str

inductive Msg where
  | set (key : Str) (data : Row)
  | del (key : Str)

def Msg.key : Msg → Str
  | set key _ => key
  | del key => key

def getDefaultActionCommunity (data : Row) : Str :=
  let action := match data.get? "default_action" with
    | some action => some action
    | none => constants.defaultAction.map strip
  if action = some "deny".toList then "no-export".toList else constants.dropCommunity

/-- `re.split('ge|le', s)[0]` -/
def beforeRange : Str → Str
  | [] => []
  | c :: s =>
    if startsWith "ge" (c :: s) || startsWith "le" (c :: s) then [] else c :: beforeRange s

/-- A field of the message as a list of prefixes, empty where the field is missing. -/
def prefixes (data : Row) (field : Str) : List Str :=
  match data.get? field with
  | some v => split ',' v
  | none => []

def setHandlerValidate (key : Str) (data : Row) : Bool :=
  keyRe key &&
    (prefixes data "prefixes_v4").all (fun p => lib.isIpv4 (beforeRange p)) &&
    (prefixes data "prefixes_v6").all (fun p => lib.isIpv6 (beforeRange p)) &&
    ¬ (prefixes data "prefixes_v4" = [] ∧ prefixes data "prefixes_v6" = []) &&
    (data.get? "default_action").all (· ∈ ["permit".toList, "deny".toList])

/-- The commands that a handler pushes; `none` where it raises. -/
def handler : Msg → Option (List Cmd)
  | .set key data =>
    if ¬ constants.enabled ∨ ¬ setHandlerValidate lib key data then some []
    else do
      updatePolicy lib constants conf (← parseKey key) (prefixes data "prefixes_v4") (prefixes data "prefixes_v6")
        (getDefaultActionCommunity constants data)
  | .del key =>
    if ¬ constants.enabled then some []
    -- the message about an invalid key has `$s` for `%s`, and formatting it raises
    else if ¬ keyRe key then none
    else do removePolicy lib conf (← parseKey key) (getDefaultActionCommunity constants [])

end

section
variable (lib : Addresses) (constants : Constants)

/-- The messages of one wake-up of `Runner.run` and its commit. -/
def runner (f : Frr) (ms : List Msg) : Option Frr :=
  Batch.atOnce Frr.write (fun m f => handler lib constants (getText f) m) f ms

/-- The same messages with a commit after each. -/
def runnerEach (f : Frr) (ms : List Msg) : Option Frr :=
  Batch.oneByOne Frr.write (fun m f => handler lib constants (getText f) m) f ms

end

end Sonic.AllowList
