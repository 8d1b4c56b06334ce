import Mathlib.Data.List.Pairwise
import Sonic.FrrCache
import Sonic.Ipaddress
import Sonic.Lines
import Sonic.Run

/-! # Prefix sets of frrcfgd

A row of PREFIX_SET makes an empty prefix-list in memory, a row of PREFIX adds an entry to it and to
FRR. An entry is found again by its prefix and its range of lengths alone. -/

namespace Sonic.PrefixSet

open Frrcfgd
open Ipaddress (Af inetPton)

/-! ## Prefixes -/

def maxLen : Af → Nat
  | .inet => 32
  | .inet6 => 128

/-- The prefix is the text of a network and the length of its mask. -/
structure MatchPrefix where
  ipPrefix : Str × Nat
  minLen : Option Int
  maxLen : Option Int
  action : Str
  sequenceNumber : Option Str
  deriving DecidableEq

/-- What `__eq__` compares. -/
def MatchPrefix.ident (p : MatchPrefix) : (Str × Nat) × Option Int × Option Int := (p.ipPrefix, p.minLen, p.maxLen)

/-- `min_len, max_len = len_range.split('..')`, both as numbers. -/
def readRange (lenRange : Str) : Option (Int × Int) :=
  (Str.splitOnce ".." lenRange).bind fun (a, b) =>
    if Str.contains ".." b then none
    else (Str.int a).bind fun lo => (Str.int b).map fun hi => (lo, hi)

section
-- the normal form of a prefix text in a family, as netaddr and `inet_ntop` make it
variable (normalizeIpPrefix : Af → Str → Option (Str × Nat))

/-- The constructor, `none` where it raises `ValueError`. -/
def matchPrefix (af : Af) (ipPfx : Str) (lenRange : Option Str) (action : Str) (seq : Option Str) :
    Option MatchPrefix :=
  (normalizeIpPrefix af ipPfx).bind fun ipPrefix =>
    match lenRange with
    | none => some ⟨ipPrefix, none, none, action, seq⟩
    | some r => (readRange r).map fun (lo, hi) =>
      if lo ≤ ipPrefix.2 then ⟨ipPrefix, none, some hi, action, seq⟩
      else if hi = maxLen af then ⟨ipPrefix, some lo, none, action, seq⟩
      else ⟨ipPrefix, some lo, some hi, action, seq⟩

structure MatchPrefixList where
  af : Af
  items : List MatchPrefix

def MatchPrefixList.new (afMode : Str) : MatchPrefixList :=
  ⟨if afMode = "ipv4" then .inet else .inet6, []⟩

/-- The first family that reads the address; `none` also where `inet_pton` raises `ValueError`. -/
def getIpAf (ipPfx : Str) : Option Af :=
  let ipAddr := (Str.split '/' ipPfx).headD []
  match inetPton .inet ipAddr with
  | .ok _ => some .inet
  | .error _ =>
    match inetPton .inet6 ipAddr with
    | .ok _ => some .inet6
    | .error _ => none

/-- The list of a set with a mode, and the new member. -/
def MatchPrefixList.addPrefix (l : MatchPrefixList) (ipPfx : Str) (lenRange : Option Str) (action : Str)
    (seq : Option Str) : Option (MatchPrefixList × MatchPrefix) :=
  if getIpAf ipPfx = some l.af then
    (matchPrefix normalizeIpPrefix l.af ipPfx lenRange action seq).map fun p => ({ l with items := l.items ++ [p] }, p)
  else none

/-- The first equal member, and the list without it. -/
def MatchPrefixList.takePrefix (l : MatchPrefixList) (p : MatchPrefix) : Option (MatchPrefixList × MatchPrefix) :=
  (l.items.find? (·.ident = p.ident)).map fun q => ({ l with items := l.items.eraseP (·.ident = p.ident) }, q)

/-- An entry of a prefix-list. -/
structure Entry where
  isV4 : Bool
  name : Str
  seq : Option Str
  action : Str
  ipPrefix : Str × Nat
  ge : Option Int
  le : Option Int
  deriving DecidableEq

def entryOf (af : Af) (name : Str) (p : MatchPrefix) : Entry :=
  ⟨af = .inet, name, p.sequenceNumber, Str.lower p.action, p.ipPrefix, p.minLen, p.maxLen⟩

/-! ## Rows -/

/-- The part of a PREFIX key after the name of the set. -/
structure PrefixKey where
  seq : Option Str
  ipPfx : Str
  lenRange : Option Str
  deriving DecidableEq

def parseKey (key : Str) : Option PrefixKey :=
  let range (r : Str) : Option Str := if r = "exact" then none else some r
  match Str.split '|' key with
  | [seq, ipPfx, lenRange] => some ⟨some seq, ipPfx, range lenRange⟩
  | ipPfx :: lenRange :: _ => some ⟨none, ipPfx, range lenRange⟩
  | _ => none

/-- CONFIG_DB beside the daemon: the modes of the sets and the actions of the rows. -/
structure Config where
  sets : Row
  rows : Row

structure Sys where
  cfg : Config
  cache : Cache
  prefixSetList : Dict Str MatchPrefixList
  frr : List Entry

def Sys.new : Sys := ⟨⟨[], []⟩, [], [], []⟩

/-- SET and DELETE of a row by its key. -/
inductive Event where
  | setPrefixSet (key : Str) (data : Row)
  | delPrefixSet (key : Str)
  | setPrefix (key : Str) (data : Row)
  | delPrefix (key : Str)

def prefixSetTable : Str := "PREFIX_SET"
def prefixTable : Str := "PREFIX"
def actionAttr : Str := "action"
def modeAttr : Str := "mode"

/-- The PREFIX_SET branch of `__update_bgp`: the sets, and the statuses of the attributes. -/
def updatePrefixSet (sets : Dict Str MatchPrefixList) (name : Str) (delTable : Bool) (data : OpData) :
    Dict Str MatchPrefixList × OpData :=
  if delTable then (sets.erase name, allSucc data)
  else if (sets.get? name).isSome then (sets, data)
  else
    match data.get? modeAttr with
    | none => (sets, data)
    | some mode => (sets.set name (MatchPrefixList.new (Str.lower mode.data)), allSucc data)

/-- An entry is added to the list and to FRR; the last component says that this succeeded. -/
def addEntry (name : Str) (l : MatchPrefixList) (frr : List Entry) (k : PrefixKey) (action : Str) :
    MatchPrefixList × List Entry × Bool :=
  match l.addPrefix normalizeIpPrefix k.ipPfx k.lenRange action k.seq with
  | none => (l, frr, false)
  | some (l', q) => (l', Lines.add frr (entryOf l.af name q), true)

/-- An operation on an entry; every vtysh command succeeds. `none` where an exception ends the
handler. -/
def updateEntry (name : Str) (l : MatchPrefixList) (frr : List Entry) (k : PrefixKey) (pfxAction : CachedDataWithOp) :
    Option (MatchPrefixList × List Entry × Bool) :=
  let delPfx := matchPrefix normalizeIpPrefix l.af k.ipPfx k.lenRange pfxAction.data none
  match pfxAction.op with
  | .none => some (l, frr, false)
  | .add => some (addEntry normalizeIpPrefix name l frr k pfxAction.data)
  | .delete => delPfx.map fun p =>
    match l.takePrefix p with
    | none => (l, frr, false)
    | some (l', q) => (l', Lines.remove frr (entryOf l.af name q), true)
  | .update => delPfx.map fun p =>
    match l.takePrefix p with
    | none => (l, frr, false)
    | some (l', q) => addEntry normalizeIpPrefix name l' (Lines.remove frr (entryOf l.af name q)) k pfxAction.data

/-- The PREFIX branch of `__update_bgp`. -/
def updatePrefix (sets : Dict Str MatchPrefixList) (frr : List Entry) (name key : Str) (data : OpData) :
    Option (Dict Str MatchPrefixList × List Entry × OpData) :=
  match sets.get? name with
  | none => some (sets, frr, data)
  | some l =>
    (parseKey key).bind fun k =>
      match data.get? actionAttr with
      | none => some (sets, frr, data)
      | some pfxAction =>
        (updateEntry normalizeIpPrefix name l frr k pfxAction).map fun (l, frr, ok) =>
          (sets.set name l, frr, if ok then allSucc data else data)

def setName (key : Str) : Str := ((Str.splitOnce "|" key).map Prod.fst).getD key

/-- `bgp_table_handler_common` for a row of PREFIX_SET. -/
def prefixSetHandler (s : Sys) (key : Str) (data : Option Row) : Cache × Dict Str MatchPrefixList :=
  let ops := addOpToData (rowOf s.cache prefixSetTable key) (data.getD []) []
  let (sets, ops) := updatePrefixSet s.prefixSetList (setName key) data.isNone ops
  (updateCacheData s.cache prefixSetTable key ops, sets)

/-- `bgp_table_handler_common` for a row of PREFIX. -/
def prefixHandler (s : Sys) (key : Str) (data : Row) : Option (Cache × Dict Str MatchPrefixList × List Entry) :=
  (Str.splitOnce "|" key).bind fun (name, rest) =>
    let ops := addOpToData (rowOf s.cache prefixTable key) data []
    (updatePrefix normalizeIpPrefix s.prefixSetList s.frr name rest ops).map fun (sets, frr, ops) =>
      (updateCacheData s.cache prefixTable key ops, sets, frr)

def step (s : Sys) : Event → Option Sys
  | .setPrefixSet key data =>
    let data := Dict.update [] data
    let (cache, sets) := prefixSetHandler s key (some data)
    let mode := (data.get? modeAttr).getD []
    some ⟨{ s.cfg with sets := s.cfg.sets.set key mode }, cache, sets, s.frr⟩
  | .delPrefixSet key =>
    let (cache, sets) := prefixSetHandler s key none
    some ⟨{ s.cfg with sets := s.cfg.sets.erase key }, cache, sets, s.frr⟩
  | .setPrefix key data =>
    let data := Dict.update [] data
    let action := (data.get? actionAttr).getD []
    (prefixHandler normalizeIpPrefix s key data).map fun (cache, sets, frr) =>
      ⟨{ s.cfg with rows := s.cfg.rows.set key action }, cache, sets, frr⟩
  | .delPrefix key =>
    (prefixHandler normalizeIpPrefix s key []).map fun (cache, sets, frr) =>
      ⟨{ s.cfg with rows := s.cfg.rows.erase key }, cache, sets, frr⟩

end

end Sonic.PrefixSet
