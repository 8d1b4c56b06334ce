import Sonic.Dict
import Sonic.Text

/-! # Paths of ConfigDB and xpaths

`SonicYangPathMixin` converts a ConfigDB path, a JSON pointer, to the xpath of the YANG node that stands for it. The
conversion walks down the schema with the tokens of the path: a container holds lists, containers and leaves, and an entry
of a list is addressed by its keys. Only an element of a leaf-list needs the configuration itself, for the value at its index.
Functions answer `none` where the source raises. The tokens of a path are those of `jsonpointer`, which is a parameter. -/

namespace Sonic.Yang

open Str

/-! ## Schema -/

structure Leaf where
  name : Str
  leafList : Bool
  deriving DecidableEq

/-- A container, which has no keys, or a list. -/
inductive Node where
  | mk (name : Str) (keys : List Str) (leaves : List Leaf) (lists containers : List Node)

namespace Node

def name : Node → Str
  | mk name _ _ _ _ => name

def keys : Node → List Str
  | mk _ keys _ _ _ => keys

def leaves : Node → List Leaf
  | mk _ _ leaves _ _ => leaves

def lists : Node → List Node
  | mk _ _ _ lists _ => lists

def containers : Node → List Node
  | mk _ _ _ _ containers => containers

end Node

def type1ListMapsModel : List Str :=
  ["DSCP_TO_TC_MAP_LIST", "DOT1P_TO_TC_MAP_LIST", "TC_TO_PRIORITY_GROUP_MAP_LIST",
    "TC_TO_QUEUE_MAP_LIST", "MAP_PFC_PRIORITY_TO_QUEUE_LIST",
    "PFC_PRIORITY_TO_PRIORITY_GROUP_MAP_LIST", "DSCP_TO_FC_MAP_LIST", "EXP_TO_FC_MAP_LIST",
    "CABLE_LENGTH_LIST", "MPLS_TC_TO_TC_MAP_LIST", "TC_TO_DSCP_MAP_LIST"]

/-- An item of `confDbYangMap`. -/
structure Table where
  module : Str
  topLevelContainer : Str
  container : Node

abbrev ConfDbYangMap := Dict Str Table

/-! ## Configurations -/

inductive CVal where
  | str (s : Str)
  | list (l : List Str)
  | dict (d : List (Str × CVal))

abbrev CDict := Dict Str CVal

def quoted (s : Str) : Str :=
  let apostrophe := Char.ofNat 39
  let q := if apostrophe ∈ s ∧ '"' ∉ s then '"' else apostrophe
  q :: (s.flatMap fun c => if c = q ∨ c = '\\' then ['\\', c] else [c]) ++ [q]

mutual
/-- `repr(value)`, with control characters as they are. -/
def CVal.repr : CVal → Str
  | .str s => quoted s
  | .list l => '[' :: join ", " (l.map quoted) ++ [']']
  | .dict d => Char.ofNat 123 :: join ", " (reprItems d) ++ [Char.ofNat 125]

def reprItems : List (Str × CVal) → List Str
  | [] => []
  | (k, v) :: d => (quoted k ++ ": " ++ v.repr) :: reprItems d
end

def CVal.pyStr : CVal → Str
  | .str s => s
  | v => v.repr

/-! ## From ConfigDB paths to xpaths -/

/-- The paths of the whole configuration. -/
def isRoot (path : Str) : Bool := path = [] ∨ path = ['/']

/-- `parts` is what `JsonPointer(path).parts` answers, `none` where it raises. -/
def configdbPathSplit (parts : Str → Option (List Str)) (path : Str) : Option (List Str) :=
  if isRoot path then some [] else parts path

def apostrophe : Char := Char.ofNat 39

/-- `[name='value']` -/
def predicate (p : Str × Str) : Str := '[' :: p.1 ++ ('=' :: apostrophe :: p.2 ++ [apostrophe, ']'])

def parseConfigdbKeyToDict (keys : List Str) (configDbKey : Str) : Option (Dict Str Str) :=
  let values := split '|' configDbKey
  if keys.length ≠ values.length then none else some (keys.zip (values.map strip))

/-- `l[i]`, where `i` may count from the end. -/
def pyIndex {α : Type*} (l : List α) (i : Int) : Option α :=
  if 0 ≤ i then l[i.toNat]? else if 0 ≤ l.length + i then l[(l.length + i).toNat]? else none

/-- The value that the tokens lead to; `some none` where the source returns None. -/
def getConfigdbValue : CVal → List Str → Option (Option CVal)
  | v, [] => some (some v)
  | .dict d, t :: ts => (Dict.get? d t).bind (getConfigdbValue · ts)
  | .list l, t :: ts => (int t).bind fun i => (pyIndex l i).bind fun s => getConfigdbValue (.str s) ts
  | .str _, _ :: _ => some none

/-- The text of the value at a path, where a configuration is given. -/
def valueText (configdb : Option CDict) (tokens : List Str) : Option (Option Str) :=
  match configdb with
  | none => some none
  | some c => (getConfigdbValue (.dict c) tokens).map (·.map CVal.pyStr)

def findLeaf (M : Node) (leafList : Bool) (name : Str) : Bool :=
  M.leaves.any fun l => l.name = name ∧ l.leafList = leafList

def findChild (nodes : List Node) (name : Str) : Option Node := nodes.find? (·.name = name)

/-- `some none` if the container has no lists. -/
def getListModel (M : Node) (configdbValues : Str) : Option (Option Node) :=
  match M.lists with
  | [] => some none
  | [l] => some (some l)
  | lists => (lists.find? fun l => l.keys.length = (split '|' configdbValues).length).map some

def type1GetModel (l : Node) : Option Node := if l.name ∈ type1ListMapsModel then l.lists.head? else none

section
variable (schemaXpath : Bool) (value : Option (Option Str))

/-- The token of a leaf-list element with the given value. -/
def elementToken (token : Str) : Option Str → Str
  | none => token
  | some text => if schemaXpath then token else token ++ predicate (['.'], text)

/-- `value` is what `__get_configdb_value` answers for the whole path; `rest` are the tokens after this one. -/
def getXpathTokenFromLeaf (M : Node) (token : Str) (rest : List Str) : Option Str :=
  if findLeaf M false token then some token
  else if findLeaf M true token then
    if rest = [] then some token else value.map (elementToken schemaXpath token)
  else none

def type1GetXpathToken (inner : Node) (token : Str) : Option Str :=
  if schemaXpath then some inner.name else inner.keys.head?.map fun key => inner.name ++ predicate (key, token)

def listToken (l : Node) (key : Str) : Option Str :=
  if schemaXpath then some l.name
  else (parseConfigdbKeyToDict l.keys key).map fun keyDict => l.name ++ (keyDict.map predicate).flatten

def getXpathTokensFromList (l : Node) (key : Str) (rest : List Str) : Option (List Str) :=
  (listToken schemaXpath l key).bind fun item =>
    match rest with
    | [] => some [item]
    | token :: rest =>
      match type1GetModel l with
      | some inner => (type1GetXpathToken schemaXpath inner token).map ([item, ·])
      | none => (getXpathTokenFromLeaf schemaXpath value l token rest).map ([item, ·])

/-- The first token is the name of the container. -/
def getXpathTokensFromContainer : Node → List Str → Option (List Str)
  | _, [] => none
  | _, [token] => some [token]
  | M, token :: next :: rest =>
    (getListModel M next).bind fun model =>
      match model with
      | some l => (getXpathTokensFromList schemaXpath value l next rest).map (token :: ·)
      | none =>
        match findChild M.containers next with
        | some m => (getXpathTokensFromContainer m (next :: rest)).map (token :: ·)
        | none => (getXpathTokenFromLeaf schemaXpath value M next rest).map ([token, ·])

end

def xpathJoin (tokens : List Str) : Str := tokens.flatMap ('/' :: ·)

abbrev ConfigPathCache := Dict (Str × Bool) Str

structure Call where
  configdbPath : Str
  schemaXpath : Bool
  configdb : Option CDict

def Call.key (c : Call) : Str × Bool := (c.configdbPath, c.schemaXpath)

section
variable (parts : Str → Option (List Str)) (tables : ConfDbYangMap)

/-- The conversion itself, with the value that the path leads to. -/
def convert (tokens : List Str) (schemaXpath : Bool) (value : Option (Option Str)) : Option Str :=
  tokens.head?.bind fun table => (tables.get? table).bind fun cmap =>
    (getXpathTokensFromContainer schemaXpath value cmap.container tokens).map fun xpathTokens =>
      xpathJoin ((cmap.module ++ ':' :: cmap.topLevelContainer) :: xpathTokens)

/-- The answer and the cache after the call. -/
def configdbPathToXpath (cache : ConfigPathCache) (c : Call) : Option Str × ConfigPathCache :=
  if isRoot c.configdbPath then (some ['/'], cache)
  else match cache.get? c.key with
    | some result => (some result, cache)
    | none =>
      match (configdbPathSplit parts c.configdbPath).bind fun tokens =>
        convert tables tokens c.schemaXpath (valueText c.configdb tokens) with
      | some xpath => (some xpath, cache.set c.key xpath)
      | none => (none, cache)

end

end Sonic.Yang
