import Mathlib.Data.List.Sort
import Sonic.DhcpDbMonitor

/-! # The configuration generator of dhcpservd

`DhcpServCfgGenerator` reads the tables of CONFIG_DB and builds the object that the template of
kea-dhcp4's configuration is rendered from: one subnet for each address of an enabled interface with
a pool in its network, and a client class for each port of it. Functions answer `none` where the
source raises. -/

namespace Sonic.Dhcp

open Str Ipaddress

/-- A field of a row, as `_parse_table_to_dict` gives it. -/
inductive Val where
  | text (s : Str)
  | list (l : List Str)
  deriving DecidableEq

namespace Val

def text? : Val → Option Str
  | text s => some s
  | list _ => none

/-- What a loop over the field goes through: the members of a list, the characters of a text. -/
def items : Val → List Str
  | text s => s.map ([·])
  | list l => l

end Val

abbrev Entry := Dict Str Val

abbrev Table := Dict Str Entry

inductive TableName where
  | deviceMetadata
  | vlan
  | vlanInterface
  | vlanMember
  | dpus
  | midPlaneBridge
  | dhcpServerIpv4
  | dhcpServerIpv4CustomizedOptions
  | dhcpServerIpv4Range
  | dhcpServerIpv4Port
  deriving DecidableEq

structure ConfigDb where
  table : TableName → Table
  nodup : ∀ t, (Dict.keys (table t)).Nodup

/-- The items of a field, none if the row does not have it. -/
def itemsOf (e : Entry) (field : String) : List Str := ((e.get? field.toList).map Val.items).getD []

inductive OptionType where
  | binary
  | boolean
  | ipv4Address
  | string
  | uint8
  | uint16
  | uint32
  deriving DecidableEq

def OptionType.ofText (s : Str) : Option OptionType :=
  if s = "binary" then some .binary
  else if s = "boolean" then some .boolean
  else if s = "ipv4-address" then some .ipv4Address
  else if s = "string" then some .string
  else if s = "uint8" then some .uint8
  else if s = "uint16" then some .uint16
  else if s = "uint32" then some .uint32
  else none

/-- What the constructor has read. `setOrder` is the order in which a set of the members of a list
is gone through. -/
structure Generator where
  portAliasMap : Dict Str Str
  standardOptions : Dict Str OptionType
  customizedOptions : List Str
  leasePath : Str
  leaseUpdateScriptPath : Str
  hookLibPath : Str
  setOrder : List Str → List Str
  mem_setOrder : ∀ l x, x ∈ setOrder l ↔ x ∈ l

def hostname (db : ConfigDb) : Option Str :=
  (((db.table .deviceMetadata).get? "localhost").bind (·.get? "hostname")).bind Val.text?

def isSmartSwitch (db : ConfigDb) : Bool :=
  ((db.table .deviceMetadata).get? "localhost").bind (·.get? "subtype") =
    some (.text "SmartSwitch")

structure IfaceIp where
  network : Net
  ip : Str

abbrev Range := Addr × Addr

/-- Keys without an address and IPv6 addresses are skipped. -/
def getVlanIpv4Interface (vlanInterfaceKeys : List Str) : Option (Dict Str (List IfaceIp)) :=
  vlanInterfaceKeys.foldlM (fun ret key =>
    match split '|' key with
    | [name, ip] => (ipNetworkLoose ip).map fun network =>
      if network.version = .v4 then ret.set name ((ret.get? name).getD [] ++ [⟨network, ip⟩]) else ret
    | _ => some ret) []

def parseDpu (dpusTable midPlaneTable : Table) : Option (Entry × List Str) :=
  ((dpusTable.filterMap fun p => p.2.get? "midplane_interface").mapM Val.text?).map fun dpus =>
    ((midPlaneTable.get? "GLOBAL").getD [], dpus)

/-- The range of a row, `some none` for a row that is skipped. Addresses of both versions cannot be
compared. -/
def parseOneRange (e : Entry) : Option (Option Range) :=
  match itemsOf e "range" with
  | [start] => (ipAddress start).map fun a => some (a, a)
  | [start, end_] => do
    let a ← ipAddress start
    let b ← ipAddress end_
    if a.version ≠ b.version then none
    else if b.value < a.value then some none
    else some (some (a, b))
  | _ => some none

def parseRange (rangeIpv4 : Table) : Option (Dict Str Range) :=
  (rangeIpv4.mapM fun p => (parseOneRange p.2).map fun r => (p.1, r)).map fun l =>
    l.filterMap fun q => q.2.map fun r => (q.1, r)

/-- What `_parse_port` looks the ports up in. -/
structure Site where
  interfaces : Dict Str (List IfaceIp)
  members : List Str
  ranges : Dict Str Range

/-- The bridge of the mid plane and its address, on a smart switch that has both. -/
def midPlane (db : ConfigDb) : Option (Option (Str × IfaceIp)) :=
  if isSmartSwitch db then
    let entry := ((db.table .midPlaneBridge).get? "GLOBAL").getD []
    match entry.get? "bridge", entry.get? "ip_prefix" with
    | some bridge, some ipPrefix => do
      let name ← bridge.text?
      let ip ← ipPrefix.text?
      return some (name, ⟨← ipNetworkLoose ip, ip⟩)
    | _, _ => some none
  else some none

def site (db : ConfigDb) : Option Site := do
  let vlanInterfaces ← getVlanIpv4Interface (Dict.keys (db.table .vlanInterface))
  let vlanMembers := Dict.keys (db.table .vlanMember)
  let ranges ← parseRange (db.table .dhcpServerIpv4Range)
  if isSmartSwitch db then
    let (_, dpus) ← parseDpu (db.table .dpus) (db.table .midPlaneBridge)
    match ← midPlane db with
    | some (name, ip) => return ⟨vlanInterfaces.set name [ip], vlanMembers ++ dpus.map (name ++ '|' :: ·), ranges⟩
    | none => return ⟨vlanInterfaces, vlanMembers ++ dpus, ranges⟩
  else return ⟨vlanInterfaces, vlanMembers, ranges⟩

/-! ## Ports -/

/-- Ranges by address of the interface and port. -/
abbrev IfacePorts := Dict Str (Dict Str (List Range))

def hasBoth (e : Entry) : Bool := itemsOf e "ips" ≠ [] ∧ itemsOf e "ranges" ≠ []

/-- The interface and the port that a row is for, `some none` for a row that is skipped. A key
without a bar raises. -/
def portTarget (g : Generator) (st : Site) (p : Str × Entry) : Option (Option (Str × Str × List IfaceIp)) :=
  if hasBoth p.2 then some none
  else match split '|' p.1 with
    | name :: member :: _ =>
      if p.1 ∈ st.members then
        some ((st.interfaces.get? name).map fun iface => (name, (g.portAliasMap.get? member).getD member, iface))
      else some none
    | _ => none

/-- The ranges that a row asks for: its addresses, then its ranges that are in the range table. -/
def offered (g : Generator) (st : Site) (e : Entry) : Option (List Range) :=
  ((g.setOrder (itemsOf e "ips")).mapM ipAddress).map fun ips =>
    ips.map (fun a => (a, a)) ++ (itemsOf e "ranges").filterMap st.ranges.get?

def inNet (r : Range) (i : IfaceIp) : Bool := i.network.contains r.1 && i.network.contains r.2

/-- The first address of the interface with the range in its network gets the range. -/
def matchRangeNetwork (dhcpInterface : List IfaceIp) (port : Str) (ips : IfacePorts) (r : Range) : IfacePorts :=
  match dhcpInterface.find? (inNet r) with
  | none => ips
  | some i =>
    let ports := (ips.get? i.ip).getD []
    ips.set i.ip (ports.set port ((ports.get? port).getD [] ++ [r]))

def portStep (g : Generator) (st : Site) (portIps : Dict Str IfacePorts) (p : Str × Entry) :
    Option (Dict Str IfacePorts) := do
  match ← portTarget g st p with
  | none => return portIps
  | some (name, port, iface) =>
    let rs ← offered g st p.2
    return portIps.set name (rs.foldl (matchRangeNetwork iface port) ((portIps.get? name).getD []))

def mergeIntervals (intervals : List Range) : List Range :=
  (intervals.insertionSort fun a b => a.1.value ≤ b.1.value).foldl (fun ret i =>
    match ret.getLast? with
    | none => [i]
    | some last =>
      if last.2.value < i.1.value then ret ++ [i]
      else ret.dropLast ++ [(last.1, if last.2.value < i.2.value then i.2 else last.2)]) []

def mergePorts (ips : IfacePorts) : IfacePorts := ips.map fun p => (p.1, p.2.map fun q => (q.1, mergeIntervals q.2))

def parsePort (g : Generator) (st : Site) (portIpv4 : Table) : Option (Dict Str IfacePorts) :=
  (portIpv4.foldlM (portStep g st) []).map fun portIps => portIps.map fun p => (p.1, mergePorts p.2)

def usedRangesOf (g : Generator) (st : Site) (p : Str × Entry) : List Str :=
  match portTarget g st p with
  | some (some _) => itemsOf p.2 "ranges"
  | _ => []

structure CustomizedOption where
  id : Str
  value : Str
  type : OptionType
  alwaysSend : Val
  standard : Bool
  deriving DecidableEq

def validateStrType (type : OptionType) (value : Str) : Bool :=
  match type with
  | .string => true
  | .binary => value ≠ [] ∧ value.length % 2 = 0 ∧ value.all (hexDigit · |>.isSome)
  | .boolean => value = "true" ∨ value = "false"
  | .ipv4Address => (split '.' value).length = 4 ∧ (Ipaddress.ipv4Address value).isSome
  | .uint8 => isdigit value ∧ decimal value ≤ 2 ^ 8 - 1
  | .uint16 => isdigit value ∧ decimal value ≤ 2 ^ 16 - 1
  | .uint32 => isdigit value ∧ decimal value ≤ 2 ^ 32 - 1

/-- A comma of a text is written with two backslashes before it. -/
def escapeCommas (s : Str) : Str := s.flatMap fun c => if c = ',' then ['\\', '\\', ','] else [c]

/-- The option of a row, `some none` for one that is not supported or does not have a value of its
type. -/
def parseCustomizedOption (g : Generator) (config : Entry) : Option (Option CustomizedOption) := do
  let id ← (← config.get? "id").text?
  let standard := g.standardOptions.get? id
  if standard = none ∧ id ∉ g.customizedOptions then return none
  let type := standard.or
    (match config.get? "type" with
      | none => some .string
      | some type => type.text?.bind OptionType.ofText)
  match type with
  | none => return none
  | some type =>
    let value ← config.get? "value"
    match value.text? with
    | none => return none
    | some value =>
      if validateStrType type value ∧ ¬ (type = .string ∧ 253 < value.length) then
        return some ⟨id, if type = .string then escapeCommas value else value, type,
          (config.get? "always_send").getD (.text "true"), standard.isSome⟩
      else return none

def parseCustomizedOptions (g : Generator) (t : Table) : Option (Dict Str CustomizedOption) :=
  (t.mapM fun p => (parseCustomizedOption g p.2).map fun o => (p.1, o)).map fun l =>
    l.filterMap fun q => q.2.map fun o => (q.1, o)

/-! ## The object for the template -/

inductive SubnetId where
  | midPlane
  | vlan (number : Str)
  deriving DecidableEq

structure CurrOption where
  alwaysSend : Val
  value : Str
  standard : Bool
  id : Str
  deriving DecidableEq

inductive ServerIdOption where
  | configured (o : CurrOption)
  | address (value : Str)
  deriving DecidableEq

structure Pool where
  range : Range
  clientClass : Str
  deriving DecidableEq

/-- A lease time of `none` is the default one. -/
structure Subnet where
  id : SubnetId
  subnet : Net
  pools : List Pool
  dhcpServerIdOption : ServerIdOption
  leaseTime : Option Val
  customizedOptions : Dict Str CurrOption
  gateway : Option Val
  deriving DecidableEq

structure ClientClass where
  name : Str
  condition : Str
  deriving DecidableEq

def CustomizedOption.curr (o : CustomizedOption) : CurrOption := ⟨o.alwaysSend, o.value, o.standard, o.id⟩

def optionDhcpServerId : Str := "54"

/-- The options of an interface, the one of the server id apart from the others. -/
def currOptions (options : Dict Str CustomizedOption) (names : List Str) : Dict Str CurrOption × Option CurrOption :=
  names.foldl (fun acc name =>
    match options.get? name with
    | none => acc
    | some o => if o.id = optionDhcpServerId then (acc.1, some o.curr) else (acc.1.set name o.curr, acc.2)) ([], none)

def clientClassName (hostname port : Str) : Str := hostname ++ ':' :: port

def clientClass (hostname port : Str) : ClientClass :=
  let name := clientClassName hostname port
  let len := ofNat name.length
  ⟨name, "substring(relay4[1].hex, -" ++ len ++ ", " ++ len ++ ") == '" ++ name ++ "'"⟩

def poolsOf (hostname : Str) (ports : Dict Str (List Range)) : List Pool :=
  ports.flatMap fun q => q.2.map fun r => ⟨r, clientClassName hostname q.1⟩

def classesOf (hostname : Str) (ports : Dict Str (List Range)) : List ClientClass :=
  (ports.filter fun q => q.2 ≠ []).map fun q => clientClass hostname q.1

def subnetId (smartSwitch : Bool) (dhcpInterfaceName : Str) : SubnetId :=
  if smartSwitch then .midPlane else .vlan (remove "Vlan" dhcpInterfaceName)

/-- The subnets of an interface. `serverId` lives across the addresses: the first one without a
value sets it. -/
def subnetsOf (hostname : Str) (id : SubnetId) (config : Entry) (options : Dict Str CurrOption) :
    Option ServerIdOption → IfacePorts → Option (List Subnet)
  | _, [] => some []
  | serverId, (ip, ports) :: ips => do
    let serverId := serverId.getD (.address ((split '/' ip).headD []))
    let subnet : Subnet := ⟨id, ← ipNetworkLoose ip, poolsOf hostname ports, serverId, config.get? "lease_time",
      options, config.get? "gateway"⟩
    return subnet :: (← subnetsOf hostname id config options (some serverId) ips)

/-- What the row of an interface adds to the result. -/
structure Block where
  enabled : List Str
  portMode : Bool
  usedOptions : List Str
  subnets : List Subnet
  clientClasses : List ClientClass

def isEnabled (config : Entry) : Bool := config.get? "state" = some (.text "enabled")

def rowBlock (hostname : Str) (smartSwitch : Bool) (options : Dict Str CustomizedOption)
    (portIps : Dict Str IfacePorts) (row : Str × Entry) : Option Block :=
  if isEnabled row.2 then do
    let mode ← row.2.get? "mode"
    if mode = .text "PORT" then
      match portIps.get? row.1 with
      | none => return ⟨[row.1], true, [], [], []⟩
      | some ips =>
        let names := itemsOf row.2 "customized_options"
        let (curr, serverId) := currOptions options names
        return ⟨[row.1], true, names,
          ← subnetsOf hostname (subnetId smartSwitch row.1) row.2 curr (serverId.map .configured) ips,
          ips.flatMap fun p => classesOf hostname p.2⟩
    else return ⟨[row.1], false, [], [], []⟩
  else some ⟨[], false, [], [], []⟩

structure RenderObj where
  subnets : List Subnet
  clientClasses : List ClientClass
  leaseUpdateScriptPath : Str
  leasePath : Str
  customizedOptions : Dict Str CustomizedOption
  hookLibPath : Str
  deriving DecidableEq

/-- What `generate` returns, the configuration as the object that it is rendered from. -/
structure Generated where
  renderObj : RenderObj
  usedRanges : List Str
  enabledDhcpInterfaces : List Str
  usedOptions : List Str
  subscribeTable : List Checker

def portModeChecker : List Checker :=
  [.dhcpServerTableCfgChange, .dhcpPortTable, .dhcpRangeTable, .dhcpOptionTable, .vlanTable, .vlanIntfTable,
    .vlanMemberTable]

def smartSwitchChecker : List Checker := [.dpusTable, .midPlaneTable]

def generate (g : Generator) (db : ConfigDb) : Option Generated := do
  let host ← hostname db
  let smartSwitch := isSmartSwitch db
  let st ← site db
  let portIps ← parsePort g st (db.table .dhcpServerIpv4Port)
  let options ← parseCustomizedOptions g (db.table .dhcpServerIpv4CustomizedOptions)
  let blocks ← (db.table .dhcpServerIpv4).mapM (rowBlock host smartSwitch options portIps)
  return {
    renderObj := {
      subnets := blocks.flatMap (·.subnets)
      clientClasses := blocks.flatMap (·.clientClasses)
      leaseUpdateScriptPath := g.leaseUpdateScriptPath
      leasePath := g.leasePath
      customizedOptions := options.filter (!·.2.standard)
      hookLibPath := g.hookLibPath }
    usedRanges := (db.table .dhcpServerIpv4Port).flatMap (usedRangesOf g st)
    enabledDhcpInterfaces := blocks.flatMap (·.enabled)
    usedOptions := blocks.flatMap (·.usedOptions)
    subscribeTable := .dhcpServerTableCfgChange :: (if blocks.any (·.portMode) then portModeChecker else []) ++
      if smartSwitch then smartSwitchChecker else [] }

end Sonic.Dhcp
