import Sonic.Dict
import Sonic.Ipaddress
import Sonic.Lines
import Sonic.Run

/-! # Static routes of bgpcfgd

`StaticRouteMgr` turns the rows of STATIC_ROUTE into `ip route` commands: it keeps the nexthops of
every prefix and pushes only what has changed. It also switches the redistribution of static routes
on and off, VRF by VRF. -/

namespace Sonic.StaticRoute

open Ipaddress (Af PyError inetPton ipNetwork)

structure IpNextHop where
  af : Af
  blackhole : Str
  distance : Int
  ip : Str
  interface : Str
  nhVrf : Str
  deriving DecidableEq

instance : LawfulBEq IpNextHop := inferInstance

def zeroIp : Af → Str
  | .inet => "0.0.0.0"
  | .inet6 => "::"

def isPortchannel (ip : Str) : Bool := Str.startsWith "PortChannel" ip

def isZeroIp (af : Af) (ip : Str) : Except PyError Bool :=
  match inetPton af ip with
  | .ok v => .ok (v = 0)
  | .error .osError => .ok false
  | .error .valueError => .error .valueError

/-- The constructor; an argument `none` is Python's `None`. -/
def IpNextHop.new (af : Af) (blackhole dstIp ifName dist vrf : Option Str) : Except PyError IpNextHop := do
  let blackhole := match blackhole with
    | none => "false".toList
    | some b => if b = [] then "false".toList else b
  let distance ← match dist with
    | none => pure 0
    | some d => match Str.int d with
      | some n => pure n
      | none => throw .valueError
  let given (x : Option Str) : Option Str := if blackhole = "true".toList then none else x
  let ip := match given dstIp with
    | none => zeroIp af
    | some ip => if ip = [] then zeroIp af else ip
  let interface := (given ifName).getD []
  let nhVrf := (given vrf).getD []
  if ¬ isPortchannel ip then
    let _ ← inetPton af ip
  if blackhole ≠ "true".toList then
    let zero ← isZeroIp af ip
    if zero ∧ ¬ isPortchannel ip ∧ Str.strip interface = [] then throw .valueError
  return ⟨af, blackhole, distance, ip, interface, nhVrf⟩

/-- `__format__`. An address that `isZeroIp` refuses is refused by the constructor. -/
def IpNextHop.format (nh : IpNextHop) : Str :=
  (if nh.blackhole = "true".toList then " blackhole".toList else []) ++
  (match isZeroIp nh.af nh.ip with
    | .ok true => []
    | _ => ' ' :: nh.ip) ++
  (if nh.interface = [] then [] else ' ' :: nh.interface) ++
  (if nh.distance = 0 then [] else ' ' :: Str.ofInt nh.distance) ++
  (if nh.nhVrf = [] then [] else " nexthop-vrf ".toList ++ nh.nhVrf)

/-- `IpNextHopSet`; a set is a list without repetitions, and `none` where the constructor raises. -/
def ipNextHopSet (isIpv6 : Bool) (bkhList ipList intfList distList vrfList : Option (List Str)) :
    Option (List IpNextHop) :=
  let af := if isIpv6 then Af.inet6 else Af.inet
  if bkhList = none ∧ ipList = none ∧ intfList = none then some []
  else
    match ([bkhList, ipList, intfList, distList, vrfList].filterMap id).map List.length with
    | [] => none
    | nhCnt :: nums =>
      if nums.all (· = nhCnt) then
        let item (lst : Option (List Str)) (i : Nat) : Option Str := lst.bind (·[i]?)
        (List.range nhCnt).foldlM (fun nhs idx =>
          match IpNextHop.new af (item bkhList idx) (item ipList idx) (item intfList idx) (item distList idx)
              (item vrfList idx) with
          | .ok nh => some (Lines.add nhs nh)
          | .error .valueError => some nhs
          | .error .osError => none) []
      else none

def advertiseEnableTag : Str := "1"
def advertiseDisableTag : Str := "2"

inductive Command where
  | route (delete : Bool) (line : Str)
  | routeMap
  | matchTag (tag : Str)
  | routerBgp (asn vrf : Str)
  | addressFamily (af : Str)
  | redistribute (delete : Bool)
  | exitAddressFamily
  | exit
  | noRouteMap
  deriving DecidableEq

/-- The command of `generate_command` without a leading `no`. -/
def routeLine (ipPrefix vrf tag : Str) (nh : IpNextHop) : Str :=
  (if nh.af = .inet6 then "ipv6" else "ip") ++ " route " ++ ipPrefix ++ nh.format ++
  (if vrf ≠ "default" then " vrf " ++ vrf else []) ++ " tag " ++ tag

def generateCommand (delete : Bool) (ipPrefix vrf tag : Str) (nh : IpNextHop) : Command :=
  .route delete (routeLine ipPrefix vrf tag nh)

def families : List Str := ["ipv4", "ipv6"]

def enableRedistributionCommand (asn vrf : Str) : List Command :=
  [.routeMap, .matchTag advertiseEnableTag, .routerBgp asn vrf] ++
  families.flatMap (fun af => [.addressFamily af, .redistribute false, .exitAddressFamily]) ++ [.exit]

def disableRedistributionCommand (asn vrf : Str) : List Command :=
  [.routerBgp asn vrf] ++
  families.flatMap (fun af => [.addressFamily af, .redistribute true, .exitAddressFamily]) ++ [.exit, .noRouteMap]

/-! ## The manager -/

abbrev Routes := Dict Str (List IpNextHop × Str)

structure Mgr where
  staticRoutes : Dict Str Routes
  vrfPendingRedistribution : List Str
  bgpAsn : Option Str

def Mgr.new : Mgr := ⟨[], [], none⟩

def Mgr.routesOf (m : Mgr) (vrf : Str) : Routes := (m.staticRoutes.get? vrf).getD []

/-- `self.static_routes.setdefault(vrf, {}).pop(ip_prefix, None)` -/
def Mgr.pop (m : Mgr) (vrf ipPrefix : Str) : Mgr :=
  { m with staticRoutes := m.staticRoutes.set vrf ((m.routesOf vrf).erase ipPrefix) }

def Mgr.store (m : Mgr) (vrf ipPrefix : Str) (route : List IpNextHop × Str) : Mgr :=
  { m with staticRoutes := m.staticRoutes.set vrf ((m.routesOf vrf).set ipPrefix route) }

/-- `none` where `split_key` raises. -/
def splitKey (key : Str) : Option (Str × Str) :=
  match Str.splitOnce "|" key with
  | some p => some p
  | none => if (ipNetwork key).isSome then some ("default", key) else Str.splitOnce ":" key

abbrev Data := Dict Str Str

def argList (data : Data) (field : Str) : Option (List Str) :=
  (data.get? field).bind fun v => if Str.strip v ≠ [] then some (Str.split ',' v) else none

def routeTag (data : Data) : Str :=
  if data.get? "advertise" = some "false" then advertiseDisableTag else advertiseEnableTag

def bfdEnabled (data : Data) : Bool :=
  match argList data "bfd" with
  | some (b :: _) => Str.lower b = "true"
  | _ => false

section
-- the version of a prefix as netaddr reads it, and the order in which a set is iterated
variable (isIpv6 : Str → Bool) (iter : ∀ α : Type, List α → List α) (dbName : Str)

def nextHopsOf (ipPrefix : Str) (data : Data) : Option (List IpNextHop) :=
  ipNextHopSet (isIpv6 ipPrefix) (argList data "blackhole") (argList data "nexthop")
    (argList data "ifname") (argList data "distance") (argList data "nexthop-vrf")

def staticRouteCommands (ipNhSet curNhSet : List IpNextHop) (ipPrefix vrf tag curTag : Str) : List Command :=
  if tag ≠ curTag then
    (iter _ curNhSet).map (generateCommand true ipPrefix vrf curTag) ++
    (iter _ ipNhSet).map (generateCommand false ipPrefix vrf tag)
  else
    let diffSet := iter _ (ipNhSet.filter (· ∉ curNhSet) ++ curNhSet.filter (· ∉ ipNhSet))
    (diffSet.filter (· ∈ curNhSet)).map (generateCommand true ipPrefix vrf tag) ++
    (diffSet.filter (· ∉ curNhSet)).map (generateCommand false ipPrefix vrf tag)

/-- The state, the commands of `push_list` and the value that is returned. -/
def Mgr.setHandler (m : Mgr) (key : Str) (data : Data) : Option (Mgr × List Command × Bool) :=
  (splitKey key).map fun (vrf, ipPrefix) =>
    let tag := routeTag data
    let (curNhSet, curTag) := ((m.routesOf vrf).get? ipPrefix).getD ([], tag)
    if bfdEnabled data then (if curNhSet ≠ [] then m.pop vrf ipPrefix else m, [], true)
    else
      match nextHopsOf isIpv6 ipPrefix data with
      | none => (m, [], false)
      | some ipNhSet =>
        let cmdList := staticRouteCommands iter ipNhSet curNhSet ipPrefix vrf tag curTag
        let m' := m.store vrf ipPrefix (ipNhSet, tag)
        -- the first route of the VRF
        if m.routesOf vrf = [] then
          match m.bgpAsn with
          | some asn => (m', cmdList ++ enableRedistributionCommand asn vrf, true)
          | none =>
            ({ m' with vrfPendingRedistribution := Lines.add m.vrfPendingRedistribution vrf }, cmdList, true)
        else (m', cmdList, true)

/-- The fields of CONFIG_DB by row and field. -/
abbrev ConfigDb := Dict (Str × Str) Str

/-- `skip_appl_del` without the pop that goes with `True`. -/
def skipApplDel (configDb : ConfigDb) (vrf ipPrefix : Str) : Bool :=
  if dbName = "CONFIG_DB" then false
  else
    let cfgKey := "STATIC_ROUTE|" ++ vrf ++ "|" ++ ipPrefix
    let defaultKey := "STATIC_ROUTE|" ++ ipPrefix
    let isDefault : Bool := vrf = "default"
    let bfdOn (key : Str) : Bool := configDb.get? (key, "bfd") = some "true"
    let hasNexthop (key : Str) : Bool := ((configDb.get? (key, "nexthop")).getD []) ≠ []
    if isDefault && bfdOn defaultKey then false
    else if bfdOn cfgKey then false
    else if hasNexthop cfgKey then true
    else hasNexthop (if isDefault then defaultKey else cfgKey)

def Mgr.delHandler (m : Mgr) (configDb : ConfigDb) (key : Str) : Option (Mgr × List Command) :=
  (splitKey key).map fun (vrf, ipPrefix) =>
    if skipApplDel dbName configDb vrf ipPrefix then (m.pop vrf ipPrefix, [])
    else
      let (curNhSet, tag) := ((m.routesOf vrf).get? ipPrefix).getD ([], advertiseDisableTag)
      let cmdList := staticRouteCommands iter [] curNhSet ipPrefix vrf tag tag
      -- the last route of the VRF
      if (m.routesOf vrf).keys = [ipPrefix] then
        let m' := { m.pop vrf ipPrefix with
          vrfPendingRedistribution := m.vrfPendingRedistribution.filter (· ≠ vrf) }
        match m.bgpAsn with
        | some asn => (m', cmdList ++ disableRedistributionCommand asn vrf)
        | none => (m', cmdList)
      else (m.pop vrf ipPrefix, cmdList)

/-- `on_bgp_asn_change` after the directory has got `bgp_asn`. -/
def Mgr.onBgpAsnChange (m : Mgr) (asn : Str) : Mgr × List (List Command) :=
  ({ m with bgpAsn := some asn, vrfPendingRedistribution := [] },
    (iter _ m.vrfPendingRedistribution).map (enableRedistributionCommand asn))

end

/-- Where in the configuration a command is read. -/
inductive Node where
  | config
  | routeMap
  | bgp (vrf : Str)
  | bgpAf (vrf af : Str)

structure Frr where
  node : Node
  routes : List Str
  routeMap : Bool
  redistributes : List (Str × Str)

def Frr.new : Frr := ⟨.config, [], false, []⟩

def Frr.exec (f : Frr) : Command → Frr
  | .route true line => { f with routes := Lines.remove f.routes line }
  | .route false line => { f with routes := Lines.add f.routes line }
  | .routeMap => { f with node := .routeMap, routeMap := true }
  | .matchTag _ => f
  | .routerBgp _ vrf => { f with node := .bgp vrf }
  | .addressFamily af =>
    match f.node with
    | .bgp vrf => { f with node := .bgpAf vrf af }
    | _ => f
  | .redistribute delete =>
    match f.node with
    | .bgpAf vrf af =>
      { f with redistributes :=
        if delete then Lines.remove f.redistributes (vrf, af) else Lines.add f.redistributes (vrf, af) }
    | _ => f
  | .exitAddressFamily =>
    match f.node with
    | .bgpAf vrf _ => { f with node := .bgp vrf }
    | _ => f
  | .exit => { f with node := .config }
  | .noRouteMap => { f with routeMap := false }

def Frr.push (f : Frr) (cmds : List Command) : Frr := cmds.foldl Frr.exec { f with node := .config }

structure Sys where
  mgr : Mgr
  frr : Frr

def Sys.new : Sys := ⟨Mgr.new, Frr.new⟩

inductive Event where
  | set (key : Str) (data : Data)
  | del (key : Str) (configDb : ConfigDb)
  | asn (bgpAsn : Str)

section
variable (isIpv6 : Str → Bool) (iter : ∀ α : Type, List α → List α) (dbName : Str)

def step (s : Sys) : Event → Option Sys
  | .set key data => (s.mgr.setHandler isIpv6 iter key data).map fun (m, cmds, _) => ⟨m, s.frr.push cmds⟩
  | .del key configDb => (s.mgr.delHandler iter dbName configDb key).map fun (m, cmds) => ⟨m, s.frr.push cmds⟩
  | .asn bgpAsn =>
    let (m, pushes) := s.mgr.onBgpAsnChange iter bgpAsn
    some ⟨m, pushes.foldl Frr.push s.frr⟩

end

end Sonic.StaticRoute
