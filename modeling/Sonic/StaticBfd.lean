import Mathlib
import Sonic.Dict
import Sonic.Ipaddress
import Sonic.Run

/-! # staticroutebfd

The handlers of `StaticRouteBfd` over its local tables and the two APPL_DB tables it writes. The
`defaultdict` tables are total functions: a lookup that creates an entry leaves the same function,
and removing an entry puts the default back. A handler that raises has no next state, since the
daemon exits. A table write merges the given fields into the row of the key, as a Redis hash does. -/

namespace Sonic.StaticBfd

open Str

abbrev Row := Dict Str Str

structure St where
  config : Str → Row                        -- LOCAL_CONFIG_TABLE
  nexthop : Str → List Str                  -- LOCAL_NEXTHOP_TABLE
  srt : Str → List (Str × Str)              -- LOCAL_SRT_TABLE
  bfd : Str → Row                           -- LOCAL_BFD_TABLE
  pending : Dict Str (Str × Str × Str)      -- LOCAL_BFD_PENDING_TABLE
  interface : Str → Dict Bool Str           -- LOCAL_INTERFACE_TABLE
  bfdAppl : Str → Option Row                -- BFD_SESSION_TABLE in APPL_DB
  routeAppl : Str → Option Row              -- STATIC_ROUTE in APPL_DB

def init : St :=
  ⟨fun _ => [], fun _ => [], fun _ => [], fun _ => [], [], fun _ => [], fun _ => none, fun _ => none⟩

/-! ## Keys and fields -/

def staticRouteSplitKey (key : Str) : Option (Str × Str) :=
  if key = [] then none else
  match split '|' key with
  | [p] => some ("default", p)
  | vrf :: p :: _ => some (vrf, p)
  | [] => none

/-- The family and the address of a text, `none` where it is not valid. -/
def checkIp (ip : Str) : Option (Bool × Str) :=
  if ip = [] then none else
  let v := ip.takeWhile (· ≠ '/')
  if (Ipaddress.ipv4Address v).isSome then some (true, v)
  else if (Ipaddress.ipv6Address v).isSome then some (false, v)
  else none

def getIpFromKey (key : Str) : Option (Bool × Str × Str) :=
  match split '|' key with
  | ifName :: value :: _ => (checkIp value).map fun (isIpv4, ip) => (isIpv4, ifName, ip)
  | _ => none

def argList (v : Str) : Option (List Str) :=
  if strip v = [] then none else some ((split ',' v).map strip)

def field (d : Row) (k : Str) : Option (List Str) := (d.get? k).bind argList

def isFieldTrue : Option (List Str) → Bool
  | some [x] => lower x = "true"
  | _ => false

def bfdField (d : Row) : Option (List Str) :=
  match d.get? "bfd" with
  | some v => argList v
  | none => some ["false"]

def bfdTrue (d : Row) : Bool := isFieldTrue (bfdField d)

def routeKey (vrf ipPrefix : Str) : Str := vrf ++ '|' :: ipPrefix

def nhKey (vrf ip : Str) : Str := vrf ++ '|' :: ip

def bfdKey (vrf ip : Str) : Str := vrf ++ ":default:" ++ ip

def applKey (r : Str) : Str := replace '|' ':' r

/-! ## Table operations -/

def St.setConfig (s : St) (r : Str) (d : Row) : St := { s with config := Function.update s.config r d }

def St.setNexthop (s : St) (k : Str) (l : List Str) : St := { s with nexthop := Function.update s.nexthop k l }

def St.setSrt (s : St) (r : Str) (l : List (Str × Str)) : St := { s with srt := Function.update s.srt r l }

def St.setBfd (s : St) (k : Str) (d : Row) : St := { s with bfd := Function.update s.bfd k d }

def appendToNhTableEntry (s : St) (k r : Str) : St := s.setNexthop k ((s.nexthop k).insert r)

def removeFromNhTableEntry (s : St) (k r : Str) : St := s.setNexthop k ((s.nexthop k).filter (· ≠ r))

def appendToSrtTableEntry (s : St) (r : Str) (nh : Str × Str) : St := s.setSrt r ((s.srt r).insert nh)

def removeFromSrtTableEntry (s : St) (r : Str) (nh : Str × Str) : St := s.setSrt r ((s.srt r).filter (· ≠ nh))

def setBfdSessionIntoApplDb (s : St) (k : Str) (d : Row) : St :=
  { s with bfdAppl := Function.update s.bfdAppl k (some (((s.bfdAppl k).getD []).merge d)) }

def delBfdSessionFromApplDb (s : St) (k : Str) : St := { s with bfdAppl := Function.update s.bfdAppl k none }

def setStaticRouteIntoApplDb (s : St) (k : Str) (d : Row) : St :=
  { s with routeAppl := Function.update s.routeAppl k (some (((s.routeAppl k).getD []).merge d)) }

def delStaticRouteFromApplDb (s : St) (k : Str) : St := { s with routeAppl := Function.update s.routeAppl k none }

/-! ## Interfaces and BFD sessions -/

def bfdMultihop : Str := "false"
def bfdRxInterval : Str := "50"
def bfdTxInterval : Str := "50"
def bfdMultiplier : Str := "3"

def bfdDefaultCfg : Row := [("multihop", "false"), ("rx_interval", "50"), ("tx_interval", "50")]

def bfdEntryCfg (localAddr : Str) : Row :=
  let cfg :=
    if [bfdRxInterval, bfdTxInterval, bfdMultiplier, bfdMultihop].all (· ≠ []) then
      (((bfdDefaultCfg.set "multihop" bfdMultihop).set "rx_interval" bfdRxInterval).set
        "tx_interval" bfdTxInterval).set "multiplier" bfdMultiplier
    else bfdDefaultCfg
  cfg.set "local_addr" localAddr

/-- Write a session to APPL_DB and to the local table, where it is marked as one of a static route.
-/
def createBfdSession (s : St) (k localAddr : Str) : St :=
  let cfg := bfdEntryCfg localAddr
  (setBfdSessionIntoApplDb s k cfg).setBfd k (cfg.set "static_route" "true")

def findInterfaceIp (s : St) (ifName ipExample : Str) : Option Str :=
  (checkIp ipExample).bind fun (isIpv4, _) =>
    let ip := ((s.interface ifName).get? isIpv4).getD []
    if ip = [] then none else some ip

/-- One entry of the pending table against interface `ifName`: the session is created when the
interface has an address of the nexthop's family. -/
def updatePendingEntry (ifName : Str) (acc : St × List Str) (e : Str × Str × Str × Str) : St × List Str :=
  let (k, intf, nhIp, bfdk) := e
  if intf = ifName then
    match findInterfaceIp acc.1 intf nhIp with
    | none => acc
    | some localAddr => (createBfdSession acc.1 bfdk localAddr, acc.2 ++ [k])
  else acc

def updateBfdPending (s : St) (ifName : Str) : St :=
  let (s', delList) := s.pending.foldl (updatePendingEntry ifName) (s, [])
  { s' with pending := delList.foldl Dict.erase s'.pending }

def interfaceSetHandler (s : St) (key : Str) : St :=
  match getIpFromKey key with
  | none => s
  | some (isIpv4, ifName, ip) =>
    updateBfdPending { s with interface := Function.update s.interface ifName ((s.interface ifName).set isIpv4 ip) }
      ifName

def interfaceDelHandler (s : St) (key : Str) : St :=
  match getIpFromKey key with
  | none => s
  | some (isIpv4, ifName, _) =>
    if s.interface ifName = [] then s
    else { s with interface := Function.update s.interface ifName ((s.interface ifName).set isIpv4 []) }

/-- `"" += "," + x` for each `x`, less the leading comma. -/
def candidate (xs : List Str) : Str := (xs.flatMap (',' :: ·)).drop 1

local instance lawfulBEq_pair : LawfulBEq (Str × Str) := inferInstance

/-- The indices of the nexthops in `reachable`. `none` when the vrf list is too short. -/
def reachableIdx (nhList nhVrfList : List Str) (reachable : List (Str × Str)) : Option (List Nat) :=
  if nhVrfList.length < nhList.length then none
  else some ((List.range nhList.length).filter fun i => (nhVrfList.getD i [], nhList.getD i []) ∈ reachable)

/-- The members of a list field at the indices, blank without the field. -/
def pick (l : Option (List Str)) (idx : List Nat) : Option Str :=
  match l with
  | none => some (candidate (idx.map fun _ => []))
  | some l => (idx.mapM fun i => l[i]?).map candidate

def rebuilt (bkh nh intf dist nhVrf : Str) (kv : Str × Str) : Option (Str × Str) :=
  if kv.1 = "bfd" ∨ kv.1 = "bfd_nh_hold" then none
  else if kv.1 = "blackhole" then some (kv.1, bkh)
  else if kv.1 = "nexthop" then some (kv.1, nh)
  else if kv.1 = "ifname" then some (kv.1, intf)
  else if kv.1 = "distance" then some (kv.1, dist)
  else if kv.1 = "nexthop-vrf" then some (kv.1, nhVrf)
  else some kv

def reconstructStaticRouteConfig (orig : Row) (reachable : List (Str × Str)) : Option Row := do
  let nhList ← field orig "nexthop"
  let nhVrfList ← field orig "nexthop-vrf"
  let idx ← reachableIdx nhList nhVrfList reachable
  let bkh ← pick (field orig "blackhole") idx
  let nh ← pick (some nhList) idx
  let intf ← pick (field orig "ifname") idx
  let dist ← pick (field orig "distance") idx
  let nhVrf ← pick (some nhVrfList) idx
  return Dict.set (orig.filterMap (rebuilt bkh nh intf dist nhVrf)) "expiry" "false"

def isUp (d : Row) : Bool :=
  match d.get? "state" with
  | some v => upper v = "UP"
  | none => false

def refreshActiveNh (s : St) (r : Str) : Option St := do
  let nhList ← field (s.config r) "nexthop"
  let nhVrfList ← field (s.config r) "nexthop-vrf"
  if nhVrfList.length < nhList.length then none else
  let ups := (nhVrfList.zip nhList).filter fun (v, ip) => isUp (s.bfd (bfdKey v ip))
  let s := ups.foldl (appendToSrtTableEntry · r) s
  -- do not write to appl_db if no nexthop is reachable
  if ups = [] then return s else
  let data := (s.config r).set "bfd_nh_hold" "false"
  let s := s.setConfig r data
  let cfg ← reconstructStaticRouteConfig data (s.srt r)
  return setStaticRouteIntoApplDb s (applKey r) cfg

/-! ## Static routes -/

/-- Take route `r` off one nexthop; the last route takes the session along. -/
def dropNexthop (r : Str) (s : St) (nh : Str × Str) : St :=
  let s := removeFromNhTableEntry s (nhKey nh.1 nh.2) r
  if s.nexthop (nhKey nh.1 nh.2) = [] then
    delBfdSessionFromApplDb (s.setBfd (bfdKey nh.1 nh.2) []) (bfdKey nh.1 nh.2)
  else s

def dropNexthops (r : Str) (s : St) (data : Row) : St :=
  match bfdTrue data, field data "nexthop", field data "nexthop-vrf" with
  | true, some nhList, some nhVrfList =>
    if nhList.length = nhVrfList.length then (nhVrfList.zip nhList).foldl (dropNexthop r) s else s
  | _, _, _ => s

def staticRouteDelHandler (s : St) (key : Str) (redisDel : Bool) : St :=
  match staticRouteSplitKey key with
  | none => s
  | some (vrf, ipPrefix) =>
    let r := routeKey vrf ipPrefix
    if (checkIp ipPrefix).isNone then s else
    let data := s.config r
    if data = [] then s else
    let s := dropNexthops r s data
    -- do not delete it from appl_db if the route is not bfd enabled
    let s := if bfdTrue data then delStaticRouteFromApplDb s (applKey r) else s
    let s := s.setSrt r []
    if redisDel then s.setConfig r [] else s

def handleBfdChange (s : St) (key : Str) (data : Row) (toBfdEnable : Bool) : St :=
  match staticRouteSplitKey key with
  | none => s
  | some (vrf, ipPrefix) =>
    let k := vrf ++ ':' :: ipPrefix
    if toBfdEnable then
      -- the route with its full nexthop list, for StaticRouteMgr(appl_db) to keep it installed
      setStaticRouteIntoApplDb s k ((data.set "bfd" "false").set "expiry" "false")
    else staticRouteDelHandler (delStaticRouteFromApplDb s k) key false

/-- `nexthop-vrf` with the route's own vrf in its blank members, and its list. -/
def preprocessNexthopVrf (vrf : Str) (data : Row) : Row × Option (List Str) :=
  match field data "nexthop-vrf", field data "nexthop" with
  | none, some nhList =>
    let l := List.replicate nhList.length vrf
    (data.set "nexthop-vrf" (join [','] l), some l)
  | some l, _ =>
    let l := l.map fun v => if v = [] then vrf else v
    (data.set "nexthop-vrf" (join [','] l), some l)
  | none, none => (data, none)

/-- The nexthop, interface and vrf lists, or `none` where the route is skipped: a blackhole, or
lists that are missing or do not match. -/
def checkedLists (data : Row) (nhVrfList : Option (List Str)) : Option (List Str × List Str × List Str) :=
  if ((field data "blackhole").getD []).contains "true" then none else
  match field data "ifname", field data "nexthop", nhVrfList with
  | some intfList, some nhList, some nhVrfList =>
    if intfList.length ≠ nhList.length ∨ intfList.length ≠ nhVrfList.length then none
    else some (nhVrfList, intfList, nhList)
  | _, _, _ => none

def zip3 (vs is ns : List Str) : List (Str × Str × Str) := vs.zip (is.zip ns)

/-- The nexthops of the stored configuration. `none` where a list is missing. -/
def existingNexthops (vrf : Str) (cur : Row) (nhList : List Str) : Option (List (Str × Str × Str)) :=
  let vs := (field cur "nexthop-vrf").getD (List.replicate nhList.length vrf)
  match field cur "ifname", field cur "nexthop" with
  | some is, some ns => some (zip3 vs is ns)
  | _, _ => none

def removeDeleted (r : Str) (new : List (Str × Str × Str)) (s : St) (nh : Str × Str × Str) : St :=
  if nh ∈ new then s
  else dropNexthop r (removeFromSrtTableEntry s r (nh.1, nh.2.2)) (nh.1, nh.2.2)

def addNexthop (r : Str) (s : St) (nh : Str × Str × Str) : St :=
  let (nhVrf, intf, nhIp) := nh
  let bfdk := bfdKey nhVrf nhIp
  -- check if the bfd session is already created
  let session := s.bfd bfdk
  let s := if session = [] then s else s.setBfd bfdk (session.set "static_route" "true")
  let s :=
    if s.nexthop (nhKey nhVrf nhIp) = [] ∧ session = [] then
      match findInterfaceIp s intf nhIp with
      -- interface IP is not available yet, put this request to cache
      | none => { s with pending := s.pending.set (intf ++ '_' :: bfdk) (intf, nhIp, bfdk) }
      | some localAddr => createBfdSession s bfdk localAddr
    else s
  appendToNhTableEntry s (nhKey nhVrf nhIp) r

/-- `data` with its nexthops in lower case. -/
def lowerNexthop (data : Row) : Row :=
  match data.get? "nexthop" with
  | some nh => data.set "nexthop" (lower nh)
  | none => data

/-- The change of the bfd flag from the stored route to the new one, with the hold mark of the new
one. -/
def toggleBfd (s : St) (key : Str) (cur data : Row) : St × Row :=
  let hold := data.set "bfd_nh_hold" "false"
  if cur = [] then (s, hold)
  else if bfdTrue cur ∧ ¬ bfdTrue data then (handleBfdChange s key data false, hold)
  else if ¬ bfdTrue cur ∧ bfdTrue data then (handleBfdChange s key data true, data.set "bfd_nh_hold" "true")
  else (s, hold)

/-- Route with the prefix already exists, remove the deleted nexthops. -/
def removeDeletedNexthops (s : St) (vrf r : Str) (cur : Row) (new : List (Str × Str × Str)) (nhList : List Str) :
    Option St :=
  if cur ≠ [] ∧ bfdTrue cur then
    (existingNexthops vrf cur nhList).map fun old => old.foldl (removeDeleted r new) s
  else some s

def storeRoute (s : St) (vrf r : Str) (cur data : Row) : List Str × List Str × List Str → Option St
  | (nhVrfList, intfList, nhList) =>
    let new := zip3 nhVrfList intfList nhList
    (removeDeletedNexthops s vrf r cur new nhList).bind fun s =>
      refreshActiveNh (new.foldl (addNexthop r) (s.setConfig r data)) r

def staticRouteSetHandler (s : St) (key : Str) (data : Row) : Option St :=
  if data = [] then some s else
  match staticRouteSplitKey key with
  | none => some s
  | some (vrf, ipPrefix) =>
    if (checkIp ipPrefix).isNone then some s else
    let r := routeKey vrf ipPrefix
    let data := lowerNexthop data
    let cur := s.config r
    let (s, held) := toggleBfd s key cur data
    let (data', nhVrfList) := preprocessNexthopVrf vrf held
    match checkedLists data' nhVrfList with
    | none => some s
    | some lists =>
      -- stored also when bfd is not enabled, to detect a later change of the field
      if ¬ bfdTrue data then some (s.setConfig r (data'.set "bfd" "false"))
      else storeRoute s vrf r cur data' lists

def bfdStateSplitKey (key : Str) : Option (Str × Str × Str) :=
  if key.count '|' < 2 then some ("default", "default", key) else
  match split '|' key with
  | [vrf, intf, peerIp] => some (vrf, intf, peerIp)
  | _ => none

def bfdUp (nh : Str × Str) (s : St) (r : Str) : Option St :=
  if nh ∈ s.srt r then some s else do
    let s := appendToSrtTableEntry s r nh
    -- exit "hold" state when any BFD session becomes UP
    let data := (s.config r).set "bfd_nh_hold" "false"
    let s := s.setConfig r data
    let cfg ← reconstructStaticRouteConfig data (s.srt r)
    return setStaticRouteIntoApplDb s (applKey r) cfg

def removeReachable (nh : Str × Str) (s : St) (r : Str) : Option St :=
  let s := removeFromSrtTableEntry s r nh
  if s.srt r = [] then some (delStaticRouteFromApplDb s (applKey r))
  else (reconstructStaticRouteConfig (s.config r) (s.srt r)).map (setStaticRouteIntoApplDb s (applKey r))

def bfdDown (nh : Str × Str) (s : St) (r : Str) : Option St :=
  match (s.config r).get? "bfd_nh_hold" with
  | none => none
  -- skip if the static route is in "hold" state
  | some hold => if hold = "true" then some s else removeReachable nh s r

def bfdStateSetHandler (s : St) (key : Str) (data : Row) : Option St :=
  match bfdStateSplitKey key with
  | none => none
  | some (vrf, intf, peerIp) =>
    let bfdk := vrf ++ ':' :: intf ++ ':' :: peerIp
    let session := s.bfd bfdk
    if session = [] then some s else
    let state := (data.get? "state").getD "DOWN"
    let s := s.setBfd bfdk (session.set "state" state)
    let routes := s.nexthop (nhKey vrf peerIp)
    if upper state = "UP" then routes.foldlM (bfdUp (vrf, peerIp)) s
    else if upper state = "DOWN" then routes.foldlM (bfdDown (vrf, peerIp)) s
    else some s

def bfdStateDelHandler (s : St) (key : Str) : Option St :=
  match bfdStateSplitKey key with
  | none => none
  | some (vrf, _, peerIp) => (s.nexthop (nhKey vrf peerIp)).foldlM (removeReachable (vrf, peerIp)) s

inductive Ev where
  | routeSet (key : Str) (data : Row)
  | routeDel (key : Str)
  | intfSet (key : Str)
  | intfDel (key : Str)
  | stateSet (key : Str) (data : Row)
  | stateDel (key : Str)

def step (s : St) : Ev → Option St
  | .routeSet key data => staticRouteSetHandler s key data
  | .routeDel key => some (staticRouteDelHandler s key true)
  | .intfSet key => some (interfaceSetHandler s key)
  | .intfDel key => some (interfaceDelHandler s key)
  | .stateSet key data => bfdStateSetHandler s key data
  | .stateDel key => bfdStateDelHandler s key

end Sonic.StaticBfd
