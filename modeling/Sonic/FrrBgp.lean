import Sonic.FrrCache
import Sonic.Run

/-! # The BGP rows of frrcfgd

A row of a VRF, a neighbor, a peer group or one of their address families is turned into commands
for FRR, one for each attribute that has changed. FRR may refuse any of them. Some commands take a
whole part of the configuration away; the rows that were applied to it are then to be dropped from
the cache as well. -/

namespace Sonic.FrrBgp

open Frrcfgd

/-! ## Rows -/

/-- A component of a row key. -/
abbrev Name := {s : Str // '|' ∉ s}

def defaultVrf : Name := ⟨"default", by decide⟩

def ipv4Unicast : Name := ⟨"ipv4_unicast", by decide⟩

def ipv6Unicast : Name := ⟨"ipv6_unicast", by decide⟩

inductive RowId where
  | globals (vrf : Name)
  | peer (isPeerGroup : Bool) (vrf peer : Name)
  | af (isPeerGroup : Bool) (vrf peer afType : Name)
  deriving DecidableEq

def RowId.vrf : RowId → Name
  | .globals vrf => vrf
  | .peer _ vrf _ => vrf
  | .af _ vrf _ _ => vrf

def RowId.table : RowId → Str
  | .globals _ => "BGP_GLOBALS"
  | .peer false _ _ => "BGP_NEIGHBOR"
  | .peer true _ _ => "BGP_PEER_GROUP"
  | .af false _ _ _ => "BGP_NEIGHBOR_AF"
  | .af true _ _ _ => "BGP_PEER_GROUP_AF"

/-- `serialize_key` -/
def RowId.key : RowId → Str
  | .globals vrf => vrf.1
  | .peer _ vrf nbr => vrf.1 ++ '|' :: nbr.1
  | .af _ vrf nbr afType => vrf.1 ++ '|' :: (nbr.1 ++ '|' :: afType.1)

def RowId.combAttrList : RowId → List (List Str)
  | .af _ _ _ _ => []
  | _ => [["keepalive", "holdtime"]]

def localAsn : Str := "local_asn"

def peerGroupName : Str := "peer_group_name"

/-- The attributes of a row, as a dict. -/
abbrev RowData := {r : Row // r.keys.Nodup}

abbrev ConfigDb := Dict RowId RowData

/-! ## FRR -/

/-- A place below `router bgp`. -/
inductive Node where
  | globals
  | peer (name : Name)
  | af (name : Name) (af : Str)
  deriving DecidableEq

def Node.under (name : Name) : Node → Bool
  | .globals => false
  | .peer name' | .af name' _ => name' = name

structure Instance where
  asn : Str
  rows : Dict Node Row

def Instance.row (i : Instance) (n : Node) : Row := (i.rows.get? n).getD []

inductive Config where
  -- a line that no row of these tables stands for
  | line (text : Str)
  | create (name : Name)
  | noNeighbor (name : Name)
  | set (node : Node) (attr value : Str)
  | unset (node : Node) (attr : Str)

def Instance.config (i : Instance) : Config → Instance
  | .line _ => i
  | .create name => { i with rows := i.rows.set (.peer name) (i.row (.peer name)) }
  | .noNeighbor name => { i with rows := i.rows.filter fun p => !p.1.under name }
  | .set node attr value => { i with rows := i.rows.set node ((i.row node).set attr value) }
  | .unset node attr => { i with rows := i.rows.set node ((i.row node).erase attr) }

abbrev Frr := Dict Name Instance

inductive Command where
  | router (vrf : Name) (asn : Str) (c : Config)
  | noRouter (vrf : Name) (asn : Str)

/-- The ASN of an instance that runs is not changed, and an instance that is not there cannot be
removed. -/
def Frr.exec (frr : Frr) : Command → Option Frr
  | .router vrf asn c =>
    match frr.get? vrf with
    | some i => if i.asn = asn then some (frr.set vrf (i.config c)) else none
    | none => some (frr.set vrf ((⟨asn, []⟩ : Instance).config c))
  | .noRouter vrf asn =>
    match frr.get? vrf with
    | some i => if i.asn = asn then some (frr.erase vrf) else none
    | none => none

/-- `accepts n` says whether FRR takes the `n`-th command; `fields` are the attributes of the key
map of a table that have a command of their own. -/
structure Env where
  accepts : Nat → Bool
  metadataAsn : Option Str
  peerIsIp : Str → Bool
  fields : Str → List Str
  /-- The two tokens of a boolean attribute. -/
  boolValues : Str → Str → Option (Str × Str)
  localAsn_not_mem : localAsn ∉ fields "BGP_GLOBALS".toList
  timers_not_mem : ∀ table, "keepalive".toList ∉ fields table ∧ "holdtime".toList ∉ fields table

/-- `bgpPeerGroup` holds the `ref_nbrs` of each group. -/
structure Daemon where
  frr : Frr
  count : Nat
  bgpAsn : Dict Name Str
  bgpPeerGroup : Dict (Name × Name) (List Name)
  bgpIntfNbr : List (Name × Name)

section
variable (env : Env)

def runCommand (d : Daemon) (c : Command) : Bool × Daemon :=
  match if env.accepts d.count then d.frr.exec c else none with
  | some frr => (true, { d with frr := frr, count := d.count + 1 })
  | none => (false, { d with count := d.count + 1 })

def getVrfAsn (d : Daemon) (vrf : Name) : Option Str :=
  (d.bgpAsn.get? vrf).or (if vrf = defaultVrf then env.metadataAsn else none)

/-! ## Attributes -/

/-- What `run_command` has done so far: the number of commands, and whether one of them was taken.
-/
structure Ran where
  daemon : Daemon
  data : OpData
  cnt : Nat
  ret : Bool

/-- `get_command_cmn` has a command for the value. -/
def Env.takes (table field value : Str) : Bool :=
  match env.boolValues table field with
  | none => true
  | some (enable, disable) => value = enable || value = disable

def config (table : Str) (node : Node) (field : Str) (v : CachedDataWithOp) : Option Config :=
  match v.op with
  | .none => none
  | .add | .update => if env.takes table field v.data then some (.set node field v.data) else none
  | .delete => some (.unset node field)

/-- An attribute that has not changed is taken as applied. -/
def runField (id : RowId) (asn : Str) (node : Node) (r : Ran) (field : Str) : Ran :=
  match r.data.get? field with
  | none => r
  | some v =>
    match config env id.table node field v with
    -- nothing to run counts as done, also when no command was found for the value
    | none => { r with data := r.data.set field v.done }
    | some c =>
      match runCommand env r.daemon (.router id.vrf asn c) with
      | (true, d) => ⟨d, r.data.set field v.done, r.cnt + 1, true⟩
      | (false, d) => { r with daemon := d, cnt := r.cnt + 1 }

def runFields (d : Daemon) (id : RowId) (node : Node) (asn : Str) (data : OpData) : Ran :=
  (env.fields id.table).foldl (runField env id asn node) ⟨d, data, 0, false⟩

/-- The value that `run_command` returns. -/
def Ran.succ (r : Ran) : Bool := r.cnt = 0 || r.ret

structure Message where
  id : RowId
  delTable : Bool
  data : OpData

/-- What the handling of a message leaves. -/
structure Done where
  daemon : Daemon
  cache : Cache
  data : OpData
  queue : List Message

/-- All attributes get the operation and count as carried out. -/
def forceOp (op : Op) (data : OpData) : OpData := data.map fun p => (p.1, ⟨p.2.data, op, true⟩)

def deleteVrfAsn (d : Daemon) (vrf : Name) (data : OpData) : Daemon × OpData :=
  if vrf ≠ defaultVrf ∧ (d.bgpAsn.get? vrf).isNone then (d, data)
  else
    match getVrfAsn env d vrf with
    | none => (d, data)
    | some asn =>
      match runCommand env d (.noRouter vrf asn) with
      | (true, d) => ({ d with bgpAsn := d.bgpAsn.erase vrf }, forceOp .delete data)
      | (false, d) => (d, data)

def configGlobals (d : Daemon) (vrf : Name) (data : OpData) : Daemon × OpData :=
  match getVrfAsn env d vrf with
  | none => (d, data)
  | some asn =>
    match data.get? "srv6_locator" with
    | none =>
      let r := runFields env d (.globals vrf) .globals asn data
      (r.daemon, r.data)
    | some v =>
      match runCommand env d (.router vrf asn (.line ("locator " ++ v.data))) with
      | (true, d) =>
        let r := runFields env d (.globals vrf) .globals asn data
        (r.daemon, r.data)
      | (false, d) => (d, data)

def setVrfAsn (d : Daemon) (vrf : Name) (data : OpData) (asn : CachedDataWithOp) : Daemon × OpData :=
  if asn.op = .add then
    match runCommand env d (.router vrf asn.data (.line "no bgp default ipv4-unicast")) with
    | (true, d) => ({ d with bgpAsn := d.bgpAsn.set vrf asn.data }, data.set localAsn asn.done)
    | (false, d) => (d, data)
  else (d, data.set localAsn asn.done)

def updateGlobals (d : Daemon) (vrf : Name) (delTable : Bool) (data : OpData) : Daemon × OpData :=
  if delTable then deleteVrfAsn env d vrf data
  else
    match data.get? localAsn with
    | none => configGlobals env d vrf data
    | some asn =>
      if asn.op = .delete then deleteVrfAsn env d vrf data
      else
        let r := setVrfAsn env d vrf data asn
        configGlobals env r.1 vrf r.2

/-! ### BGP_NEIGHBOR and BGP_PEER_GROUP -/

def cleanupNbrCache (vrf nbr : Name) (cache : Cache) : Cache :=
  [RowId.peer false vrf nbr, .af false vrf nbr ipv4Unicast, .af false vrf nbr ipv6Unicast].foldl
    (fun cache id => cache.erase (id.table, id.key)) cache

def deleteVrfNeighbor (d : Daemon) (cache : Cache) (vrf peer : Name) (data : OpData) (isPeerGrp : Bool) : Done :=
  { daemon :=
      if isPeerGrp then { d with bgpPeerGroup := d.bgpPeerGroup.erase (vrf, peer) }
      else
        { d with
          bgpPeerGroup := d.bgpPeerGroup.map fun p => if p.1.1 = vrf then (p.1, p.2.filter (· ≠ peer)) else p
          bgpIntfNbr := if env.peerIsIp peer.1 then d.bgpIntfNbr else d.bgpIntfNbr.filter (· ≠ (vrf, peer)) }
    cache := cleanupNbrCache vrf peer cache
    -- the cache is not to be updated, since its entry was removed
    data := forceOp .none data
    queue := [] }

def deletePgNeighbors (d : Daemon) (cache : Cache) (vrf pg : Name) : Daemon × Cache :=
  match d.bgpPeerGroup.get? (vrf, pg) with
  | none => (d, cache)
  | some refNbrs =>
    ({ d with
        bgpIntfNbr := d.bgpIntfNbr.filter fun p => ¬(p.1 = vrf ∧ p.2 ∈ refNbrs)
        bgpPeerGroup := d.bgpPeerGroup.set (vrf, pg) [] },
      refNbrs.foldl (fun cache nbr => cleanupNbrCache vrf nbr cache) cache)

/-- The peer is made before its attributes are set; a neighbor with an address comes with its ASN.
-/
def createPeer (d : Daemon) (isPeerGroup : Bool) (vrf peer : Name) (asn : Str) : Bool × Daemon :=
  if isPeerGroup then
    if (d.bgpPeerGroup.get? (vrf, peer)).isSome then (true, d)
    else
      match runCommand env d (.router vrf asn (.create peer)) with
      | (true, d) => (true, { d with bgpPeerGroup := d.bgpPeerGroup.set (vrf, peer) [] })
      | (false, d) => (false, d)
  else if env.peerIsIp peer.1 ∨ (vrf, peer) ∈ d.bgpIntfNbr then (true, d)
  else
    match runCommand env d (.router vrf asn (.create peer)) with
    | (true, d) => (true, { d with bgpIntfNbr := (vrf, peer) :: d.bgpIntfNbr })
    | (false, d) => (false, d)

/-- With BFD the check of the control plane is set again. -/
def renewBfdCheck (data : OpData) : OpData :=
  match data.get? "bfd", data.get? "bfd_check_ctrl_plane_failure" with
  | some bfd, some chk =>
    if (bfd.op = .add ∨ bfd.op = .update) ∧ bfd.data = "true" ∧ chk.op = .none ∧ chk.data = "true" then
      data.set "bfd_check_ctrl_plane_failure" { chk with op := .add }
    else data
  | _, _ => data

def groupOf (d : Daemon) (vrf : Name) (name : Str) : Option (Name × List Name) :=
  if h : '|' ∉ name then (d.bgpPeerGroup.get? (vrf, ⟨name, h⟩)).map fun refNbrs => (⟨name, h⟩, refNbrs) else none

/-- The neighbors of a group are tracked; `none` where the group is not known. -/
def trackGroup (d : Daemon) (vrf peer : Name) (data : OpData) : Option Daemon :=
  match data.get? peerGroupName with
  | none => some d
  | some v =>
    if v.op = .add ∨ v.op = .delete then
      (groupOf d vrf v.data).map fun p =>
        let refNbrs := if v.op = .add then p.2.filter (· ≠ peer) ++ [peer] else p.2.filter (· ≠ peer)
        { d with bgpPeerGroup := d.bgpPeerGroup.set (vrf, p.1) refNbrs }
    else some d

inductive Action where
  | apply
  | delete

def nbrImplAction (data : OpData) (peer : Name) (isPg : Bool) : Option Action :=
  let attrs :=
    if isPg then ["asn".toList] else if env.peerIsIp peer.1 then ["asn".toList, peerGroupName] else [peerGroupName]
  attrs.findSome? fun attr => (data.get? attr).bind fun v =>
    match v.op with
    | .add => some .apply
    | .delete => some .delete
    | .none | .update => none

/-- A row of CONFIG_DB is applied again, whatever the cache holds. -/
def reapply (id : RowId) (row : Row) : Message := ⟨id, false, row.map fun p => (p.1, ⟨p.2, .add, false⟩)⟩

/-- The neighbors of a group, and the address families of a neighbor. -/
def applyDepVrfTable (db : ConfigDb) (isPeerGroup : Bool) (vrf peer : Name) : List Message :=
  if isPeerGroup then
    db.filterMap fun p =>
      match p.1 with
      | .peer false vrf' nbr =>
        if vrf' = vrf ∧ p.2.1.get? peerGroupName = some peer.1 then some
          (reapply (.peer false vrf' nbr) p.2.1) else none
      | _ => none
  else
    [ipv4Unicast, ipv6Unicast].map fun af =>
      reapply (.af false vrf peer af) (((db.get? (.af false vrf peer af)).map Subtype.val).getD [])

def implAction (db : ConfigDb) (d : Daemon) (cache : Cache) (isPeerGroup : Bool) (vrf peer : Name) (data : OpData) :
    Done :=
  match nbrImplAction env data peer isPeerGroup with
  | none => ⟨d, cache, data, []⟩
  | some .delete =>
    if isPeerGroup then
      let r := deletePgNeighbors d cache vrf peer
      ⟨r.1, r.2, data, []⟩
    else if env.peerIsIp peer.1 then deleteVrfNeighbor env d cache vrf peer data false
    else ⟨d, cache, data, []⟩
  | some .apply => ⟨d, cache, data, applyDepVrfTable db isPeerGroup vrf peer⟩

def configPeer (db : ConfigDb) (d : Daemon) (cache : Cache) (isPeerGroup : Bool) (vrf peer : Name) (asn : Str)
    (data : OpData) : Done :=
  let r := runFields env d (.peer isPeerGroup vrf peer) (.peer peer) asn (renewBfdCheck data)
  if r.succ then
    match trackGroup r.daemon vrf peer r.data with
    | none => ⟨r.daemon, cache, r.data, []⟩
    | some d => implAction env db d cache isPeerGroup vrf peer r.data
  else ⟨r.daemon, cache, r.data, []⟩

def setPeer (db : ConfigDb) (d : Daemon) (cache : Cache) (isPeerGroup : Bool) (vrf peer : Name) (asn : Str)
    (data : OpData) : Done :=
  match createPeer env d isPeerGroup vrf peer asn with
  | (true, d) => configPeer env db d cache isPeerGroup vrf peer asn data
  | (false, d) => ⟨d, cache, data, []⟩

/-- The cache is cleaned up also where FRR has kept the peer. -/
def delPeer (d : Daemon) (cache : Cache) (isPeerGroup : Bool) (vrf peer : Name) (asn : Str) (data : OpData) : Done :=
  let r := if isPeerGroup then deletePgNeighbors d cache vrf peer else (d, cache)
  deleteVrfNeighbor env (runCommand env r.1 (.router vrf asn (.noNeighbor peer))).2 r.2 vrf peer data isPeerGroup

/-! ### The loop -/

/-- `none` where the key of an address family does not split in two. -/
def handle (db : ConfigDb) (d : Daemon) (cache : Cache) (m : Message) : Option Done :=
  match m.id, getVrfAsn env d m.id.vrf with
  | .globals vrf, asn =>
    if asn.isNone ∧ (m.data.get? localAsn).isNone then some ⟨d, cache, m.data, []⟩
    else
      let r := updateGlobals env d vrf m.delTable m.data
      some ⟨r.1, cache, r.2, []⟩
  | .peer isPeerGroup vrf peer, some asn =>
    some (if m.delTable then delPeer env d cache isPeerGroup vrf peer asn m.data
      else setPeer env db d cache isPeerGroup vrf peer asn m.data)
  | .af isPeerGroup vrf peer afType, some asn =>
    if (Str.split '_' (Str.lower afType.1)).length = 2 then
      let r := runFields env d (.af isPeerGroup vrf peer afType) (.af peer (Str.lower afType.1)) asn m.data
      some ⟨r.daemon, cache, r.data, []⟩
    else none
  | _, none => some ⟨d, cache, m.data, []⟩

/-- The queue of `__update_bgp` and the rows it has handled. -/
structure Turn where
  daemon : Daemon
  cache : Cache
  dataList : List (RowId × OpData)
  queue : List Message

def turn (db : ConfigDb) (t : Turn) (m : Message) : Option Turn :=
  (handle env db t.daemon t.cache m).map fun r =>
    ⟨r.daemon, r.cache, t.dataList ++ [(m.id, r.data)], t.queue ++ r.queue⟩

/-- The messages that are queued, in their order; what they queue comes after them. -/
def round (db : ConfigDb) (t : Turn) : Option Turn := t.queue.foldlM (turn env db) { t with queue := [] }

/-- A group queues its neighbors, and a neighbor its address families, which queue nothing. -/
def updateBgp (db : ConfigDb) (t : Turn) : Option Turn :=
  ((round env db t).bind (round env db)).bind (round env db)

structure State where
  daemon : Daemon
  cache : Cache

def updateCache (cache : Cache) (dataList : List (RowId × OpData)) : Cache :=
  dataList.foldl (fun cache p => updateCacheData cache p.1.table p.1.key p.2) cache

/-- `data` is `none` where the row is deleted. -/
def bgpTableHandlerCommon (db : ConfigDb) (s : State) (id : RowId) (data : Option RowData) : Option State :=
  let opData := addOpToData (rowOf s.cache id.table id.key) ((data.map Subtype.val).getD []) id.combAttrList
  (updateBgp env db ⟨s.daemon, s.cache, [], [⟨id, data.isNone, opData⟩]⟩).map fun t =>
    ⟨t.daemon, updateCache t.cache t.dataList⟩

/-- A row is set or deleted while CONFIG_DB holds `db`. -/
structure Event where
  db : ConfigDb
  id : RowId
  data : Option RowData

def step (s : State) (e : Event) : Option State := bgpTableHandlerCommon env e.db s e.id e.data

end

def State.new : State := ⟨⟨[], 0, [], [], []⟩, []⟩

end Sonic.FrrBgp
