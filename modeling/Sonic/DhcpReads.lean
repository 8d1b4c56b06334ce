import Sonic.DhcpCfggenSound

/-! # What the generator reads

The object for the template depends on the enabled rows of DHCP_SERVER_IPV4, on what the other
tables have for these interfaces, on the ranges and options they use and on all customized options.
Two databases that agree on these give the same object. -/

namespace Sonic.Dhcp
open List Option

open Str Ipaddress

variable {r : Generated} {p : Str × Entry}

theorem any_congr {α : Type*} {l : List α} {p q : α → Bool} (h : ∀ a ∈ l, p a = q a) : l.any p = l.any q := by
  rw [Bool.eq_iff_iff, List.any_eq_true, List.any_eq_true]
  grind

theorem flatMap_filter {α γ : Type*} {q : α → Bool} {f : α → List γ} (h : ∀ a, q a = false → f a = []) :
    ∀ {l : List α}, (l.filter q).flatMap f = l.flatMap f
  | [] => rfl
  | a :: l => by
    have ih := flatMap_filter h (l := l)
    cases ha : q a with
    | true => rw [filter_cons_of_pos ha, flatMap_cons, flatMap_cons, ih]
    | false => rw [filter_cons_of_neg (Bool.eq_false_iff.mp ha), flatMap_cons, h a ha, ih, nil_append]

/-! ## Interfaces -/

def interfaceOf (key : Str) : Str := (split '|' key).headD []

def ipOf (name key : Str) : Option IfaceIp :=
  match split '|' key with
  | [n, ip] =>
    if n = name then
      match ipNetworkLoose ip with
      | some network => if network.version = .v4 then some ⟨network, ip⟩ else none
      | none => none
    else none
  | _ => none

theorem ipOf_some {name key : Str} {i : IfaceIp} (h : ipOf name key = some i) :
    split '|' key = [name, i.ip] ∧ ipNetworkLoose i.ip = some i.network ∧ i.network.version = .v4 := by grind [ipOf]

def vlanStep (ret : Dict Str (List IfaceIp)) (key : Str) : Option (Dict Str (List IfaceIp)) :=
  match split '|' key with
  | [name, ip] => (ipNetworkLoose ip).map fun network =>
    if network.version = .v4 then ret.set name ((ret.get? name).getD [] ++ [⟨network, ip⟩]) else ret
  | _ => some ret

theorem vlanStep_get? {name key : Str} {ret ret' : Dict Str (List IfaceIp)} (h : vlanStep ret key = some ret') :
    ret'.get? name = match ipOf name key with
      | none => ret.get? name
      | some i => some ((ret.get? name).getD [] ++ [i]) := by grind [vlanStep, map_eq_some_iff, ipOf]

theorem getVlanIpv4Interface_get? {name : Str} {keys : List Str} {interfaces : Dict Str (List IfaceIp)}
    (h : getVlanIpv4Interface keys = some interfaces) :
    interfaces.get? name =
      if keys.filterMap (ipOf name) = [] then none else some (keys.filterMap (ipOf name)) := by
  have hloop : ∀ (keys : List Str) {ret ret' : Dict Str (List IfaceIp)}, keys.foldlM vlanStep ret = some ret' →
      ret'.get? name = if keys.filterMap (ipOf name) = [] then ret.get? name
        else some ((ret.get? name).getD [] ++ keys.filterMap (ipOf name)) := by
    intro keys
    induction keys <;> grind [bind_eq_some_iff, vlanStep_get?]
  exact hloop keys h

def midAddress (db : ConfigDb) (name : Str) : Option IfaceIp :=
  match midPlane db with
  | some (some (bridge, ip)) => if bridge = name then some ip else none
  | _ => none

def dpuMembers (db : ConfigDb) : List Str :=
  if isSmartSwitch db then
    match parseDpu (db.table .dpus) (db.table .midPlaneBridge), midPlane db with
    | some (_, dpus), some (some (name, _)) => dpus.map (name ++ '|' :: ·)
    | some (_, dpus), _ => dpus
    | none, _ => []
  else []

section
variable {g : Generator} {db db' : ConfigDb} {st st' : Site}

theorem midPlane_of_not_smart (h : isSmartSwitch db = false) : midPlane db = some none := by
  rw [midPlane, h]
  rfl

theorem site_spec (h : site db = some st) : ∃ vlan,
    getVlanIpv4Interface (Dict.keys (db.table .vlanInterface)) = some vlan ∧
    parseRange (db.table .dhcpServerIpv4Range) = some st.ranges ∧
    st.members = Dict.keys (db.table .vlanMember) ++ dpuMembers db ∧
    ∀ name, st.interfaces.get? name = ((midAddress db name).map fun ip => [ip]).or (vlan.get? name) := by
  unfold site at h
  obtain ⟨vlan, hvlan, h⟩ := Option.bind_eq_some_iff.mp h
  obtain ⟨ranges, hranges, h⟩ := Option.bind_eq_some_iff.mp h
  refine ⟨vlan, hvlan, ?_⟩
  split at h
  · rename_i hsmart
    obtain ⟨⟨mid, dpus⟩, hdpu, h⟩ := Option.bind_eq_some_iff.mp h
    obtain ⟨mid', hmid, h⟩ := Option.bind_eq_some_iff.mp h <;> grind [dpuMembers, midAddress]
  · rename_i hsmart
    have hsmart := Bool.eq_false_iff.mpr hsmart
    cases h
    simp_all [dpuMembers, midAddress, midPlane_of_not_smart]

theorem portTarget_interfaceOf {t : Str × Str × List IfaceIp}
    (h : portTarget g st p = some (some t)) : interfaceOf p.1 = t.1 := by
  grind [portTarget, map_eq_some_iff, interfaceOf]

theorem interfaceOf_of_targets {name : Str} (h : targets g st name p = true) :
    interfaceOf p.1 = name := by
  unfold targets at h
  split at h
  · rename_i t ht
    exact (portTarget_interfaceOf ht).trans (of_decide_eq_true h)
  · cases h

theorem any_filter_interface (st : Site) (name : Str) (rows : Table) :
    (rows.filter fun p => interfaceOf p.1 = name).any (targets g st name) = rows.any (targets g st name) := by
  rw [List.any_filter]
  refine any_congr fun p _ => ?_
  cases ht : targets g st name p with
  | false => exact Bool.and_false _
  | true => rw [decide_eq_true (interfaceOf_of_targets ht)]; rfl

theorem flatMap_filter_interface (st : Site) (name : Str) (rows : Table) :
    (rows.filter fun p => interfaceOf p.1 = name).flatMap (asksOf g st name) = rows.flatMap (asksOf g st name) := by
  refine flatMap_filter fun p hp => asksOf_nil (Bool.eq_false_iff.mpr fun ht => ?_)
  exact of_decide_eq_false hp (interfaceOf_of_targets ht)

structure AgreeOn (on ranges options : List Str) (db db' : ConfigDb) : Prop where
  ports : ∀ name ∈ on, (db'.table .dhcpServerIpv4Port).filter (fun p => interfaceOf p.1 = name) =
    (db.table .dhcpServerIpv4Port).filter fun p => interfaceOf p.1 = name
  members : ∀ key, interfaceOf key ∈ on →
    (key ∈ Dict.keys (db'.table .vlanMember) ↔ key ∈ Dict.keys (db.table .vlanMember))
  ips : ∀ name ∈ on, (Dict.keys (db'.table .vlanInterface)).filterMap (ipOf name) =
    (Dict.keys (db.table .vlanInterface)).filterMap (ipOf name)
  midAddress : ∀ name ∈ on, midAddress db' name = midAddress db name
  dpuMembers : ∀ key, interfaceOf key ∈ on → (key ∈ dpuMembers db' ↔ key ∈ dpuMembers db)
  ranges : ∀ k ∈ ranges, (db'.table .dhcpServerIpv4Range).get? k = (db.table .dhcpServerIpv4Range).get? k
  options : ∀ k ∈ options, (db'.table .dhcpServerIpv4CustomizedOptions).get? k =
    (db.table .dhcpServerIpv4CustomizedOptions).get? k

section
variable {on ranges options : List Str} (h : AgreeOn on ranges options db db') (hst : site db = some st)
  (hst' : site db' = some st')
include h hst hst'

theorem AgreeOn.interfaces {name : Str} (hn : name ∈ on) : st'.interfaces.get? name = st.interfaces.get? name := by
  obtain ⟨vlan, hvlan, -, -, hget⟩ := site_spec hst
  obtain ⟨vlan', hvlan', -, -, hget'⟩ := site_spec hst'
  rw [hget, hget', h.midAddress name hn, getVlanIpv4Interface_get? hvlan, getVlanIpv4Interface_get? hvlan',
    h.ips name hn]

theorem AgreeOn.mem_members {key : Str} (hk : interfaceOf key ∈ on) : key ∈ st'.members ↔ key ∈ st.members := by
  grind [site_spec, h.members, h.dpuMembers]

theorem AgreeOn.get?_ranges {k : Str} (hk : k ∈ ranges) : st'.ranges.get? k = st.ranges.get? k := by
  obtain ⟨-, -, hr, -, -⟩ := site_spec hst
  obtain ⟨-, -, hr', -, -⟩ := site_spec hst'
  rw [parsed_rows_get? hr (db.nodup _), parsed_rows_get? hr' (db'.nodup _), h.ranges k hk]

theorem AgreeOn.portTarget (hp : interfaceOf p.1 ∈ on) : portTarget g st' p = portTarget g st p := by
  grind [mem_members, interfaces, interfaceOf, Dhcp.portTarget]

theorem AgreeOn.offered {e : Entry} (he : ∀ k ∈ itemsOf e "ranges", k ∈ ranges) : offered g st' e = offered g st e := by
  grind [filterMap_congr, get?_ranges, Dhcp.offered]

theorem AgreeOn.asks (hr : (db.table .dhcpServerIpv4Port).flatMap (usedRangesOf g st) ⊆ ranges) {name : Str}
    (hn : name ∈ on) :
    (db'.table .dhcpServerIpv4Port).any (targets g st' name) = (db.table .dhcpServerIpv4Port).any (targets g st name) ∧
    (db'.table .dhcpServerIpv4Port).flatMap (asksOf g st' name) =
      (db.table .dhcpServerIpv4Port).flatMap (asksOf g st name) := by
  rw [← any_filter_interface st', ← any_filter_interface st, ← flatMap_filter_interface st',
    ← flatMap_filter_interface st,
    h.ports name hn]
  have htarget : ∀ p ∈ (db.table .dhcpServerIpv4Port).filter (fun p => interfaceOf p.1 = name),
      Dhcp.portTarget g st' p = Dhcp.portTarget g st p := fun p hp =>
    h.portTarget hst hst' (of_decide_eq_true (List.mem_filter.mp hp).2 ▸ hn)
  constructor
  · grind [targets]
  · grind [flatMap_congr, asksOf, usedRangesOf, offered]

theorem AgreeOn.parsePort (hr : (db.table .dhcpServerIpv4Port).flatMap (usedRangesOf g st) ⊆ ranges)
    {portIps portIps' : Dict Str IfacePorts} (hp : parsePort g st (db.table .dhcpServerIpv4Port) = some portIps)
    (hp' : Dhcp.parsePort g st' (db'.table .dhcpServerIpv4Port) = some portIps') {name : Str} (hn : name ∈ on) :
    portIps'.get? name = portIps.get? name := by
  obtain ⟨hany, hasks⟩ := h.asks (g := g) hst hst' hr hn
  have hplace : place st' name = place st name := by
    funext ips a
    grind [place, addresses, interfaces]
  grind [parsePort_get?]

end

/-! ## Rows of DHCP_SERVER_IPV4 -/

def active (db : ConfigDb) : Table := (db.table .dhcpServerIpv4).filter fun row => isEnabled row.2

theorem mem_active {row : Str × Entry} : row ∈ active db ↔ row ∈ db.table .dhcpServerIpv4 ∧ isEnabled row.2 = true :=
  mem_filter

variable {host : Str} {smart : Bool} {options options' : Dict Str CustomizedOption}
  {portIps portIps' : Dict Str IfacePorts}

theorem currOptions_congr {names : List Str} (h : ∀ k ∈ names, options'.get? k = options.get? k) :
    currOptions options' names = currOptions options names :=
  foldl_ext _ _ _ fun acc name hname => by rw [h name hname]

theorem flatMap_active {γ : Type*} {f : Str × Entry → List γ} (portIps : Dict Str IfacePorts)
    (hf : ∀ row, rowIps portIps row = [] → f row = []) :
    (db.table .dhcpServerIpv4).flatMap f = (active db).flatMap f := by
  refine (flatMap_filter fun row hrow => hf row ?_).symm
  have hpm : isPortMode row.2 = false := decide_eq_false fun hm => Bool.eq_false_iff.mp hrow hm.1
  rw [rowIps, hpm]
  rfl

theorem servedAddresses_active :
    servedAddresses portIps (db.table .dhcpServerIpv4) = servedAddresses portIps (active db) :=
  flatMap_active portIps fun row hrow => by rw [hrow, map_nil]

theorem servedPorts_active : servedPorts portIps (db.table .dhcpServerIpv4) = servedPorts portIps (active db) :=
  flatMap_active portIps fun row hrow => by rw [hrow, flatMap_nil]

def subnetsFor (host : Str) (smart : Bool) (options : Dict Str CustomizedOption) (row : Str × Entry)
    (ips : IfacePorts) : List Subnet :=
  let curr := currOptions options (itemsOf row.2 "customized_options")
  (subnetsOf host (subnetId smart row.1) row.2 curr.1 (curr.2.map .configured) ips).getD []

section
variable {blocks : List Block}
  (hb : (db.table .dhcpServerIpv4).mapM (rowBlock host smart options portIps) = some blocks)
include hb

theorem subnets_eq : blocks.flatMap (·.subnets) =
    (active db).flatMap fun row => subnetsFor host smart options row (rowIps portIps row) := by
  rw [← flatMap_active portIps fun row hrow => by rw [hrow]; rfl]
  refine forall₂_flatMap (fun row b h => ?_) (mapM_some hb)
  rw [subnetsFor, (rowBlock_spec h).subnets, getD_some]

theorem clientClasses_eq : blocks.flatMap (·.clientClasses) =
    (active db).flatMap fun row => (rowIps portIps row).flatMap fun p => classesOf host p.2 := by
  rw [← flatMap_active portIps fun row hrow => by rw [hrow, flatMap_nil]]
  refine forall₂_flatMap (fun row b h => ?_) (mapM_some hb)
  exact (rowBlock_spec h).clientClasses

theorem mem_usedOptions {row : Str × Entry} (hrow : row ∈ active db) (hne : rowIps portIps row ≠ []) {k : Str}
    (hk : k ∈ itemsOf row.2 "customized_options") : k ∈ blocks.flatMap (·.usedOptions) := by
  obtain ⟨b, hbm, hrb⟩ := forall₂_mem (mapM_some hb).flip (mem_active.mp hrow).1
  exact mem_flatMap.mpr ⟨b, hbm, (rowBlock_spec hrb).usedOptions hne ▸ hk⟩

end

def customizedOf (g : Generator) (e : Entry) : Option CustomizedOption :=
  ((parseCustomizedOption g e).getD none).filter (!·.standard)

def customized (g : Generator) (db : ConfigDb) : Dict Str CustomizedOption :=
  (db.table .dhcpServerIpv4CustomizedOptions).filterMap fun p => (customizedOf g p.2).map fun o => (p.1, o)

theorem filter_customized (h : parseCustomizedOptions g (db.table .dhcpServerIpv4CustomizedOptions) = some options) :
    options.filter (!·.2.standard) = customized g db := by
  rw [parsed_rows h, filter_filterMap, customized]
  refine filterMap_congr fun p _ => ?_
  unfold customizedOf
  cases (parseCustomizedOption g p.2).getD none <;> grind

/-- What the ports of an interface offer: for each of its networks the ports with their addresses. -/
def offers (g : Generator) (db : ConfigDb) (name : Str) : IfacePorts :=
  (((site db).bind fun st => parsePort g st (db.table .dhcpServerIpv4Port)).bind fun portIps => portIps.get? name).getD
    []

/-- No enabled interface has an address to offer. -/
def Idle (g : Generator) (db : ConfigDb) : Prop :=
  ∀ row ∈ active db, isPortMode row.2 = true → offers g db row.1 = []

theorem offers_eq {portIps : Dict Str IfacePorts} (hst : site db = some st)
    (hp : parsePort g st (db.table .dhcpServerIpv4Port) = some portIps) (name : Str) :
    offers g db name = (portIps.get? name).getD [] := by
  rw [offers, hst, bind_some, hp, bind_some]

theorem rowIps_eq (hst : site db = some st) (hp : parsePort g st (db.table .dhcpServerIpv4Port) = some portIps)
    (row : Str × Entry) : rowIps portIps row = if isPortMode row.2 then offers g db row.1 else [] := by
  rw [offers_eq hst hp, rowIps]

theorem AgreeOn.offers {r' : Generated} (h : generate g db = some r) (h' : generate g db' = some r')
    {on options : List Str} (hagree : AgreeOn on r.usedRanges options db db') {name : Str} (hn : name ∈ on) :
      offers g db' name = offers g db name := by
  obtain ⟨host, st, portIps, options, blocks, hh, hst, hp, ho, hb, rfl⟩ := generate_some h
  obtain ⟨host', st', portIps', options', blocks', hh', hst', hp', ho', hb', rfl⟩ := generate_some h'
  rw [offers_eq hst hp, offers_eq hst' hp', hagree.parsePort hst hst' (List.Subset.refl _) hp hp' hn]

theorem renderObj_congr {r' : Generated} (h : generate g db = some r) (h' : generate g db' = some r')
    (hactive : active db' = active db) (hcust : customized g db' = customized g db)
    (hoffers : ∀ row ∈ active db, isPortMode row.2 = true → offers g db' row.1 = offers g db row.1)
    (hoptions : ∀ row ∈ active db, isPortMode row.2 = true → ∀ k ∈ r.usedOptions,
      (db'.table .dhcpServerIpv4CustomizedOptions).get? k = (db.table .dhcpServerIpv4CustomizedOptions).get? k)
    (hmeta : hostname db' = hostname db ∧ isSmartSwitch db' = isSmartSwitch db ∨ Idle g db) :
    r'.renderObj = r.renderObj := by
  obtain ⟨host, st, portIps, options, blocks, hh, hst, hp, ho, hb, rfl⟩ := generate_some h
  obtain ⟨host', st', portIps', options', blocks', hh', hst', hp', ho', hb', rfl⟩ := generate_some h'
  have hips : ∀ row ∈ active db, rowIps portIps' row = rowIps portIps row := by
    intro row hrow
    rw [rowIps_eq hst hp, rowIps_eq hst' hp']
    split
    · exact hoffers row hrow (by assumption)
    · rfl
  -- A row without an address to offer adds nothing, and one with an address has the same metadata and options.
  have hserves : ∀ row ∈ active db, rowIps portIps row = [] ∨ (host' = host ∧ isSmartSwitch db' = isSmartSwitch db) ∧
      currOptions options' (itemsOf row.2 "customized_options") =
        currOptions options (itemsOf row.2 "customized_options") := by
    intro row hrow
    by_cases hne : rowIps portIps row = []
    · exact .inl hne
    have hpm : isPortMode row.2 = true := by
      by_contra hpm
      exact hne (if_neg hpm)
    refine .inr ⟨?_, currOptions_congr fun k hk => ?_⟩
    · rw [hh, hh', Option.some.injEq] at hmeta
      refine hmeta.resolve_right fun hidle => hne ?_
      rw [rowIps_eq hst hp, if_pos hpm, hidle row hrow hpm]
    · rw [parsed_rows_get? ho (db.nodup _), parsed_rows_get? ho' (db'.nodup _),
        hoptions row hrow hpm k (mem_usedOptions hb hrow hne hk)]
  have hsubnets : blocks'.flatMap (·.subnets) = blocks.flatMap (·.subnets) := by
    rw [subnets_eq hb, subnets_eq hb', hactive]
    refine flatMap_congr fun row hrow => ?_
    rw [hips row hrow]
    rcases hserves row hrow with hnil | ⟨⟨rfl, hsmart⟩, hcurr⟩
    · rw [hnil]
      rfl
    · rw [subnetsFor, hcurr, hsmart]
      rfl
  have hclasses : blocks'.flatMap (·.clientClasses) = blocks.flatMap (·.clientClasses) := by
    rw [clientClasses_eq hb, clientClasses_eq hb', hactive]
    refine flatMap_congr fun row hrow => ?_
    rw [hips row hrow]
    rcases hserves row hrow with hnil | ⟨⟨rfl, -⟩, -⟩
    · rw [hnil]
      rfl
    · rfl
  dsimp only
  rw [hsubnets, hclasses, filter_customized ho, filter_customized ho', hcust]

theorem enabledDhcpInterfaces_eq (h : generate g db = some r) :
    r.enabledDhcpInterfaces = Dict.keys (active db) := by
  obtain ⟨host, st, portIps, options, blocks, -, -, -, -, hb, rfl⟩ := generate_some h
  have henabled : blocks.flatMap (·.enabled) =
      (db.table .dhcpServerIpv4).flatMap fun row => if isEnabled row.2 then [row.1] else [] := by
    refine forall₂_flatMap (fun row b hrow => ?_) (mapM_some hb)
    exact (rowBlock_spec hrow).enabled
  dsimp only
  rw [henabled, ← flatMap_filter (q := fun row => isEnabled row.2) fun row hrow => by rw [hrow]; rfl, Dict.keys,
    map_eq_flatMap]
  exact flatMap_congr fun row hrow => if_pos (mem_filter.mp hrow).2

theorem subscribeTable_cfgChange (h : generate g db = some r) :
    .dhcpServerTableCfgChange ∈ r.subscribeTable := by
  obtain ⟨host, st, portIps, options, blocks, -, -, -, -, -, rfl⟩ := generate_some h
  grind

theorem subscribeTable_portMode (h : generate g db = some r) {row : Str × Entry}
    (hrow : row ∈ active db) (hpm : isPortMode row.2 = true) : portModeChecker ⊆ r.subscribeTable := by
  obtain ⟨host, st, portIps, options, blocks, -, -, -, -, hb, rfl⟩ := generate_some h
  obtain ⟨b, hbm, hrb⟩ := forall₂_mem (mapM_some hb).flip (mem_active.mp hrow).1
  have hany : blocks.any (·.portMode) = true :=
    List.any_eq_true.mpr ⟨b, hbm, (rowBlock_spec hrb).portMode.trans hpm⟩
  grind

end

end Sonic.Dhcp
