import Sonic.DhcpPorts
import Sonic.Run

/-! # The generated configuration

The object for the template has a subnet for every address that serves a port and a client class for
every port that an address serves. The ids and the names are distinct when no interface serves from
two addresses and no port is served twice. -/

namespace Sonic.Dhcp
open List Option

open Str Ipaddress

variable {st : Site} {host : Str} {portIps : Dict Str IfacePorts}

theorem forall₂_flatMap {α β γ : Type*} {R : α → β → Prop} {f : α → List γ} {g : β → List γ}
    (hfg : ∀ a b, R a b → g b = f a) : ∀ {l : List α} {bs : List β}, List.Forall₂ R l bs → bs.flatMap g = l.flatMap f
  | [], _, .nil => rfl
  | a :: l, b :: bs, .cons h hs => by rw [flatMap_cons, flatMap_cons, hfg a b h, forall₂_flatMap hfg hs]

theorem forall₂_mem {α β : Type*} {R : α → β → Prop} {b : β} : ∀ {l : List α} {bs : List β}, List.Forall₂ R l bs →
    b ∈ bs → ∃ a ∈ l, R a b
  | [], _, .nil, hb => by cases hb
  | a :: l, b' :: bs, .cons h hs, hb => by
    rcases List.mem_cons.mp hb with rfl | hb
    · simp_all
    · obtain ⟨a', ha, h'⟩ := forall₂_mem hs hb
      grind

theorem eq_singleton {α β : Type*} {p : α × β} {d : Dict α β} (hn : (Dict.keys d).Nodup) (hp : p ∈ d)
    (h : ∀ q ∈ d, q.1 = p.1) : d = [p] := by
  match d, hn, hp, h with
  | [q], _, hp, _ => grind
  | q :: q' :: d, hn, _, h =>
    refine absurd ?_ (List.nodup_cons.mp hn).1
    grind

theorem nodup_flatMap {α β γ : Type*} {d : Dict α β} {f : α × β → List γ} (key : γ → α) (h : (Dict.keys d).Nodup)
    (hkey : ∀ p ∈ d, ∀ x ∈ f p, key x = p.1) (hf : ∀ p ∈ d, (f p).Nodup) : (d.flatMap f).Nodup := by
  refine List.nodup_flatMap.mpr ⟨hf, ?_⟩
  refine List.Pairwise.imp_of_mem (fun {p q} hp hq hne x hxp hxq => hne ?_) (List.pairwise_map.mp h)
  grind

section
variable {g : Generator} {db : ConfigDb} {r : Generated}

theorem generate_some (h : generate g db = some r) : ∃ host st portIps options blocks, hostname db = some host ∧
    site db = some st ∧ parsePort g st (db.table .dhcpServerIpv4Port) = some portIps ∧
    parseCustomizedOptions g (db.table .dhcpServerIpv4CustomizedOptions) = some options ∧
    (db.table .dhcpServerIpv4).mapM (rowBlock host (isSmartSwitch db) options portIps) = some blocks ∧
    r = {
      renderObj := {
        subnets := blocks.flatMap (·.subnets)
        clientClasses := blocks.flatMap (·.clientClasses)
        leaseUpdateScriptPath := g.leaseUpdateScriptPath
        leasePath := g.leasePath
        customizedOptions := options.filter (!·.2.standard)
        hookLibPath := g.hookLibPath }
      usedRanges := (db.table .dhcpServerIpv4Port).flatMap (usedRangesOf g st)
      enabledDhcpInterfaces := blocks.flatMap (·.enabled)
      usedOptions := blocks.flatMap (·.usedOptions)
      subscribeTable := .dhcpServerTableCfgChange :: (if blocks.any (·.portMode) then portModeChecker else []) ++
        if isSmartSwitch db then smartSwitchChecker else [] } := by
  unfold generate at h
  obtain ⟨host, hh, h⟩ := Option.bind_eq_some_iff.mp h
  obtain ⟨st, hst, h⟩ := Option.bind_eq_some_iff.mp h
  obtain ⟨portIps, hp, h⟩ := Option.bind_eq_some_iff.mp h
  obtain ⟨options, ho, h⟩ := Option.bind_eq_some_iff.mp h
  obtain ⟨blocks, hb, h⟩ := Option.bind_eq_some_iff.mp h
  exact ⟨host, st, portIps, options, blocks, hh, hst, hp, ho, hb, (Option.some.inj h).symm⟩

def isPortMode (config : Entry) : Bool := isEnabled config ∧ config.get? "mode" = some (.text "PORT")

def rowIps (portIps : Dict Str IfacePorts) (row : Str × Entry) : IfacePorts :=
  if isPortMode row.2 then (portIps.get? row.1).getD [] else []

/-- What the block of a row is. -/
structure BlockOf (host : Str) (smart : Bool) (options : Dict Str CustomizedOption) (portIps : Dict Str IfacePorts)
    (row : Str × Entry) (b : Block) : Prop where
  enabled : b.enabled = if isEnabled row.2 then [row.1] else []
  portMode : b.portMode = isPortMode row.2
  usedOptions : rowIps portIps row ≠ [] → b.usedOptions = itemsOf row.2 "customized_options"
  subnets : subnetsOf host (subnetId smart row.1) row.2 (currOptions options (itemsOf row.2 "customized_options")).1
    ((currOptions options (itemsOf row.2 "customized_options")).2.map .configured) (rowIps portIps row) = some b.subnets
  clientClasses : b.clientClasses = (rowIps portIps row).flatMap fun p => classesOf host p.2

theorem rowBlock_spec {smart : Bool} {options : Dict Str CustomizedOption}
    {row : Str × Entry} {b : Block} (h : rowBlock host smart options portIps row = some b) :
    BlockOf host smart options portIps row b := by
  have hidle : isPortMode row.2 = false → rowIps portIps row = [] := fun hpm => by
    rw [rowIps, hpm]
    rfl
  unfold rowBlock at h
  split at h
  · rename_i hen
    obtain ⟨mode, hmode, h⟩ := Option.bind_eq_some_iff.mp h
    split at h
    · rename_i hport
      have hpm : isPortMode row.2 = true := decide_eq_true ⟨hen, hport ▸ hmode⟩
      have hips : rowIps portIps row = (portIps.get? row.1).getD [] := if_pos hpm
      split at h
      · rename_i hnone
        cases h
        rw [hnone, getD_none] at hips
        exact ⟨(if_pos hen).symm, hpm.symm, fun hne => absurd hips hne, hips ▸ rfl, hips ▸ rfl⟩
      · rename_i ips hsome
        rw [hsome, getD_some] at hips
        dsimp only at h
        obtain ⟨subnets, hsub, h⟩ := Option.bind_eq_some_iff.mp h
        cases h
        exact ⟨(if_pos hen).symm, hpm.symm, fun _ => rfl, hips ▸ hsub, hips ▸ rfl⟩
    · rename_i hport
      cases h
      have hpm : isPortMode row.2 = false := decide_eq_false fun hm => hport (Option.some.inj (hmode.symm.trans hm.2))
      have hips := hidle hpm
      exact ⟨(if_pos hen).symm, hpm.symm, fun hne => absurd hips hne, hips ▸ rfl, hips ▸ rfl⟩
  · rename_i hen
    cases h
    have hpm : isPortMode row.2 = false := decide_eq_false fun hm => hen hm.1
    have hips := hidle hpm
    exact ⟨(if_neg hen).symm, hpm.symm, fun hne => absurd hips hne, hips ▸ rfl, hips ▸ rfl⟩

theorem subnetsOf_spec {id : SubnetId} {config : Entry} {curr : Dict Str CurrOption} :
    ∀ {sid : Option ServerIdOption} {ips : IfacePorts} {l : List Subnet}, subnetsOf host id config curr sid ips =
      some l →
      List.Forall₂ (fun p s => s.id = id ∧ ipNetworkLoose p.1 = some s.subnet ∧ s.pools = poolsOf host p.2) ips l
  | _, [], l, h => by
    cases h
    exact .nil
  | sid, (ip, ports) :: ips, l, h => by
    rw [subnetsOf] at h
    obtain ⟨net, hnet, h⟩ := Option.bind_eq_some_iff.mp h
    obtain ⟨rest, hrest, h⟩ := Option.bind_eq_some_iff.mp h
    cases h
    exact .cons ⟨rfl, hnet, rfl⟩ (subnetsOf_spec hrest)

theorem subnetsOf_single {id : SubnetId} {config : Entry} {curr : Dict Str CurrOption}
    {sid : Option ServerIdOption} {p : Str × Dict Str (List Range)} {l : List Subnet}
    (h : subnetsOf host id config curr sid [p] = some l) :
    ∀ s ∈ l, s.dhcpServerIdOption = sid.getD (.address ((split '/' p.1).headD [])) := by
  rw [subnetsOf] at h
  obtain ⟨net, -, h⟩ := Option.bind_eq_some_iff.mp h
  obtain ⟨rest, hrest, h⟩ := Option.bind_eq_some_iff.mp h
  cases h
  cases hrest
  simp_all

def Parsed (interfaces : Dict Str (List IfaceIp)) : Prop :=
  ∀ name iface, interfaces.get? name = some iface → ∀ i ∈ iface, ipNetworkLoose i.ip = some i.network

theorem getVlanIpv4Interface_parsed {keys : List Str} {interfaces : Dict Str (List IfaceIp)}
    (h : getVlanIpv4Interface keys = some interfaces) : Parsed interfaces := by
  refine foldlM_inv Parsed (fun ret key ret' _ hret hkey => ?_) (fun _ _ hnil => by cases hnil) h
  split at hkey
  · rename_i name ip _
    obtain ⟨network, hnet, rfl⟩ := Option.map_eq_some_iff.mp hkey
    split
    · intro name' iface hget i hi
      rw [Dict.get?_set] at hget
      split at hget
      · cases hget
        rcases List.mem_append.mp hi with hi | hi
        · cases hret' : ret.get? name with
          | none => simp_all
          | some iface => rw [hret'] at hi; exact hret name iface hret' i hi
        · grind
      · exact hret name' iface hget i hi
    · exact hret
  · simp_all

theorem midPlane_parsed {name : Str} {i : IfaceIp} (h : midPlane db = some (some (name, i))) :
    ipNetworkLoose i.ip = some i.network := by
  unfold midPlane at h
  split at h
  · dsimp only at h
    split at h <;> grind [bind_eq_some_iff]
  · cases h

theorem site_parsed (h : site db = some st) : Parsed st.interfaces := by
  unfold site at h
  obtain ⟨vlan, hvlan, h⟩ := Option.bind_eq_some_iff.mp h
  obtain ⟨ranges, -, h⟩ := Option.bind_eq_some_iff.mp h
  have hv := getVlanIpv4Interface_parsed hvlan
  split at h
  · obtain ⟨dpu, -, h⟩ := Option.bind_eq_some_iff.mp h
    obtain ⟨mid, hmid, h⟩ := Option.bind_eq_some_iff.mp h
    split at h
    · rename_i name ip _
      cases h
      intro name' iface hget i hi
      rw [Dict.get?_set] at hget
      split at hget
      · grind [midPlane_parsed]
      · exact hv name' iface hget i hi
    · grind
  · grind

theorem addresses_parsed (h : site db = some st) {name : Str} {i : IfaceIp} (hi : i ∈ addresses st name) :
    ipNetworkLoose i.ip = some i.network := by
  unfold addresses at hi
  cases hget : st.interfaces.get? name with
  | none => simp_all
  | some iface => exact site_parsed h name iface hget i (by simp_all)

/-! ## What is served -/

/-- The row of an interface is enabled in PORT mode, and a row of DHCP_SERVER_IPV4_PORT asks for a range on the port
whose network is the one of the address, the first such address of the interface. -/
def Serves (g : Generator) (db : ConfigDb) (name ip port : Str) : Prop :=
  (∃ config, (db.table .dhcpServerIpv4).get? name = some config ∧ isPortMode config = true) ∧
  ∃ st, site db = some st ∧ ∃ p ∈ db.table .dhcpServerIpv4Port, ∃ iface, portTarget g st p =
    some (some (name, port, iface)) ∧
    ∃ rs, offered g st p.2 = some rs ∧ ∃ r ∈ rs, ∃ i, iface.find? (inNet r) = some i ∧ i.ip = ip

structure Held (g : Generator) (db : ConfigDb) (name : Str) (ips : IfacePorts) : Prop where
  nodup : (Dict.keys ips).Nodup
  ports_nodup : ∀ p ∈ ips, (Dict.keys p.2).Nodup ∧ p.2 ≠ []
  serves : ∀ p ∈ ips, ∀ q ∈ p.2, q.2 ≠ [] ∧ Serves g db name p.1 q.1
  inside : ∀ p ∈ ips, ∃ net, ipNetworkLoose p.1 = some net ∧ ∀ q ∈ p.2, ∀ r ∈ q.2, Inside net r

theorem mem_asks {rows : Table} {name port : Str} {r : Range}
    (h : (port, r) ∈ rows.flatMap (asksOf g st name)) :
    ∃ p ∈ rows, ∃ iface, portTarget g st p = some (some (name, port, iface)) ∧ ∃ rs, offered g st p.2 = some rs ∧
      r ∈ rs := by
  obtain ⟨p, hp, h⟩ := List.mem_flatMap.mp h
  unfold asksOf at h
  split at h
  · rename_i t ht
    split at h
    · rename_i hname
      obtain ⟨r', hr, he⟩ := List.mem_map.mp h
      cases he
      subst hname
      refine ⟨p, hp, t.2.2, ht, ?_⟩
      cases hoff : offered g st p.2 <;> grind
    · cases h
  · cases h

theorem mem_asks_of {rows : Table} {name port : Str} {r : Range} {p : Str × Entry} {iface : List IfaceIp}
    {rs : List Range} (hp : p ∈ rows) (ht : portTarget g st p = some (some (name, port, iface)))
    (ho : offered g st p.2 = some rs) (hr : r ∈ rs) :
    rows.any (targets g st name) = true ∧ (port, r) ∈ rows.flatMap (asksOf g st name) := by
  refine ⟨List.any_eq_true.mpr ⟨p, hp, ?_⟩, List.mem_flatMap.mpr ⟨p, hp, ?_⟩⟩ <;> simp_all [targets, asksOf]

theorem keys_mergePorts (ips : IfacePorts) : Dict.keys (mergePorts ips) = Dict.keys ips := by
  rw [Dict.keys, mergePorts, List.map_map]
  rfl

theorem rowIps_held {row : Str × Entry} (hst : site db = some st)
    (hp : parsePort g st (db.table .dhcpServerIpv4Port) = some portIps) (hrow : row ∈ db.table .dhcpServerIpv4) :
    Held g db row.1 (rowIps portIps row) := by
  have hempty : Held g db row.1 [] := ⟨nodup_nil, nofun, nofun, nofun⟩
  unfold rowIps
  split
  · rename_i hpm
    rw [parsePort_get? hp]
    split
    · have h := placed st row.1 ((db.table .dhcpServerIpv4Port).flatMap (asksOf g st row.1))
      generalize ((db.table .dhcpServerIpv4Port).flatMap (asksOf g st row.1)).foldl (place st row.1) [] = ips at h
      rw [getD_some]
      have hports : ∀ p ∈ mergePorts ips, ∃ ports, ips.get? p.1 = some ports ∧
          p.2 = ports.map fun q => (q.1, mergeIntervals q.2) := by
        intro p hp
        obtain ⟨p', hp', rfl⟩ := List.mem_map.mp hp
        grind [Dict.get?_of_nodup, h.nodup]
      have hranges : ∀ p ∈ mergePorts ips, ∀ q ∈ p.2, ∃ rs, q.2 = mergeIntervals rs ∧ rs ≠ [] ∧
          ∀ r ∈ rs, (q.1, r) ∈ (db.table .dhcpServerIpv4Port).flatMap (asksOf g st row.1) ∧
            ∃ i, (addresses st row.1).find? (inNet r) = some i ∧ i.ip = p.1 := by
        intro p hp q hq
        obtain ⟨ports, hget, he⟩ := hports p hp
        rw [he] at hq
        obtain ⟨q', hq', rfl⟩ := List.mem_map.mp hq
        have hheld := h.held p.1 ports q'.1 q'.2 hget (Dict.get?_of_nodup (h.ports_nodup _ _ hget).1 hq')
        grind
      refine ⟨keys_mergePorts ips ▸ h.nodup, fun p hp => ?_, fun p hp q hq => ?_, fun p hp => ?_⟩
      · obtain ⟨ports, hget, he⟩ := hports p hp
        obtain ⟨hn, hne⟩ := h.ports_nodup _ _ hget
        rw [he, Dict.keys, List.map_map]
        exact ⟨hn, by simpa using hne⟩
      · obtain ⟨rs, he, hne, hr⟩ := hranges p hp q hq
        refine ⟨he ▸ mergeIntervals_ne_nil hne, ⟨row.2, Dict.get?_of_nodup (db.nodup _) hrow, hpm⟩, st, hst, ?_⟩
        obtain ⟨r, hr'⟩ := exists_mem_of_ne_nil rs hne
        obtain ⟨hask, i, hi, hip⟩ := hr r hr'
        obtain ⟨p', hp', iface, ht, rs', ho, hmem⟩ := mem_asks hask
        have haddr : addresses st row.1 = iface := by rw [addresses, portTarget_iface ht, getD_some]
        grind
      · -- Some range is held under the address, so the address is one of the interface.
        obtain ⟨ports, hget, he⟩ := hports p hp
        have hne : p.2 ≠ [] := by
          rw [he]
          simpa using (h.ports_nodup _ _ hget).2
        obtain ⟨q, hq⟩ := exists_mem_of_ne_nil _ hne
        obtain ⟨rs, -, hrs, hr⟩ := hranges p hp q hq
        obtain ⟨r, hr'⟩ := exists_mem_of_ne_nil rs hrs
        obtain ⟨-, i, hi, hip⟩ := hr r hr'
        refine ⟨i.network, hip ▸ addresses_parsed hst (List.mem_of_find?_eq_some hi), fun q hq r hr => ?_⟩
        obtain ⟨rs, hmerge, -, hr'⟩ := hranges p hp q hq
        have hcontains : ∀ a ∈ rs, i.network.contains a.1 = true ∧ i.network.contains a.2 = true := by
          intro a ha
          obtain ⟨-, j, hj, hjp⟩ := hr' a ha
          have hnet : j.network = i.network := by
            have hj' := addresses_parsed hst (List.mem_of_find?_eq_some hj)
            rw [hjp, ← hip, addresses_parsed hst (List.mem_of_find?_eq_some hi)] at hj'
            grind
          have := List.find?_some hj
          rwa [inNet, Bool.and_eq_true, hnet] at this
        obtain ⟨⟨a, ha, hra⟩, b, hb, hrb⟩ := mergeIntervals_endsIn rs r (hmerge ▸ hr)
        rw [← Prod.eta r, hra, hrb]
        exact inside_of_contains (hcontains a ha).1 (hcontains b hb).2
    · exact hempty
  · exact hempty

def servedAddresses (portIps : Dict Str IfacePorts) (rows : Table) : List (Str × Str) :=
  rows.flatMap fun row => (rowIps portIps row).map fun p => (row.1, p.1)

def servedPorts (portIps : Dict Str IfacePorts) (rows : Table) : List (Str × Str × Str) :=
  rows.flatMap fun row => (rowIps portIps row).flatMap fun p => p.2.map fun q => (row.1, p.1, q.1)

section
variable {st : Site} {portIps : Dict Str IfacePorts} (hst : site db = some st)
  (hp : parsePort g st (db.table .dhcpServerIpv4Port) = some portIps)
include hst hp

theorem mem_servedPorts {name ip port : Str} :
    (name, ip, port) ∈ servedPorts portIps (db.table .dhcpServerIpv4) ↔ Serves g db name ip port := by
  constructor
  · intro h
    obtain ⟨row, hrow, h⟩ := List.mem_flatMap.mp h
    obtain ⟨p, hpm, h⟩ := List.mem_flatMap.mp h
    obtain ⟨q, hq, he⟩ := List.mem_map.mp h
    cases he
    exact ((rowIps_held hst hp hrow).serves p hpm q hq).2
  · rintro ⟨⟨config, hget, hpm⟩, st', hst', p, hpt, iface, ht, rs, ho, r, hr, i, hi, rfl⟩
    rw [hst] at hst'
    cases hst'
    have hrow := Dict.get?_eq_some_mem hget
    obtain ⟨hany, hask⟩ := mem_asks_of hpt ht ho hr
    have haddr : addresses st name = iface := by rw [addresses, portTarget_iface ht, getD_some]
    have hplaced := placed st name ((db.table .dhcpServerIpv4Port).flatMap (asksOf g st name))
    obtain ⟨ports, rs', hports, hrs'⟩ := hplaced.kept _ hask i (haddr ▸ hi)
    refine List.mem_flatMap.mpr ⟨(name, config), hrow,
      List.mem_flatMap.mpr ⟨(i.ip, ports.map fun q => (q.1, mergeIntervals q.2)), ?_, ?_⟩⟩
    · rw [rowIps, if_pos hpm, parsePort_get? hp, if_pos hany, getD_some]
      exact List.mem_map.mpr ⟨_, Dict.get?_eq_some_mem hports, rfl⟩
    · exact List.mem_map.mpr ⟨_, List.mem_map.mpr ⟨_, Dict.get?_eq_some_mem hrs', rfl⟩, rfl⟩

theorem mem_servedAddresses {name ip : Str} :
    (name, ip) ∈ servedAddresses portIps (db.table .dhcpServerIpv4) ↔ ∃ port, Serves g db name ip port := by
  constructor
  · intro h
    obtain ⟨row, hrow, h⟩ := List.mem_flatMap.mp h
    obtain ⟨p, hpm, he⟩ := List.mem_map.mp h
    cases he
    have hheld := rowIps_held hst hp hrow
    obtain ⟨q, hq⟩ := exists_mem_of_ne_nil _ (hheld.ports_nodup p hpm).2
    exact ⟨q.1, (hheld.serves p hpm q hq).2⟩
  · rintro ⟨port, h⟩
    obtain ⟨row, hrow, h⟩ := List.mem_flatMap.mp ((mem_servedPorts hst hp).mpr h)
    obtain ⟨p, hpm, h⟩ := List.mem_flatMap.mp h
    obtain ⟨q, hq, he⟩ := List.mem_map.mp h
    cases he
    exact List.mem_flatMap.mpr ⟨row, hrow, List.mem_map.mpr ⟨p, hpm, rfl⟩⟩

theorem servedAddresses_nodup : (servedAddresses portIps (db.table .dhcpServerIpv4)).Nodup := by
  refine nodup_flatMap (fun x => x.1) (db.nodup _) (fun row _ x hx => ?_) fun row hrow => ?_
  · grind
  · refine List.Nodup.of_map (·.2) ?_
    rw [List.map_map]
    exact (rowIps_held hst hp hrow).nodup

theorem servedPorts_nodup : (servedPorts portIps (db.table .dhcpServerIpv4)).Nodup := by
  refine nodup_flatMap (fun x => x.1) (db.nodup _) (fun row _ x hx => ?_) fun row hrow => ?_
  · grind
  · have hheld := rowIps_held hst hp hrow
    refine nodup_flatMap (fun x => x.2.1) hheld.nodup (fun p _ x hx => ?_) fun p hpm => ?_
    · grind
    · refine List.Nodup.of_map (·.2.2) ?_
      rw [List.map_map]
      exact (hheld.ports_nodup p hpm).1

variable {host : Str} {smart : Bool} {options : Dict Str CustomizedOption} {blocks : List Block}
  (hb : (db.table .dhcpServerIpv4).mapM (rowBlock host smart options portIps) = some blocks)
include hb

omit hst hp in
theorem subnetIds : (blocks.flatMap (·.subnets)).map (·.id) =
    (servedAddresses portIps (db.table .dhcpServerIpv4)).map fun x => subnetId smart x.1 := by
  rw [map_flatMap, servedAddresses, map_flatMap]
  refine forall₂_flatMap (fun row b h => ?_) (mapM_some hb)
  rw [List.map_map, ← forall₂_eq_eq_eq, forall₂_map_left_iff, forall₂_map_right_iff]
  exact List.Forall₂.flip ((subnetsOf_spec (rowBlock_spec h).subnets).imp fun _ _ hs => hs.1)

theorem classNames : (blocks.flatMap (·.clientClasses)).map (·.name) =
    (servedPorts portIps (db.table .dhcpServerIpv4)).map fun x => clientClassName host x.2.2 := by
  rw [map_flatMap, servedPorts, map_flatMap]
  refine forall₂_flatMap (fun row b h => ?_) ((forall₂_and_left _ _).mpr ⟨fun _ ha => ha, mapM_some hb⟩)
  obtain ⟨hrow, h⟩ := h
  rw [(rowBlock_spec h).clientClasses, map_flatMap, map_flatMap]
  refine flatMap_congr fun p hpm => ?_
  have hfilter : p.2.filter (fun q => q.2 ≠ []) = p.2 :=
    List.filter_eq_self.mpr fun q hq => decide_eq_true ((rowIps_held hst hp hrow).serves p hpm q hq).1
  rw [classesOf, hfilter, List.map_map, List.map_map]
  rfl

omit hst hp in
theorem mem_subnets {s : Subnet} (hs : s ∈ blocks.flatMap (·.subnets)) : ∃ row ∈ db.table .dhcpServerIpv4, ∃ curr l,
    subnetsOf host (subnetId smart row.1) row.2 curr
      ((currOptions options (itemsOf row.2 "customized_options")).2.map .configured) (rowIps portIps row) = some l ∧
    s ∈ l := by
  obtain ⟨b, hbm, hs⟩ := List.mem_flatMap.mp hs
  obtain ⟨row, hrow, h⟩ := forall₂_mem (mapM_some hb) hbm
  exact ⟨row, hrow, _, _, (rowBlock_spec h).subnets, hs⟩

end

theorem subnetsOf_mem {id : SubnetId} {config : Entry} {curr : Dict Str CurrOption}
    {sid : Option ServerIdOption} {ips : IfacePorts} {l : List Subnet}
    (h : subnetsOf host id config curr sid ips = some l) {s : Subnet} (hs : s ∈ l) :
    ∃ p ∈ ips, s.id = id ∧ ipNetworkLoose p.1 = some s.subnet ∧ s.pools = poolsOf host p.2 := by
  obtain ⟨p, hp, hsp⟩ := forall₂_mem (subnetsOf_spec h) hs
  exact ⟨p, hp, hsp⟩

theorem parsed_rows {β : Type*} {f : Entry → Option (Option β)} {m : Dict Str β} {t : Table}
    (h : ((t.mapM fun p => (f p.2).map fun r => (p.1, r)).map fun l => l.filterMap fun q => q.2.map fun r => (q.1, r)) =
      some m) :
    m = t.filterMap fun p => ((f p.2).getD none).map fun r => (p.1, r) := by
  obtain ⟨l, hl, rfl⟩ := Option.map_eq_some_iff.mp h
  have hrows := mapM_some hl
  clear hl h
  induction hrows <;> grind [map_eq_some_iff]

theorem parsed_rows_get? {β : Type*} {f : Entry → Option (Option β)} {m : Dict Str β} {t : Table}
    (h : ((t.mapM fun p => (f p.2).map fun r => (p.1, r)).map fun l => l.filterMap fun q => q.2.map fun r => (q.1, r)) =
      some m) (hn : (Dict.keys t).Nodup) (k : Str) : m.get? k = (t.get? k).bind fun e => (f e).getD none := by
  have hkey : ∀ (p : Str × Entry) (q : Str × β), (((f p.2).getD none).map fun r => (p.1, r)) = some q → q.1 = p.1 := by
    grind [map_eq_some_iff]
  rw [parsed_rows h, Dict.get?_filterMap_of_nodup hkey hn]
  simp only [Option.map_map, Function.comp_def, Option.map_id']

/-- One round of the loop over the options of an interface. -/
def addOption (options : Dict Str CustomizedOption) (acc : Dict Str CurrOption × Option CurrOption) (name : Str) :
    Dict Str CurrOption × Option CurrOption :=
  match options.get? name with
  | none => acc
  | some o => if o.id = optionDhcpServerId then (acc.1, some o.curr) else (acc.1.set name o.curr, acc.2)

theorem addOptions_cases (options : Dict Str CustomizedOption) : ∀ (names : List Str)
    (acc : Dict Str CurrOption × Option CurrOption),
    (∃ name ∈ names, ∃ o, options.get? name = some o ∧ o.id = "54".toList ∧
      (names.foldl (addOption options) acc).2 = some o.curr) ∨
    (∀ name ∈ names, ∀ o, options.get? name = some o → o.id ≠ "54".toList) ∧
      (names.foldl (addOption options) acc).2 = acc.2
  | [], acc => .inr ⟨nofun, rfl⟩
  | name :: names, acc => by
    rw [foldl_cons]
    rcases addOptions_cases options names (addOption options acc name) with ⟨name', hmem, o, ho, hid, he⟩ | ⟨hall, he⟩
    · exact .inl ⟨name', mem_cons_of_mem _ hmem, o, ho, hid, he⟩
    · rw [he, addOption]
      cases hn : options.get? name with
      | none => exact .inr ⟨forall_mem_cons.mpr ⟨fun o ho => (nomatch hn.symm.trans ho), hall⟩, rfl⟩
      | some o =>
        dsimp only
        by_cases hid : o.id = "54".toList
        · exact .inl ⟨name, mem_cons_self, o, hn, hid, congrArg Prod.snd (if_pos hid)⟩
        · refine .inr ⟨forall_mem_cons.mpr ⟨fun o' ho' => ?_, hall⟩, ?_⟩
          · cases hn.symm.trans ho'
            exact hid
          · rw [show optionDhcpServerId = "54".toList from rfl, if_neg hid]

/-! ## The configuration -/

/-- The row of an interface names an option that is accepted and has the number of the server id. -/
def HasServerId (g : Generator) (db : ConfigDb) (config : Entry) : Prop :=
  ∃ name ∈ itemsOf config "customized_options", ∃ row, (db.table .dhcpServerIpv4CustomizedOptions).get? name =
    some row ∧
    row.get? "id" = some (.text "54".toList) ∧ ∃ o, parseCustomizedOption g row = some (some o)

theorem parseCustomizedOption_id {g : Generator} {row : Entry} {o : CustomizedOption}
    (h : parseCustomizedOption g row = some (some o)) : row.get? "id" = some (.text o.id) := by
  obtain ⟨v, hv, h⟩ := Option.bind_eq_some_iff.mp h
  obtain ⟨id, hid, h⟩ := Option.bind_eq_some_iff.mp h
  have hval : v = .text id := by
    cases v with
    | text s => exact congrArg Val.text (Option.some.inj hid)
    | list l => cases hid
  rw [hv, hval]
  dsimp only at h
  split at h
  · cases h
  · split at h
    · cases h
    · obtain ⟨value, -, h⟩ := Option.bind_eq_some_iff.mp h
      split at h
      · cases h
      · split at h
        · cases h
          rfl
        · cases h

theorem hasServerId_iff {g : Generator} {db : ConfigDb} {config : Entry} {options : Dict Str CustomizedOption}
    (ho : parseCustomizedOptions g (db.table .dhcpServerIpv4CustomizedOptions) = some options) :
    HasServerId g db config ↔
      ∃ name ∈ itemsOf config "customized_options", ∃ o, options.get? name = some o ∧ o.id = "54".toList := by
  have hget := parsed_rows_get? ho (db.nodup _)
  constructor
  · rintro ⟨name, hname, row, hrow, hid, o, hparse⟩
    refine ⟨name, hname, o, by rw [hget, hrow, Option.bind_some, hparse]; rfl, ?_⟩
    rw [parseCustomizedOption_id hparse] at hid
    exact Val.text.inj (Option.some.inj hid)
  · rintro ⟨name, hname, o, hopt, hid⟩
    rw [hget] at hopt
    obtain ⟨row, hrow, hparse⟩ := Option.bind_eq_some_iff.mp hopt
    have hparse' : parseCustomizedOption g row = some (some o) := by
      cases hp : parseCustomizedOption g row with
      | none => rw [hp] at hparse; cases hparse
      | some x => rw [hp] at hparse; exact congrArg some hparse
    exact ⟨name, hname, row, hrow, by rw [parseCustomizedOption_id hparse', hid], o, hparse'⟩


/-- What kea-dhcp4 needs of the object: ids and classes are distinct, the pools of a subnet lie in it, and a subnet is
made for an address of the interface in its id, which is its server id unless the interface has an option for that. -/
structure KeaSound (g : Generator) (db : ConfigDb) (o : RenderObj) : Prop where
  ids : (o.subnets.map (·.id)).Nodup
  classes : (o.clientClasses.map (·.name)).Nodup
  pools : ∀ s ∈ o.subnets, ∀ pool ∈ s.pools, Inside s.subnet pool.range
  serverId : ∀ s ∈ o.subnets, ∃ name config ip, (db.table .dhcpServerIpv4).get? name = some config ∧
    s.id = subnetId (isSmartSwitch db) name ∧ (∃ port, Serves g db name ip port) ∧ ipNetworkLoose ip = some s.subnet ∧
    (¬ HasServerId g db config → s.dhcpServerIdOption = .address ((split '/' ip).headD [])) ∧
    (HasServerId g db config → ∃ o, s.dhcpServerIdOption = .configured o ∧ o.id = "54".toList)

/-- The addresses that serve a port have ids of their own. -/
def DistinctIds (g : Generator) (db : ConfigDb) : Prop := ∀ name ip port name' ip' port', Serves g db name ip port →
  Serves g db name' ip' port' → subnetId (isSmartSwitch db) name = subnetId (isSmartSwitch db) name' →
  name = name' ∧ ip = ip'

/-- A port is served from one address only. -/
def DistinctPorts (g : Generator) (db : ConfigDb) : Prop := ∀ name ip name' ip' port, Serves g db name ip port →
  Serves g db name' ip' port → name = name' ∧ ip = ip'

theorem distinct_of_one (hst : site db = some st)
    (hp : parsePort g st (db.table .dhcpServerIpv4Port) = some portIps) {x : Str × Str × Str}
    (h : servedPorts portIps (db.table .dhcpServerIpv4) = [x]) : DistinctIds g db ∧ DistinctPorts g db := by
  have hx : ∀ {name ip port}, Serves g db name ip port → (name, ip, port) = x := fun hs => by
    have := (mem_servedPorts hst hp).mpr hs
    simp_all
  constructor
  · intro name ip port name' ip' port' hs hs' _
    grind
  · intro name ip name' ip' port hs hs'
    grind

theorem kea_sound_iff (h : generate g db = some r) :
    KeaSound g db r.renderObj ↔ DistinctIds g db ∧ DistinctPorts g db := by
  obtain ⟨host, st, portIps, options, blocks, -, hst, hp, ho, hb, rfl⟩ := generate_some h
  have hids : ((blocks.flatMap (·.subnets)).map (·.id)).Nodup ↔ DistinctIds g db := by
    rw [subnetIds hb, List.nodup_map_iff_inj_on (servedAddresses_nodup hst hp)]
    constructor
    · intro hinj name ip port name' ip' port' hs hs' he
      have := hinj (name, ip) ((mem_servedAddresses hst hp).mpr ⟨port, hs⟩) (name', ip')
        ((mem_servedAddresses hst hp).mpr ⟨port', hs'⟩) he
      exact Prod.mk.inj this
    · rintro hd ⟨name, ip⟩ hx ⟨name', ip'⟩ hx' he
      obtain ⟨port, hs⟩ := (mem_servedAddresses hst hp).mp hx
      obtain ⟨port', hs'⟩ := (mem_servedAddresses hst hp).mp hx'
      obtain ⟨rfl, rfl⟩ := hd name ip port name' ip' port' hs hs' he
      rfl
  have hclasses : ((blocks.flatMap (·.clientClasses)).map (·.name)).Nodup ↔ DistinctPorts g db := by
    rw [classNames hst hp hb, List.nodup_map_iff_inj_on (servedPorts_nodup hst hp)]
    constructor
    · intro hinj name ip name' ip' port hs hs'
      have := hinj (name, ip, port) ((mem_servedPorts hst hp).mpr hs) (name', ip', port)
        ((mem_servedPorts hst hp).mpr hs') rfl
      cases this
      exact ⟨rfl, rfl⟩
    · rintro hd ⟨name, ip, port⟩ hx ⟨name', ip', port'⟩ hx' he
      obtain rfl : port = port' := (List.cons.inj (List.append_cancel_left he)).2
      obtain ⟨rfl, rfl⟩ := hd name ip name' ip' port ((mem_servedPorts hst hp).mp hx) ((mem_servedPorts hst hp).mp hx')
      rfl
  refine ⟨fun hk => ⟨hids.mp hk.ids, hclasses.mp hk.classes⟩, fun hd => ⟨hids.mpr hd.1, hclasses.mpr hd.2, ?_, ?_⟩⟩
  · intro s hs pool hpool
    obtain ⟨row, hrow, curr, l, hsub, hsl⟩ := mem_subnets hb hs
    obtain ⟨p, hpm, -, hnet, hpools⟩ := subnetsOf_mem hsub hsl
    obtain ⟨net, hnet', hin⟩ := (rowIps_held hst hp hrow).inside p hpm
    rw [hpools] at hpool
    obtain ⟨q, hq, hpool⟩ := List.mem_flatMap.mp hpool
    obtain ⟨r, hr, rfl⟩ := List.mem_map.mp hpool
    rw [hnet] at hnet'
    cases hnet'
    exact hin q hq r hr
  · intro s hs
    obtain ⟨row, hrow, curr, l, hsub, hsl⟩ := mem_subnets hb hs
    obtain ⟨p, hpm, hid, hnet, -⟩ := subnetsOf_mem hsub hsl
    have hheld := rowIps_held hst hp hrow
    have hserves : ∀ p ∈ rowIps portIps row, ∃ port, Serves g db row.1 p.1 port := by
      intro p hpm
      obtain ⟨q, hq⟩ := List.exists_mem_of_ne_nil _ (hheld.ports_nodup p hpm).2
      exact ⟨q.1, (hheld.serves p hpm q hq).2⟩
    -- The interface serves from one address only, so the server id is not one of an address before.
    have hone : rowIps portIps row = [p] := by
      refine eq_singleton hheld.nodup hpm fun q hqm => ?_
      obtain ⟨port, hs⟩ := hserves p hpm
      obtain ⟨port', hs'⟩ := hserves q hqm
      exact (hd.1 row.1 q.1 port' row.1 p.1 port hs' hs rfl).2
    rw [hone] at hsub
    have hsid := subnetsOf_single hsub s hsl
    refine ⟨row.1, row.2, p.1, Dict.get?_of_nodup (db.nodup _) hrow, hid, hserves p hpm, hnet, ?_⟩
    rw [hasServerId_iff ho]
    rcases addOptions_cases options (itemsOf row.2 "customized_options") ([], none) with
      ⟨name, hname, o, hopt, h54, he⟩ | ⟨hall, he⟩
    · rw [show (currOptions options (itemsOf row.2 "customized_options")).2 = some o.curr from he] at hsid
      exact ⟨fun hno => absurd ⟨name, hname, o, hopt, h54⟩ hno, fun _ => ⟨o.curr, hsid, h54⟩⟩
    · rw [show (currOptions options (itemsOf row.2 "customized_options")).2 = none from he] at hsid
      exact ⟨fun _ => hsid, fun ⟨name, hname, o, hopt, h54⟩ => absurd h54 (hall name hname o hopt)⟩

end

def plainGenerator : Generator where
  portAliasMap := [("Ethernet0", "etp1")]
  standardOptions := []
  customizedOptions := ["223"]
  leasePath := "/var/lib/kea/kea-lease.csv"
  leaseUpdateScriptPath := "/etc/kea/lease_update.sh"
  hookLibPath := []
  setOrder := id
  mem_setOrder := fun _ _ => Iff.rfl

def vlanDb (interfaces : List Str) (h : interfaces.Nodup) : ConfigDb where
  table
    | .deviceMetadata => [("localhost", [("hostname", .text "sonic")])]
    | .vlanInterface => interfaces.map fun ip => ("Vlan1000|" ++ ip, [])
    | .vlanMember => [("Vlan1000|Ethernet0", [])]
    | .dhcpServerIpv4 => [("Vlan1000",
        [("state", .text "enabled"), ("mode", .text "PORT")])]
    | .dhcpServerIpv4Port => [("Vlan1000|Ethernet0",
        [("ips", .list ["10.0.0.5", "10.0.1.5"])])]
    | _ => []
  nodup t := by
    cases t
    case vlanInterface =>
      rw [Dict.keys, List.map_map]
      exact h.map fun _ _ e => List.append_cancel_left e
    all_goals first | exact List.nodup_nil | exact List.nodup_singleton _

def oneAddress : ConfigDb := vlanDb ["10.0.0.1/24"] (by decide +kernel)

def twoAddresses : ConfigDb := vlanDb ["10.0.0.1/24", "10.0.1.1/24"] (by decide +kernel)

theorem kea_sound_one_address :
    ∃ r, generate plainGenerator oneAddress = some r ∧
      r.renderObj.subnets.map (fun s => (s.id, s.dhcpServerIdOption)) =
        [(.vlan "1000".toList, .address "10.0.0.1".toList)] ∧
      KeaSound plainGenerator oneAddress r.renderObj :=
  ⟨_, (Option.some_get (by decide +kernel)).symm, by decide +kernel,
    (kea_sound_iff (Option.some_get _).symm).mpr
      (distinct_of_one (Option.some_get (by decide +kernel)).symm (Option.some_get (by decide +kernel)).symm
        (x := ("Vlan1000".toList, "10.0.0.1/24".toList, "etp1".toList)) (by decide +kernel))⟩

theorem two_addresses_clash :
    ∃ r, generate plainGenerator twoAddresses = some r ∧
      r.renderObj.subnets.map (fun s => (s.id, s.dhcpServerIdOption)) =
        [(.vlan "1000".toList, .address "10.0.0.1".toList), (.vlan "1000".toList, .address "10.0.0.1".toList)] ∧
      r.renderObj.clientClasses.map (·.name) = ["sonic:etp1".toList, "sonic:etp1".toList] ∧
      ¬ KeaSound plainGenerator twoAddresses r.renderObj :=
  ⟨_, (Option.some_get (by decide +kernel)).symm, by decide +kernel, by decide +kernel,
    fun h => absurd h.ids (by decide +kernel)⟩

end Sonic.Dhcp
