import Sonic.StaticRoute

/-! # Redistribution of static routes

Redistribution is switched per VRF when its first route comes and its last one goes, but all VRFs
share one route-map, and a route can also leave the tables without a command. Away from these two
cases the VRFs that redistribute are those with routes, and the route-map is there. -/

namespace Sonic.StaticRoute
open List

def redistOk (dbName : Str) (s : Sys) : Event → Prop
  | .set key data =>
    match splitKey key with
    | some (vrf, ipPrefix) =>
      bfdEnabled data → (((s.mgr.routesOf vrf).get? ipPrefix).getD ([], [])).1 ≠ [] →
        (s.mgr.routesOf vrf).keys ≠ [ipPrefix]
    | none => True
  | .del key configDb =>
    match splitKey key with
    | some (vrf, ipPrefix) => (s.mgr.routesOf vrf).keys = [ipPrefix] →
      skipApplDel dbName configDb vrf ipPrefix = false ∧
      (s.mgr.bgpAsn ≠ none → ∀ v ∈ s.mgr.staticRoutes.keys, v ≠ vrf → s.mgr.routesOf v = [])
    | none => True
  | .asn _ => True

instance (dbName : Str) (s : Sys) : ∀ e, Decidable (redistOk dbName s e)
  | .set key data =>
    match h : splitKey key with
    | none => isTrue (by rw [redistOk, h]; trivial)
    | some (vrf, ipPrefix) => decidable_of_iff
        (bfdEnabled data → (((s.mgr.routesOf vrf).get? ipPrefix).getD ([], [])).1 ≠ [] →
          (s.mgr.routesOf vrf).keys ≠ [ipPrefix]) (by rw [redistOk, h])
  | .del key configDb =>
    match h : splitKey key with
    | none => isTrue (by rw [redistOk, h]; trivial)
    | some (vrf, ipPrefix) => decidable_of_iff
        ((s.mgr.routesOf vrf).keys = [ipPrefix] → skipApplDel dbName configDb vrf ipPrefix = false ∧
          (s.mgr.bgpAsn ≠ none → ∀ v ∈ s.mgr.staticRoutes.keys, v ≠ vrf → s.mgr.routesOf v = []))
        (by rw [redistOk, h])
  | .asn _ => isTrue trivial

section
variable {isIpv6 : Str → Bool} {iter : ∀ α : Type, List α → List α} {dbName : Str}

theorem exec_routes_only {f : Frr} (cmds : List Command) (h : ∀ c ∈ cmds, ∃ delete line, c = .route delete line) :
    ∃ routes, cmds.foldl Frr.exec f = { f with routes := routes } := by
  induction cmds generalizing f with
  | nil => exact ⟨f.routes, rfl⟩
  | cons c cmds ih =>
    obtain ⟨delete, line, rfl⟩ := h c mem_cons_self
    have hrest : ∀ c ∈ cmds, ∃ delete line, c = .route delete line := fun c hc => h c (mem_cons_of_mem _ hc)
    cases delete with
    | false =>
      obtain ⟨routes, hr⟩ := ih (f := { f with routes := Lines.add f.routes line }) hrest
      exact ⟨routes, hr⟩
    | true =>
      obtain ⟨routes, hr⟩ := ih (f := { f with routes := Lines.remove f.routes line }) hrest
      exact ⟨routes, hr⟩

variable (iter) in
theorem staticRouteCommands_routes (nhs cur : List IpNextHop) (ipPrefix vrf tag curTag : Str) :
    ∀ c ∈ staticRouteCommands iter nhs cur ipPrefix vrf tag curTag, ∃ delete line, c = .route delete line := by
  intro c hc
  unfold staticRouteCommands at hc
  split at hc <;> rcases List.mem_append.mp hc with hc | hc <;> obtain ⟨nh, -, rfl⟩ := List.mem_map.mp hc <;>
    exact ⟨_, _, rfl⟩

theorem push_routes_only (f : Frr) {cmds : List Command} (h : ∀ c ∈ cmds, ∃ delete line, c = .route delete line) :
    (f.push cmds).routeMap = f.routeMap ∧ (f.push cmds).redistributes = f.redistributes := by
  obtain ⟨routes, hr⟩ := exec_routes_only (f := { f with node := .config }) cmds h
  rw [Frr.push, hr]
  exact ⟨rfl, rfl⟩

theorem push_enable (f : Frr) {cmds : List Command} (h : ∀ c ∈ cmds, ∃ delete line, c = .route delete line)
    (asn vrf : Str) : (f.push (cmds ++ enableRedistributionCommand asn vrf)).routeMap = true ∧
      ∀ v af, (v, af) ∈ (f.push (cmds ++ enableRedistributionCommand asn vrf)).redistributes ↔
        (v, af) ∈ f.redistributes ∨ v = vrf ∧ af ∈ families := by
  obtain ⟨routes, hr⟩ := exec_routes_only (f := { f with node := .config }) cmds h
  rw [Frr.push, foldl_append, hr]
  refine ⟨rfl, fun v af => ?_⟩
  show (v, af) ∈ Lines.add (Lines.add f.redistributes (vrf, "ipv4")) (vrf, "ipv6") ↔ _
  grind [Lines.mem_add, families]

theorem push_disable (f : Frr) {cmds : List Command} (h : ∀ c ∈ cmds, ∃ delete line, c = .route delete line)
    (asn vrf : Str) : ∀ v af, (v, af) ∈ (f.push (cmds ++ disableRedistributionCommand asn vrf)).redistributes ↔
      (v, af) ∈ f.redistributes ∧ ¬ (v = vrf ∧ af ∈ families) := by
  obtain ⟨routes, hr⟩ := exec_routes_only (f := { f with node := .config }) cmds h
  rw [Frr.push, foldl_append, hr]
  intro v af
  show (v, af) ∈ Lines.remove (Lines.remove f.redistributes (vrf, "ipv4")) (vrf, "ipv6") ↔ _
  rw [Lines.mem_remove, Lines.mem_remove, families, mem_pair, Ne, Ne, Prod.mk.injEq, Prod.mk.injEq]
  tauto

theorem pushes_enable (asn : Str) (vrfs : List Str) (f : Frr) :
    (((vrfs.map (enableRedistributionCommand asn)).foldl Frr.push f).routeMap = true ∨ vrfs = []) ∧
    ∀ v af, (v, af) ∈ ((vrfs.map (enableRedistributionCommand asn)).foldl Frr.push f).redistributes ↔
      (v, af) ∈ f.redistributes ∨ v ∈ vrfs ∧ af ∈ families := by
  induction vrfs generalizing f with
  | nil => simp_all
  | cons vrf vrfs ih =>
    have h := push_enable f (forall_mem_nil _) asn vrf
    grind

end

theorem routesOf_set (m : Mgr) (vrf : Str) (rs : Routes) (v : Str) :
    Mgr.routesOf { m with staticRoutes := m.staticRoutes.set vrf rs } v = if vrf = v then rs else m.routesOf v := by
  grind [Mgr.routesOf]

theorem routesOf_ne_nil_mem {m : Mgr} {v : Str} (h : m.routesOf v ≠ []) : v ∈ m.staticRoutes.keys := by
  grind [Mgr.routesOf, Dict.get?_eq_none_iff]

theorem erase_eq_nil_iff {rs : Routes} (hn : rs.keys.Nodup) {p : Str} :
    rs.erase p = [] ↔ rs = [] ∨ rs.keys = [p] := by
  constructor
  · intro h
    rcases rs with _ | ⟨⟨k, r⟩, _ | ⟨⟨k', r'⟩, rs⟩⟩
    · exact .inl rfl
    · right
      by_contra hk
      have : (k, r) ∈ Dict.erase [(k, r)] p := Dict.mem_erase.mpr ⟨mem_cons_self, fun he => hk (by rw [← he]; rfl)⟩
      simp_all
    · -- one of the two different keys is left
      have hkk : k ≠ k' := fun he => (List.nodup_cons.mp hn).1 (by rw [he]; exact mem_cons_self)
      simp_all [Dict.erase]
  · rintro (rfl | h)
    · rfl
    · obtain ⟨⟨k, r⟩, rfl, rfl⟩ := List.map_eq_singleton_iff.mp h
      exact List.filter_eq_nil_iff.mpr (by simp)

/-! ## Runs -/

structure Redistributed (s : Sys) : Prop where
  nodup : ∀ vrf, (s.mgr.routesOf vrf).keys.Nodup
  pending : ∀ vrf, vrf ∈ s.mgr.vrfPendingRedistribution ↔ s.mgr.bgpAsn = none ∧ s.mgr.routesOf vrf ≠ []
  enabled : ∀ vrf af, (vrf, af) ∈ s.frr.redistributes ↔
    s.mgr.bgpAsn ≠ none ∧ af ∈ families ∧ s.mgr.routesOf vrf ≠ []
  routeMap : s.mgr.bgpAsn ≠ none → ∀ vrf, s.mgr.routesOf vrf ≠ [] → s.frr.routeMap = true

theorem redistributed_new : Redistributed Sys.new :=
  ⟨fun _ => nodup_nil, by simp [Sys.new, Mgr.new, Mgr.routesOf, Dict.get?], by simp [Sys.new, Mgr.new, Frr.new],
    by simp [Sys.new, Mgr.new]⟩

section
variable {s : Sys} (hs : Redistributed s)
include hs

theorem Redistributed.of_set {vrf : Str} {rs : Routes} {pending : List Str} {f : Frr} (hn : rs.keys.Nodup)
    (hpend : ∀ v, v ∈ pending ↔ s.mgr.bgpAsn = none ∧ (if vrf = v then rs else s.mgr.routesOf v) ≠ [])
    (hen : ∀ v af, (v, af) ∈ f.redistributes ↔
      s.mgr.bgpAsn ≠ none ∧ af ∈ families ∧ (if vrf = v then rs else s.mgr.routesOf v) ≠ [])
    (hmap : s.mgr.bgpAsn ≠ none → ∀ v, (if vrf = v then rs else s.mgr.routesOf v) ≠ [] → f.routeMap = true) :
    Redistributed ⟨⟨s.mgr.staticRoutes.set vrf rs, pending, s.mgr.bgpAsn⟩, f⟩ := by
  have hr : ∀ v, Mgr.routesOf ⟨s.mgr.staticRoutes.set vrf rs, pending, s.mgr.bgpAsn⟩ v =
      if vrf = v then rs else s.mgr.routesOf v := fun v => routesOf_set s.mgr vrf rs v
  refine ⟨fun v => ?_, fun v => ?_, fun v af => ?_, fun ha v hv => ?_⟩
  · grind [hs.nodup]
  · exact hr v ▸ hpend v
  · exact hr v ▸ hen v af
  · exact hmap ha v (hr v ▸ hv)

theorem Redistributed.edit {vrf : Str} {rs : Routes} {f : Frr} (hn : rs.keys.Nodup)
    (hrs : rs = [] ↔ s.mgr.routesOf vrf = []) (hmap : f.routeMap = s.frr.routeMap)
    (hred : f.redistributes = s.frr.redistributes) :
    Redistributed ⟨{ s.mgr with staticRoutes := s.mgr.staticRoutes.set vrf rs }, f⟩ := by
  have hne : ∀ v, (if vrf = v then rs else s.mgr.routesOf v) ≠ [] ↔ s.mgr.routesOf v ≠ [] := by
    intro v
    split
    · simp_all
    · rfl
  refine hs.of_set hn (fun v => ?_) (fun v af => ?_) fun ha v hv => ?_
  · rw [hs.pending v, hne v]
  · rw [hred, hs.enabled v af, hne v]
  · grind [hs.routeMap]

theorem Redistributed.pop {vrf ipPrefix : Str} {f : Frr} (hk : (s.mgr.routesOf vrf).keys ≠ [ipPrefix])
    (hmap : f.routeMap = s.frr.routeMap) (hred : f.redistributes = s.frr.redistributes) :
    Redistributed ⟨s.mgr.pop vrf ipPrefix, f⟩ := by
  have hn := hs.nodup vrf
  refine hs.edit (Dict.nodup_filter _ hn) ?_ hmap hred
  rw [erase_eq_nil_iff hn]
  grind

variable {isIpv6 : Str → Bool} {iter : ∀ α : Type, List α → List α} {dbName : Str}

theorem redistributed_set {s' : Sys} {key : Str} {data : Data} (hok : redistOk dbName s (.set key data))
    (he : step isIpv6 iter dbName s (.set key data) = some s') : Redistributed s' := by
  obtain ⟨⟨m, cmds, b⟩, hm, rfl⟩ := Option.map_eq_some_iff.mp he
  unfold Mgr.setHandler at hm
  obtain ⟨⟨vrf, ipPrefix⟩, hkey, hm⟩ := Option.map_eq_some_iff.mp hm
  simp only [redistOk, hkey] at hok
  dsimp only at hm
  split at hm
  · rename_i hbfd
    split at hm
    · rename_i hcur
      cases hm
      refine hs.pop (hok hbfd fun hnil => hcur ?_) rfl rfl
      cases hr : (s.mgr.routesOf vrf).get? ipPrefix <;> simp_all
    · cases hm
      exact ⟨hs.nodup, hs.pending, hs.enabled, hs.routeMap⟩
  · cases hn : nextHopsOf isIpv6 ipPrefix data with
    | none =>
      simp only [hn] at hm
      cases hm
      exact ⟨hs.nodup, hs.pending, hs.enabled, hs.routeMap⟩
    | some nhs =>
      simp only [hn] at hm
      have hcmds := staticRouteCommands_routes iter nhs
        (((s.mgr.routesOf vrf).get? ipPrefix).getD ([], routeTag data)).1 ipPrefix vrf (routeTag data)
        (((s.mgr.routesOf vrf).get? ipPrefix).getD ([], routeTag data)).2
      have hnodup := Dict.nodup_set ipPrefix (nhs, routeTag data) (hs.nodup vrf)
      have hne := Dict.set_ne_nil ipPrefix (nhs, routeTag data) (s.mgr.routesOf vrf)
      split at hm
      · rename_i hfirst
        split at hm
        · rename_i asn hasn
          cases hm
          have hasn' : s.mgr.bgpAsn ≠ none := by rw [hasn]; exact Option.some_ne_none asn
          obtain ⟨hmap, hred⟩ := push_enable s.frr hcmds asn vrf
          refine hs.of_set hnodup (fun v => ?_) (fun v af => ?_) fun _ _ _ => hmap
          · exact ⟨fun h => absurd ((hs.pending v).mp h).1 hasn', fun h => absurd h.1 hasn'⟩
          · rw [hred, hs.enabled v af]
            split
            · grind
            · rename_i h
              exact ⟨fun h' => h'.resolve_right fun h'' => h h''.1.symm, .inl⟩
        · rename_i hasn
          cases hm
          obtain ⟨hmap, hred⟩ := push_routes_only s.frr hcmds
          refine hs.of_set hnodup (fun v => ?_) (fun v af => ?_) fun h => absurd hasn h
          · grind [Lines.mem_add, hs.pending]
          · rw [hred, hs.enabled v af]
            exact ⟨fun h => absurd hasn h.1, fun h => absurd hasn h.1⟩
      · rename_i hfirst
        cases hm
        obtain ⟨hmap, hred⟩ := push_routes_only s.frr hcmds
        exact hs.edit hnodup (iff_of_false hne hfirst) hmap hred

theorem redistributed_del {s' : Sys} {key : Str} {configDb : ConfigDb} (hok : redistOk dbName s (.del key configDb))
    (he : step isIpv6 iter dbName s (.del key configDb) = some s') : Redistributed s' := by
  obtain ⟨⟨m, cmds⟩, hm, rfl⟩ := Option.map_eq_some_iff.mp he
  unfold Mgr.delHandler at hm
  obtain ⟨⟨vrf, ipPrefix⟩, hkey, hm⟩ := Option.map_eq_some_iff.mp hm
  simp only [redistOk, hkey] at hok
  dsimp only at hm
  split at hm
  · rename_i hskip
    cases hm
    refine hs.pop (fun hk => ?_) rfl rfl
    simp_all
  · have hcmds := staticRouteCommands_routes iter []
      (((s.mgr.routesOf vrf).get? ipPrefix).getD ([], advertiseDisableTag)).1 ipPrefix vrf
      (((s.mgr.routesOf vrf).get? ipPrefix).getD ([], advertiseDisableTag)).2
      (((s.mgr.routesOf vrf).get? ipPrefix).getD ([], advertiseDisableTag)).2
    split at hm
    · rename_i hk
      have hnodup := Dict.nodup_filter (fun p => p.1 ≠ ipPrefix) (hs.nodup vrf)
      have hnil : (s.mgr.routesOf vrf).erase ipPrefix = [] := (erase_eq_nil_iff (hs.nodup vrf)).mpr (.inr hk)
      have hiff : ∀ v, (if vrf = v then (s.mgr.routesOf vrf).erase ipPrefix else s.mgr.routesOf v) ≠ [] ↔
          v ≠ vrf ∧ s.mgr.routesOf v ≠ [] := by
        intro v
        split
        · grind
        · grind
      have hpend : ∀ v, v ∈ s.mgr.vrfPendingRedistribution.filter (· ≠ vrf) ↔ s.mgr.bgpAsn = none ∧
          (if vrf = v then (s.mgr.routesOf vrf).erase ipPrefix else s.mgr.routesOf v) ≠ [] := by
        intro v
        rw [hiff v, mem_filter, hs.pending v, decide_eq_true_eq]
        tauto
      split at hm
      · rename_i asn hasn
        cases hm
        have hasn' : s.mgr.bgpAsn ≠ none := by grind
        refine hs.of_set hnodup hpend (fun v af => ?_) fun _ v hv => ?_
        · rw [push_disable s.frr hcmds asn vrf, hs.enabled v af, hiff v]
          tauto
        · -- no other VRF has routes
          grind [routesOf_ne_nil_mem]
      · rename_i hasn
        cases hm
        obtain ⟨hmap, hred⟩ := push_routes_only s.frr hcmds
        refine hs.of_set hnodup hpend (fun v af => ?_) fun h => absurd hasn h
        grind [hs.enabled]
    · rename_i hk
      cases hm
      obtain ⟨hmap, hred⟩ := push_routes_only s.frr hcmds
      exact hs.pop hk hmap hred

theorem redistributed_asn (hiter : ∀ (α : Type) (l : List α) x, x ∈ iter α l ↔ x ∈ l) {s' : Sys} {asn : Str}
    (he : step isIpv6 iter dbName s (.asn asn) = some s') : Redistributed s' := by
  cases he
  obtain ⟨hmap, hmem⟩ := pushes_enable asn (iter _ s.mgr.vrfPendingRedistribution) s.frr
  have hsome : some asn ≠ none := Option.some_ne_none asn
  refine ⟨hs.nodup, fun v => ?_, fun v af => ?_, fun _ v hv => ?_⟩
  · grind
  · refine (hmem v af).trans ?_
    rw [hiter, hs.pending v, hs.enabled v af]
    show _ ↔ some asn ≠ none ∧ af ∈ families ∧ s.mgr.routesOf v ≠ []
    tauto
  · -- redistribution was on before, or some VRF was waiting
    by_cases ha : s.mgr.bgpAsn = none
    · refine hmap.resolve_right fun hnil => ?_
      have hv' := (hiter Str s.mgr.vrfPendingRedistribution v).mpr ((hs.pending v).mpr ⟨ha, hv⟩)
      simp_all
    · rcases hmap with hmap | hnil
      · exact hmap
      · show ((List.map (enableRedistributionCommand asn) (iter Str s.mgr.vrfPendingRedistribution)).foldl Frr.push
          s.frr).routeMap = true
        rw [hnil]
        exact hs.routeMap ha v hv

end

theorem redistribution_of_run {isIpv6 : Str → Bool} {iter : ∀ α : Type, List α → List α} {dbName : Str}
    (hiter : ∀ (α : Type) (l : List α) x, x ∈ iter α l ↔ x ∈ l) {es : List Event} {s : Sys}
    (hok : Along (step isIpv6 iter dbName) (redistOk dbName) Sys.new es)
    (hr : run (step isIpv6 iter dbName) Sys.new es = some s) (ha : s.mgr.bgpAsn ≠ none) :
    (∀ vrf, ∀ af ∈ families, (vrf, af) ∈ s.frr.redistributes ↔ s.mgr.routesOf vrf ≠ []) ∧
    ((∃ vrf af, (vrf, af) ∈ s.frr.redistributes) → s.frr.routeMap = true) := by
  have hs : Redistributed s := by
    refine run_inv _ (fun s e s' hs hok he => ?_) redistributed_new hok hr
    cases e with
    | set key data => exact redistributed_set hs hok he
    | del key configDb => exact redistributed_del hs hok he
    | asn asn => exact redistributed_asn hs hiter he
  refine ⟨fun vrf af haf => ?_, fun ⟨vrf, af, h⟩ => ?_⟩
  · rw [hs.enabled vrf af]
    exact ⟨fun h => h.2.2, fun h => ⟨ha, haf, h⟩⟩
  · exact hs.routeMap ha vrf ((hs.enabled vrf af).mp h).2.2

def viaEthernet : Data := [("ifname", "Ethernet0")]

def twoVrfs : List Event :=
  [.set "10.0.0.0/8" viaEthernet, .asn "65000", .set "red|10.0.0.0/8" viaEthernet,
   .set "red|11.0.0.0/8" viaEthernet, .del "red|10.0.0.0/8" []]

theorem redistribution_two_vrfs :
    ∃ s, run (step (fun _ => false) (fun _ l => l) "CONFIG_DB") Sys.new twoVrfs = some s ∧
      s.mgr.bgpAsn ≠ none ∧
      (∀ vrf, ∀ af ∈ families, (vrf, af) ∈ s.frr.redistributes ↔ s.mgr.routesOf vrf ≠ []) ∧
      ((∃ vrf af, (vrf, af) ∈ s.frr.redistributes) → s.frr.routeMap = true) :=
  ⟨_, (Option.some_get (by decide +kernel)).symm, by decide +kernel,
    redistribution_of_run (fun _ _ _ => Iff.rfl) (by decide +kernel) (Option.some_get (by decide +kernel)).symm
      (by decide +kernel)⟩

def oneVrfEmptied : List Event :=
  [.asn "65000", .set "10.0.0.0/8" viaEthernet, .set "red|10.0.0.0/8" viaEthernet,
   .del "red|10.0.0.0/8" []]

theorem redistribution_one_vrf_emptied :
    ∃ s, run (step (fun _ => false) (fun _ l => l) "CONFIG_DB") Sys.new oneVrfEmptied = some s ∧
      s.mgr.bgpAsn ≠ none ∧
      ¬ ((∃ vrf af, (vrf, af) ∈ s.frr.redistributes) → s.frr.routeMap = true) :=
  ⟨_, (Option.some_get (by decide +kernel)).symm, by decide +kernel, fun h =>
    absurd (h ⟨"default", "ipv4", by decide +kernel⟩) (by decide +kernel)⟩

end Sonic.StaticRoute
