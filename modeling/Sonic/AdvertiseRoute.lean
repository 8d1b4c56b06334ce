import Sonic.Dict
import Sonic.Run
import Sonic.Text

/-! # Advertised networks of bgpcfgd

`AdvertiseRouteMgr` keeps the prefixes of each VRF with their profiles and writes them to FRR once
the AS number is known, all of them again whenever the device metadata change. The import check of a
VRF is off as long as it has a prefix. -/

namespace Sonic.AdvertiseRoute
open List

open Str

abbrev Data := Dict Str Str

abbrev Router := Str × Option Str

inductive Command where
  | routerBgp (r : Router)
  | addressFamily (isIpv6 : Bool)
  | network (ipPrefix : Str) (routeMap : Option Str)
  | noNetwork (ipPrefix : Str)
  | importCheck (no : Bool)
  | exitAddressFamily
  | exit

inductive Node where
  | config
  | bgp (r : Router)
  | bgpAf (r : Router) (isIpv6 : Bool)

structure Frr where
  node : Node
  networks : Dict (Router × Bool × Str) (Option Str)
  noImportCheck : List Router

def Frr.exec (f : Frr) : Command → Frr
  | .routerBgp r => { f with node := .bgp r }
  | .addressFamily isIpv6 =>
    match f.node with
    | .bgp r => { f with node := .bgpAf r isIpv6 }
    | _ => f
  | .network p routeMap =>
    match f.node with
    | .bgpAf r isIpv6 => { f with networks := f.networks.set (r, isIpv6, p) routeMap }
    | _ => f
  | .noNetwork p =>
    match f.node with
    | .bgpAf r isIpv6 => { f with networks := f.networks.erase (r, isIpv6, p) }
    | _ => f
  | .importCheck no =>
    match f.node with
    | .bgp r =>
      { f with noImportCheck := if no then f.noImportCheck.insert r else f.noImportCheck.filter (· ≠ r) }
    | _ => f
  | .exitAddressFamily =>
    match f.node with
    | .bgpAf r _ => { f with node := .bgp r }
    | _ => f
  | .exit => { f with node := .config }

def Frr.push (f : Frr) (cmds : List Command) : Frr := cmds.foldl Frr.exec f

/-! ## The manager -/

def routeMaps : List Str := ["FROM_SDN_SLB_ROUTES", "FROM_SDN_APPLIANCE_ROUTES"]

structure St where
  bgpAsn : Option Str
  advertisedRoutes : Dict Str (Dict Str Data)
  frr : Frr

def init : St := ⟨none, [], ⟨.config, [], []⟩⟩

namespace St

def ipPrefixes (s : St) (vrf : Str) : Dict Str Data := (s.advertisedRoutes.get? vrf).getD []

def push (s : St) (cmds : List Command) : St := { s with frr := s.frr.push cmds }

end St

def router (asn vrf : Str) : Router := (asn, if vrf = "default" then none else some vrf)

def setHandlerValidate (data : Data) : Bool :=
  data ≠ [] ∧ ((data.get? "profile").any (· ∈ routeMaps) ∨ data = [([], [])])

def splitKey (key : Str) : Str × Str := (splitOnce "|" key).getD ("default", key)

def routeMap (data : Data) : Option Str := (data.get? "profile").map (· ++ "_RM")

def bgpNetworkImportCheckCommands (asn vrf : Str) (delete : Bool) : List Command :=
  [.routerBgp (router asn vrf), .importCheck (!delete), .exit]

section
-- whether netaddr reads a prefix as one of IPv6
variable (isIpv6 : Str → Bool)

def advertiseRouteCommands (asn ipPrefix vrf : Str) (data : Option Data) : List Command :=
  [.routerBgp (router asn vrf), .addressFamily (isIpv6 ipPrefix),
    data.elim (.noNetwork ipPrefix) fun d => .network ipPrefix (routeMap d),
    .exitAddressFamily, .exit]

def addRouteAdvertisement (s : St) (vrf ipPrefix : Str) (data : Data) : St :=
  let s := match s.bgpAsn with
    | none => s
    | some asn =>
      let s := if s.ipPrefixes vrf = [] then s.push (bgpNetworkImportCheckCommands asn vrf false) else s
      s.push (advertiseRouteCommands isIpv6 asn ipPrefix vrf (some data))
  { s with advertisedRoutes := s.advertisedRoutes.set vrf ((s.ipPrefixes vrf).set ipPrefix data) }

def popRoute (s : St) (vrf ipPrefix : Str) : St :=
  let left := (s.ipPrefixes vrf).erase ipPrefix
  { s with advertisedRoutes := if left = [] then s.advertisedRoutes.erase vrf else s.advertisedRoutes.set vrf left }

def withdrawRoute (s : St) (vrf ipPrefix : Str) : St :=
  match s.bgpAsn with
  | none => s
  | some asn =>
    let s := if s.ipPrefixes vrf = [] then s.push (bgpNetworkImportCheckCommands asn vrf true) else s
    s.push (advertiseRouteCommands isIpv6 asn ipPrefix vrf none)

def removeRouteAdvertisement (s : St) (vrf ipPrefix : Str) : St :=
  if (s.ipPrefixes vrf).get? ipPrefix = none then s
  else withdrawRoute isIpv6 (popRoute s vrf ipPrefix) vrf ipPrefix

def setHandler (s : St) (key : Str) (data : Data) : St :=
  if setHandlerValidate data then addRouteAdvertisement isIpv6 s (splitKey key).1 (splitKey key).2 data else s

def delHandler (s : St) (key : Str) : St := removeRouteAdvertisement isIpv6 s (splitKey key).1 (splitKey key).2

def onBgpAsnChange (s : St) : St :=
  match s.bgpAsn with
  | none => s
  | some asn =>
    s.advertisedRoutes.foldl (fun s row =>
      row.2.foldl (fun s p => addRouteAdvertisement isIpv6 s row.1 p.1 p.2)
        (s.push (bgpNetworkImportCheckCommands asn row.1 false))) s

inductive Event where
  | set (key : Str) (data : Data)
  | del (key : Str)
  | metadata      -- a put of the device metadata with the AS number

def step (asn : Str) (s : St) : Event → St
  | .set key data => setHandler isIpv6 s key data
  | .del key => delHandler isIpv6 s key
  | .metadata => onBgpAsnChange isIpv6 { s with bgpAsn := some asn }

end

/-! ## What FRR shows -/

theorem router_inj {asn vrf vrf' : Str} (h : router asn vrf = router asn vrf') : vrf = vrf' := by
  simp only [router, Prod.mk.injEq, true_and] at h
  split at h
  · split at h
    · grind
    · cases h
  · split at h
    · cases h
    · exact Option.some.inj h

section
variable {isIpv6 : Str → Bool} {asn vrf ipPrefix : Str} {data : Data} {f : Frr} {A B : Str → Str → Option Data}

/-- A profile stands for the route-map with its name and `_RM`, a row without profile for no route-map. -/
def profileMap (data : Data) : Option Str :=
  match data.get? "profile" with
  | some profile => some (profile ++ "_RM".toList)
  | none => none

theorem routeMap_eq_profileMap : routeMap = profileMap := by
  funext data
  rw [routeMap, profileMap]
  cases data.get? "profile" <;> rfl

/-- FRR has the networks of `A` with the route-maps of their profiles and no others, and no import check exactly in
the VRFs with a network. -/
structure Shows (isIpv6 : Str → Bool) (asn : Str) (A : Str → Str → Option Data) (f : Frr) : Prop where
  networks : ∀ vrf v6 p, f.networks.get? (router asn vrf, v6, p) = if v6 =
    isIpv6 p then (A vrf p).map profileMap else none
  importCheck : ∀ vrf, router asn vrf ∈ f.noImportCheck ↔ ∃ p, (A vrf p).isSome = true
  otherNetworks : ∀ r v6 p, (∀ vrf, r ≠ router asn vrf) → f.networks.get? (r, v6, p) = none
  otherImportCheck : ∀ r, (∀ vrf, r ≠ router asn vrf) → r ∉ f.noImportCheck

theorem push_network : f.push (advertiseRouteCommands isIpv6 asn ipPrefix vrf (some data)) =
    { f with
      node := .config
      networks := f.networks.set (router asn vrf, isIpv6 ipPrefix, ipPrefix) (profileMap data) } := by
  rw [← routeMap_eq_profileMap]
  rfl

theorem push_noImportCheck : f.push (bgpNetworkImportCheckCommands asn vrf false) =
    { f with node := .config, noImportCheck := f.noImportCheck.insert (router asn vrf) } :=
  rfl

def setA (A : Str → Str → Option Data) (vrf ipPrefix : Str) (data : Option Data) : Str → Str → Option Data :=
  fun v p => if v = vrf ∧ p = ipPrefix then data else A v p

theorem setA_self (o : Option Data) : setA A vrf ipPrefix o vrf ipPrefix = o := if_pos ⟨rfl, rfl⟩

theorem setA_ne {v p : Str} (h : ¬ (v = vrf ∧ p = ipPrefix)) (o : Option Data) : setA A vrf ipPrefix o v p = A v p :=
  if_neg h

theorem key_ne {v p : Str} {v6 : Bool} (h : ¬ (v = vrf ∧ p = ipPrefix)) :
    (router asn vrf, isIpv6 ipPrefix, ipPrefix) ≠ (router asn v, v6, p) := by
  intro he
  simp only [Prod.mk.injEq] at he
  exact h ⟨(router_inj he.1).symm, he.2.2.symm⟩

theorem Shows.set (h : Shows isIpv6 asn A f) : Shows isIpv6 asn (setA A vrf ipPrefix (some data))
    { f with
      node := .config
      networks := f.networks.set (router asn vrf, isIpv6 ipPrefix, ipPrefix) (profileMap data)
      noImportCheck := f.noImportCheck.insert (router asn vrf) } := by
  refine ⟨fun v v6 p => ?_, fun v => ?_, fun r v6 p hr => ?_, fun r hr => ?_⟩
  · by_cases hvp : v = vrf ∧ p = ipPrefix
    · obtain ⟨rfl, rfl⟩ := hvp
      rw [setA_self, Dict.get?_set]
      by_cases h6 : v6 = isIpv6 p <;> simp_all [Ne.symm, h.networks]
    · rw [setA_ne hvp, Dict.get?_set_ne _ (key_ne hvp), h.networks]
  · rw [mem_insert_iff]
    by_cases hv : v = vrf
    · subst hv
      exact iff_of_true (.inl rfl) ⟨ipPrefix, by rw [setA_self]; rfl⟩
    · rw [h.importCheck, or_iff_right fun he => hv (router_inj he)]
      simp only [setA, hv, false_and, if_false]
  · simp_all [Dict.get?_set_ne, symm, h.otherNetworks]
  · simp_all [h.otherImportCheck]

theorem get?_erase {v p : Str} {v6 : Bool} (h : Shows isIpv6 asn A f) :
    (f.networks.erase (router asn vrf, isIpv6 ipPrefix, ipPrefix)).get? (router asn v, v6, p) =
      if v6 = isIpv6 p then (setA A vrf ipPrefix none v p).map profileMap else none := by
  by_cases hvp : v = vrf ∧ p = ipPrefix
  · obtain ⟨rfl, rfl⟩ := hvp
    rw [setA_self, Option.map_none, ite_self]
    by_cases h6 : v6 = isIpv6 p
    · grind
    · simp_all [Dict.get?_erase_ne, Ne.symm, h.networks]
  · rw [setA_ne hvp, Dict.get?_erase_ne (key_ne hvp), h.networks]

theorem Shows.erase (h : Shows isIpv6 asn A f) {off : List Router}
    (hoff : (∃ p, (setA A vrf ipPrefix none vrf p).isSome = true) ∧ off = f.noImportCheck ∨
      (∀ p, setA A vrf ipPrefix none vrf p = none) ∧ off = f.noImportCheck.filter (· ≠ router asn vrf)) :
    Shows isIpv6 asn (setA A vrf ipPrefix none)
      { f with
        node := .config
        networks := f.networks.erase (router asn vrf, isIpv6 ipPrefix, ipPrefix)
        noImportCheck := off } := by
  have hsub : ∀ r, r ∈ off → r ∈ f.noImportCheck := by grind
  refine ⟨fun v v6 p => get?_erase h, fun v => ?_, fun r v6 p hr => ?_, fun r hr hmem => ?_⟩
  · by_cases hv : v = vrf
    · subst hv
      obtain ⟨hex, rfl⟩ | ⟨hnone, rfl⟩ := hoff
      · refine iff_of_true ((h.importCheck v).mpr ?_) hex
        grind [setA]
      · simp_all
    · have hmem : router asn v ∈ off ↔ router asn v ∈ f.noImportCheck := by
        obtain ⟨_, rfl⟩ | ⟨_, rfl⟩ := hoff
        · rfl
        · rw [mem_filter, and_iff_left]
          grind [router_inj]
      show router asn v ∈ off ↔ _
      simp_all [h.importCheck, setA]
  · cases hk : (f.networks.erase (router asn vrf, isIpv6 ipPrefix, ipPrefix)).get? (r, v6, p) with
    | none => rfl
    | some rm => grind [h.otherNetworks]
  · exact h.otherImportCheck r hr (hsub r hmem)

structure Sound (isIpv6 : Str → Bool) (asn : Str) (A : Str → Str → Option Data) (f : Frr) : Prop where
  networks : ∀ vrf v6 p rm, f.networks.get? (router asn vrf, v6, p) = some rm →
    v6 = isIpv6 p ∧ (A vrf p).map profileMap = some rm
  importCheck : ∀ vrf, router asn vrf ∈ f.noImportCheck → ∃ p, (A vrf p).isSome = true
  otherNetworks : ∀ r v6 p, (∀ vrf, r ≠ router asn vrf) → f.networks.get? (r, v6, p) = none
  otherImportCheck : ∀ r, (∀ vrf, r ≠ router asn vrf) → r ∉ f.noImportCheck

def Has (isIpv6 : Str → Bool) (asn : Str) (A : Str → Str → Option Data) (f : Frr) (vrf p : Str) : Prop :=
  f.networks.get? (router asn vrf, isIpv6 p, p) = (A vrf p).map profileMap

theorem Shows.sound (h : Shows isIpv6 asn A f) : Sound isIpv6 asn A f := by
  refine ⟨fun vrf v6 p rm hk => ?_, fun vrf => (h.importCheck vrf).mp, h.otherNetworks, h.otherImportCheck⟩
  grind [h.networks]

theorem Sound.shows (h : Sound isIpv6 asn A f) (hnet : ∀ vrf p, (A vrf p).isSome = true → Has isIpv6 asn A f vrf p)
    (hcheck : ∀ vrf p, (A vrf p).isSome = true → router asn vrf ∈ f.noImportCheck) : Shows isIpv6 asn A f := by
  refine ⟨fun vrf v6 p => ?_, fun vrf => ⟨h.importCheck vrf, fun ⟨p, hp⟩ => hcheck vrf p hp⟩, h.otherNetworks,
    h.otherImportCheck⟩
  cases hk : f.networks.get? (router asn vrf, v6, p) with
  | some rm =>
    obtain ⟨h6, hrm⟩ := h.networks vrf v6 p rm hk
    rw [if_pos h6, hrm]
  | none =>
    split
    · rename_i h6
      cases hA : A vrf p <;> simp_all [Has]
    · rfl

theorem Sound.network (h : Sound isIpv6 asn A f) (hA : A vrf ipPrefix = some data) :
    Sound isIpv6 asn A (f.push (advertiseRouteCommands isIpv6 asn ipPrefix vrf (some data))) ∧
      Has isIpv6 asn A (f.push (advertiseRouteCommands isIpv6 asn ipPrefix vrf (some data))) vrf ipPrefix ∧
      ∀ v p, Has isIpv6 asn A f v p →
        Has isIpv6 asn A (f.push (advertiseRouteCommands isIpv6 asn ipPrefix vrf (some data))) v p := by
  rw [push_network]
  have hself : (f.networks.set (router asn vrf, isIpv6 ipPrefix, ipPrefix) (profileMap data)).get?
      (router asn vrf, isIpv6 ipPrefix, ipPrefix) = (A vrf ipPrefix).map profileMap := by simp_all
  refine ⟨⟨fun v v6 p rm hk => ?_, h.importCheck, fun r v6 p hr => ?_, h.otherImportCheck⟩, hself, fun v p hv => ?_⟩
  · grind [router_inj, h.networks]
  · simp_all [Dict.get?_set_ne, symm, h.otherNetworks]
  · by_cases hvp : v = vrf ∧ p = ipPrefix
    · obtain ⟨rfl, rfl⟩ := hvp
      exact hself
    · exact (Dict.get?_set_ne _ (key_ne hvp) _).trans hv

theorem Sound.noImportCheck (h : Sound isIpv6 asn A f) {p : Str} (hA : (A vrf p).isSome = true) :
    Sound isIpv6 asn A (f.push (bgpNetworkImportCheckCommands asn vrf false)) := by
  rw [push_noImportCheck]
  refine ⟨h.networks, fun v hv => ?_, h.otherNetworks, fun r hr => ?_⟩
  · grind [router_inj, h.importCheck]
  · simp_all [h.otherImportCheck]

end

/-! ## The invariant -/

section
variable {isIpv6 : Str → Bool} {asn : Str} {s : St}

def advertised (s : St) (vrf ipPrefix : Str) : Option Data := (s.ipPrefixes vrf).get? ipPrefix

structure Inv (isIpv6 : Str → Bool) (asn : Str) (s : St) : Prop where
  nodup : s.advertisedRoutes.keys.Nodup
  rows : ∀ row ∈ s.advertisedRoutes, row.2 ≠ [] ∧ row.2.keys.Nodup
  frr : (s.bgpAsn = none ∧ s.frr.networks = [] ∧ s.frr.noImportCheck = []) ∨
    s.bgpAsn = some asn ∧ Shows isIpv6 asn (advertised s) s.frr

theorem inv_init : Inv isIpv6 asn init := ⟨nodup_nil, nofun, .inl ⟨rfl, rfl, rfl⟩⟩

theorem Inv.ipPrefixes_nodup (h : Inv isIpv6 asn s) (vrf : Str) : (s.ipPrefixes vrf).keys.Nodup := by
  unfold St.ipPrefixes
  cases hv : s.advertisedRoutes.get? vrf with
  | none => exact nodup_nil
  | some d => exact (h.rows _ (Dict.get?_eq_some_mem hv)).2

theorem ipPrefixes_nil_iff {vrf : Str} : s.ipPrefixes vrf = [] ↔ ∀ p, advertised s vrf p = none := by
  constructor
  · intro h p
    rw [advertised, h]
    rfl
  · exact Dict.eq_nil_of_get?

theorem exists_advertised {vrf : Str} (hne : s.ipPrefixes vrf ≠ []) : ∃ p, (advertised s vrf p).isSome = true := by
  by_contra hnone
  simp_all [ipPrefixes_nil_iff]

theorem advertised_set {vrf ipPrefix : Str} {data : Data} {s' : St}
    (hs : s'.advertisedRoutes = s.advertisedRoutes.set vrf ((s.ipPrefixes vrf).set ipPrefix data)) :
    advertised s' = setA (advertised s) vrf ipPrefix (some data) := by
  funext v p
  unfold advertised St.ipPrefixes
  rw [hs, Dict.get?_set]
  by_cases hv : vrf = v
  · subst hv
    rw [if_pos rfl, Option.getD_some, Dict.get?_set]
    by_cases hp : ipPrefix = p
    · subst hp
      rw [if_pos rfl, setA_self]
    · rw [if_neg hp, setA_ne fun h => hp h.2.symm]
      rfl
  · rw [if_neg hv, setA_ne fun h => hv h.1.symm]

theorem advertised_add (vrf ipPrefix : Str) (data : Data) :
    advertised (addRouteAdvertisement isIpv6 s vrf ipPrefix data) = setA (advertised s) vrf ipPrefix (some data) := by
  refine advertised_set ?_
  unfold addRouteAdvertisement
  cases s.bgpAsn with
  | none => rfl
  | some asn =>
    dsimp only
    split <;> rfl

theorem Inv.rows_set (h : Inv isIpv6 asn s) (vrf : Str) {d : Dict Str Data} (hne : d ≠ []) (hn : d.keys.Nodup) :
    (s.advertisedRoutes.set vrf d).keys.Nodup ∧
      ∀ row ∈ s.advertisedRoutes.set vrf d, row.2 ≠ [] ∧ row.2.keys.Nodup := by
  refine ⟨Dict.nodup_set _ _ h.nodup, fun row hrow => ?_⟩
  rcases Dict.mem_set hrow with hrow | rfl <;> simp_all [h.rows]

theorem Inv.add (h : Inv isIpv6 asn s) (vrf ipPrefix : Str) (data : Data) :
    Inv isIpv6 asn (addRouteAdvertisement isIpv6 s vrf ipPrefix data) := by
  obtain ⟨hnodup, hrows⟩ := h.rows_set vrf (Dict.set_ne_nil ipPrefix data (s.ipPrefixes vrf))
    (Dict.nodup_set ipPrefix data (h.ipPrefixes_nodup vrf))
  obtain ⟨hasn, hnet, hcheck⟩ | ⟨hasn, hshows⟩ := h.frr
  · simp only [addRouteAdvertisement, hasn]
    exact ⟨hnodup, hrows, .inl ⟨rfl, hnet, hcheck⟩⟩
  · have hset : Shows isIpv6 asn (setA (advertised s) vrf ipPrefix (some data)) _ := hshows.set
    rw [← routeMap_eq_profileMap] at hset
    simp only [addRouteAdvertisement, hasn]
    split
    · refine ⟨hnodup, hrows, .inr ⟨hasn, ?_⟩⟩
      rw [advertised_set rfl]
      exact hset
    · rename_i hne
      refine ⟨hnodup, hrows, .inr ⟨hasn, ?_⟩⟩
      -- the import check is off already
      have hmem : router asn vrf ∈ s.frr.noImportCheck := by
        rw [hshows.importCheck]
        exact exists_advertised hne
      rw [insert_of_mem hmem] at hset
      rw [advertised_set rfl]
      exact hset

theorem Inv.popRoute (h : Inv isIpv6 asn s) (vrf ipPrefix : Str) :
    (popRoute s vrf ipPrefix).advertisedRoutes.keys.Nodup ∧
      ∀ row ∈ (popRoute s vrf ipPrefix).advertisedRoutes, row.2 ≠ [] ∧ row.2.keys.Nodup := by
  simp only [AdvertiseRoute.popRoute]
  split
  · exact ⟨Dict.nodup_filter _ h.nodup, fun row hrow => h.rows row (Dict.mem_erase.mp hrow).1⟩
  · rename_i hne
    exact h.rows_set vrf hne (Dict.nodup_filter _ (h.ipPrefixes_nodup vrf))

theorem ipPrefixes_popRoute (s : St) (vrf ipPrefix v : Str) : (popRoute s vrf ipPrefix).ipPrefixes v =
    if v = vrf then (s.ipPrefixes vrf).erase ipPrefix else s.ipPrefixes v := by
  rw [St.ipPrefixes, popRoute]
  dsimp only
  by_cases hnil : (s.ipPrefixes vrf).erase ipPrefix = []
  · rw [if_pos hnil, hnil]
    by_cases hv : v = vrf
    · grind
    · rw [if_neg hv, Dict.get?_erase_ne (Ne.symm hv)]
      rfl
  · rw [if_neg hnil]
    by_cases hv : v = vrf
    · grind
    · rw [if_neg hv, Dict.get?_set_ne _ (Ne.symm hv)]
      rfl

theorem advertised_popRoute (s : St) (vrf ipPrefix : Str) :
    advertised (popRoute s vrf ipPrefix) = setA (advertised s) vrf ipPrefix none := by
  funext v p
  rw [advertised, ipPrefixes_popRoute]
  by_cases hv : v = vrf
  · subst hv
    rw [if_pos rfl]
    by_cases hp : p = ipPrefix
    · grind [setA_self]
    · rw [setA_ne fun h => hp h.2, Dict.get?_erase_ne (Ne.symm hp)]
      rfl
  · rw [if_neg hv, setA_ne fun h => hv h.1]
    rfl

theorem advertised_remove (vrf ipPrefix : Str) :
    advertised (removeRouteAdvertisement isIpv6 s vrf ipPrefix) = setA (advertised s) vrf ipPrefix none := by
  unfold removeRouteAdvertisement
  split
  · rename_i hnone
    funext v p
    by_cases hvp : v = vrf ∧ p = ipPrefix
    · obtain ⟨rfl, rfl⟩ := hvp
      rw [setA_self]
      exact hnone
    · rw [setA_ne hvp]
  · rw [← advertised_popRoute, withdrawRoute]
    cases (popRoute s vrf ipPrefix).bgpAsn with
    | none => rfl
    | some asn =>
      dsimp only
      split <;> rfl

theorem Inv.remove (h : Inv isIpv6 asn s) (vrf ipPrefix : Str) :
    Inv isIpv6 asn (removeRouteAdvertisement isIpv6 s vrf ipPrefix) := by
  unfold removeRouteAdvertisement
  split
  · exact h
  obtain ⟨hnodup, hrows⟩ := h.popRoute vrf ipPrefix
  have hadv := advertised_popRoute s vrf ipPrefix
  have hbgp : (AdvertiseRoute.popRoute s vrf ipPrefix).bgpAsn = s.bgpAsn := rfl
  have hfrr : (AdvertiseRoute.popRoute s vrf ipPrefix).frr = s.frr := rfl
  generalize AdvertiseRoute.popRoute s vrf ipPrefix = t at hnodup hrows hadv hbgp hfrr ⊢
  obtain ⟨hasn, hnet, hcheck⟩ | ⟨hasn, hshows⟩ := h.frr
  · rw [withdrawRoute, hbgp, hasn]
    exact ⟨hnodup, hrows, .inl ⟨hbgp.trans hasn, by rwa [hfrr], by rwa [hfrr]⟩⟩
  · rw [withdrawRoute, hbgp, hasn]
    dsimp only
    rw [← hfrr] at hshows
    split
    · rename_i hnil
      refine ⟨hnodup, hrows, .inr ⟨hbgp.trans hasn, ?_⟩⟩
      show Shows isIpv6 asn (advertised t) _
      rw [hadv]
      refine hshows.erase (.inr ⟨fun p => ?_, rfl⟩)
      simp_all [ipPrefixes_nil_iff]
    · rename_i hne
      refine ⟨hnodup, hrows, .inr ⟨hbgp.trans hasn, ?_⟩⟩
      show Shows isIpv6 asn (advertised t) _
      rw [hadv]
      refine hshows.erase (.inl ⟨?_, rfl⟩)
      rw [← hadv]
      exact exists_advertised hne

theorem add_same {vrf ipPrefix : Str} {data : Data} (hasn : s.bgpAsn = some asn)
    (h : advertised s vrf ipPrefix = some data) : addRouteAdvertisement isIpv6 s vrf ipPrefix data =
      s.push (advertiseRouteCommands isIpv6 asn ipPrefix vrf (some data)) := by
  have hne : s.ipPrefixes vrf ≠ [] := fun hnil => by grind [ipPrefixes_nil_iff]
  have hrow : s.advertisedRoutes.get? vrf = some (s.ipPrefixes vrf) := by
    unfold St.ipPrefixes at hne ⊢
    cases hv : s.advertisedRoutes.get? vrf <;> simp_all
  simp only [addRouteAdvertisement, hasn, if_neg hne]
  show ({ s.push (advertiseRouteCommands isIpv6 asn ipPrefix vrf (some data)) with
    advertisedRoutes := s.advertisedRoutes.set vrf ((s.ipPrefixes vrf).set ipPrefix data) } : St) = _
  rw [Dict.set_eq_self h, Dict.set_eq_self hrow]
  rfl

structure Replaying (isIpv6 : Str → Bool) (asn : Str) (s t : St) : Prop where
  routes : t.advertisedRoutes = s.advertisedRoutes
  bgpAsn : t.bgpAsn = some asn
  sound : Sound isIpv6 asn (advertised s) t.frr

theorem Replaying.advertised_eq {t : St} (h : Replaying isIpv6 asn s t) : advertised t = advertised s := by
  funext v p
  simp only [advertised, St.ipPrefixes, h.routes]

theorem Replaying.prefixes {t : St} (h : Replaying isIpv6 asn s t) {vrf : Str} {row : Dict Str Data}
    (hrow : ∀ p ∈ row, advertised s vrf p.1 = some p.2) :
    (Replaying isIpv6 asn s (row.foldl (fun t p => addRouteAdvertisement isIpv6 t vrf p.1 p.2) t) ∧
        (row.foldl (fun t p => addRouteAdvertisement isIpv6 t vrf p.1 p.2) t).frr.noImportCheck = t.frr.noImportCheck ∧
        ∀ v q, Has isIpv6 asn (advertised s) t.frr v q → Has isIpv6 asn (advertised s)
          (row.foldl (fun t p => addRouteAdvertisement isIpv6 t vrf p.1 p.2) t).frr v q) ∧
      ∀ p ∈ row, Has isIpv6 asn (advertised s)
        (row.foldl (fun t p => addRouteAdvertisement isIpv6 t vrf p.1 p.2) t).frr vrf p.1 := by
  have hloop := foldl_each (f := fun t (p : Str × Data) => addRouteAdvertisement isIpv6 t vrf p.1 p.2)
    (fun u => Replaying isIpv6 asn s u ∧ u.frr.noImportCheck = t.frr.noImportCheck ∧
      ∀ v q, Has isIpv6 asn (advertised s) t.frr v q → Has isIpv6 asn (advertised s) u.frr v q)
    (fun u p => Has isIpv6 asn (advertised s) u.frr vrf p.1) (l := row) (s := t) ?_ ⟨h, rfl, fun _ _ hh => hh⟩
  · grind
  · rintro u p hp ⟨hu, hcheck, hkeep⟩
    have hp' := hrow p hp
    rw [add_same hu.bgpAsn (hu.advertised_eq ▸ hp')]
    obtain ⟨hsound, hhas, hall⟩ := hu.sound.network hp'
    exact ⟨⟨⟨hu.routes, hu.bgpAsn, hsound⟩, hcheck, fun v q hv => hall v q (hkeep v q hv)⟩, hhas,
      fun q hq => hall _ _ hq⟩

theorem Inv.change (h : Inv isIpv6 asn s) : Inv isIpv6 asn (onBgpAsnChange isIpv6 { s with bgpAsn := some asn }) ∧
    advertised (onBgpAsnChange isIpv6 { s with bgpAsn := some asn }) = advertised s := by
  have hstart : Replaying isIpv6 asn s { s with bgpAsn := some asn } := by
    refine ⟨rfl, rfl, ?_⟩
    obtain ⟨_, hnet, hcheck⟩ | ⟨_, hshows⟩ := h.frr
    · refine ⟨fun vrf v6 p rm hk => ?_, fun vrf hv => ?_, fun r v6 p _ => ?_, fun r _ hr => ?_⟩ <;> simp_all
    · exact hshows.sound
  have hrow : ∀ row ∈ s.advertisedRoutes, ∀ p ∈ row.2, advertised s row.1 p.1 = some p.2 := by
    intro row hrow p hp
    rw [advertised, St.ipPrefixes, Dict.get?_of_nodup h.nodup hrow]
    exact Dict.get?_of_nodup (h.rows row hrow).2 hp
  have hloop := foldl_each (f := fun t (row : Str × Dict Str Data) =>
      row.2.foldl (fun t p => addRouteAdvertisement isIpv6 t row.1 p.1 p.2)
        (t.push (bgpNetworkImportCheckCommands asn row.1 false)))
    (Replaying isIpv6 asn s)
    (fun t row => router asn row.1 ∈ t.frr.noImportCheck ∧ ∀ p ∈ row.2, Has isIpv6 asn (advertised s) t.frr row.1 p.1)
    (l := s.advertisedRoutes) ?_ hstart
  · obtain ⟨hend, hall, _⟩ := hloop
    have hmem : ∀ vrf p, (advertised s vrf p).isSome = true → ∃ row ∈ s.advertisedRoutes, row.1 = vrf ∧
        ∃ q ∈ row.2, q.1 = p := by
      intro vrf p hp
      obtain ⟨d, hd⟩ := Option.isSome_iff_exists.mp hp
      unfold advertised St.ipPrefixes at hd
      cases hv : s.advertisedRoutes.get? vrf with
      | none => grind
      | some row =>
        rw [hv] at hd
        exact ⟨_, Dict.get?_eq_some_mem hv, rfl, _, Dict.get?_eq_some_mem hd, rfl⟩
    have hshows : Shows isIpv6 asn (advertised s) (onBgpAsnChange isIpv6 { s with bgpAsn := some asn }).frr := by
      refine hend.sound.shows (fun vrf p hp => ?_) fun vrf p hp => ?_
      · obtain ⟨row, hr, rfl, q, hq, rfl⟩ := hmem vrf p hp <;> grind
      · obtain ⟨row, hr, rfl, _⟩ := hmem vrf p hp <;> grind
    have hsame : advertised (onBgpAsnChange isIpv6 { s with bgpAsn := some asn }) = advertised s := hend.advertised_eq
    refine ⟨⟨?_, ?_, .inr ⟨hend.bgpAsn, ?_⟩⟩, hsame⟩
    · exact hend.routes.symm ▸ h.nodup
    · exact hend.routes.symm ▸ h.rows
    · grind
  · intro t row hr ht
    obtain ⟨p, hp⟩ := exists_mem_of_ne_nil _ (h.rows row hr).1
    have hpush : Replaying isIpv6 asn s (t.push (bgpNetworkImportCheckCommands asn row.1 false)) :=
      ⟨ht.routes, ht.bgpAsn, ht.sound.noImportCheck (by rw [hrow row hr p hp]; rfl)⟩
    obtain ⟨⟨hend, hcheck, hkeep⟩, hhas⟩ := hpush.prefixes (hrow row hr)
    refine ⟨hend, ⟨?_, hhas⟩, fun row' hrow' => ⟨?_, fun q hq => hkeep _ _ (hrow'.2 q hq)⟩⟩
    · rw [hcheck]
      exact mem_insert_self
    · rw [hcheck]
      exact mem_insert_of_mem hrow'.1

/-! ## What is asked for -/

/-- A row that may be advertised has one of the two profiles, or is the empty row of a prefix without one. -/
def Advertisable (data : Data) : Prop :=
  data.get? "profile" = some "FROM_SDN_SLB_ROUTES".toList ∨ data.get? "profile" =
    some "FROM_SDN_APPLIANCE_ROUTES".toList ∨
    data = [([], [])]

instance (data : Data) : Decidable (Advertisable data) := inferInstanceAs (Decidable (_ ∨ _ ∨ _))

/-- The VRF and the prefix that a key names stand before and after its first bar. -/
def target (key : Str) : Str × Str :=
  if '|' ∈ key then (key.takeWhile (· ≠ '|'), (key.dropWhile (· ≠ '|')).tail) else ("default".toList, key)

/-- The rows that the events ask for: the last advertisable one of each prefix that is not deleted. -/
def request (A : Str → Str → Option Data) : Event → Str → Str → Option Data
  | .set key data => if Advertisable data then setA A (target key).1 (target key).2 (some data) else A
  | .del key => setA A (target key).1 (target key).2 none
  | .metadata => A

theorem setHandlerValidate_iff {data : Data} : setHandlerValidate data = true ↔ Advertisable data := by
  rw [setHandlerValidate, decide_eq_true_eq, Advertisable]
  cases hg : data.get? "profile" with
  | none => grind [Option.any_none]
  | some profile =>
    have hne : data ≠ [] := fun hn => by rw [hn] at hg; cases hg
    have hmem : (some profile).any (· ∈ routeMaps) = true ↔ profile ∈ routeMaps := by simp
    rw [hmem, routeMaps, mem_cons, mem_singleton, and_iff_right hne, or_assoc, Option.some_inj, Option.some_inj]

theorem splitOnce_bar : ∀ key : Str, splitOnce ['|'] key =
    if '|' ∈ key then some (key.takeWhile (· ≠ '|'), (key.dropWhile (· ≠ '|')).tail) else none
  | [] => rfl
  | c :: key => by
    rw [splitOnce, splitOnce_bar key]
    by_cases hc : c = '|'
    · subst hc
      simp [startsWith]
    · have hbar : ('|' ∈ c :: key) = ('|' ∈ key) := by simp [Ne.symm hc]
      rw [if_neg (by simp [startsWith, Ne.symm hc])]
      simp only [hbar]
      split <;> simp [hc]

theorem splitKey_eq_target (key : Str) : splitKey key = target key := by
  rw [splitKey, show ("|".toList : Str) = ['|'] from rfl, splitOnce_bar, target]
  split <;> rfl

theorem Inv.step (h : Inv isIpv6 asn s) (e : Event) : Inv isIpv6 asn (step isIpv6 asn s e) ∧
    advertised (AdvertiseRoute.step isIpv6 asn s e) = request (advertised s) e := by
  cases e with
  | set key data =>
    rw [AdvertiseRoute.step, setHandler, request, ← splitKey_eq_target]
    by_cases hok : setHandlerValidate data = true
    · rw [if_pos hok, if_pos (setHandlerValidate_iff.mp hok)]
      exact ⟨h.add _ _ _, advertised_add _ _ _⟩
    · rw [if_neg hok, if_neg fun ha => hok (setHandlerValidate_iff.mpr ha)]
      exact ⟨h, rfl⟩
  | del key =>
    rw [AdvertiseRoute.step, delHandler, request, ← splitKey_eq_target]
    exact ⟨h.remove _ _, advertised_remove _ _⟩
  | metadata => exact h.change

end

/-- FRR has nothing as long as the AS number is not known, and then exactly the networks of the manager, with the import
check off in their VRFs. -/
def Mirrored (isIpv6 : Str → Bool) (asn : Str) (s : St) : Prop :=
  (s.bgpAsn = none ∧ s.frr.networks = [] ∧ s.frr.noImportCheck = []) ∨
    s.bgpAsn = some asn ∧ Shows isIpv6 asn (advertised s) s.frr

/-- After any events FRR mirrors the manager, and the manager has the last profile that was set for each prefix. -/
theorem advertised_networks (isIpv6 : Str → Bool) (asn : Str) (es : List Event) :
    Mirrored isIpv6 asn (es.foldl (step isIpv6 asn) init) ∧
      advertised (es.foldl (step isIpv6 asn) init) = es.foldl request fun _ _ => none := by
  have hinv : ∀ (es : List Event) (t : St), Inv isIpv6 asn t → Inv isIpv6 asn (es.foldl (step isIpv6 asn) t) ∧
      advertised (es.foldl (step isIpv6 asn) t) = es.foldl request (advertised t) := by
    intro es
    induction es with
    | nil => exact fun t ht => ⟨ht, rfl⟩
    | cons e es ih =>
      intro t ht
      obtain ⟨hstep, hreq⟩ := ht.step e
      rw [List.foldl_cons, List.foldl_cons, ← hreq]
      exact ih _ hstep
  obtain ⟨hend, hreq⟩ := hinv es init inv_init
  exact ⟨hend.frr, hreq⟩

section
-- a prefix set before the AS number is known, then with another profile; a prefix of a VRF that is deleted again
def sampleEvents : List Event :=
  [.set "10.0.0.0/24".toList [("profile".toList, "FROM_SDN_APPLIANCE_ROUTES".toList)], .metadata,
    .set "vrf1|10.1.0.0/24".toList [([], [])],
    .set "10.0.0.0/24".toList [("profile".toList, "FROM_SDN_SLB_ROUTES".toList)], .del "vrf1|10.1.0.0/24".toList]

theorem advertised_networks_slb :
    ((sampleEvents.foldl (step (fun _ => false) "65100".toList) init).frr.networks.get?
        (("65100".toList, none), false, "10.0.0.0/24".toList) = some (some "FROM_SDN_SLB_ROUTES_RM".toList) ∧
      (sampleEvents.foldl (step (fun _ => false) "65100".toList) init).frr.networks.get?
        (("65100".toList, some "vrf1".toList), false, "10.1.0.0/24".toList) = none) ∧
      ("65100".toList, none) ∈ (sampleEvents.foldl (step (fun _ => false) "65100".toList) init).frr.noImportCheck := by
  obtain ⟨hmirror, hadv⟩ := advertised_networks (fun _ => false) "65100".toList sampleEvents
  rcases hmirror with ⟨hnone, -⟩ | ⟨-, hshows⟩
  · cases hnone
  · have hrow : advertised (sampleEvents.foldl (step (fun _ => false) "65100".toList) init) "default".toList
        "10.0.0.0/24".toList = some [("profile".toList, "FROM_SDN_SLB_ROUTES".toList)] := by rw [hadv]; rfl
    have hgone : advertised (sampleEvents.foldl (step (fun _ => false) "65100".toList) init) "vrf1".toList
        "10.1.0.0/24".toList = none := by rw [hadv]; rfl
    refine ⟨⟨(hshows.networks "default".toList false _).trans ?_, (hshows.networks "vrf1".toList false _).trans ?_⟩,
      (hshows.importCheck "default".toList).mpr ⟨"10.0.0.0/24".toList, ?_⟩⟩
    · rw [if_pos rfl, hrow]
      rfl
    · rw [if_pos rfl, hgone]
      rfl
    · rw [hrow]
      rfl

end

end Sonic.AdvertiseRoute
