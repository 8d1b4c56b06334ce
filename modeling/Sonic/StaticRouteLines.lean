import Sonic.StaticRoute

/-! # The route commands FRR is left with

The manager compares nexthops, FRR compares texts. As long as no text that goes is also the text of
a nexthop that stays, FRR has exactly the commands of the routes that were accepted last. -/

namespace Sonic.StaticRoute
open List

abbrev Route := List IpNextHop × Str

def Mgr.routeOf (m : Mgr) (p : Str × Str) : Option Route := (m.routesOf p.1).get? p.2

def linesOf (p : Str × Str) : Option Route → List Str
  | none => []
  | some (nhs, tag) => nhs.map (routeLine p.2 p.1 tag)

theorem mem_linesOf {p : Str × Str} {l : Str} {r : Option Route} :
    l ∈ linesOf p r ↔ ∃ nhs tag, r = some (nhs, tag) ∧ ∃ nh ∈ nhs, l = routeLine p.2 p.1 tag nh := by
  cases r <;> grind [linesOf]

section
variable (isIpv6 : Str → Bool)

def latest (want : Str × Str → Option Route) : Event → Str × Str → Option Route
  | .set key data =>
    match splitKey key with
    | some (vrf, ipPrefix) =>
      match nextHopsOf isIpv6 ipPrefix data with
      | some nhs => Function.update want (vrf, ipPrefix) (some (nhs, routeTag data))
      | none => want
    | none => want
  | .del key _ =>
    match splitKey key with
    | some p => Function.update want p none
    | none => want
  | .asn _ => want

def latestOf (es : List Event) : Str × Str → Option Route := es.foldl (latest isIpv6) fun _ => none

end

def Mgr.stored (m : Mgr) : List (Str × Str) := m.staticRoutes.flatMap fun (vrf, rs) => rs.keys.map (vrf, ·)

/-- No line that goes when the route `(vrf, ipPrefix)` becomes `(nhs, tag)` is the line of a nexthop that stays. -/
def keepsLines (m : Mgr) (vrf ipPrefix : Str) (nhs : List IpNextHop) (tag : Str) : Prop :=
  match m.routeOf (vrf, ipPrefix) with
  | none => True
  | some (cur, curTag) =>
    ∀ nh ∈ cur, (tag = curTag → nh ∉ nhs) →
      (∀ nh' ∈ cur, tag = curTag → nh' ∈ nhs → routeLine ipPrefix vrf curTag nh ≠ routeLine ipPrefix vrf curTag nh') ∧
      ∀ p ∈ m.stored, p ≠ (vrf, ipPrefix) → routeLine ipPrefix vrf curTag nh ∉ linesOf p (m.routeOf p)

instance (m : Mgr) (vrf ipPrefix : Str) (nhs : List IpNextHop) (tag : Str) :
    Decidable (keepsLines m vrf ipPrefix nhs tag) :=
  match h : m.routeOf (vrf, ipPrefix) with
  | none => isTrue (by rw [keepsLines, h]; trivial)
  | some (cur, curTag) => decidable_of_iff
      (∀ nh ∈ cur, (tag = curTag ∧ nh ∈ nhs) ∨
        (∀ nh' ∈ cur, tag = curTag → nh' ∈ nhs → routeLine ipPrefix vrf curTag nh ≠ routeLine ipPrefix vrf curTag nh') ∧
        ∀ p ∈ m.stored, p ≠ (vrf, ipPrefix) → routeLine ipPrefix vrf curTag nh ∉ linesOf p (m.routeOf p))
      (by simp only [keepsLines, h, or_iff_not_imp_left, not_and])

def routeOk (isIpv6 : Str → Bool) (s : Sys) : Event → Prop
  | .set key data =>
    match splitKey key with
    | some (vrf, ipPrefix) =>
      match nextHopsOf isIpv6 ipPrefix data with
      | some nhs => keepsLines s.mgr vrf ipPrefix nhs (routeTag data)
      | none => True
    | none => True
  | .del key _ =>
    match splitKey key with
    | some (vrf, ipPrefix) =>
      keepsLines s.mgr vrf ipPrefix [] (((s.mgr.routeOf (vrf, ipPrefix)).getD ([], [])).2)
    | none => True
  | .asn _ => True

instance (isIpv6 : Str → Bool) (s : Sys) : ∀ e, Decidable (routeOk isIpv6 s e)
  | .set key data => by
    unfold routeOk
    dsimp only
    split
    · split <;> exact inferInstance
    · exact inferInstance
  | .del key _ => by
    unfold routeOk
    dsimp only
    split <;> exact inferInstance
  | .asn _ => inferInstanceAs (Decidable True)

def Event.plain : Event → Prop
  | .set _ data => bfdEnabled data = false
  | _ => True

instance : ∀ e : Event, Decidable e.plain
  | .set _ _ => inferInstanceAs (Decidable (_ = _))
  | .del _ _ => inferInstanceAs (Decidable True)
  | .asn _ => inferInstanceAs (Decidable True)

/-! ## Frame lemmas -/

theorem routeOf_set (m : Mgr) (vrf : Str) (rs : Routes) (p : Str × Str) :
    Mgr.routeOf { m with staticRoutes := m.staticRoutes.set vrf rs } p =
      if p.1 = vrf then rs.get? p.2 else m.routeOf p := by grind [Mgr.routeOf, Mgr.routesOf]

theorem routeOf_store (m : Mgr) (vrf ipPrefix : Str) (r : Route) :
    (m.store vrf ipPrefix r).routeOf = Function.update m.routeOf (vrf, ipPrefix) (some r) := by
  grind [Mgr.store, routeOf_set, Mgr.routeOf]

theorem routeOf_pop (m : Mgr) (vrf ipPrefix : Str) :
    (m.pop vrf ipPrefix).routeOf = Function.update m.routeOf (vrf, ipPrefix) none := by
  grind [Mgr.pop, routeOf_set, Mgr.routeOf]

theorem mem_stored {m : Mgr} {p : Str × Str} {r : Route} (h : m.routeOf p = some r) : p ∈ m.stored := by
  unfold Mgr.routeOf Mgr.routesOf at h
  cases hv : m.staticRoutes.get? p.1 with
  | none => rw [hv] at h; cases h
  | some rs =>
    rw [hv] at h
    refine List.mem_flatMap.mpr ⟨(p.1, rs), Dict.get?_eq_some_mem hv, List.mem_map.mpr ⟨p.2, ?_, rfl⟩⟩
    exact List.mem_map.mpr ⟨(p.2, r), Dict.get?_eq_some_mem h, rfl⟩

def editRoutes (routes : List Str) : Command → List Str
  | .route true line => Lines.remove routes line
  | .route false line => Lines.add routes line
  | _ => routes

theorem exec_routes (f : Frr) (c : Command) : (f.exec c).routes = editRoutes f.routes c := by
  cases c with
  | route delete line => cases delete <;> rfl
  | addressFamily af | redistribute delete | exitAddressFamily => grind [Frr.exec, editRoutes]
  | _ => rfl

theorem foldl_exec_routes (f : Frr) (cmds : List Command) :
    (cmds.foldl Frr.exec f).routes = cmds.foldl editRoutes f.routes := by
  induction cmds generalizing f <;> simp_all [exec_routes]

theorem push_routes (f : Frr) (cmds : List Command) : (f.push cmds).routes = cmds.foldl editRoutes f.routes :=
  foldl_exec_routes _ cmds

theorem push_enable_routes (f : Frr) (cmds : List Command) (asn vrf : Str) :
    (f.push (cmds ++ enableRedistributionCommand asn vrf)).routes = (f.push cmds).routes := by
  rw [push_routes, push_routes, foldl_append]
  rfl

theorem push_disable_routes (f : Frr) (cmds : List Command) (asn vrf : Str) :
    (f.push (cmds ++ disableRedistributionCommand asn vrf)).routes = (f.push cmds).routes := by
  rw [push_routes, push_routes, foldl_append]
  rfl

theorem pushes_enable_routes (asn : Str) (vrfs : List Str) (f : Frr) :
    ((vrfs.map (enableRedistributionCommand asn)).foldl Frr.push f).routes = f.routes := by
  induction vrfs generalizing f with
  | nil => rfl
  | cons vrf vrfs ih =>
    rw [map_cons, foldl_cons, ih]
    exact push_enable_routes f [] asn vrf

section
variable {isIpv6 : Str → Bool} {iter : ∀ α : Type, List α → List α} {dbName : Str}
variable (hiter : ∀ (α : Type) (l : List α) x, x ∈ iter α l ↔ x ∈ l)
include hiter

theorem push_commands (f : Frr) (nhs cur : List IpNextHop) (ipPrefix vrf tag curTag : Str) :
    ∃ gone put : List IpNextHop,
      (f.push (staticRouteCommands iter nhs cur ipPrefix vrf tag curTag)).routes =
        (put.map (routeLine ipPrefix vrf tag)).foldl Lines.add
          ((gone.map (routeLine ipPrefix vrf curTag)).foldl Lines.remove f.routes) ∧
      (∀ nh, nh ∈ gone ↔ nh ∈ cur ∧ (tag = curTag → nh ∉ nhs)) ∧
      ∀ nh, nh ∈ put ↔ nh ∈ nhs ∧ (tag = curTag → nh ∉ cur) := by
  unfold staticRouteCommands
  split
  · rename_i h
    refine ⟨iter _ cur, iter _ nhs, ?_, fun nh => ?_, fun nh => ?_⟩
    · rw [push_routes, foldl_append]
      simp only [foldl_map]
      rfl
    · grind
    · grind
  · rename_i h
    obtain rfl : tag = curTag := not_not.mp h
    let diffSet := iter _ (nhs.filter (· ∉ cur) ++ cur.filter (· ∉ nhs))
    refine ⟨diffSet.filter (· ∈ cur), diffSet.filter (· ∉ cur), ?_, fun nh => ?_, fun nh => ?_⟩
    · rw [push_routes, foldl_append]
      simp only [foldl_map]
      rfl
    · simp only [diffSet, mem_filter, hiter, mem_append, decide_eq_true_eq, true_imp_iff]
      tauto
    · grind

theorem holds_push {m : Mgr} {f : Frr} (h : Lines.Holds f.routes fun p => linesOf p (m.routeOf p))
    {vrf ipPrefix tag : Str} {nhs : List IpNextHop} (hk : keepsLines m vrf ipPrefix nhs tag) (cur : List IpNextHop)
    (curTag : Str) (hcur : ((m.routeOf (vrf, ipPrefix)).getD ([], curTag)) = (cur, curTag)) :
    Lines.Holds (f.push (staticRouteCommands iter nhs cur ipPrefix vrf tag curTag)).routes
      (Function.update (fun p => linesOf p (m.routeOf p)) (vrf, ipPrefix) (nhs.map (routeLine ipPrefix vrf tag))) := by
  obtain ⟨gone, put, he, hgone, hput⟩ := push_commands hiter f nhs cur ipPrefix vrf tag curTag
  have hold : linesOf (vrf, ipPrefix) (m.routeOf (vrf, ipPrefix)) = cur.map (routeLine ipPrefix vrf curTag) := by
    cases hr : m.routeOf (vrf, ipPrefix) with
    | none => rw [hr] at hcur; cases hcur; rfl
    | some r => rw [hr] at hcur; cases hcur; rfl
  -- the condition at a nexthop that goes
  have hfree : ∀ nh ∈ gone,
      (∀ nh' ∈ cur, tag = curTag → nh' ∈ nhs → routeLine ipPrefix vrf curTag nh ≠ routeLine ipPrefix vrf curTag nh') ∧
      ∀ p ∈ m.stored, p ≠ (vrf, ipPrefix) → routeLine ipPrefix vrf curTag nh ∉ linesOf p (m.routeOf p) := by
    grind [keepsLines]
  rw [he]
  refine h.replace _ _ ?_ ?_ ?_ ?_
  · grind
  · grind
  · grind
  · intro l hl p hp
    obtain ⟨nh, hnh, rfl⟩ := List.mem_map.mp hl
    cases hr : m.routeOf p with
    | none => exact not_mem_nil
    | some r => exact hr ▸ (hfree nh hnh).2 p (mem_stored hr) hp

end

/-! ## Runs -/

structure Serves (s : Sys) (want : Str × Str → Option Route) : Prop where
  routeOf : s.mgr.routeOf = want
  routes : Lines.Holds s.frr.routes fun p => linesOf p (want p)

theorem linesOf_update (want : Str × Str → Option Route) (p : Str × Str) (r : Option Route) :
    (fun q => linesOf q (Function.update want p r q)) =
      Function.update (fun q => linesOf q (want q)) p (linesOf p r) := by grind

section
variable {isIpv6 : Str → Bool} {iter : ∀ α : Type, List α → List α} {dbName : Str}

theorem setHandler_false {m m' : Mgr} {key : Str} {data : Data} {cmds : List Command}
    (h : m.setHandler isIpv6 iter key data = some (m', cmds, false)) : m' = m ∧ cmds = [] := by
  grind [Mgr.setHandler, Option.map_eq_some_iff]

variable (hiter : ∀ (α : Type) (l : List α) x, x ∈ iter α l ↔ x ∈ l)
include hiter

theorem serves_set {s s' : Sys} {want : Str × Str → Option Route} (hs : Serves s want) {key : Str} {data : Data}
    (hp : bfdEnabled data = false) (hok : routeOk isIpv6 s (.set key data))
    (he : step isIpv6 iter dbName s (.set key data) = some s') : Serves s' (latest isIpv6 want (.set key data)) := by
  obtain ⟨⟨m, cmds, b⟩, hm, rfl⟩ := Option.map_eq_some_iff.mp he
  unfold Mgr.setHandler at hm
  obtain ⟨⟨vrf, ipPrefix⟩, hkey, hm⟩ := Option.map_eq_some_iff.mp hm
  simp only [routeOk, hkey] at hok
  simp only [latest, hkey]
  dsimp only at hm
  rw [if_neg (by simp [hp])] at hm
  cases hn : nextHopsOf isIpv6 ipPrefix data with
  | none =>
    simp only [hn] at hm ⊢
    cases hm
    exact ⟨hs.routeOf, hs.routes⟩
  | some nhs =>
    simp only [hn] at hm hok ⊢
    -- the routes are the same whether redistribution is enabled or not
    have hroutes : Lines.Holds (s.frr.push cmds).routes
        fun p => linesOf p (Function.update want (vrf, ipPrefix) (some (nhs, routeTag data)) p) := by
      rw [linesOf_update, ← hs.routeOf]
      have hold : Lines.Holds s.frr.routes fun p => linesOf p (s.mgr.routeOf p) := by rw [hs.routeOf]; exact hs.routes
      have hpush := holds_push hiter hold hok ((s.mgr.routeOf (vrf, ipPrefix)).getD ([], routeTag data)).1
        ((s.mgr.routeOf (vrf, ipPrefix)).getD ([], routeTag data)).2
        (by cases s.mgr.routeOf (vrf, ipPrefix) <;> rfl)
      split at hm
      · split at hm
        · cases hm
          rw [push_enable_routes]
          exact hpush
        · cases hm
          exact hpush
      · cases hm
        exact hpush
    refine ⟨?_, hroutes⟩
    rw [← hs.routeOf, ← routeOf_store]
    split at hm
    · split at hm <;> cases hm <;> rfl
    · cases hm
      rfl

theorem serves_del {s s' : Sys} {want : Str × Str → Option Route} (hs : Serves s want) {key : Str}
    {configDb : ConfigDb} (hok : routeOk isIpv6 s (.del key configDb))
    (he : step isIpv6 iter "CONFIG_DB" s (.del key configDb) = some s') :
    Serves s' (latest isIpv6 want (.del key configDb)) := by
  obtain ⟨⟨m, cmds⟩, hm, rfl⟩ := Option.map_eq_some_iff.mp he
  unfold Mgr.delHandler at hm
  obtain ⟨⟨vrf, ipPrefix⟩, hkey, hm⟩ := Option.map_eq_some_iff.mp hm
  simp only [routeOk, hkey] at hok
  simp only [latest, hkey]
  have hskip : skipApplDel "CONFIG_DB" configDb vrf ipPrefix = false := if_pos rfl
  dsimp only at hm
  rw [if_neg (by rw [hskip]; exact Bool.false_ne_true)] at hm
  have hroutes : Lines.Holds (s.frr.push cmds).routes
      fun p => linesOf p (Function.update want (vrf, ipPrefix) none p) := by
    rw [linesOf_update, ← hs.routeOf]
    have hold : Lines.Holds s.frr.routes fun p => linesOf p (s.mgr.routeOf p) := by rw [hs.routeOf]; exact hs.routes
    -- a route that is not there has no line to take away
    have hpush : Lines.Holds (s.frr.push (staticRouteCommands iter []
        ((s.mgr.routeOf (vrf, ipPrefix)).getD ([], advertiseDisableTag)).1 ipPrefix vrf
        ((s.mgr.routeOf (vrf, ipPrefix)).getD ([], advertiseDisableTag)).2
        ((s.mgr.routeOf (vrf, ipPrefix)).getD ([], advertiseDisableTag)).2)).routes
        (Function.update (fun p => linesOf p (s.mgr.routeOf p)) (vrf, ipPrefix) []) := by
      cases hr : s.mgr.routeOf (vrf, ipPrefix) with
      | none =>
        have hk : keepsLines s.mgr vrf ipPrefix [] advertiseDisableTag := by rw [keepsLines, hr]; trivial
        exact holds_push hiter hold hk [] advertiseDisableTag (by rw [hr]; rfl)
      | some r =>
        rw [hr] at hok
        exact holds_push hiter hold hok r.1 r.2 (by rw [hr]; rfl)
    split at hm
    · split at hm
      · cases hm
        rw [push_disable_routes]
        exact hpush
      · cases hm
        exact hpush
    · cases hm
      exact hpush
  refine ⟨?_, hroutes⟩
  rw [← hs.routeOf, ← routeOf_pop]
  split at hm
  · split at hm <;> cases hm <;> rfl
  · cases hm
    rfl

theorem serves_step {s s' : Sys} {want : Str × Str → Option Route} {e : Event} (hs : Serves s want) (hp : e.plain)
    (hok : routeOk isIpv6 s e) (he : step isIpv6 iter "CONFIG_DB" s e = some s') :
    Serves s' (latest isIpv6 want e) := by
  cases e with
  | set key data => exact serves_set hiter hs hp hok he
  | del key configDb => exact serves_del hiter hs hok he
  | asn bgpAsn =>
    cases he
    refine ⟨hs.routeOf, ?_⟩
    have hr := pushes_enable_routes bgpAsn (iter _ s.mgr.vrfPendingRedistribution) s.frr
    exact hr ▸ hs.routes

theorem serves_run : ∀ {es : List Event} {s t : Sys} {want : Str × Str → Option Route}, Serves s want →
    (∀ e ∈ es, e.plain) → Along (step isIpv6 iter "CONFIG_DB") (routeOk isIpv6) s es →
    run (step isIpv6 iter "CONFIG_DB") s es = some t → Serves t (es.foldl (latest isIpv6) want)
  | [], s, t, want, hs, _, _, hr => by cases hr; exact hs
  | e :: es, s, t, want, hs, hp, ha, hr => by
    obtain ⟨s', he, hr⟩ := run_cons_some _ hr
    obtain ⟨hok, ha⟩ := Along_cons _ ha he
    rw [foldl_cons]
    exact serves_run (serves_step hiter hs (hp e mem_cons_self) hok he)
      (fun e' he' => hp e' (mem_cons_of_mem _ he')) ha hr

theorem frr_routes_of_run {es : List Event} {s : Sys} (hp : ∀ e ∈ es, e.plain)
    (hok : Along (step isIpv6 iter "CONFIG_DB".toList) (routeOk isIpv6) Sys.new es)
    (hr : run (step isIpv6 iter "CONFIG_DB".toList) Sys.new es = some s) :
    (∀ line, line ∈ s.frr.routes ↔ ∃ vrf ipPrefix nhs tag, latestOf isIpv6 es (vrf, ipPrefix) = some (nhs, tag) ∧
      ∃ nh ∈ nhs, line = routeLine ipPrefix vrf tag nh) ∧
    ∀ key data m cmds, s.mgr.setHandler isIpv6 iter key data = some (m, cmds, false) → m = s.mgr ∧ cmds = [] := by
  have hs : Serves Sys.new fun _ => none := ⟨rfl, fun l => by simp [Sys.new, Frr.new, linesOf]⟩
  refine ⟨fun line => ?_, fun key data m cmds h => setHandler_false h⟩
  rw [(serves_run hiter hs hp hok hr).routes line, Prod.exists]
  simp only [mem_linesOf]
  rfl

end

def editedRoutes : List Event :=
  [.set "10.0.0.0/8" [("nexthop", "1.1.1.1,1.1.1.2")],
   .asn "65000",
   .set "red|10.0.0.0/8" [("nexthop", "1.1.1.1"), ("distance", "5")],
   .set "10.0.0.0/8" [("nexthop", "1.1.1.2"), ("ifname", "Ethernet0")],
   .set "10.0.0.0/8" [("nexthop", "bad")],
   .set "10.0.0.0/8" [("blackhole", "true"), ("advertise", "false")],
   .del "red|10.0.0.0/8" []]

theorem frr_routes_edited : ∃ s, run (step (fun _ => false) (fun _ l => l) "CONFIG_DB".toList) Sys.new editedRoutes =
    some s ∧
    s.frr.routes = ["ip route 10.0.0.0/8 blackhole tag 2".toList] ∧
    ((∀ line, line ∈ s.frr.routes ↔ ∃ vrf ipPrefix nhs tag,
      latestOf (fun _ => false) editedRoutes (vrf, ipPrefix) = some (nhs, tag) ∧
      ∃ nh ∈ nhs, line = routeLine ipPrefix vrf tag nh) ∧
    ∀ key data m cmds, s.mgr.setHandler (fun _ => false) (fun _ l => l) key data = some (m, cmds, false) →
      m = s.mgr ∧ cmds = []) :=
  ⟨_, (Option.some_get (by decide +kernel)).symm, by decide +kernel,
    frr_routes_of_run (fun _ _ _ => Iff.rfl) (by decide +kernel) (by decide +kernel)
      (Option.some_get (by decide +kernel)).symm⟩

def twoForms : List Event :=
  [.set "10.0.0.0/8" [("nexthop", "PortChannel1,"), ("ifname", ",PortChannel1")],
   .set "10.0.0.0/8" [("nexthop", "PortChannel1"), ("ifname", [])]]

theorem frr_routes_two_forms : ∃ s, run (step (fun _ => false) (fun _ l => l) "CONFIG_DB".toList) Sys.new twoForms =
    some s ∧
    s.frr.routes = [] ∧
    ¬ ∀ line, line ∈ s.frr.routes ↔ ∃ vrf ipPrefix nhs tag,
      latestOf (fun _ => false) twoForms (vrf, ipPrefix) = some (nhs, tag) ∧
      ∃ nh ∈ nhs, line = routeLine ipPrefix vrf tag nh := by
  refine ⟨_, (Option.some_get (by decide +kernel)).symm, by decide +kernel, fun h => ?_⟩
  have hl := (h "ip route 10.0.0.0/8 PortChannel1 tag 1".toList).mpr
    ⟨"default".toList, "10.0.0.0/8".toList, _, _, (Option.some_get (by decide +kernel)).symm,
      ⟨.inet, "false".toList, 0, "PortChannel1".toList, [], []⟩, by decide +kernel, by decide +kernel⟩
  exact absurd hl (by decide +kernel)

end Sonic.StaticRoute
