import Sonic.IpaddressText
import Sonic.StaticBfdRow
import Sonic.StaticRoute

/-! # One static route, two readers

A static route with BFD is read by two daemons: `staticroutebfd` takes it apart, keeps the nexthops whose sessions are up and
writes it again, and `bgpcfgd` reads what was written. The original row has a reading too, by the rules of `bgpcfgd` and
restricted to the same indices. `reconstructed_agrees_iff` says when the two readings are the same nexthops: for every index
that is left, both leave it out or both use it with the same texts and the same distance (`Kept`). -/

namespace Sonic.StaticBfd

open Str
open Ipaddress (Af PyError inetPton)
open StaticRoute (IpNextHop Mgr ipNextHopSet nextHopsOf)

variable {l : List Str} {idx : List Nat} {af : Af}

def restrict (l : Option (List Str)) (idx : List Nat) : Option (List Str) := l.map fun l => idx.filterMap (l[·]?)

def nexthopVrfs (vrf : Str) (data : Row) : List Str :=
  match StaticRoute.argList data "nexthop-vrf" with
  | some l => l.map fun v => if strip v = [] then vrf else v
  | none => ((StaticRoute.argList data "nexthop").getD []).map fun _ => vrf

section
variable (isIpv6 : Str → Bool) (iter : ∀ α : Type, List α → List α)

def restrictedNextHops (vrf ipPrefix : Str) (data : Row) (idx : List Nat) : Option (List IpNextHop) :=
  ipNextHopSet (isIpv6 ipPrefix) (restrict (StaticRoute.argList data "blackhole") idx)
    (restrict (StaticRoute.argList data "nexthop") idx) (restrict (StaticRoute.argList data "ifname") idx)
    (restrict (StaticRoute.argList data "distance") idx) (restrict (some (nexthopVrfs vrf data)) idx)

/-- The reconstructed row is handled without an exception, and the nexthops are those of the original row. -/
def Agrees (m : Mgr) (key vrf ipPrefix : Str) (config : Row) (reachable : List (Str × Str))
    (restricted : Option (List IpNextHop)) : Prop :=
  ∃ cfg m' cmds nhs, reconstructStaticRouteConfig config reachable = some cfg ∧
    m.setHandler isIpv6 iter key cfg = some (m', cmds, true) ∧
    (m'.routesOf vrf).get? ipPrefix = some (nhs, StaticRoute.routeTag cfg) ∧ restricted = some nhs

end

/-! ## Lists as texts -/

def members (v : Str) : Option (List Str) := if strip v ≠ [] then some (split ',' v) else none

theorem argList_eq (d : Row) (k : Str) : StaticRoute.argList d k = (d.get? k).bind members := rfl

theorem field_eq (d : Row) (k : Str) : field d k = (StaticRoute.argList d k).map fun l => l.map strip := by
  rw [argList_eq, field]
  cases d.get? k <;> grind [argList, members]

def Item (x : Str) : Prop := Stripped x ∧ ',' ∉ x

theorem item_nil : Item [] := ⟨rfl, List.not_mem_nil⟩

theorem field_item {d : Row} {k : Str} {x : Str} (hx : x ∈ (field d k).getD []) : Item x := by
  rw [field_eq, argList_eq] at hx
  cases hv : d.get? k with
  | none => simp_all
  | some v =>
    rw [hv, Option.bind_some, members] at hx
    split at hx
    · obtain ⟨y, hy, rfl⟩ := List.mem_map.mp hx
      exact ⟨strip_strip y, fun hc => not_mem_split hy (mem_of_mem_strip hc)⟩
    · cases hx

theorem getD_item (h : ∀ x ∈ l, Item x) (i : Nat) : Item (l.getD i []) := by grind [item_nil]

theorem members_column (h : ∀ x ∈ l, Item x) (idx : List Nat) : members (column l idx) =
    if idx.length = 0 ∨ idx.length = 1 ∧ column l idx = [] then none else some (idx.map fun i => l.getD i []) := by
  match idx with
  | [] => rfl
  | [i] =>
    have hcol : column l [i] = l.getD i [] := by simp [column, join]
    obtain ⟨hs, hc⟩ := getD_item h i
    rw [members, hcol, hs, split_of_not_mem hc]
    by_cases he : l.getD i [] = []
    · simp
    · simp
  | i :: j :: idx =>
    have hne : strip (column l (i :: j :: idx)) ≠ [] := fun hc => by
      have := strip_eq_nil.mp hc ',' (by simp [column, join_cons_cons])
      exact absurd this (by decide)
    rw [members, if_pos hne, if_neg (by simp), column, split_join ?_ (by simp)]
    intro p hp
    obtain ⟨n, -, rfl⟩ := List.mem_map.mp hp
    exact (getD_item h n).2

theorem members_length (h : ∀ x ∈ l, Item x) {xs : List Str}
    (hm : members (column l idx) = some xs) :
    xs.length = idx.length := by grind [members_column]

theorem members_item (h : ∀ x ∈ l, Item x) {j : Nat} (hj : j < idx.length) :
    ((members (column l idx)).bind (·[j]?)).getD [] = l.getD (idx.getD j 0) [] := by
  rw [members_column h]
  split
  · rename_i hc
    obtain ⟨hlen, hcol⟩ := hc.resolve_left (by omega)
    obtain ⟨i, rfl⟩ := List.length_eq_one_iff.mp hlen
    simp_all [column, join]
  · simp_all

/-! ## Reading the reconstructed row -/

def covers (l : Option (List Str)) (idx : List Nat) : Bool := l.all fun l => idx.all (· < l.length)

theorem pick_iff {l : Option (List Str)} : (pick l idx).isSome = true ↔ covers l idx = true := by
  cases l <;> simp_all [pick, covers, mapM_isSome_iff]

theorem restrict_eq (hc : covers (some l) idx = true) :
    idx.filterMap (l[·]?) = idx.map fun i => l.getD i [] := by
  rw [covers, Option.all_some, List.all_eq_true] at hc
  rw [← List.filterMap_eq_map]
  refine List.filterMap_congr fun i hi => ?_
  simp_all

theorem restrict_item {l : Option (List Str)} (hc : covers l idx = true) {j : Nat}
    (hj : j < idx.length) :
    (restrict l idx).bind (·[j]?) = l.map fun l => l.getD (idx.getD j 0) [] := by
  cases l <;> simp_all [restrict, restrict_eq]

theorem restrict_length {l : Option (List Str)} (hc : covers l idx = true) {xs : List Str}
    (hr : restrict l idx = some xs) : xs.length = idx.length := by
  obtain ⟨l, rfl, rfl⟩ := Option.map_eq_some_iff.mp hr
  rw [restrict_eq hc, List.length_map]

theorem live_lt {up : Str × Str → Bool} {vs ns : List Str} {i : Nat} (hi : i ∈ live up vs ns) : i < ns.length :=
  List.mem_range.mp (List.mem_filter.mp hi).1

theorem covers_live (up : Str × Str → Bool) (vs : List Str) {ns : List Str} (h : l.length = ns.length) :
    covers (some l) (live up vs ns) = true := by grind [covers, live_lt]

def listFields : List Str :=
  ["blackhole", "nexthop", "ifname", "distance", "nexthop-vrf"]

section
variable {config : Row} (reachable : List (Str × Str)) {vs is ns : List Str} (hl : Listed config vs is ns)
include hl

theorem reachableIdx_eq : reachableIdx ns vs reachable = some (live (fun nh => nh ∈ reachable) vs ns) := by
  rw [reachableIdx, if_neg (by grind [hl.len₁, hl.len₂])]
  rfl

theorem reconstruct_isSome : (reconstructStaticRouteConfig config reachable).isSome = true ↔
    covers (field config "blackhole") (live (fun nh => nh ∈ reachable) vs ns) = true ∧
      covers (field config "distance") (live (fun nh => nh ∈ reachable) vs ns) = true := by
  have hpick {l : List Str} (h : l.length = ns.length) :
      ∃ w, pick (some l) (live (fun nh => nh ∈ reachable) vs ns) = some w :=
    Option.isSome_iff_exists.mp (pick_iff.mpr (covers_live _ vs h))
  obtain ⟨nh, hnh⟩ := hpick rfl
  obtain ⟨intf, hintf⟩ := hpick hl.len₁
  obtain ⟨nhVrf, hvrf⟩ := hpick (hl.len₂.symm.trans hl.len₁)
  rw [← pick_iff, ← pick_iff, reconstructStaticRouteConfig, hl.nexthops, hl.vrfs, hl.intfs]
  simp only [Option.bind_eq_bind, Option.bind_some, reachableIdx_eq reachable hl, hnh, hintf, hvrf]
  cases pick (field config "blackhole") (live (fun nh => nh ∈ reachable) vs ns) with
  | none => simp only [Option.bind_none, Option.isSome_none, Bool.false_eq_true, false_and]
  | some bkh =>
    cases pick (field config "distance") (live (fun nh => nh ∈ reachable) vs ns) with
    | none => simp only [Option.bind_some, Option.bind_none, Option.isSome_none, Bool.false_eq_true, and_false]
    | some dist => exact iff_of_true rfl ⟨rfl, rfl⟩

variable {reachable} {cfg : Row} (h : reconstructStaticRouteConfig config reachable = some cfg)
include h

theorem reconstruct_argList {k : Str} (hk : k ∈ listFields) : StaticRoute.argList cfg k =
    (config.get? k).bind fun _ => members (column ((field config k).getD [])
      (live (fun nh => nh ∈ reachable) vs ns)) := by
  rw [reconstructStaticRouteConfig, hl.nexthops, hl.vrfs, hl.intfs] at h
  simp only [Option.bind_eq_bind, Option.bind_some, reachableIdx_eq reachable hl] at h
  obtain ⟨bkh, hbkh, h⟩ := Option.bind_eq_some_iff.mp h
  obtain ⟨nh, hnh, h⟩ := Option.bind_eq_some_iff.mp h
  obtain ⟨intf, hintf, h⟩ := Option.bind_eq_some_iff.mp h
  obtain ⟨dist, hdist, h⟩ := Option.bind_eq_some_iff.mp h
  obtain ⟨nhVrf, hvrf, h⟩ := Option.bind_eq_some_iff.mp h
  cases h
  have hread {w : Str} {l : Option (List Str)} (hw : ∀ v, rebuilt bkh nh intf dist nhVrf (k, v) = some (k, w))
      (hne : "expiry" ≠ k) (hpick : pick l (live (fun nh => nh ∈ reachable) vs ns) = some w) :
      StaticRoute.argList (Dict.set (config.filterMap (rebuilt bkh nh intf dist nhVrf)) "expiry" "false") k =
        (config.get? k).bind fun _ => members (column (l.getD []) (live (fun nh => nh ∈ reachable) vs ns)) := by
    rw [argList_eq, reconstruct_get? hne hw, ← pick_eq hpick]
    cases config.get? k <;> rfl
  simp only [listFields, List.mem_cons, List.not_mem_nil, or_false] at hk
  rcases hk with rfl | rfl | rfl | rfl | rfl
  · exact hread (fun v => by simp [rebuilt]) (by decide) hbkh
  · rw [show field config "nexthop" = some ns from hl.nexthops]
    exact hread (fun v => by simp [rebuilt]) (by decide) hnh
  · rw [show field config "ifname" = some is from hl.intfs]
    exact hread (fun v => by simp [rebuilt]) (by decide) hintf
  · exact hread (fun v => by simp [rebuilt]) (by decide) hdist
  · rw [show field config "nexthop-vrf" = some vs from hl.vrfs]
    exact hread (fun v => by simp [rebuilt]) (by decide) hvrf

omit hl in
theorem reconstruct_bfdEnabled : StaticRoute.bfdEnabled cfg = false := by
  unfold reconstructStaticRouteConfig at h
  simp only [Option.bind_eq_bind, Option.bind_eq_some_iff, Option.pure_def, Option.some.injEq] at h
  obtain ⟨_, -, _, -, _, -, bkh, -, nh, -, intf, -, dist, -, nhVrf, -, rfl⟩ := h
  have hnone : (Dict.set (config.filterMap (rebuilt bkh nh intf dist nhVrf)) "expiry" "false").get? "bfd" = none := by
    rw [Dict.get?_set_ne _ (by decide), Dict.get?_eq_none_iff]
    intro hm
    obtain ⟨q, hq, he⟩ := List.mem_map.mp hm
    obtain ⟨p, -, hp⟩ := List.mem_filterMap.mp hq
    have hkey : p.1 = "bfd" := (rebuilt_key _ _ _ _ _ p q hp).symm.trans he
    rw [rebuilt, if_pos (.inl hkey)] at hp
    cases hp
  rw [StaticRoute.bfdEnabled, argList_eq, hnone]
  rfl

end

/-! ## Nexthops -/

def takeNextHop (nhs : List IpNextHop) : Except PyError IpNextHop → Option (List IpNextHop)
  | .ok nh => some (Lines.add nhs nh)
  | .error .valueError => some nhs
  | .error .osError => none

def collect (rs : List (Except PyError IpNextHop)) : Option (List IpNextHop) := rs.foldlM takeNextHop []

theorem collect_total {rs : List (Except PyError IpNextHop)} (h : ∀ r ∈ rs, r ≠ .error .osError) :
    ∃ nhs, collect rs = some nhs :=
  foldlM_total fun nhs r hr => by
    match r, h r hr with
    | .ok nh, _ => rfl
    | .error .valueError, _ => rfl

theorem collect_of_valueError : ∀ {rs : List (Except PyError IpNextHop)}, (∀ r ∈ rs, r = .error .valueError) →
    collect rs = some []
  | [], _ => rfl
  | r :: rs, h => by
    rw [collect, List.foldlM_cons, h r List.mem_cons_self]
    exact collect_of_valueError fun r' hr' => h r' (List.mem_cons_of_mem _ hr')

theorem ipNextHopSet_eq {isIpv6 : Bool} {b h f d v : Option (List Str)} {k : Nat}
    (hne : ¬(b = none ∧ h = none ∧ f = none))
    (hlen : ∀ l ∈ [b, h, f, d, v], ∀ x, l = some x → x.length = k) : ipNextHopSet isIpv6 b h f d v =
      collect ((List.range k).map fun i => IpNextHop.new (if isIpv6 then .inet6 else .inet) (b.bind (·[i]?))
        (h.bind (·[i]?))
        (f.bind (·[i]?)) (d.bind (·[i]?)) (v.bind (·[i]?))) := by
  have hall : ∀ n ∈ ([b, h, f, d, v].filterMap id).map List.length, n = k := by grind
  have hnil : ([b, h, f, d, v].filterMap id).map List.length ≠ [] := fun hc => by grind
  rw [ipNextHopSet, if_neg hne]
  cases hnums : ([b, h, f, d, v].filterMap id).map List.length with
  | nil => grind
  | cons n nums =>
    rw [hnums] at hall
    obtain rfl := hall n List.mem_cons_self
    have heq : nums.all (· = n) = true :=
      List.all_eq_true.mpr fun n' hn' => decide_eq_true (hall n' (List.mem_cons_of_mem _ hn'))
    dsimp only
    rw [if_pos heq, collect, List.foldlM_map]
    refine congrArg (fun g => List.foldlM g [] (List.range n)) (funext fun nhs => funext fun i => ?_)
    generalize IpNextHop.new _ _ _ _ _ _ = r
    match r with
    | .ok nh => rfl
    | .error .valueError => rfl
    | .error .osError => rfl

/-- What `IpNextHop` makes of the texts of a nexthop: it is used, left out with a ValueError, or ends the handler. -/
inductive Verdict where
  | usable
  | skipped
  | fails
  deriving DecidableEq

/-- The texts of a row at one index. -/
structure Hop where
  blackhole : Str
  ip : Str
  interface : Str
  vrf : Str
  deriving DecidableEq

namespace Hop

def address (af : Af) (h : Hop) : Str := if h.ip = [] then StaticRoute.zeroIp af else h.ip

def verdict (af : Af) (h : Hop) : Verdict :=
  match inetPton af (h.address af) with
  | .ok v => if v = 0 ∧ ¬StaticRoute.isPortchannel (h.address af) ∧ strip h.interface = [] then .skipped else .usable
  | .error .valueError => .skipped
  | .error .osError => if StaticRoute.isPortchannel (h.address af) then .usable else .fails

def nextHop (af : Af) (h : Hop) (distance : Int) : IpNextHop :=
  ⟨af, if h.blackhole = [] then "false" else h.blackhole, distance, h.address af, h.interface, h.vrf⟩

/-- What `staticroutebfd` keeps of the texts: no blanks around them, and an address in lower case. -/
def stored (h : Hop) : Hop := ⟨strip h.blackhole, strip (lower h.ip), strip h.interface, strip h.vrf⟩

end Hop

/-- The distance of a nexthop, 0 where the list is not given. -/
def number : Option Str → Option Int
  | none => some 0
  | some t => int t

def make (af : Af) (h : Hop) (distance : Option Str) : Except PyError IpNextHop :=
  match number distance, h.verdict af with
  | none, _ => .error .valueError
  | some n, .usable => .ok (h.nextHop af n)
  | some _, .skipped => .error .valueError
  | some _, .fails => .error .osError

theorem new_some (af : Af) (b h f d v : Option Str) :
    IpNextHop.new af b h f d v = IpNextHop.new af (some (b.getD [])) (some (h.getD [])) f d v := by
  cases b with
  | none => cases h <;> rfl
  | some b =>
    cases h with
    | some h => rfl
    | none =>
      unfold IpNextHop.new
      by_cases hb : (if b = [] then "false".toList else b) = "true".toList
      · simp only [Option.getD_some, if_pos hb]
      · simp only [Option.getD_some, if_neg hb, Option.getD_none, if_true]

theorem new_eq {b h f d v : Option Str} (hb : b.getD [] ≠ "true".toList) :
    IpNextHop.new af b h f d v = make af ⟨b.getD [], h.getD [], f.getD [], v.getD []⟩ d := by
  have hnot : (if b.getD [] = [] then "false".toList else b.getD []) ≠ "true".toList := by
    split
    · decide
    · exact hb
  rw [new_some]
  unfold IpNextHop.new make Hop.verdict Hop.nextHop Hop.address
  simp only [if_neg hnot, if_pos hnot]
  generalize (if h.getD [] = [] then StaticRoute.zeroIp af else h.getD []) = ip
  unfold StaticRoute.isZeroIp
  -- The distance is read first; then only what the address is matters.
  generalize inetPton af ip = r
  generalize StaticRoute.isPortchannel ip = channel
  cases d with
  | none =>
    cases r with
    | error e => cases e <;> cases channel <;> rfl
    | ok w =>
      show (if ¬channel = true then (if decide (w = 0) = true ∧ _ then _ else _) else
        (if decide (w = 0) = true ∧ _ then _ else _)) = _
      rw [ite_self]
      by_cases hz : w = 0 ∧ ¬channel = true ∧ strip (f.getD []) = []
      · rw [if_pos (by rwa [decide_eq_true_eq])]
        simp only [if_pos hz]
        rfl
      · rw [if_neg (by rwa [decide_eq_true_eq])]
        simp only [if_neg hz]
        rfl
  | some t =>
    dsimp only [number]
    cases int t with
    | none => rfl
    | some n =>
      cases r with
      | error e => cases e <;> cases channel <;> rfl
      | ok w =>
        show (if ¬channel = true then (if decide (w = 0) = true ∧ _ then _ else _) else
          (if decide (w = 0) = true ∧ _ then _ else _)) = _
        rw [ite_self]
        by_cases hz : w = 0 ∧ ¬channel = true ∧ strip (f.getD []) = []
        · rw [if_pos (by rwa [decide_eq_true_eq])]
          simp only [if_pos hz]
          rfl
        · rw [if_neg (by rwa [decide_eq_true_eq])]
          simp only [if_neg hz]
          rfl

theorem map_range_getD {β : Type*} (idx : List Nat) (f : Nat → β) :
    (List.range idx.length).map (fun j => f (idx.getD j 0)) = idx.map f := by
  refine List.ext_getElem (by simp) fun j h₁ h₂ => ?_
  have hj : j < idx.length := by simpa using h₂
  rw [List.getElem_map, List.getElem_map, List.getElem_range, List.getD_eq_getElem _ _ hj]

theorem inetPton_zeroIp (af : Af) : inetPton af (StaticRoute.zeroIp af) = .ok 0 := by
  cases af with
  | inet =>
    have hread : Ipaddress.ipv4Address (StaticRoute.zeroIp .inet) = some 0 := by decide +kernel
    unfold inetPton
    rw [if_neg (by decide)]
    simp only [hread]
  | inet6 =>
    have hread : Ipaddress.ipv6Address (StaticRoute.zeroIp .inet6) = some 0 := by decide +kernel
    have hscope : '%' ∉ StaticRoute.zeroIp .inet6 := by decide
    unfold inetPton
    rw [if_neg (by decide)]
    simp only [if_neg hscope, hread]

theorem isPortchannel_zeroIp (af : Af) : ¬StaticRoute.isPortchannel (StaticRoute.zeroIp af) = true := by
  cases af <;> decide

theorem verdict_blank (af : Af) (b v : Str) : Hop.verdict af ⟨b, [], [], v⟩ = .skipped := by
  unfold Hop.verdict Hop.address
  rw [if_pos rfl, inetPton_zeroIp]
  exact if_pos ⟨rfl, isPortchannel_zeroIp af, rfl⟩

theorem make_of_skipped {h : Hop} (hv : h.verdict af = .skipped) (d : Option Str) :
    make af h d = .error .valueError := by
  unfold make
  rw [hv]
  cases number d <;> rfl

section
variable {isIpv6 : Bool} {b h f d v : Option (List Str)} {idx : List Nat} {hop : Nat → Hop}
  {distance : Nat → Option Str}

/-- `IpNextHopSet` of lists that hold, index by index, the texts of `hop`. -/
theorem ipNextHopSet_hops (hlen : ∀ l ∈ [b, h, f, d, v], ∀ x, l = some x → x.length = idx.length)
    (hb : ∀ j < idx.length, (b.bind (·[j]?)).getD [] = (hop (idx.getD j 0)).blackhole)
    (hh : ∀ j < idx.length, (h.bind (·[j]?)).getD [] = (hop (idx.getD j 0)).ip)
    (hf : ∀ j < idx.length, (f.bind (·[j]?)).getD [] = (hop (idx.getD j 0)).interface)
    (hv : ∀ j < idx.length, (v.bind (·[j]?)).getD [] = (hop (idx.getD j 0)).vrf)
    (hd : ∀ j < idx.length, number (d.bind (·[j]?)) = number (distance (idx.getD j 0)))
    (hblack : ∀ i, (hop i).blackhole ≠ "true") :
    ipNextHopSet isIpv6 b h f d v =
      collect (idx.map fun i => make (if isIpv6 then .inet6 else .inet) (hop i) (distance i)) := by
  by_cases hne : b = none ∧ h = none ∧ f = none
  · -- Without lists there is no nexthop, and none of these texts would make one.
    rw [ipNextHopSet, if_pos hne, ← map_range_getD idx]
    refine (collect_of_valueError fun r hr => ?_).symm
    obtain ⟨j, hj, rfl⟩ := List.mem_map.mp hr
    rw [List.mem_range] at hj
    have hip := hh j hj
    have hintf := hf j hj
    rw [hne.2.1] at hip
    rw [hne.2.2] at hintf
    refine make_of_skipped ?_ _
    rw [← verdict_blank _ (hop (idx.getD j 0)).blackhole (hop (idx.getD j 0)).vrf]
    conv_lhs => rw [show hop (idx.getD j 0) = ⟨(hop (idx.getD j 0)).blackhole, (hop (idx.getD j 0)).ip,
      (hop (idx.getD j 0)).interface, (hop (idx.getD j 0)).vrf⟩ from rfl, ← hip, ← hintf]
    rfl
  · rw [ipNextHopSet_eq hne hlen, ← map_range_getD idx]
    refine congrArg collect (List.map_congr_left fun j hj => ?_)
    rw [List.mem_range] at hj
    rw [new_eq (by rw [hb j hj]; exact hblack _), hb j hj, hh j hj, hf j hj, hv j hj, make, make, hd j hj]

end

/-! ## Stored texts -/

theorem isPortchannel_strip_lower (s : Str) : StaticRoute.isPortchannel (strip (lower s)) = false := by
  by_contra h
  rw [Bool.not_eq_false, StaticRoute.isPortchannel, startsWith, List.isPrefixOf_iff_prefix] at h
  have hmem : 'P' ∈ lower s := mem_of_mem_strip (h.subset List.mem_cons_self)
  obtain ⟨c, -, hc⟩ := List.mem_map.mp hmem
  have hfix := Ipaddress.toLower_toLower c
  rw [hc] at hfix
  exact absurd hfix (by decide)

theorem inetPton_valueError {s : Str} : inetPton af s = .error .valueError ↔ '\x00' ∈ s := by
  unfold inetPton
  split
  · rename_i h
    exact iff_of_true rfl h
  · rename_i h
    refine iff_of_false (fun he => ?_) h
    dsimp only at he
    split at he <;> cases he

/-- A nexthop that is left out for its address and interface is left out when it is stored. -/
theorem verdict_stored {h : Hop} (hv : h.verdict af = .skipped) : h.stored.verdict af = .skipped := by
  have hchannel : ¬StaticRoute.isPortchannel (h.stored.address af) = true := by
    unfold Hop.address
    split
    · exact isPortchannel_zeroIp af
    · rw [show h.stored.ip = strip (lower h.ip) from rfl, isPortchannel_strip_lower]
      exact Bool.false_ne_true
  have hzero (hip : inetPton af (h.stored.address af) = .ok 0) (hintf : strip h.interface = []) :
      h.stored.verdict af = .skipped := by
    unfold Hop.verdict
    rw [hip]
    refine if_pos ⟨rfl, hchannel, ?_⟩
    rw [show h.stored.interface = strip h.interface from rfl, hintf]
    rfl
  unfold Hop.verdict at hv
  cases hip : inetPton af (h.address af) with
  | ok v =>
    rw [hip] at hv
    dsimp only at hv
    split at hv
    · rename_i hskip
      obtain ⟨rfl, -, hintf⟩ := hskip
      refine hzero ?_ hintf
      unfold Hop.address
      split
      · exact inetPton_zeroIp af
      · rename_i hne
        unfold Hop.address at hip
        split at hip
        · rename_i hnil
          exact absurd (by rw [show h.stored.ip = strip (lower h.ip) from rfl, hnil]; rfl) hne
        · exact Ipaddress.inetPton_strip_lower hip
    · cases hv
  | error e =>
    rw [hip] at hv
    cases e with
    | osError =>
      dsimp only at hv
      split at hv <;> cases hv
    | valueError =>
      have hnul := inetPton_valueError.mp hip
      have hstored : '\x00' ∈ h.stored.address af := by
        unfold Hop.address at hnul ⊢
        split at hnul
        · cases af <;> exact absurd hnul (by decide)
        · have hmem : '\x00' ∈ strip (lower h.ip) := mem_strip (by decide) ((Ipaddress.mem_lower (by decide)).mpr hnul)
          rw [if_neg (show h.stored.ip ≠ [] from List.ne_nil_of_mem hmem)]
          exact hmem
      unfold Hop.verdict
      rw [inetPton_valueError.mpr hstored]

theorem strip_lower_fixed {s t : Str} (h : s = strip (lower t)) : strip (lower s) = s := by
  have hlower : lower s = s := by rw [h, Ipaddress.strip_lower, Ipaddress.lower_lower]
  rw [hlower, h]
  exact strip_strip _

/-- A nexthop that is made of stored texts has them as they are. -/
theorem stored_eq_self {h g : Hop} {m n : Int} (he : h.nextHop af m = g.stored.nextHop af n) :
    h.stored = h := by
  unfold Hop.nextHop at he
  simp only [IpNextHop.mk.injEq] at he
  obtain ⟨-, hblack, -, hip, hintf, hvrf⟩ := he
  have h1 : strip h.blackhole = h.blackhole := by
    by_cases hnil : h.blackhole = []
    · rw [hnil]
      rfl
    · rw [if_neg hnil] at hblack
      rw [hblack]
      split
      · decide
      · exact strip_strip _
  have h2 : strip (lower h.ip) = h.ip := by
    by_cases hnil : h.ip = []
    · rw [hnil]
      rfl
    · unfold Hop.address at hip
      rw [if_neg hnil] at hip
      split at hip
      · rw [hip]
        cases af <;> decide
      · exact strip_lower_fixed hip
  have h3 : strip h.interface = h.interface := by
    rw [hintf]
    exact strip_strip _
  have h4 : strip h.vrf = h.vrf := by
    rw [hvrf]
    exact strip_strip _
  unfold Hop.stored
  rw [h1, h2, h3, h4]

/-! ## One index -/

/-- Both readers leave the nexthop out, or they use it with the same texts and the same distance. -/
def Kept (af : Af) (h : Hop) (written reread : Option Str) : Prop :=
  ((number written = none ∨ h.verdict af = .skipped) ∧ (number reread = none ∨ h.stored.verdict af = .skipped)) ∨
    (h.verdict af = .usable ∧ h.stored = h ∧ number written ≠ none ∧ number reread = number written)

instance (af : Af) (h : Hop) (written reread : Option Str) : Decidable (Kept af h written reread) :=
  inferInstanceAs (Decidable (_ ∨ _))

section
variable {af : Af} {h : Hop} {d d' : Option Str}

theorem make_of_leftOut (hl : number d = none ∨ h.verdict af = .skipped) : make af h d = .error .valueError := by
  rcases hl with hl | hl
  · unfold make
    rw [hl]
  · exact make_of_skipped hl d

theorem make_ok {nh : IpNextHop} (hm : make af h d = .ok nh) :
    ∃ n, number d = some n ∧ h.verdict af = .usable ∧ nh = h.nextHop af n := by
  unfold make at hm
  cases hn : number d with
  | none => rw [hn] at hm; cases hm
  | some n =>
    cases hv : h.verdict af with
    | usable =>
      rw [hn, hv] at hm
      cases hm
      exact ⟨n, rfl, rfl, rfl⟩
    | skipped => rw [hn, hv] at hm; cases hm
    | fails => rw [hn, hv] at hm; cases hm

theorem leftOut_of_make (hm : make af h d = .error .valueError) : number d = none ∨ h.verdict af = .skipped := by
  cases hn : number d with
  | none => exact .inl rfl
  | some n =>
    unfold make at hm
    cases hv : h.verdict af with
    | usable => rw [hn, hv] at hm; cases hm
    | skipped => exact .inr rfl
    | fails => rw [hn, hv] at hm; cases hm

theorem Kept.make_eq (hk : Kept af h d d') :
    make af h.stored d' = make af h d ∧ make af h d ≠ .error .osError := by
  rcases hk with ⟨hd, hd'⟩ | ⟨hv, hs, hd, he⟩
  · rw [make_of_leftOut hd, make_of_leftOut hd']
    exact ⟨rfl, by simp⟩
  · obtain ⟨n, hn⟩ := Option.ne_none_iff_exists'.mp hd
    unfold make
    rw [hs, he, hn, hv]
    exact ⟨rfl, by simp⟩

end

theorem collect_spec : ∀ {rs : List (Except PyError IpNextHop)} {acc nhs : List IpNextHop},
    rs.foldlM takeNextHop acc = some nhs →
      (∀ nh, nh ∈ nhs ↔ nh ∈ acc ∨ .ok nh ∈ rs) ∧ .error .osError ∉ rs
  | [], acc, nhs, h => by
    cases h
    simp
  | r :: rs, acc, nhs, h => by
    rw [List.foldlM_cons] at h
    obtain ⟨acc', hr, hrest⟩ := Option.bind_eq_some_iff.mp h
    obtain ⟨hmem, hno⟩ := collect_spec hrest
    cases r with
    | ok nh' =>
      cases hr
      refine ⟨fun nh => ?_, by simpa using hno⟩
      rw [hmem, Lines.mem_add, List.mem_cons, Except.ok.injEq, or_assoc]
    | error e =>
      cases e with
      | valueError =>
        cases hr
        refine ⟨fun nh => ?_, by simpa using hno⟩
        rw [hmem, List.mem_cons]
        simp
      | osError => cases hr

section
variable {af : Af} {idx : List Nat} {hop : Nat → Hop} {written reread : Nat → Option Str}

/-- The two lists are the same just if every index is kept. `hdist` says how a distance can change on the way: not at all,
every one to a text that is no number, or the only one from such a text. -/
theorem collect_eq_iff (hdist : (∀ i ∈ idx, number (reread i) = number (written i)) ∨
      (∀ i ∈ idx, number (reread i) = none) ∨ ∃ i, idx = [i] ∧ number (written i) = none) :
    (∃ nhs, collect (idx.map fun i => make af (hop i).stored (reread i)) = some nhs ∧
        collect (idx.map fun i => make af (hop i) (written i)) = some nhs) ↔
      ∀ i ∈ idx, Kept af (hop i) (written i) (reread i) := by
  constructor
  · rintro ⟨nhs, hstored, hwritten⟩ i hi
    obtain ⟨hmem, hno⟩ := collect_spec hwritten
    obtain ⟨hmem', hno'⟩ := collect_spec hstored
    have hboth (nh : IpNextHop) : (∃ j ∈ idx, make af (hop j) (written j) = .ok nh) ↔
        ∃ j ∈ idx, make af (hop j).stored (reread j) = .ok nh := by
      rw [← List.mem_map, ← List.mem_map]
      have h1 := hmem nh
      have h2 := hmem' nh
      simp only [List.not_mem_nil, false_or] at h1 h2
      exact h1.symm.trans h2
    cases hm : make af (hop i) (written i) with
    | ok nh =>
      obtain ⟨n, hn, hv, rfl⟩ := make_ok hm
      obtain ⟨j, hj, hmj⟩ := (hboth _).mp ⟨i, hi, hm⟩
      obtain ⟨n', hn', -, he⟩ := make_ok hmj
      refine .inr ⟨hv, stored_eq_self he, by rw [hn]; exact Option.some_ne_none n, ?_⟩
      rcases hdist with hsame | hnone | ⟨i', rfl, hblank⟩
      · exact hsame i hi
      · rw [hnone j hj] at hn'
        cases hn'
      · rw [List.mem_singleton.mp hi, hblank] at hn
        cases hn
    | error e =>
      cases e with
      | osError => exact absurd (List.mem_map.mpr ⟨i, hi, hm⟩) hno
      | valueError =>
        have hleft := leftOut_of_make hm
        refine .inl ⟨hleft, ?_⟩
        cases hm' : make af (hop i).stored (reread i) with
        | ok nh =>
          -- Another nexthop would have to be this one.
          obtain ⟨n, hn, hv, -⟩ := make_ok hm'
          obtain ⟨j, hj, hmj⟩ := (hboth nh).mpr ⟨i, hi, hm'⟩
          rcases hdist with hsame | hnone | ⟨i', rfl, hblank⟩
          · rw [← hsame i hi, hn] at hleft
            rw [verdict_stored (hleft.resolve_left (Option.some_ne_none n))] at hv
            cases hv
          · rw [hnone i hi] at hn
            cases hn
          · obtain ⟨n', hn', -⟩ := make_ok hmj
            rw [List.mem_singleton.mp hj, hblank] at hn'
            cases hn'
        | error e =>
          cases e with
          | osError => exact absurd (List.mem_map.mpr ⟨i, hi, hm'⟩) hno'
          | valueError => exact leftOut_of_make hm'
  · intro hkept
    have heq : (idx.map fun i => make af (hop i).stored (reread i)) = idx.map fun i => make af (hop i) (written i) :=
      List.map_congr_left fun i hi => (hkept i hi).make_eq.1
    obtain ⟨nhs, hnhs⟩ := @collect_total (idx.map fun i => make af (hop i) (written i)) fun r hr => by
      obtain ⟨i, hi, rfl⟩ := List.mem_map.mp hr
      exact (hkept i hi).make_eq.2
    exact ⟨nhs, heq ▸ hnhs, hnhs⟩

end

/-! ## The two rows -/

theorem getD_map (f : Str → Str) (hf : f [] = []) (l : List Str) (i : Nat) : (l.map f).getD i [] = f (l.getD i []) := by
  rw [List.getD_eq_getElem?_getD, List.getD_eq_getElem?_getD, List.getElem?_map]
  cases l[i]? with
  | none => exact hf.symm
  | some x => rfl

/-- A list of items is read back from its text, unless the text is blank. -/
theorem argList_join_items (hn : l ≠ []) (hb : l ≠ [[]]) (hl : ∀ x ∈ l, Item x) :
    argList (join [','] l) = some l := by
  have hstrip : strip (join [','] l) ≠ [] := by
    cases l with
    | nil => exact absurd rfl hn
    | cons x l =>
      cases l with
      | nil =>
        have hx : x ≠ [] := fun he => hb (by rw [he])
        rw [show join [','] [x] = x by simp [join], (hl x List.mem_cons_self).1]
        exact hx
      | cons y l =>
        intro he
        have hcomma := strip_eq_nil.mp he ',' (by simp [join_cons_cons])
        exact absurd hcomma (by decide)
  rw [argList, if_neg hstrip, split_join (fun p hp => (hl p hp).2) hn]
  exact congrArg some ((List.map_congr_left fun x hx => (hl x hx).1).trans (List.map_id l))

theorem newRow_listed_items {s : St} {key vrf ipPrefix : Str} {data : Row} {vs is ns : List Str}
    (hlists : newLists s key vrf ipPrefix data = some (vs, is, ns)) (hb : vs ≠ [[]]) (hv : ∀ v ∈ vs, Item v) :
    Listed (newRow s key vrf ipPrefix data).1 vs is ns := by
  obtain ⟨htext, hi, hn, h₁, h₂⟩ := newRow_vrfs hlists
  refine ⟨?_, hi, hn, h₁, h₂⟩
  have hne : vs ≠ [] := fun he => by
    rw [he, h₁] at h₂
    exact field_ne_nil hn (List.length_eq_zero_iff.mp h₂)
  rw [field, htext]
  exact argList_join_items hne hb hv

theorem getD_mapped (f : Str → Str) (hf : f [] = []) (o : Option (List Str)) (i : Nat) :
    ((o.map fun l => l.map f).getD []).getD i [] = f ((o.getD []).getD i []) := by
  cases o with
  | none => exact hf.symm
  | some l => exact getD_map f hf l i

/-- The texts of the original row at one index. -/
def written (vrf : Str) (data : Row) (i : Nat) : Hop :=
  let text (k : Str) : Str := ((StaticRoute.argList data k).getD []).getD i []
  ⟨text "blackhole", text "nexthop", text "ifname", (nexthopVrfs vrf data).getD i []⟩

def writtenDistance (data : Row) (i : Nat) : Option Str :=
  (StaticRoute.argList data "distance").map fun l => l.getD i []

/-- The distance that the reconstructed row gives back: a blank field is filled with blank members, and a single blank
member is a blank field. -/
def rereadDistance (data : Row) (idx : List Nat) (i : Nat) : Option Str :=
  (data.get? "distance").bind fun t =>
    if idx.length ≤ 1 ∧ strip (((members t).getD []).getD i []) = [] then none
    else some (strip (((members t).getD []).getD i []))

theorem int_blank {s : Str} (h : strip s = []) : int s = none := by
  rw [int, h]
  rfl

theorem distances (data : Row) (idx : List Nat) :
    (∀ i ∈ idx, number (rereadDistance data idx i) = number (writtenDistance data i)) ∨
      (∀ i ∈ idx, number (rereadDistance data idx i) = none) ∨
      ∃ i, idx = [i] ∧ number (writtenDistance data i) = none := by
  unfold rereadDistance writtenDistance
  rw [argList_eq]
  cases data.get? "distance" with
  | none => exact .inl fun _ _ => rfl
  | some t =>
    simp only [Option.bind_some]
    cases members t with
    | none =>
      have hblank (i : Nat) : strip (((none : Option (List Str)).getD []).getD i []) = [] := rfl
      simp only [hblank, and_true]
      by_cases hlen : idx.length ≤ 1
      · exact .inl fun _ _ => by rw [if_pos hlen]; rfl
      · exact .inr (.inl fun _ _ => by rw [if_neg hlen]; rfl)
    | some l =>
      simp only [Option.getD_some, Option.map_some]
      by_cases hone : ∃ i, idx = [i] ∧ strip (l.getD i []) = []
      · obtain ⟨i, rfl, hblank⟩ := hone
        exact .inr (.inr ⟨i, rfl, int_blank hblank⟩)
      · refine .inl fun i hi => ?_
        rw [if_neg]
        · exact int_strip _
        · rintro ⟨hlen, hblank⟩
          have hpos := List.length_pos_of_mem hi
          obtain ⟨j, rfl⟩ := List.length_eq_one_iff.mp (show idx.length = 1 by omega)
          exact hone ⟨j, rfl, List.mem_singleton.mp hi ▸ hblank⟩

section
variable {s : St} {key vrf ipPrefix : Str} {data : Row}

theorem lowerNexthop_get?_ne {k : Str} (h : "nexthop" ≠ k) : (lowerNexthop data).get? k = data.get? k := by
  unfold lowerNexthop
  split
  · exact Dict.get?_set_ne _ h _
  · rfl

theorem newRow_same {k : Str} (h1 : "bfd_nh_hold" ≠ k) (h2 : "nexthop-vrf" ≠ k) (h3 : "nexthop" ≠ k) :
    (newRow s key vrf ipPrefix data).1.get? k = data.get? k := by
  rw [newRow_get? s key vrf ipPrefix data h1 h2, lowerNexthop_get?_ne h3]

theorem newRow_nexthop : (newRow s key vrf ipPrefix data).1.get? "nexthop" = (data.get? "nexthop").map lower := by
  rw [newRow_get? s key vrf ipPrefix data (by decide) (by decide), lowerNexthop]
  cases hget : data.get? "nexthop" with
  | none => exact hget
  | some t => exact Dict.get?_set_self ..

theorem field_nexthop : field (newRow s key vrf ipPrefix data).1 "nexthop" =
    (StaticRoute.argList data "nexthop").map fun l => l.map fun x => strip (lower x) := by
  rw [field, newRow_nexthop, argList_eq]
  cases data.get? "nexthop" with
  | none => rfl
  | some t =>
    simp only [Option.map_some, Option.bind_some, argList, members, Ipaddress.strip_lower, Ipaddress.lower_eq_nil,
      Ipaddress.split_lower (show ',' ∈ Ipaddress.separators by decide), List.map_map]
    by_cases hblank : strip t = []
    · rw [if_pos hblank, if_neg (not_not.mpr hblank)]
      rfl
    · rw [if_neg hblank, if_pos hblank, Option.map_some]
      refine congrArg some (List.map_congr_left fun x _ => ?_)
      exact Ipaddress.strip_lower x

variable {vs is ns : List Str} (hlists : newLists s key vrf ipPrefix data = some (vs, is, ns))
include hlists

theorem newLists_spec : (newRow s key vrf ipPrefix data).2 = some vs ∧
    "true".toList ∉ (field (newRow s key vrf ipPrefix data).1 "blackhole").getD [] := by
  unfold newLists checkedLists at hlists
  split at hlists
  · cases hlists
  · rename_i hno
    split at hlists
    · rename_i l hv
      split at hlists
      · cases hlists
      · cases hlists
        exact ⟨hv, fun hc => hno (List.elem_eq_true_of_mem hc)⟩
    · cases hlists

/-- The list of VRFs: that of the row, stripped and with the own VRF at blanks, or the own VRF for every nexthop. -/
theorem newLists_vrfs : vs = match StaticRoute.argList data "nexthop-vrf" with
    | some l => l.map fun v => if strip v = [] then vrf else strip v
    | none => ((StaticRoute.argList data "nexthop").getD []).map fun _ => vrf := by
  have hnew := (newLists_spec hlists).1
  have hheld {k : Str} (h : "bfd_nh_hold" ≠ k) :
      (toggled s key vrf ipPrefix data).2.get? k = (lowerNexthop data).get? k := held_get? s key _ _ h
  have hvrfs : field (toggled s key vrf ipPrefix data).2 "nexthop-vrf" = field data "nexthop-vrf" := by
    rw [field, field, hheld (by decide), lowerNexthop_get?_ne (by decide)]
  have hips : field (toggled s key vrf ipPrefix data).2 "nexthop" =
      (StaticRoute.argList data "nexthop").map fun l => l.map fun x => strip (lower x) := by
    rw [← @field_nexthop s key vrf ipPrefix, field, field, hheld (by decide),
      newRow_get? s key vrf ipPrefix data (by decide) (by decide)]
  rw [newRow, preprocessNexthopVrf, hvrfs, field_eq, hips] at hnew
  cases hv : StaticRoute.argList data "nexthop-vrf" with
  | none =>
    rw [hv] at hnew
    cases hn : StaticRoute.argList data "nexthop" with
    | none =>
      rw [hn] at hnew
      cases hnew
    | some l =>
      rw [hn] at hnew
      obtain rfl := Option.some.inj hnew
      rw [List.length_map, ← List.map_const]
      rfl
  | some l =>
    rw [hv] at hnew
    obtain rfl := Option.some.inj hnew
    rw [List.map_map]
    rfl

variable (hvrf : vrf ∈ vs → Item vrf)
include hvrf

theorem vrfs_eq : vs = (nexthopVrfs vrf data).map strip := by
  have hvs := newLists_vrfs hlists
  rw [nexthopVrfs]
  cases hv : StaticRoute.argList data "nexthop-vrf" with
  | none =>
    rw [hv] at hvs
    rw [List.map_map]
    refine hvs.trans (List.map_congr_left fun x hx => ?_)
    exact (hvrf (by rw [hvs]; exact List.mem_map.mpr ⟨x, hx, rfl⟩)).1.symm
  | some l =>
    rw [hv] at hvs
    rw [List.map_map]
    refine hvs.trans (List.map_congr_left fun x hx => ?_)
    show (if strip x = [] then vrf else strip x) = strip (if strip x = [] then vrf else x)
    split
    · rename_i hblank
      exact (hvrf (by rw [hvs]; exact List.mem_map.mpr ⟨x, hx, if_pos hblank⟩)).1.symm
    · rfl

theorem vrfs_item : ∀ v ∈ vs, Item v := by
  intro v hv
  by_cases hown : v = vrf
  · rw [hown] at hv ⊢
    exact hvrf hv
  · have hmem := hv
    rw [newLists_vrfs hlists] at hmem
    cases hl : StaticRoute.argList data "nexthop-vrf" with
    | none =>
      rw [hl] at hmem
      obtain ⟨-, -, rfl⟩ := List.mem_map.mp hmem
      exact absurd rfl hown
    | some l =>
      rw [hl] at hmem
      obtain ⟨x, hx, rfl⟩ := List.mem_map.mp hmem
      split at hown
      · exact absurd rfl hown
      · rename_i hblank
        rw [if_neg hblank]
        refine @field_item data "nexthop-vrf" _ ?_
        rw [field_eq, hl]
        exact List.mem_map.mpr ⟨x, hx, rfl⟩

/-- The stored lists hold the stored texts. -/
theorem stored_at (i : Nat) : (written vrf data i).stored =
    ⟨((field (newRow s key vrf ipPrefix data).1 "blackhole").getD []).getD i [], ns.getD i [], is.getD i [],
      vs.getD i []⟩ := by
  obtain ⟨-, hintf, hips, -, -⟩ := newRow_vrfs hlists
  have hsame {k : Str} (h1 : "bfd_nh_hold" ≠ k) (h2 : "nexthop-vrf" ≠ k) (h3 : "nexthop" ≠ k) :
      ((field (newRow s key vrf ipPrefix data).1 k).getD []).getD i [] =
        strip (((StaticRoute.argList data k).getD []).getD i []) := by
    rw [field, newRow_same h1 h2 h3, ← field, field_eq]
    exact getD_mapped strip rfl _ i
  have hi := hsame (k := "ifname") (by decide) (by decide) (by decide)
  rw [show field (newRow s key vrf ipPrefix data).1 "ifname" = some is from hintf, Option.getD_some] at hi
  have hn : ns.getD i [] = strip (lower (((StaticRoute.argList data "nexthop").getD []).getD i [])) := by
    rw [← getD_mapped (fun x => strip (lower x)) rfl, ← @field_nexthop s key vrf ipPrefix, hips]
    rfl
  have hv : vs.getD i [] = strip ((nexthopVrfs vrf data).getD i []) := by
    conv_lhs => rw [vrfs_eq hlists hvrf]
    exact getD_map strip rfl _ i
  rw [hsame (by decide) (by decide) (by decide), hn, hi, hv]
  rfl

theorem stored_not_blackhole (i : Nat) : (written vrf data i).stored.blackhole ≠ "true" := by
  rw [stored_at hlists hvrf]
  intro he
  refine (newLists_spec hlists).2 ?_
  dsimp only at he
  rw [List.getD_eq_getElem?_getD] at he
  cases hx : ((field (newRow s key vrf ipPrefix data).1 "blackhole").getD [])[i]? with
  | none =>
    rw [hx] at he
    exact absurd he (by decide)
  | some x =>
    rw [hx, Option.getD_some] at he
    exact he ▸ List.mem_of_getElem? hx

theorem written_not_blackhole (i : Nat) : (written vrf data i).blackhole ≠ "true" := by
  intro he
  refine stored_not_blackhole hlists hvrf i ?_
  show strip (written vrf data i).blackhole = _
  rw [he]
  decide

end

theorem covers_field (data : Row) (k : Str) (idx : List Nat) :
    covers (field data k) idx = covers (StaticRoute.argList data k) idx := by
  rw [field_eq]
  cases StaticRoute.argList data k with
  | none => rfl
  | some l => simp only [Option.map_some, covers, Option.all_some, List.length_map]

section
variable (isIpv6 : Str → Bool) {s : St} {key vrf ipPrefix : Str} {data : Row} {vs is ns : List Str} {idx : List Nat}
  (hlists : newLists s key vrf ipPrefix data = some (vs, is, ns)) (hvrf : vrf ∈ vs → Item vrf)
include hlists hvrf

theorem restrictedNextHops_eq {up : Str × Str → Bool} (hidx : idx = live up vs ns)
    (hb : covers (field data "blackhole") idx = true) (hd : covers (field data "distance") idx = true) :
    restrictedNextHops isIpv6 vrf ipPrefix data idx =
      collect (idx.map fun i => make (if isIpv6 ipPrefix then .inet6 else .inet) (written vrf data i)
        (writtenDistance data i)) := by
  obtain ⟨-, hintf, hips, hlen₁, hlen₂⟩ := newRow_vrfs hlists
  rw [covers_field] at hb hd
  have hcn : covers (StaticRoute.argList data "nexthop") idx = true := by
    rw [field_nexthop] at hips
    obtain ⟨l, hl, rfl⟩ := Option.map_eq_some_iff.mp hips
    rw [hl, hidx]
    exact covers_live up vs (List.length_map _).symm
  have hci : covers (StaticRoute.argList data "ifname") idx = true := by
    rw [field, newRow_same (by decide) (by decide) (by decide), ← field, field_eq] at hintf
    obtain ⟨l, hl, rfl⟩ := Option.map_eq_some_iff.mp hintf
    rw [hl, hidx]
    exact covers_live up vs ((List.length_map _).symm.trans hlen₁)
  have hcv : covers (some (nexthopVrfs vrf data)) idx = true := by
    have hlen := congrArg List.length (vrfs_eq hlists hvrf)
    rw [List.length_map] at hlen
    rw [hidx]
    exact covers_live up vs (hlen.symm.trans (hlen₂.symm.trans hlen₁))
  have hitem {l : Option (List Str)} (hc : covers l idx = true) (j : Nat) (hj : j < idx.length) :
      ((restrict l idx).bind (·[j]?)).getD [] = (l.getD []).getD (idx.getD j 0) [] := by
    rw [restrict_item hc hj]
    cases l <;> rfl
  refine ipNextHopSet_hops ?_ (hitem hb) (hitem hcn) (hitem hci) (hitem hcv) (fun j hj => ?_)
    (written_not_blackhole hlists hvrf)
  · intro l hl xs hx
    simp only [List.mem_cons, List.not_mem_nil, or_false] at hl
    rcases hl with rfl | rfl | rfl | rfl | rfl
    · exact restrict_length hb hx
    · exact restrict_length hcn hx
    · exact restrict_length hci hx
    · exact restrict_length hd hx
    · exact restrict_length hcv hx
  · rw [restrict_item hd hj]
    rfl

theorem reconstructedNextHops_eq {reachable : List (Str × Str)} (hidx : idx = live (fun nh => nh ∈ reachable) vs ns)
    (hl : Listed (newRow s key vrf ipPrefix data).1 vs is ns) {cfg : Row}
    (h : reconstructStaticRouteConfig (newRow s key vrf ipPrefix data).1 reachable = some cfg) :
    nextHopsOf isIpv6 ipPrefix cfg = collect (idx.map fun i => make (if isIpv6 ipPrefix then .inet6 else .inet)
      (written vrf data i).stored (rereadDistance data idx i)) := by
  have hread {k : Str} (hk : k ∈ listFields) := reconstruct_argList hl h hk
  rw [← hidx] at hread
  have hlen {k : Str} (hk : k ∈ listFields) (xs : List Str) (hx : StaticRoute.argList cfg k = some xs) :
      xs.length = idx.length := by
    rw [hread hk] at hx
    obtain ⟨-, -, hm⟩ := Option.bind_eq_some_iff.mp hx
    exact members_length (fun _ => field_item) hm
  have hitem {k : Str} (hk : k ∈ listFields) (j : Nat) (hj : j < idx.length) :
      ((StaticRoute.argList cfg k).bind (·[j]?)).getD [] =
      ((field (newRow s key vrf ipPrefix data).1 k).getD []).getD (idx.getD j 0) [] := by
    rw [hread hk]
    cases hget : (newRow s key vrf ipPrefix data).1.get? k with
    | none =>
      rw [field, hget]
      rfl
    | some t => exact members_item (fun _ => field_item) hj
  have hb := hitem (k := "blackhole") (by simp [listFields])
  have hn := hitem (k := "nexthop") (by simp [listFields])
  have hi := hitem (k := "ifname") (by simp [listFields])
  have hv := hitem (k := "nexthop-vrf") (by simp [listFields])
  rw [show field (newRow s key vrf ipPrefix data).1 "nexthop" = some ns from hl.nexthops] at hn
  rw [show field (newRow s key vrf ipPrefix data).1 "ifname" = some is from hl.intfs] at hi
  rw [show field (newRow s key vrf ipPrefix data).1 "nexthop-vrf" = some vs from hl.vrfs] at hv
  have hat := stored_at hlists hvrf
  refine ipNextHopSet_hops ?_ (fun j hj => (hb j hj).trans (by rw [hat]))
    (fun j hj => (hn j hj).trans (by rw [hat]; rfl))
    (fun j hj => (hi j hj).trans (by rw [hat]; rfl)) (fun j hj => (hv j hj).trans (by rw [hat]; rfl)) (fun j hj => ?_)
    (stored_not_blackhole hlists hvrf)
  · intro l hl' xs hx
    simp only [List.mem_cons, List.not_mem_nil, or_false] at hl'
    rcases hl' with rfl | rfl | rfl | rfl | rfl
    · exact hlen (by simp [listFields]) xs hx
    · exact hlen (by simp [listFields]) xs hx
    · exact hlen (by simp [listFields]) xs hx
    · exact hlen (by simp [listFields]) xs hx
    · exact hlen (by simp [listFields]) xs hx
  · rw [hread (by simp [listFields]), newRow_same (by decide) (by decide) (by decide), rereadDistance]
    cases hget : data.get? "distance" with
    | none => rfl
    | some t =>
      have hfield : (field (newRow s key vrf ipPrefix data).1 "distance").getD [] =
          ((members t).getD []).map strip := by
        rw [field, newRow_same (by decide) (by decide) (by decide), ← field, field_eq, argList_eq, hget,
          Option.bind_some]
        cases members t <;> rfl
      have hmem (i : Nat) : (((members t).getD []).map strip).getD i [] = strip (((members t).getD []).getD i []) :=
        getD_map strip rfl _ i
      rw [hfield, Option.bind_some, Option.bind_some, members_column]
      · have hcond : (idx.length = 0 ∨ idx.length = 1 ∧ column (((members t).getD []).map strip) idx = []) ↔
            idx.length ≤ 1 ∧ strip (((members t).getD []).getD (idx.getD j 0) []) = [] := by
          by_cases hone : idx.length = 1
          · obtain ⟨i, rfl⟩ := List.length_eq_one_iff.mp hone
            obtain rfl : j = 0 := by simpa using hj
            rw [← hmem]
            simp [column, join]
          · exact iff_of_false (by omega) (by omega)
        by_cases hc : idx.length ≤ 1 ∧ strip (((members t).getD []).getD (idx.getD j 0) []) = []
        · rw [if_pos (hcond.mpr hc), if_pos hc]
          rfl
        · rw [if_neg (mt hcond.mp hc), if_neg hc, Option.bind_some, List.getElem?_map, List.getElem?_eq_getElem hj,
            Option.map_some, hmem, List.getD_eq_getElem _ _ hj]
      · intro x hx
        rw [← hfield] at hx
        exact field_item hx

end

section
variable (isIpv6 : Str → Bool) (iter : ∀ α : Type, List α → List α)

theorem setHandler_iff {m : Mgr} {key vrf ipPrefix : Str} (hkey : StaticRoute.splitKey key = some (vrf, ipPrefix))
    {cfg : Row} (hbfd : StaticRoute.bfdEnabled cfg = false) {nhs : List IpNextHop} :
    (∃ m' cmds, m.setHandler isIpv6 iter key cfg = some (m', cmds, true) ∧
      (m'.routesOf vrf).get? ipPrefix = some (nhs, StaticRoute.routeTag cfg)) ↔
        nextHopsOf isIpv6 ipPrefix cfg = some nhs := by
  have hstore (nhs' : List IpNextHop) : ((m.store vrf ipPrefix (nhs', StaticRoute.routeTag cfg)).routesOf vrf).get?
      ipPrefix =
      some (nhs', StaticRoute.routeTag cfg) := by simp [Mgr.routesOf, Mgr.store]
  cases hnhs : nextHopsOf isIpv6 ipPrefix cfg with
  | none => grind [Mgr.setHandler]
  | some nhs' =>
    obtain ⟨m', cmds, hset, hget⟩ : ∃ m' cmds, m.setHandler isIpv6 iter key cfg = some (m', cmds, true) ∧
        (m'.routesOf vrf).get? ipPrefix = some (nhs', StaticRoute.routeTag cfg) := by
      rw [Mgr.setHandler, hkey]
      simp only [Option.map_some, hbfd, hnhs, Bool.false_eq_true, if_false]
      by_cases hfirst : m.routesOf vrf = []
      · rw [if_pos hfirst]
        cases m.bgpAsn with
        | some asn => exact ⟨_, _, rfl, hstore nhs'⟩
        | none => exact ⟨_, _, rfl, hstore nhs'⟩
      · simp_all
    grind

end


/-! ## Agreement -/

section
variable (isIpv6 : Str → Bool) (iter : ∀ α : Type, List α → List α)

/-- For a route that `static_route_set_handler` accepts and any reachable nexthops, both daemons come to the same nexthops
just if the VRFs of the nexthops can be stored, the optional lists reach to every reachable nexthop, and each of these is
kept. `hvrf` is about the VRF in the key of the route, where a nexthop is in it: it is one item of a list. -/
theorem reconstructed_agrees_iff {s : St} {key vrf ipPrefix : Str} {data : Row} {vs is ns : List Str}
    (hlists : newLists s key vrf ipPrefix data = some (vs, is, ns)) (hvrf : vrf ∈ vs → Item vrf)
    (reachable : List (Str × Str)) (m : Mgr) {applKey applVrf : Str}
    (hkey : StaticRoute.splitKey applKey = some (applVrf, ipPrefix)) :
    Agrees isIpv6 iter m applKey applVrf ipPrefix (newRow s key vrf ipPrefix data).1 reachable
        (restrictedNextHops isIpv6 vrf ipPrefix data (live (fun nh => nh ∈ reachable) vs ns)) ↔
      vs ≠ [[]] ∧ covers (field data "blackhole") (live (fun nh => nh ∈ reachable) vs ns) = true ∧
        covers (field data "distance") (live (fun nh => nh ∈ reachable) vs ns) = true ∧
        ∀ i ∈ live (fun nh => nh ∈ reachable) vs ns, Kept (if isIpv6 ipPrefix then .inet6 else .inet)
          (written vrf data i)
          (writtenDistance data i) (rereadDistance data (live (fun nh => nh ∈ reachable) vs ns) i) := by
  have hfields {k : Str} (h1 : "bfd_nh_hold" ≠ k) (h2 : "nexthop-vrf" ≠ k) (h3 : "nexthop" ≠ k) :
      field (newRow s key vrf ipPrefix data).1 k = field data k := by rw [field, newRow_same h1 h2 h3, ← field]
  by_cases hblank : vs = [[]]
  · -- The only VRF is written as a blank field, which cannot be read back.
    refine iff_of_false ?_ fun h => h.1 hblank
    rintro ⟨cfg, -, -, -, hcfg, -⟩
    have hnone : field (newRow s key vrf ipPrefix data).1 "nexthop-vrf" = none := by
      rw [field, (newRow_vrfs hlists).1, hblank]
      rfl
    rw [reconstructStaticRouteConfig, hnone] at hcfg
    obtain ⟨nhList, -, hrest⟩ := Option.bind_eq_some_iff.mp hcfg
    cases hrest
  have hl : Listed (newRow s key vrf ipPrefix data).1 vs is ns :=
    newRow_listed_items hlists hblank (vrfs_item hlists hvrf)
  have hsome := reconstruct_isSome reachable hl
  rw [hfields (by decide) (by decide) (by decide), hfields (by decide) (by decide) (by decide)] at hsome
  have hagree := @collect_eq_iff (if isIpv6 ipPrefix then .inet6 else .inet) (live (fun nh => nh ∈ reachable) vs ns)
    (written vrf data) _ _ (distances data (live (fun nh => nh ∈ reachable) vs ns))
  constructor
  · rintro ⟨cfg, m', cmds, nhs, hcfg, hset, hget, hrestricted⟩
    obtain ⟨hb, hd⟩ := hsome.mp (Option.isSome_iff_exists.mpr ⟨cfg, hcfg⟩)
    have hnhs := (setHandler_iff isIpv6 iter hkey (reconstruct_bfdEnabled hcfg)).mp ⟨m', cmds, hset, hget⟩
    rw [reconstructedNextHops_eq isIpv6 hlists hvrf rfl hl hcfg] at hnhs
    rw [restrictedNextHops_eq isIpv6 hlists hvrf rfl hb hd] at hrestricted
    exact ⟨hblank, hb, hd, hagree.mp ⟨nhs, hnhs, hrestricted⟩⟩
  · rintro ⟨-, hb, hd, hkept⟩
    obtain ⟨cfg, hcfg⟩ := Option.isSome_iff_exists.mp (hsome.mpr ⟨hb, hd⟩)
    obtain ⟨nhs, hnhs, hrestricted⟩ := hagree.mpr hkept
    rw [← reconstructedNextHops_eq isIpv6 hlists hvrf rfl hl hcfg] at hnhs
    rw [← restrictedNextHops_eq isIpv6 hlists hvrf rfl hb hd] at hrestricted
    obtain ⟨m', cmds, hset, hget⟩ := (setHandler_iff isIpv6 iter hkey (m := m) (reconstruct_bfdEnabled hcfg)).mpr hnhs
    exact ⟨cfg, m', cmds, nhs, hcfg, hset, hget, hrestricted⟩

end

def twoNexthops (distance : String) : Row :=
  [("nexthop", "10.0.0.1,10.0.0.3"), ("ifname", "Ethernet0,Ethernet4"), ("bfd", "true"),
    ("distance", distance.toList)]

def routePrefix : Str := "10.1.0.0/24"

def firstNexthop : List (Str × Str) := [("default", "10.0.0.1")]

def bothNexthops : List (Str × Str) := [("default", "10.0.0.1"), ("default", "10.0.0.3")]

def twoVrfs : List Str := ["default", "default"]

def twoIntfs : List Str := ["Ethernet0", "Ethernet4"]

def twoIps : List Str := ["10.0.0.1", "10.0.0.3"]

theorem newLists_twoNexthops : newLists init routePrefix "default" routePrefix (twoNexthops "10,") =
    some (twoVrfs, twoIntfs, twoIps) := by decide +kernel

theorem firstNexthop_agrees : Agrees (fun _ => false) (fun _ l => l) Mgr.new ("default:" ++ routePrefix) "default"
    routePrefix (newRow init routePrefix "default" routePrefix (twoNexthops "10,")).1 firstNexthop
    (restrictedNextHops (fun _ => false) "default" routePrefix (twoNexthops "10,")
      (live (fun nh => nh ∈ firstNexthop) twoVrfs twoIps)) :=
  (reconstructed_agrees_iff (fun _ => false) (fun _ l => l) newLists_twoNexthops
    (fun _ => ⟨by decide, by decide⟩) firstNexthop
    Mgr.new (by decide +kernel)).mpr ⟨by decide +kernel, by decide +kernel, by decide +kernel, by decide +kernel⟩

theorem blankDistance_dropped : newLists init routePrefix "default" routePrefix (twoNexthops "") =
      some (twoVrfs, twoIntfs, twoIps) ∧ newBfd (twoNexthops "") = true ∧
    (reconstructStaticRouteConfig (newRow init routePrefix "default" routePrefix (twoNexthops "")).1 bothNexthops).bind
      (nextHopsOf (fun _ => false) routePrefix) = some [] ∧
    (restrictedNextHops (fun _ => false) "default" routePrefix (twoNexthops "")
      (live (fun nh => nh ∈ bothNexthops) twoVrfs twoIps)).map List.length = some 2 := by
  refine ⟨?_, ?_, ?_, ?_⟩ <;> decide +kernel

end Sonic.StaticBfd
