import Mathlib.Data.List.GetD
import Sonic.StaticBfdSteps

/-! # The row of a route in APPL_DB

`reconstruct_static_route_config` keeps the members of the stored lists at the indices of the
reachable nexthops. `Shows` is what a reader of APPL_DB sees: the nexthops that are up, each with
its own vrf, interface and distance. -/

namespace Sonic.StaticBfd
open List

open Str

def live (up : Str × Str → Bool) (vs ns : List Str) : List Nat :=
  (List.range ns.length).filter fun i => up (vs.getD i [], ns.getD i [])

def column (l : List Str) (idx : List Nat) : Str := join [','] (idx.map fun i => l.getD i [])

structure Shows (d : Row) (vs is ns : List Str) (idx : List Nat) (w : Row) : Prop where
  nexthop : w.get? "nexthop" = some (column ns idx)
  vrf : w.get? "nexthop-vrf" = some (column vs idx)
  ifname : w.get? "ifname" = some (column is idx)
  distance : w.get? "distance" = (d.get? "distance").map fun _ => column ((field d "distance").getD []) idx

theorem join_cons (x : Str) : ∀ xs : List Str, join [','] (x :: xs) = x ++ xs.flatMap (',' :: ·)
  | [] => by simp [join]
  | y :: ys => by rw [join_cons_cons, join_cons y ys, flatMap_cons, cons_append]

theorem candidate_eq_join : ∀ xs : List Str, candidate xs = join [','] xs
  | [] => rfl
  | x :: xs => by grind [join_cons, candidate]

theorem mapM_getElem? (l : List Str) : ∀ {idx : List Nat} {ys : List Str},
    (idx.mapM fun i => l[i]?) = some ys → ys = idx.map fun i => l.getD i []
  | [], ys, h => by simpa using h.symm
  | i :: idx, ys, h => by
    simp only [mapM_cons, Option.bind_eq_bind, Option.bind_eq_some_iff, Option.pure_def,
      Option.some.injEq] at h
    obtain ⟨y, hy, zs, hz, rfl⟩ := h
    rw [map_cons, ← mapM_getElem? l hz, getD_eq_getElem?_getD, hy]; rfl

theorem pick_eq {l : Option (List Str)} {idx : List Nat} {w : Str} (h : pick l idx = some w) :
    w = column (l.getD []) idx := by
  cases l <;> grind [pick, candidate_eq_join, column, Option.map_eq_some_iff, mapM_getElem?]

theorem rebuilt_key (bkh nh intf dist nhVrf : Str) (p q : Str × Str)
    (h : rebuilt bkh nh intf dist nhVrf p = some q) : q.1 = p.1 := by
  unfold rebuilt at h
  split_ifs at h <;> cases h <;> rfl

theorem reconstruct_get? {orig : Row} {bkh nh intf dist nhVrf : Str} {k w : Str} (hk : "expiry" ≠ k)
    (hw : ∀ v, rebuilt bkh nh intf dist nhVrf (k, v) = some (k, w)) :
    (Dict.set (orig.filterMap (rebuilt bkh nh intf dist nhVrf)) "expiry" "false").get? k =
      (orig.get? k).map fun _ => w := by
  rw [Dict.get?_set_ne _ hk, Dict.get?_filterMap (rebuilt_key bkh nh intf dist nhVrf) (fun v => by rw [hw v]; rfl)]
  cases orig.get? k <;> simp_all

theorem field_isSome {d : Row} {k : Str} {l : List Str} (h : field d k = some l) : ∃ v, d.get? k = some v := by
  grind [field, Option.bind_eq_some_iff]

theorem shows_reconstruct {d cfg : Row} {srt : List (Str × Str)} {vs is ns : List Str} (hl : Listed d vs is ns)
    (h : reconstructStaticRouteConfig d srt = some cfg) :
    Shows d vs is ns (live (fun nh => nh ∈ srt) vs ns) cfg := by
  unfold reconstructStaticRouteConfig at h
  simp only [hl.nexthops, hl.vrfs, hl.intfs, Option.bind_eq_bind, Option.bind_some, Option.bind_eq_some_iff,
    Option.pure_def, Option.some.injEq] at h
  obtain ⟨idx, hidx, bkh, _, nh, hnh, intf, hintf, dist, hdist, nhVrf, hvrf, rfl⟩ := h
  have hlive : idx = live (fun nh => nh ∈ srt) vs ns := by
    unfold reachableIdx at hidx
    split at hidx
    · cases hidx
    · cases hidx; rfl
  rw [← hlive]
  obtain ⟨_, hn⟩ := field_isSome hl.nexthops
  obtain ⟨_, hv⟩ := field_isSome hl.vrfs
  obtain ⟨_, hi⟩ := field_isSome hl.intfs
  refine ⟨?_, ?_, ?_, ?_⟩
  · rw [reconstruct_get? (w := nh) (by decide) (fun v => by simp [rebuilt]), hn, pick_eq hnh]; rfl
  · rw [reconstruct_get? (w := nhVrf) (by decide) (fun v => by simp [rebuilt]), hv, pick_eq hvrf]; rfl
  · rw [reconstruct_get? (w := intf) (by decide) (fun v => by simp [rebuilt]), hi, pick_eq hintf]; rfl
  · rw [reconstruct_get? (w := dist) (by decide) (fun v => by simp [rebuilt]), pick_eq hdist]

def DistOk (d : Row) (row : Option Row) : Prop :=
  ∀ w, row = some w → w.get? "distance" ≠ none → d.get? "distance" ≠ none

theorem Shows.distOk {d w : Row} {vs is ns : List Str} {idx : List Nat} (h : Shows d vs is ns idx w) :
    DistOk d (some w) := by
  intro w' he hd hn
  grind [h.distance]

theorem Shows.merge {d cfg : Row} {vs is ns : List Str} {idx : List Nat} (h : Shows d vs is ns idx cfg)
    {row : Option Row} (hd : DistOk d row) : Shows d vs is ns idx ((row.getD []).merge cfg) := by
  refine ⟨?_, ?_, ?_, ?_⟩
  · rw [Dict.get?_merge, h.nexthop]; rfl
  · rw [Dict.get?_merge, h.vrf]; rfl
  · rw [Dict.get?_merge, h.ifname]; rfl
  · rw [Dict.get?_merge, h.distance]
    cases hdist : d.get? "distance" with
    | some _ => rfl
    | none =>
      cases row with
      | none => rfl
      | some w => simpa using mt (hd w rfl) (not_not.mpr hdist)

theorem mem_zip_getD {vs ns : List Str} (hlen : vs.length = ns.length) {nh : Str × Str} :
    nh ∈ vs.zip ns ↔ ∃ i < ns.length, (vs.getD i [], ns.getD i []) = nh := by
  have hz : (vs.zip ns).length = ns.length := by simp_all
  rw [mem_iff_getElem]
  constructor
  · rintro ⟨i, hi, rfl⟩
    refine ⟨i, by omega, ?_⟩
    grind
  · grind

theorem live_congr {f g : Str × Str → Bool} {vs ns : List Str} (hlen : vs.length = ns.length)
    (h : ∀ nh ∈ vs.zip ns, f nh = g nh) : live f vs ns = live g vs ns := by
  grind [live, filter_congr, mem_zip_getD]

theorem live_eq_nil {f : Str × Str → Bool} {vs ns : List Str} (hlen : vs.length = ns.length) :
    live f vs ns = [] ↔ ∀ nh ∈ vs.zip ns, f nh = false := by grind [live, filter_eq_nil_iff, mem_zip_getD]

end Sonic.StaticBfd
