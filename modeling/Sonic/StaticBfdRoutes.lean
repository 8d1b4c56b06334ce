import Sonic.StaticBfdRow
import Sonic.StaticBfdXref

/-! # The routes of staticroutebfd, one by one

A route is off, held, or live: a live route has in APPL_DB the row of its nexthops that are up, and
no row without one. The handlers touch one route at a time, and the keys of two routes in APPL_DB
differ, so each is followed on its own. -/

namespace Sonic.StaticBfd

open Str

variable {up up' up₀ : Str × Str → Bool} {s s' t u : St} {r r' key vrf p : Str} {nh : Str × Str} {d data : Row}
  {row : Option Row} {vs is ns : List Str}

def Held (d : Row) : Prop := d.get? "bfd_nh_hold" = some "true"

instance (d : Row) : Decidable (Held d) := inferInstanceAs (Decidable (_ = _))

/-- The row shows the nexthops of `d` that are up, and there is none without
such a nexthop. -/
def Mirrors (up : Str × Str → Bool) (d : Row) (row : Option Row) : Prop :=
  ∃ vs is ns, Listed d vs is ns ∧
    ((live up vs ns = [] ∧ row = none) ∨
      (live up vs ns ≠ [] ∧ ∃ w, row = some w ∧ Shows d vs is ns (live up vs ns) w))

/-! ## One route -/

inductive RouteOk (up : Str × Str → Bool) (s : St) (r : Str) : Prop
  | off : bfdTrue (s.config r) = false → s.routeAppl (applKey r) = none → RouteOk up s r
  | held : bfdTrue (s.config r) = true → Held (s.config r) → s.srt r = [] →
      (∀ nh ∈ pairs (s.config r), up nh = false) → DistOk (s.config r) (s.routeAppl (applKey r)) → RouteOk up s r
  | live : bfdTrue (s.config r) = true → ¬ Held (s.config r) →
      (∀ nh, nh ∈ s.srt r ↔ nh ∈ pairs (s.config r) ∧ up nh = true) →
      Mirrors up (s.config r) (s.routeAppl (applKey r)) → RouteOk up s r

structure SameView (s t : St) (r : Str) : Prop where
  config : t.config r = s.config r
  srt : t.srt r = s.srt r
  row : t.routeAppl (applKey r) = s.routeAppl (applKey r)

theorem SameView.refl (s : St) (r : Str) : SameView s s r := ⟨rfl, rfl, rfl⟩

theorem SameView.trans (h₁ : SameView s t r) (h₂ : SameView t u r) : SameView s u r :=
  ⟨h₂.config.trans h₁.config, h₂.srt.trans h₁.srt, h₂.row.trans h₁.row⟩

theorem RouteOk.congr (h : RouteOk up s r) (he : SameView s t r) :
    RouteOk up t r := by
  obtain ⟨hc, hs, hr⟩ := he
  cases h with
  | off hb hrow => exact .off (by rw [hc]; exact hb) (by simp_all)
  | held hb hh hsrt hup hd =>
    exact .held (by rw [hc]; exact hb) (by rw [hc]; exact hh) (by simp_all) (by rw [hc]; exact hup)
      (by simp_all)
  | live hb hh hsrt hm => exact .live (by rw [hc]; exact hb) (by rw [hc]; exact hh) (by simp_all) (by simp_all)

theorem Listed.len (h : Listed d vs is ns) : vs.length = ns.length :=
  h.len₂.symm.trans h.len₁

theorem Mirrors.congr (h : Mirrors up d row)
    (he : ∀ nh ∈ pairs d, up nh = up' nh) : Mirrors up' d row := by
  obtain ⟨vs, is, ns, hl, h⟩ := h
  rw [hl.pairs_eq] at he
  refine ⟨vs, is, ns, hl, ?_⟩
  rwa [← live_congr hl.len he]

theorem RouteOk.congr_up (h : RouteOk up s r)
    (he : bfdTrue (s.config r) = true → ∀ nh ∈ pairs (s.config r), up nh = up' nh) : RouteOk up' s r := by
  cases h with
  | off hb hrow => exact .off hb hrow
  | held hb hh hsrt hup hd => exact .held hb hh hsrt (fun nh hm => (he hb nh hm).symm.trans (hup nh hm)) hd
  | live hb hh hsrt hm =>
    refine .live hb hh (fun nh => (hsrt nh).trans ?_) (hm.congr (he hb))
    simp_all

theorem Mirrors.distOk (h : Mirrors up d row) : DistOk d row := by
  obtain ⟨vs, is, ns, hl, ⟨_, rfl⟩ | ⟨_, w, rfl, hw⟩⟩ := h
  · intro w he; cases he
  · exact hw.distOk

section
variable {up : Str × Str → Bool} {s : St} {r : Str} (h : RouteOk up s r) (hb : bfdTrue (s.config r) = true)
include h hb

theorem RouteOk.srt_iff (nh : Str × Str) : nh ∈ s.srt r ↔ nh ∈ pairs (s.config r) ∧ up nh = true := by
  cases h <;> simp_all

theorem RouteOk.distOk : DistOk (s.config r) (s.routeAppl (applKey r)) := by
  cases h with
  | off hb' => simp_all
  | held _ _ _ _ hd => exact hd
  | live _ _ _ hm => exact hm.distOk

end

theorem mirrors_write {cfg : Row} {srt : List (Str × Str)} (hl : Listed d vs is ns) (hsrt : ∀ nh, nh ∈ srt ↔ nh ∈ pairs d ∧ up nh = true)
    (hne : srt ≠ []) (hd : DistOk d row) (hc : reconstructStaticRouteConfig d srt = some cfg) :
    Mirrors up d (some ((row.getD []).merge cfg)) := by
  have hlive : live (fun nh => nh ∈ srt) vs ns = live up vs ns := by grind [live_congr, Listed.len, Listed.pairs_eq]
  refine ⟨vs, is, ns, hl, Or.inr ⟨fun he => ?_, _, rfl, ?_⟩⟩
  · obtain ⟨nh, hm⟩ := List.exists_mem_of_ne_nil _ hne
    grind [Listed.pairs_eq, live_eq_nil, Listed.len]
  · rw [← hlive]; exact (shows_reconstruct hl hc).merge hd

theorem not_held_hold0 (d : Row) : ¬ Held (hold0 d) := by simp [Held, hold0]

theorem distOk_hold0 (h : DistOk d row) : DistOk (hold0 d) row := by
  grind [DistOk, hold0]

theorem routeOk_publish {cfg : Row} (hw : Wf (s.config r))
    (hb : bfdTrue (s.config r) = true) (hsrt : ∀ nh, nh ∈ s.srt r ↔ nh ∈ pairs (s.config r) ∧ up nh = true)
    (hne : s.srt r ≠ []) (hd : DistOk (s.config r) (s.routeAppl (applKey r)))
    (hc : reconstructStaticRouteConfig (hold0 (s.config r)) (s.srt r) = some cfg) :
    RouteOk up (publish s r cfg) r := by
  have hcfg : (publish s r cfg).config r = hold0 (s.config r) := by
    simp [publish, setStaticRouteIntoApplDb, St.setConfig]
  have hrow : (publish s r cfg).routeAppl (applKey r) =
      some (((s.routeAppl (applKey r)).getD []).merge cfg) := by
    simp [publish, setStaticRouteIntoApplDb, St.setConfig]
  obtain ⟨vs, is, ns, hl, _⟩ := hw hb
  refine .live ?_ ?_ ?_ ?_
  · rw [hcfg, bfdTrue_hold0]; exact hb
  · rw [hcfg]; exact not_held_hold0 _
  · rw [hcfg, pairs_hold0]; exact hsrt
  · rw [hcfg, hrow]
    exact mirrors_write hl.hold0 (by rw [pairs_hold0]; exact hsrt) hne (distOk_hold0 hd) hc

theorem RouteOk.bfdUp (h : RouteOk up₀ s r)
    (he : ∀ m, m ≠ nh → up₀ m = up m) (hup : up nh = true) (hw : Wf (s.config r)) (hu : Uses s r nh)
    (hr : bfdUp nh s r = some t) : RouteOk up t r := by
  obtain ⟨_, hb, hm⟩ := hu
  rcases bfdUp_cases hr with ⟨hin, rfl⟩ | ⟨_, cfg, hc, rfl⟩
  · refine h.congr_up fun _ m _ => ?_
    by_cases hmn : m = nh
    · rw [hmn, hup, ((h.srt_iff hb nh).mp hin).2]
    · exact he m hmn
  · refine routeOk_publish (s := appendToSrtTableEntry s r nh) hw hb (fun m => ?_) ?_ (h.distOk hb) hc
    · rw [mem_appendToSrt, h.srt_iff hb m]
      by_cases hmn : m = nh
      · subst hmn; exact ⟨fun _ => ⟨hm, hup⟩, fun _ => Or.inr ⟨rfl, rfl⟩⟩
      · rw [he m hmn]
        exact ⟨fun h => h.resolve_right fun h => hmn h.2, Or.inl⟩
    · exact List.ne_nil_of_mem (mem_appendToSrt.mpr (Or.inr ⟨rfl, rfl⟩))

theorem RouteOk.removeReachable
    (h : RouteOk up₀ s r) (he : ∀ m, m ≠ nh → up₀ m = up m) (hup : up nh = false) (hw : Wf (s.config r))
    (hb : bfdTrue (s.config r) = true) (hr : removeReachable nh s r = some t) : RouteOk up t r := by
  have hsrt : ∀ m, m ∈ (removeFromSrtTableEntry s r nh).srt r ↔ m ∈ pairs (s.config r) ∧ up m = true := by
    intro m
    rw [mem_removeFromSrt, h.srt_iff hb m]
    grind
  obtain ⟨vs, is, ns, hl, _⟩ := hw hb
  rcases removeReachable_cases hr with ⟨hnil, rfl⟩ | ⟨hne, cfg, hc, rfl⟩
  · have hdown : ∀ m ∈ pairs (s.config r), up m = false := by grind
    have hrow : (delStaticRouteFromApplDb (removeFromSrtTableEntry s r nh) (applKey r)).routeAppl (applKey r) =
        none := by simp [delStaticRouteFromApplDb]
    by_cases hh : Held (s.config r)
    · refine .held hb hh hnil hdown ?_
      rw [hrow]; intro w hw; cases hw
    · refine .live hb hh hsrt ?_
      rw [hrow]
      refine ⟨vs, is, ns, hl, Or.inl ⟨(live_eq_nil hl.len).mpr ?_, rfl⟩⟩
      rw [← hl.pairs_eq]; exact hdown
  · have hh : ¬ Held (s.config r) := by
      intro hh
      cases h <;> grind [List.exists_mem_of_ne_nil]
    refine .live hb hh hsrt ?_
    simp only [setStaticRouteIntoApplDb, Function.update_self]
    exact mirrors_write hl hsrt hne (h.distOk hb) hc

theorem RouteOk.bfdDown
    (h : RouteOk up₀ s r) (he : ∀ m, m ≠ nh → up₀ m = up m) (hup : up nh = false) (hw : Wf (s.config r))
    (hb : bfdTrue (s.config r) = true) (hr : bfdDown nh s r = some t) : RouteOk up t r := by
  rcases bfdDown_cases hr with ⟨hh, rfl⟩ | ⟨_, hr⟩
  · cases h with
    | off hb' => simp_all
    | held _ _ hs hdown hd =>
      refine .held hb hh hs (fun m hm => ?_) hd
      grind
    | live _ hh' => exact (hh' hh).elim
  · exact h.removeReachable he hup hw hb hr

def Frames (s t : St) (r : Str) : Prop :=
  (∀ r', bfdTrue (t.config r') = bfdTrue (s.config r') ∧ pairs (t.config r') = pairs (s.config r')) ∧
    ∀ r', r' ≠ r → applKey r' ≠ applKey r → SameView s t r'

theorem frames_publish (s : St) (r : Str) (cfg : Row) (nh : Str × Str) :
    Frames s (publish (appendToSrtTableEntry s r nh) r cfg) r := by
  refine ⟨fun r' => ?_, fun r' hr ha => ?_⟩
  · by_cases hr : r' = r <;> simp_all [publish, setStaticRouteIntoApplDb, St.setConfig, bfdTrue_hold0, pairs_hold0,
      appendToSrtTableEntry, St.setSrt]
  · refine ⟨?_, ?_, ?_⟩ <;>
      simp [publish, setStaticRouteIntoApplDb, St.setConfig, hr, ha, appendToSrtTableEntry, St.setSrt]

theorem frames_bfdUp (hr : bfdUp nh s r = some t) : Frames s t r := by
  rcases bfdUp_cases hr with ⟨_, rfl⟩ | ⟨_, cfg, _, rfl⟩
  · exact ⟨fun _ => ⟨rfl, rfl⟩, fun r' _ _ => .refl _ r'⟩
  · exact frames_publish s r cfg nh

theorem frames_removeReachable (hr : removeReachable nh s r = some t) :
    Frames s t r := by
  rcases removeReachable_cases hr with ⟨_, rfl⟩ | ⟨_, cfg, _, rfl⟩
  · refine ⟨fun _ => ⟨rfl, rfl⟩, fun r' hr ha => ⟨rfl, ?_, ?_⟩⟩ <;>
      simp [delStaticRouteFromApplDb, removeFromSrtTableEntry, St.setSrt, hr, ha]
  · refine ⟨fun _ => ⟨rfl, rfl⟩, fun r' hr ha => ⟨rfl, ?_, ?_⟩⟩ <;>
      simp [setStaticRouteIntoApplDb, removeFromSrtTableEntry, St.setSrt, hr, ha]

theorem frames_bfdDown (hr : bfdDown nh s r = some t) : Frames s t r := by
  rcases bfdDown_cases hr with ⟨_, rfl⟩ | ⟨_, hr⟩
  · exact ⟨fun _ => ⟨rfl, rfl⟩, fun r' _ _ => .refl _ r'⟩
  · exact frames_removeReachable hr

def KeyOk (r : Str) : Prop := ∃ vrf p, r = routeKey vrf p ∧ '|' ∉ vrf ∧ '|' ∉ p ∧ ':' ∉ vrf

theorem replace_of_not_mem {a b : Char} {l : Str} (h : a ∉ l) : replace a b l = l := by
  unfold replace
  conv_rhs => rw [← List.map_id l]
  grind [List.map_congr_left]

theorem applKey_routeKey (hv : '|' ∉ vrf) (hp : '|' ∉ p) :
    applKey (routeKey vrf p) = vrf ++ ':' :: p := by
  have h : applKey (routeKey vrf p) = replace '|' ':' vrf ++ ':' :: replace '|' ':' p := by
    simp [applKey, routeKey, replace]
  grind [replace_of_not_mem]

theorem applKey_inj (h : KeyOk r) (h' : KeyOk r') (he : applKey r = applKey r') : r = r' := by
  obtain ⟨v, p, rfl, hv, hp, hc⟩ := h
  obtain ⟨v', p', rfl, hv', hp', hc'⟩ := h'
  grind [applKey_routeKey, append_sep_inj]

def KeysOk (s : St) (r : Str) : Prop :=
  bfdTrue (s.config r) = true → KeyOk r ∧ ∀ nh ∈ pairs (s.config r), ':' ∉ nh.1

structure Routes (up : Str × Str → Bool) (s : St) : Prop extends XInv s where
  keys : ∀ r, KeysOk s r
  routes : ∀ r, KeyOk r → RouteOk up s r

theorem Routes.congr_up (h : Routes up s)
    (he : ∀ v ip, s.nexthop (nhKey v ip) ≠ [] → up (v, ip) = up' (v, ip)) : Routes up' s := by
  refine ⟨h.toXInv, h.keys, fun r hk => (h.routes r hk).congr_up fun hb nh hm => ?_⟩
  have hmem := (h.nexthop r nh.1 nh.2).mpr ⟨ne_nil_of_bfdTrue hb, hb, hm⟩
  grind

theorem Routes.fold {v ip : Str} {f : St → Str → Option St}
    (h : Routes up s) (he : ∀ m, m ≠ (v, ip) → up m = up' m)
    (hx : ∀ s r t, XInv s → r ∈ s.nexthop (nhKey v ip) → f s r = some t → XInv t ∧ t.nexthop = s.nexthop)
    (hf : ∀ s r t, f s r = some t → Frames s t r)
    (hone : ∀ up₀ s r t, XInv s → Uses s r (v, ip) → RouteOk up₀ s r → (∀ m, m ≠ (v, ip) → up₀ m = up' m) →
      f s r = some t → RouteOk up' t r)
    (hrun : (s.nexthop (nhKey v ip)).foldlM f s = some t) : Routes up' t := by
  have hloop := foldlM_each
    (fun u => XInv u ∧ u.nexthop = s.nexthop ∧ (∀ r, KeysOk u r) ∧
      ∀ r, KeyOk r → ∃ up₀, RouteOk up₀ u r ∧ ∀ m, m ≠ (v, ip) → up₀ m = up' m)
    (fun u r => KeyOk r → RouteOk up' u r) (fun u r w hr ⟨hxu, hn, hkeys, hroutes⟩ hu => ?_)
    ⟨h.toXInv, rfl, h.keys, fun r hk => ⟨up, h.routes r hk, he⟩⟩ hrun
  · obtain ⟨⟨hxt, hn, hkeys, hroutes⟩, hall, -⟩ := hloop
    refine ⟨hxt, hkeys, fun r hk => ?_⟩
    by_cases hr : r ∈ s.nexthop (nhKey v ip)
    · exact hall r hr hk
    · obtain ⟨up₀, hok, hag⟩ := hroutes r hk
      refine hok.congr_up fun hb m hm => hag m ?_
      rintro rfl
      rw [← hn] at hr
      exact hr ((hxt.nexthop r v ip).mpr ⟨ne_nil_of_bfdTrue hb, hb, hm⟩)
  · have hr' : r ∈ u.nexthop (nhKey v ip) := by rw [hn]; exact hr
    have huse := (hxu.nexthop r v ip).mp hr'
    have hkr := (hkeys r huse.2.1).1
    obtain ⟨up₀, hok, hag⟩ := hroutes r hkr
    obtain ⟨hxw, hnw⟩ := hx u r w hxu hr' hu
    obtain ⟨hbs, hview⟩ := hf u r w hu
    have hself := hone up₀ u r w hxu huse hok hag hu
    have hne : ∀ b, KeyOk b → b ≠ r → SameView u w b := fun b hb hbr =>
      hview b hbr fun ha => hbr (applKey_inj hb hkr ha)
    refine ⟨⟨hxw, hnw.trans hn, fun b => ?_, fun b hb => ?_⟩,
      fun _ => hself, fun b hb hkb => ?_⟩
    · unfold KeysOk; rw [(hbs b).1, (hbs b).2]; exact hkeys b
    · by_cases hbr : b = r
      · grind
      · obtain ⟨up₁, hok₁, hag₁⟩ := hroutes b hb
        exact ⟨up₁, hok₁.congr (hne b hb hbr), hag₁⟩
    · by_cases hbr : b = r
      · grind
      · exact (hb hkb).congr (hne b hkb hbr)

theorem dropAll_routeAppl (r : Str) : ∀ (l : List (Str × Str)) (s : St),
    (l.foldl (dropNexthop r) s).routeAppl = s.routeAppl
  | [], _ => rfl
  | nh :: l, s => by
    refine (dropAll_routeAppl r l (dropNexthop r s nh)).trans ?_
    unfold dropNexthop; simp only; split <;> rfl

theorem detach_view (hr : r' ≠ r)
    (ha : bfdTrue (s.config r) = true → applKey r' ≠ applKey r) : SameView s (detach s r) r' := by
  refine ⟨by rw [detach_config], ?_, ?_⟩
  · unfold detach
    simp only [St.setSrt, Function.update_of_ne hr]
    split
    · exact congrFun (dropAll_spec r _ s).2.1 r'
    · rfl
  · unfold detach dropRoute
    split <;> simp_all [St.setSrt, delStaticRouteFromApplDb, dropAll_routeAppl]

theorem detach_row (h : bfdTrue (s.config r) = false → s.routeAppl (applKey r) = none) :
    (detach s r).routeAppl (applKey r) = none := by
  unfold detach dropRoute
  split <;> simp_all [St.setSrt, delStaticRouteFromApplDb]

theorem RouteOk.row_of_off (h : RouteOk up s r)
    (hb : bfdTrue (s.config r) = false) : s.routeAppl (applKey r) = none := by cases h <;> simp_all

theorem Routes.setOff (h : Routes up s)
    (hx : XInv (t.setConfig r d)) (hd : bfdTrue d = false) (hc : t.config = s.config)
    (hview : ∀ r', KeyOk r' → r' ≠ r → SameView s t r') (hrow : KeyOk r → t.routeAppl (applKey r) = none) :
    Routes up (t.setConfig r d) := by
  have hne : ∀ {r'}, r' ≠ r → (t.setConfig r d).config r' = s.config r' := fun hr => by simp_all [St.setConfig]
  have hself : bfdTrue ((t.setConfig r d).config r) = false := by simpa [St.setConfig] using hd
  refine ⟨hx, fun r' => ?_, fun r' hk => ?_⟩
  · by_cases hr : r' = r
    · subst hr; intro hb; simp_all
    · unfold KeysOk; rw [hne hr]; exact h.keys r'
  · by_cases hr : r' = r
    · subst hr; exact .off hself (hrow hk)
    · have hv := hview r' hk hr
      exact (h.routes r' hk).congr ⟨hne hr, hv.srt, hv.row⟩

theorem Routes.detach_off (h : Routes up s) (r : Str)
    (hd : bfdTrue d = false) : Routes up ((detach s r).setConfig r d) := by
  refine h.setOff ((h.toXInv.detach r).setConfig_off hd) hd (detach_config s r) (fun r' hk hr => ?_) fun hk => ?_
  · exact detach_view hr fun hb ha => hr (applKey_inj hk (h.keys r hb).1 ha)
  · exact detach_row (h.routes r hk).row_of_off

theorem Routes.del (h : Routes up s) (key : Str) :
    Routes up (staticRouteDelHandler s key true) := by
  rcases delHandler_cases s h.wf key true with e | ⟨vrf, p, _, _, e⟩ <;> simp_all [detach_off, bfdTrue_nil]

theorem splitKey_parts (hk : staticRouteSplitKey key = some (vrf, p)) : '|' ∉ vrf ∧ '|' ∉ p := by
  have hmem : ∀ q ∈ split '|' key, '|' ∉ q := fun q hq => not_mem_split hq
  unfold staticRouteSplitKey at hk
  split at hk
  · cases hk
  · split at hk
    · rename_i q he
      cases hk
      simp_all
    · grind
    · cases hk

theorem Routes.turnOff (h : Routes up s)
    (hk : staticRouteSplitKey key = some (vrf, p)) (hb : bfdTrue (s.config (routeKey vrf p)) = true)
    (hd : bfdTrue d = false) :
    Routes up ((detach (delStaticRouteFromApplDb s (vrf ++ ':' :: p)) (routeKey vrf p)).setConfig
      (routeKey vrf p) d) := by
  obtain ⟨hv, hp⟩ := splitKey_parts hk
  have hx := h.toXInv.of_sameRoutes (sameRoutes_delAppl s (vrf ++ ':' :: p))
  refine h.setOff ((hx.detach _).setConfig_off hd) hd (detach_config _ _) (fun r' hk' hr => ?_) fun _ => ?_
  · have ha : applKey r' ≠ applKey (routeKey vrf p) := fun ha => hr (applKey_inj hk' (h.keys _ hb).1 ha)
    refine SameView.trans (t := delStaticRouteFromApplDb s (vrf ++ ':' :: p)) ⟨rfl, rfl, ?_⟩
      (detach_view hr fun _ => ha)
    simp_all [applKey_routeKey, delStaticRouteFromApplDb]
  · exact detach_row fun hf => by
      have hf : bfdTrue (s.config (routeKey vrf p)) = false := hf
      simp_all

/-! ## The sessions an edit leaves -/

theorem bfdKey_inj {v ip v' ip' : Str} (hv : ':' ∉ v) (hv' : ':' ∉ v') (h : bfdKey v ip = bfdKey v' ip') :
    (v, ip) = (v', ip') := by grind [bfdKey, append_sep_inj, List.append_cancel_left]

def entries (d : Row) : List (Str × Str × Str) :=
  match field d "nexthop-vrf", field d "ifname", field d "nexthop" with
  | some vs, some is, some ns => zip3 vs is ns
  | _, _, _ => []

theorem Listed.entries_eq (h : Listed d vs is ns) : entries d = zip3 vs is ns := by
  unfold entries; rw [h.vrfs, h.intfs, h.nexthops]

/-- No route but `r` has the nexthop. -/
def Alone (s : St) (r : Str) (nh : Str × Str) : Prop := ∀ r' ∈ s.nexthop (nhKey nh.1 nh.2), r' = r

instance (s : St) (r : Str) (nh : Str × Str) : Decidable (Alone s r nh) := inferInstanceAs (Decidable (∀ _ ∈ _, _))

/-- Route `r` drops an entry of the nexthop, and no other route has one. -/
def Dropped (s : St) (r : Str) (old new : List (Str × Str × Str)) (nh : Str × Str) : Prop :=
  (∃ t ∈ old, t ∉ new ∧ (t.1, t.2.2) = nh) ∧ Alone s r nh

instance (s : St) (r : Str) (old new : List (Str × Str × Str)) (nh : Str × Str) :
    Decidable (Dropped s r old new nh) := inferInstanceAs (Decidable (_ ∧ _))

theorem isUp_set_ne {k : Str} (h : k ≠ "state") (v : Str) : isUp (d.set k v) = isUp d := by
  unfold isUp; grind

theorem alone_dropNexthop (m nh : Str × Str) : Alone (dropNexthop r s m) r nh ↔ Alone s r nh := by
  unfold Alone
  rw [dropNexthop_nexthop]
  constructor
  · intro h r' hr'
    by_contra hne
    exact hne (h r' (mem_removeFromNh.mpr ⟨hr', fun hk => hne hk.2⟩))
  · grind [mem_removeFromNh]

theorem dropNexthop_session {m : Str × Str} (hm : ':' ∉ m.1) (hn : ':' ∉ nh.1) :
    (dropNexthop r s m).bfd (bfdKey nh.1 nh.2) = if m = nh ∧ Alone s r nh then [] else s.bfd (bfdKey nh.1 nh.2) := by
  have hnil : (removeFromNhTableEntry s (nhKey m.1 m.2) r).nexthop (nhKey m.1 m.2) = [] ↔ Alone s r m := by
    simp [removeFromNhTableEntry, St.setNexthop, Alone]
  unfold dropNexthop
  simp only
  by_cases he : m = nh
  · subst he
    by_cases hall : Alone s r m
    · simp_all [delBfdSessionFromApplDb, St.setBfd]
    · rw [if_neg (mt hnil.mp hall), if_neg (fun h : m = m ∧ Alone s r m => hall h.2)]; rfl
  · have hk : bfdKey nh.1 nh.2 ≠ bfdKey m.1 m.2 := fun hk => he (bfdKey_inj hn hm hk).symm
    rw [if_neg (fun h : m = nh ∧ Alone s r nh => he h.1)]
    split
    · simp_all [delBfdSessionFromApplDb, St.setBfd, removeFromNhTableEntry, St.setNexthop]
    · rfl

theorem dropped_cons {t : Str × Str × Str} {old new : List (Str × Str × Str)} :
    Dropped s r (t :: old) new nh ↔ (t ∉ new ∧ (t.1, t.2.2) = nh ∧ Alone s r nh) ∨ Dropped s r old new nh := by
  simp only [Dropped, List.mem_cons, exists_eq_or_imp]
  grind

theorem dropped_congr {old new : List (Str × Str × Str)}
    (h : Alone s' r nh ↔ Alone s r nh) : Dropped s' r old new nh ↔ Dropped s r old new nh := by unfold Dropped; rw [h]

theorem removeAll_session (r : Str) (new : List (Str × Str × Str)) (hn : ':' ∉ nh.1) :
    ∀ (old : List (Str × Str × Str)) (s : St), (∀ t ∈ old, ':' ∉ t.1) →
      (old.foldl (removeDeleted r new) s).bfd (bfdKey nh.1 nh.2) =
        if Dropped s r old new nh then [] else s.bfd (bfdKey nh.1 nh.2)
  | [], s, _ => by simp [Dropped]
  | t :: old, s, hold => by
    rw [List.foldl_cons, removeAll_session r new hn old _ fun t' ht' => hold t' (List.mem_cons_of_mem _ ht')]
    by_cases ht : t ∈ new
    · simp_all [removeDeleted, dropped_cons]
    · have hs : removeDeleted r new s t =
          dropNexthop r (removeFromSrtTableEntry s r (t.1, t.2.2)) (t.1, t.2.2) := if_neg ht
      have hbfd := dropNexthop_session (r := r) (s := removeFromSrtTableEntry s r (t.1, t.2.2))
        (m := (t.1, t.2.2)) (hold t List.mem_cons_self) hn
      have hsame : Alone (removeFromSrtTableEntry s r (t.1, t.2.2)) r nh ↔ Alone s r nh := Iff.rfl
      have hd := @dropped_congr _ _ _ _ old new ((alone_dropNexthop (t.1, t.2.2) nh).trans hsame)
      simp only [hs, hbfd, hd, hsame, dropped_cons, ht, not_false_eq_true, true_and]
      by_cases h₁ : (t.1, t.2.2) = nh ∧ Alone s r nh
      · simp [h₁]
      · by_cases h₂ : Dropped s r old new nh
        · simp [h₂]
        · simp only [h₁, h₂, or_self, if_false]; rfl

theorem addNexthop_isUp (r : Str) (s : St) (t : Str × Str × Str) (k : Str) :
    isUp ((addNexthop r s t).bfd k) = isUp (s.bfd k) := by
  obtain ⟨v, i, ip⟩ := t
  have hnew : ∀ (u : St) (a : Str), u.bfd (bfdKey v ip) = [] →
      isUp ((createBfdSession u (bfdKey v ip) a).bfd k) = isUp (u.bfd k) := by
    intro u a hu
    by_cases hk : k = bfdKey v ip
    · subst hk; rw [hu]; simp only [createBfdSession, St.setBfd, Function.update_self]; rfl
    · simp_all [createBfdSession, setBfdSessionIntoApplDb, St.setBfd]
  unfold addNexthop
  simp only
  by_cases hs : s.bfd (bfdKey v ip) = []
  · simp only [hs, if_true, and_true]
    split
    · split
      · rfl
      · exact hnew s _ hs
    · rfl
  · simp only [hs, if_false, and_false]
    by_cases hk : k = bfdKey v ip
    · subst hk
      simp [appendToNhTableEntry, St.setNexthop, St.setBfd, isUp_set_ne]
    · simp_all [appendToNhTableEntry, St.setNexthop, St.setBfd]

theorem addAll_isUp (r k : Str) : ∀ (new : List (Str × Str × Str)) (s : St),
    isUp ((new.foldl (addNexthop r) s).bfd k) = isUp (s.bfd k)
  | [], _ => rfl
  | t :: new, s => (addAll_isUp r k new _).trans (addNexthop_isUp r s t k)

/-! ## Storing a route -/

theorem removeAll_frame (r : Str) (new : List (Str × Str × Str)) : ∀ (old : List (Str × Str × Str)) (s : St),
    (old.foldl (removeDeleted r new) s).routeAppl = s.routeAppl ∧
      ∀ r', r' ≠ r → (old.foldl (removeDeleted r new) s).srt r' = s.srt r'
  | [], s => ⟨rfl, fun _ _ => rfl⟩
  | t :: old, s => by
    obtain ⟨h₁, h₂⟩ := removeAll_frame r new old (removeDeleted r new s t)
    have hone : (removeDeleted r new s t).routeAppl = s.routeAppl ∧
        ∀ r', r' ≠ r → (removeDeleted r new s t).srt r' = s.srt r' := by
      unfold removeDeleted
      split
      · simp_all
      · refine ⟨?_, fun r' hr => ?_⟩
        · unfold dropNexthop; simp only; split <;> rfl
        · simp_all [dropNexthop_srt, removeFromSrtTableEntry, St.setSrt]
    grind

structure Fresh (up : Str × Str → Bool) (u : St) (r : Str) (vs is ns : List Str) : Prop where
  listed : Listed (u.config r) vs is ns
  bfd : bfdTrue (u.config r) = true
  srt : ∀ nh ∈ u.srt r, nh ∈ vs.zip ns ∧ up nh = true
  session : ∀ nh ∈ vs.zip ns, isUp (u.bfd (bfdKey nh.1 nh.2)) = up nh
  dist : DistOk (u.config r) (u.routeAppl (applKey r))
  absent : ¬ Held (u.config r) → (∀ nh ∈ vs.zip ns, up nh = false) → u.routeAppl (applKey r) = none

theorem Fresh.mem_upPairs
    (h : Fresh up u r vs is ns) (nh : Str × Str) : nh ∈ upPairs u r ↔ nh ∈ pairs (u.config r) ∧ up nh = true := by
  unfold upPairs
  rw [List.mem_filter, h.listed.pairs_eq]
  simp_all [h.session]

theorem Fresh.refresh
    (h : Fresh up u r vs is ns) (hw : Wf (u.config r)) (hr : refreshActiveNh u r = some s') : RouteOk up s' r := by
  rcases refresh_cases hr with ⟨hnil, rfl⟩ | ⟨hne, cfg, hc, rfl⟩
  · have hdown : ∀ nh ∈ pairs (s'.config r), up nh = false := by
      intro nh hm
      by_contra hup
      have := (h.mem_upPairs nh).mpr ⟨hm, by simpa using hup⟩
      simp_all
    rw [h.listed.pairs_eq] at hdown
    have hsrt : s'.srt r = [] := by
      refine List.eq_nil_iff_forall_not_mem.mpr fun nh hm => ?_
      obtain ⟨hz, hup⟩ := h.srt nh hm <;> simp_all
    by_cases hh : Held (s'.config r)
    · exact .held h.bfd hh hsrt (by rw [h.listed.pairs_eq]; exact hdown) h.dist
    · refine .live h.bfd hh (fun nh => ?_) ⟨vs, is, ns, h.listed,
        Or.inl ⟨(live_eq_nil h.listed.len).mpr hdown, h.absent hh hdown⟩⟩
      rw [hsrt, h.listed.pairs_eq]
      grind
  · have hcfg : (reach u r (upPairs u r)).config r = u.config r := by rw [reach_eq]
    have hrow : (reach u r (upPairs u r)).routeAppl = u.routeAppl := by rw [reach_eq]
    refine routeOk_publish ?_ ?_ (fun nh => ?_) ?_ ?_ ?_
    · simp_all
    · rw [hcfg]; exact h.bfd
    · rw [mem_reach, hcfg, h.mem_upPairs]
      refine ⟨fun hm => hm.elim (fun hm => ?_) fun hm => hm.2, fun hm => Or.inr ⟨rfl, hm⟩⟩
      rw [h.listed.pairs_eq]; exact h.srt nh hm
    · obtain ⟨nh, hm⟩ := List.exists_mem_of_ne_nil _ hne
      exact List.ne_nil_of_mem ((mem_reach r _ u r nh).mpr (Or.inr ⟨rfl, hm⟩))
    · rw [hcfg, hrow]; exact h.dist
    · simp_all

theorem reach_srt_ne (r : Str) (hr : r' ≠ r) : ∀ (ups : List (Str × Str)) (s : St),
    (reach s r ups).srt r' = s.srt r'
  | [], _ => rfl
  | nh :: ups, s => by
    refine (reach_srt_ne r hr ups (appendToSrtTableEntry s r nh)).trans ?_
    simp_all [appendToSrtTableEntry, St.setSrt]

theorem refresh_view (hr : refreshActiveNh u r = some s') (hne : r' ≠ r)
    (ha : applKey r' ≠ applKey r) : SameView u s' r' := by
  rcases refresh_cases hr with ⟨_, rfl⟩ | ⟨_, cfg, _, rfl⟩
  · exact .refl _ r'
  · have hsrt : (reach u r (upPairs u r)).srt r' = u.srt r' := reach_srt_ne r hne _ u
    refine ⟨?_, hsrt, ?_⟩ <;> rw [reach_eq] <;>
      simp [publish, setStaticRouteIntoApplDb, St.setConfig, hne, ha]

theorem refresh_pairs (hr : refreshActiveNh u r = some s') (r' : Str) :
    bfdTrue (s'.config r') = bfdTrue (u.config r') ∧ pairs (s'.config r') = pairs (u.config r') := by
  rcases refresh_cases hr with ⟨_, rfl⟩ | ⟨_, cfg, _, rfl⟩
  · simp_all
  · rw [reach_eq]
    by_cases he : r' = r <;> simp_all [publish, setStaticRouteIntoApplDb, St.setConfig, bfdTrue_hold0, pairs_hold0]

theorem newRow_held : Held (newRow s key vrf p data).1 ↔
    s.config (routeKey vrf p) ≠ [] ∧ bfdTrue (s.config (routeKey vrf p)) = false ∧ newBfd data = true := by
  have he : (newRow s key vrf p data).1.get? "bfd_nh_hold" = (toggled s key vrf p data).2.get? "bfd_nh_hold" := by
    grind [newRow, preprocessNexthopVrf]
  unfold Held
  rw [he]
  unfold toggled toggleBfd newBfd
  simp only
  split_ifs with h₁ h₂ h₃ <;> simp only [Dict.get?_set_self, Option.some.injEq]
  · simp [h₁]
  · simp [h₂.1]
  · grind
  · grind

theorem newRow_distance (s : St) (key vrf p : Str) (data : Row) :
    (newRow s key vrf p data).1.get? "distance" = data.get? "distance" := by
  rw [newRow_get? s key vrf p data (by decide) (by decide)]
  grind [lowerNexthop]

/-- The keys of an accepted bfd SET split in one way. The state of each of its
sessions, as it is when the entries of the old route are gone, is the one
reported. A row that an edit finds is written over: some nexthop is up, and the
distance is given again. -/
def StoreOk (up : Str × Str → Bool) (s : St) (vrf r : Str) (data : Row) (lists : List Str × List Str × List Str) :
    Prop :=
  ListsOk lists ∧ (∀ v ∈ lists.1, ':' ∉ v) ∧ ':' ∉ vrf ∧
    (∀ nh ∈ lists.1.zip lists.2.2, up nh = (isUp (s.bfd (bfdKey nh.1 nh.2)) &&
      !(bfdTrue (s.config r) &&
        decide (Dropped s r (entries (s.config r)) (zip3 lists.1 lists.2.1 lists.2.2) nh)))) ∧
    (bfdTrue (s.config r) = true → ∀ w ∈ s.routeAppl (applKey r), (∃ nh ∈ lists.1.zip lists.2.2, up nh = true) ∧
      (w.get? "distance" ≠ none → data.get? "distance" ≠ none))

instance (up : Str × Str → Bool) (s : St) (vrf r : Str) (data : Row) (lists : List Str × List Str × List Str) :
    Decidable (StoreOk up s vrf r data lists) := inferInstanceAs (Decidable (_ ∧ _))

theorem StoreOk.keyOk
    {lists : List Str × List Str × List Str} (h : StoreOk up s vrf r data lists)
    (hk : staticRouteSplitKey key = some (vrf, p)) : KeyOk (routeKey vrf p) :=
  ⟨vrf, p, rfl, (splitKey_parts hk).1, (splitKey_parts hk).2, h.2.2.1⟩

section
variable {up : Str × Str → Bool} {s t : St} {key vrf p : Str} {data : Row} {vs is ns nhList : List Str}
  (h : Routes up s) (hk : staticRouteSplitKey key = some (vrf, p)) (hip : (checkIp p).isSome)
  (hb : newBfd data = true) (hok : StoreOk up s vrf (routeKey vrf p) data (vs, is, ns))
  (ht : removeDeletedNexthops (toggled s key vrf p data).1 vrf (routeKey vrf p) (s.config (routeKey vrf p))
    (zip3 vs is ns) nhList = some t)
include h hk hip hb ht

theorem Routes.store_view (hr : r' ≠ routeKey vrf p) (ha : applKey r' ≠ applKey (routeKey vrf p)) :
    SameView s t r' := by
  rcases store_cases h.wf hk hip hb ht with ⟨_, rfl⟩ | ⟨_, _, rfl⟩ | ⟨vs₀, is₀, ns₀, _, _, _, rfl⟩
  · exact .refl _ r'
  · rw [applKey_routeKey (splitKey_parts hk).1 (splitKey_parts hk).2] at ha
    exact ⟨rfl, rfl, by simp_all [setStaticRouteIntoApplDb]⟩
  · obtain ⟨hrow, hsrt⟩ := removeAll_frame (routeKey vrf p) (zip3 vs is ns) (zip3 vs₀ is₀ ns₀) s
    exact ⟨by rw [(removeAll_spec _ _ _ _).1], hsrt r' hr, by rw [hrow]⟩

theorem Routes.store_config : t.config = s.config := by
  rcases store_cases h.wf hk hip hb ht with ⟨_, rfl⟩ | ⟨_, _, rfl⟩ | ⟨vs₀, is₀, ns₀, _, _, _, rfl⟩
  · rfl
  · rfl
  · exact (removeAll_spec _ _ _ _).1

theorem Routes.store_srt (nh : Str × Str) (hm : nh ∈ t.srt (routeKey vrf p)) : up nh = true := by
  have hsub : nh ∈ s.srt (routeKey vrf p) := by
    rcases store_cases h.wf hk hip hb ht with ⟨_, rfl⟩ | ⟨_, _, rfl⟩ | ⟨vs₀, is₀, ns₀, _, _, _, rfl⟩
    · exact hm
    · exact hm
    · exact (((removeAll_spec _ _ _ s).2.1 _ nh).mp hm).1
  have huse := h.srt _ nh hsub
  exact (((h.routes _ (h.keys _ huse.2.1).1).srt_iff huse.2.1 nh).mp hsub).2

include hok in
theorem Routes.store_session (nh : Str × Str) (hm : nh ∈ vs.zip ns) : isUp (t.bfd (bfdKey nh.1 nh.2)) = up nh := by
  have hcol : ':' ∉ nh.1 := hok.2.1 nh.1 (List.of_mem_zip hm).1
  have hup := hok.2.2.2.1 nh hm
  rcases store_cases h.wf hk hip hb ht with ⟨hc, rfl⟩ | ⟨_, hc, rfl⟩ | ⟨vs₀, is₀, ns₀, hc, hl₀, _, rfl⟩
  · grind [bfdTrue_nil]
  · grind [setStaticRouteIntoApplDb]
  · have hold : ∀ t ∈ zip3 vs₀ is₀ ns₀, ':' ∉ t.1 := by
      intro t ht
      have hp : (t.1, t.2.2) ∈ vs₀.zip ns₀ := (mem_zip3 hl₀.len₁ hl₀.len₂).mpr ⟨t.2.1, ht⟩
      rw [← hl₀.pairs_eq] at hp
      exact (h.keys _ hc).2 _ hp
    grind [Sonic.StaticBfd.Listed.entries_eq, removeAll_session, isUp]

include hok in
theorem Routes.store_row :
    DistOk (newRow s key vrf p data).1 (t.routeAppl (applKey (routeKey vrf p))) ∧
      (¬ Held (newRow s key vrf p data).1 → (∀ nh ∈ vs.zip ns, up nh = false) →
        t.routeAppl (applKey (routeKey vrf p)) = none) := by
  have hkey := hok.keyOk hk
  unfold DistOk
  rw [newRow_distance, newRow_held]
  rcases store_cases h.wf hk hip hb ht with ⟨hc, rfl⟩ | ⟨hne, hc, rfl⟩ | ⟨vs₀, is₀, ns₀, hc, hl₀, _, rfl⟩
  · have hrow := (h.routes _ hkey).row_of_off (by rw [hc]; exact bfdTrue_nil)
    simp_all
  · have hrow := (h.routes _ hkey).row_of_off hc
    refine ⟨fun w hw hd => ?_, fun hh => (hh ⟨hne, hc, hb⟩).elim⟩
    rw [applKey_routeKey (splitKey_parts hk).1 (splitKey_parts hk).2] at hw hrow
    simp only [setStaticRouteIntoApplDb, Function.update_self, hrow, Option.getD_none, Option.some.injEq] at hw
    grind [Dict.get?_merge, lowerNexthop]
  · rw [(removeAll_frame _ _ _ s).1]
    have hedit := hok.2.2.2.2 hc
    refine ⟨fun w hw => (hedit w hw).2, fun _ hdown => ?_⟩
    cases hw : s.routeAppl (applKey (routeKey vrf p)) with
    | none => rfl
    | some w =>
      obtain ⟨nh, hm, hup⟩ := (hedit w hw).1 <;> simp_all

end

theorem Routes.storeRoute (h : Routes up s) {lists}
    (hk : staticRouteSplitKey key = some (vrf, p)) (hip : (checkIp p).isSome)
    (hl : newLists s key vrf p data = some lists) (hb : newBfd data = true)
    (hok : StoreOk up s vrf (routeKey vrf p) data lists)
    (hs : storeRoute (toggled s key vrf p data).1 vrf (routeKey vrf p) (s.config (routeKey vrf p))
      (newRow s key vrf p data).1 lists = some s') : Routes up s' := by
  have hx := h.toXInv.storeRoute hk hip hl hok.1 hb hs
  obtain ⟨vs, is, ns⟩ := lists
  have hnew := newRow_listed hl fun v hv => (hok.1.1 v hv).1
  have hrow : bfdTrue (newRow s key vrf p data).1 = true := (newRow_bfdTrue s key vrf p data).trans hb
  simp only [StaticBfd.storeRoute, Option.bind_eq_some_iff] at hs
  obtain ⟨t, ht, hs⟩ := hs
  obtain ⟨a₁, a₂, a₃, _⟩ := addAll_spec (routeKey vrf p) (zip3 vs is ns)
    (t.setConfig (routeKey vrf p) (newRow s key vrf p data).1)
  have hup := fun k => addAll_isUp (routeKey vrf p) k (zip3 vs is ns)
    (t.setConfig (routeKey vrf p) (newRow s key vrf p data).1)
  generalize (zip3 vs is ns).foldl (addNexthop (routeKey vrf p))
    (t.setConfig (routeKey vrf p) (newRow s key vrf p data).1) = u at a₁ a₂ a₃ hup hs
  have hself : u.config (routeKey vrf p) = (newRow s key vrf p data).1 := by rw [a₁]; simp [St.setConfig]
  have hother : ∀ r', r' ≠ routeKey vrf p → u.config r' = s.config r' := fun r' hr => by
    rw [a₁, ← h.store_config hk hip hb ht]; simp [St.setConfig, Function.update_of_ne hr]
  obtain ⟨hdist, habsent⟩ := h.store_row hk hip hb hok ht
  have hfresh : Fresh up u (routeKey vrf p) vs is ns := by
    refine ⟨?_, ?_, fun nh hm => ?_, fun nh hm => ?_, ?_, ?_⟩
    · grind
    · grind
    · rw [a₂] at hm
      exact ⟨(h.toXInv.store_ready hk hip hb hnew.len₁ hnew.len₂ ht).srt_self nh hm,
        h.store_srt hk hip hb ht nh hm⟩
    · rw [hup]; exact h.store_session hk hip hb hok ht nh hm
    · rw [hself, a₃]; exact hdist
    · rw [hself, a₃]; exact habsent
  refine ⟨hx, fun r' => ?_, fun r' hk' => ?_⟩
  · obtain ⟨hb', hp'⟩ := refresh_pairs hs r'
    unfold KeysOk
    rw [hb', hp']
    by_cases hr : r' = routeKey vrf p
    · rw [hr, hself, hnew.pairs_eq]
      exact fun _ => ⟨hok.keyOk hk, fun nh hm => hok.2.1 nh.1 (List.of_mem_zip hm).1⟩
    · rw [hother r' hr]; exact h.keys r'
  · by_cases hr : r' = routeKey vrf p
    · subst hr
      exact hfresh.refresh (by rw [hself]; exact fun _ => ⟨vs, is, ns, hnew, hok.1⟩) hs
    · have ha : applKey r' ≠ applKey (routeKey vrf p) := fun ha => hr (applKey_inj hk' (hok.keyOk hk) ha)
      have hview := h.store_view hk hip hb ht hr ha
      have hadd : SameView s u r' := ⟨hother r' hr, by rw [a₂]; exact hview.srt, by rw [a₃]; exact hview.row⟩
      exact (h.routes r' hk').congr (hadd.trans (refresh_view hs hr ha))

end Sonic.StaticBfd
