import Sonic.StaticBfdSteps

/-! # The nexthop table mirrors the stored routes

`LOCAL_NEXTHOP_TABLE` is the inverse of the nexthop lists in `LOCAL_CONFIG_TABLE`: a route is in the
entry of a nexthop exactly when its stored configuration has bfd on and lists the nexthop, and a
reachable nexthop of a route is one of these. Every handler keeps this, except a SET that turns bfd
off and is then skipped, and lists whose members do not survive being stored as one text. -/

namespace Sonic.StaticBfd
open List

open Str

variable {s s' t : St} {r key : Str} {data : Row}

/-! ## The cross reference -/

/-- Route `r` is stored with bfd on and lists the nexthop. -/
def Uses (s : St) (r : Str) (nh : Str × Str) : Prop :=
  s.config r ≠ [] ∧ bfdTrue (s.config r) = true ∧ nh ∈ pairs (s.config r)

structure CrossRef (s : St) : Prop where
  nexthop : ∀ r v ip, r ∈ s.nexthop (nhKey v ip) ↔ Uses s r (v, ip)
  srt : ∀ r nh, nh ∈ s.srt r → Uses s r nh

def Wf (d : Row) : Prop := bfdTrue d = true → ∃ vs is ns, Listed d vs is ns ∧ ListsOk (vs, is, ns)

structure XInv (s : St) : Prop extends CrossRef s where
  wf : ∀ r, Wf (s.config r)

theorem nhKey_inj {v ip v' ip' : Str} (hv : '|' ∉ v) (hip : '|' ∉ ip) (h : nhKey v' ip' = nhKey v ip) :
    v' = v ∧ ip' = ip := by
  unfold nhKey at h
  have hc := congrArg (List.count '|') h
  simp only [count_append, count_cons_self, count_eq_zero_of_not_mem hv,
    count_eq_zero_of_not_mem hip] at hc
  grind [count_eq_zero, append_sep_inj]

theorem uses_of_setConfig_ne {r' : Str} (h : r' ≠ r) (d : Row) (nh : Str × Str) :
    Uses (s.setConfig r d) r' nh ↔ Uses s r' nh := by simp_all [Uses, St.setConfig]

theorem uses_of_setConfig_self (s : St) (r : Str) (d : Row) (nh : Str × Str) :
    Uses (s.setConfig r d) r nh ↔ d ≠ [] ∧ bfdTrue d = true ∧ nh ∈ pairs d := by
  unfold Uses St.setConfig
  simp

theorem bfdTrue_hold0 (d : Row) : bfdTrue (hold0 d) = bfdTrue d := bfdTrue_set_ne d (by decide) _

theorem pairs_hold0 (d : Row) : pairs (hold0 d) = pairs d := pairs_set_ne d (by decide) (by decide) _

theorem Listed.hold0 {d : Row} {vs is ns : List Str} (h : Listed d vs is ns) : Listed (hold0 d) vs is ns := by
  refine ⟨?_, ?_, ?_, h.len₁, h.len₂⟩ <;> unfold StaticBfd.hold0 <;> rw [field_set_ne d (by decide)]
  · exact h.vrfs
  · exact h.intfs
  · exact h.nexthops

theorem wf_set_hold {d : Row} (h : Wf d) : Wf (hold0 d) := by
  intro hb
  rw [bfdTrue_hold0] at hb
  obtain ⟨vs, is, ns, hl, hok⟩ := h hb
  exact ⟨vs, is, ns, hl.hold0, hok⟩

structure Ready (s : St) (r : Str) (ps : List (Str × Str)) : Prop where
  nexthop_ne : ∀ r' ≠ r, ∀ v ip, r' ∈ s.nexthop (nhKey v ip) ↔ Uses s r' (v, ip)
  nexthop_self : ∀ v ip, r ∈ s.nexthop (nhKey v ip) → (v, ip) ∈ ps
  srt_ne : ∀ r' ≠ r, ∀ nh ∈ s.srt r', Uses s r' nh
  srt_self : ∀ nh ∈ s.srt r, nh ∈ ps
  wf_ne : ∀ r' ≠ r, Wf (s.config r')

theorem XInv.ready (h : XInv s) (hb : bfdTrue (s.config r) = false) : Ready s r [] where
  nexthop_ne r' _ v ip := h.nexthop r' v ip
  nexthop_self v ip hr := by
    have := ((h.nexthop r v ip).mp hr).2.1
    simp_all
  srt_ne r' _ nh hn := h.srt r' nh hn
  srt_self nh hn := by
    have := (h.srt r nh hn).2.1
    simp_all
  wf_ne r' _ := h.wf r'

theorem Ready.mono (h : Ready s r []) (ps : List (Str × Str)) : Ready s r ps :=
  ⟨h.nexthop_ne, fun v ip hm => (not_mem_nil (h.nexthop_self v ip hm)).elim, h.srt_ne,
    fun nh hm => (not_mem_nil (h.srt_self nh hm)).elim, h.wf_ne⟩

theorem Ready.of_sameRoutes {ps : List (Str × Str)} (h : Ready s r ps) (he : SameRoutes s t) :
    Ready t r ps := by
  have hu : ∀ r' nh, Uses t r' nh ↔ Uses s r' nh := fun r' nh => by unfold Uses; rw [he.config]
  exact ⟨fun r' hr v ip => by rw [he.nexthop, hu]; exact h.nexthop_ne r' hr v ip,
    fun v ip hr => h.nexthop_self v ip (by rwa [he.nexthop] at hr),
    fun r' hr nh hn => by grind [h.srt_ne, he.srt],
    fun nh hn => h.srt_self nh (by rwa [he.srt] at hn),
    fun r' hr => by rw [he.config]; exact h.wf_ne r' hr⟩

theorem Ready.setConfig_off (h : Ready s r []) {d : Row} (hb : bfdTrue d = false) :
    XInv (s.setConfig r d) := by
  have hself : ∀ nh, ¬ Uses (s.setConfig r d) r nh := by grind [uses_of_setConfig_self]
  refine ⟨⟨fun r' v ip => ?_, fun r' nh hn => ?_⟩, fun r' => ?_⟩
  · by_cases hr : r' = r
    · subst hr
      exact ⟨fun hm => (not_mem_nil (h.nexthop_self v ip hm)).elim, fun hu => (hself _ hu).elim⟩
    · rw [uses_of_setConfig_ne hr]; exact h.nexthop_ne r' hr v ip
  · by_cases hr : r' = r
    · subst hr; exact (not_mem_nil (h.srt_self nh hn)).elim
    · rw [uses_of_setConfig_ne hr]; exact h.srt_ne r' hr nh hn
  · by_cases hr : r' = r
    · subst hr
      intro hb'
      simp [St.setConfig, hb] at hb'
    · simp_all [St.setConfig, h.wf_ne]

theorem Ready.store {vs is ns : List Str} (h : Ready s r (vs.zip ns)) {d : Row}
    (hl : Listed d vs is ns) (hok : ListsOk (vs, is, ns)) (hb : bfdTrue d = true) :
    XInv ((zip3 vs is ns).foldl (addNexthop r) (s.setConfig r d)) := by
  obtain ⟨a₁, a₂, _, a₄⟩ := addAll_spec r (zip3 vs is ns) (s.setConfig r d)
  generalize (zip3 vs is ns).foldl (addNexthop r) (s.setConfig r d) = t at *
  have hu : ∀ r' nh, Uses t r' nh ↔ Uses (s.setConfig r d) r' nh := fun r' nh => by unfold Uses; rw [a₁]
  have hself : ∀ nh, Uses t r nh ↔ nh ∈ vs.zip ns := fun nh => by
    rw [hu, uses_of_setConfig_self, hl.pairs_eq]
    exact ⟨fun e => e.2.2, fun e => ⟨ne_nil_of_bfdTrue hb, hb, e⟩⟩
  refine ⟨⟨fun r' v ip => ?_, fun r' nh hn => ?_⟩, fun r' => ?_⟩
  · rw [a₄]
    by_cases hr : r' = r
    · subst hr
      rw [hself]
      constructor
      · rintro (hm | ⟨_, ⟨v', i, ip'⟩, hm, hk⟩)
        · exact h.nexthop_self v ip hm
        · have hmem : (v', ip') ∈ vs.zip ns := (mem_zip3 hl.len₁ hl.len₂).mpr ⟨i, hm⟩
          obtain ⟨hv, hip⟩ := of_mem_zip hmem
          obtain ⟨rfl, rfl⟩ := nhKey_inj (hok.1 v' hv).2 (hok.2 ip' hip) hk
          exact hmem
      · grind [mem_zip3, hl.len₁, hl.len₂]
    · rw [hu, uses_of_setConfig_ne hr]
      simp only [hr, false_and, or_false]
      exact h.nexthop_ne r' hr v ip
  · rw [a₂] at hn
    by_cases hr : r' = r
    · subst hr; rw [hself]; exact h.srt_self nh hn
    · rw [hu, uses_of_setConfig_ne hr]; exact h.srt_ne r' hr nh hn
  · rw [a₁]
    by_cases hr : r' = r
    · subst hr
      simp only [St.setConfig, Function.update_self]
      exact fun _ => ⟨vs, is, ns, hl, hok⟩
    · simp only [St.setConfig, Function.update_of_ne hr]; exact h.wf_ne r' hr

def dropRoute (s : St) (r : Str) : St :=
  delStaticRouteFromApplDb ((pairs (s.config r)).foldl (dropNexthop r) s) (applKey r)

def detach (s : St) (r : Str) : St := (if bfdTrue (s.config r) then dropRoute s r else s).setSrt r []

theorem delHandler_eq {vrf p : Str} (hk : staticRouteSplitKey key = some (vrf, p))
    (hip : (checkIp p).isSome) (hne : s.config (routeKey vrf p) ≠ []) (hw : Wf (s.config (routeKey vrf p)))
    (redisDel : Bool) : staticRouteDelHandler s key redisDel =
      if redisDel then (detach s (routeKey vrf p)).setConfig (routeKey vrf p) [] else detach s (routeKey vrf p) := by
  have hip' : (checkIp p).isNone = false := by grind [checkIp]
  unfold staticRouteDelHandler detach dropRoute dropNexthops
  rw [hk]
  simp only [hip', Bool.false_eq_true, ite_false, if_neg hne]
  cases hb : bfdTrue (s.config (routeKey vrf p)) with
  | false => simp
  | true =>
    obtain ⟨vs, is, ns, hl, _⟩ := hw hb
    grind [hl.len₁, hl.len₂, hl.vrfs, hl.nexthops, Listed.pairs_eq]

theorem delHandler_cases (s : St) (hw : ∀ r, Wf (s.config r)) (key : Str) (redisDel : Bool) :
    staticRouteDelHandler s key redisDel = s ∨
      ∃ vrf p, staticRouteSplitKey key = some (vrf, p) ∧ s.config (routeKey vrf p) ≠ [] ∧
        staticRouteDelHandler s key redisDel =
          if redisDel then (detach s (routeKey vrf p)).setConfig (routeKey vrf p) []
          else detach s (routeKey vrf p) := by
  cases hk : staticRouteSplitKey key with
  | none => left; unfold staticRouteDelHandler; rw [hk]
  | some q =>
    obtain ⟨vrf, p⟩ := q
    by_cases hip : (checkIp p).isSome
    · by_cases hne : s.config (routeKey vrf p) = []
      · left
        grind [staticRouteDelHandler]
      · exact Or.inr ⟨vrf, p, rfl, hne, delHandler_eq hk hip hne (hw _) redisDel⟩
    · grind [staticRouteDelHandler, Option.not_isSome_iff_eq_none]

theorem dropRoute_config (s : St) (r : Str) : (dropRoute s r).config = s.config :=
  (dropAll_spec r (pairs (s.config r)) s).1

theorem detach_config (s : St) (r : Str) : (detach s r).config = s.config := by
  unfold detach
  split
  · exact dropRoute_config s r
  · rfl

theorem XInv.detach (h : XInv s) (r : Str) : Ready (detach s r) r [] := by
  have hu : ∀ r' nh, Uses (StaticBfd.detach s r) r' nh ↔ Uses s r' nh := fun r' nh => by
    unfold Uses; rw [detach_config]
  have hsrt : ∀ r', r' ≠ r → (StaticBfd.detach s r).srt r' = s.srt r' := by
    intro r' hr
    unfold StaticBfd.detach St.setSrt dropRoute
    simp only [Function.update_of_ne hr]
    split
    · exact congrFun (dropAll_spec r (pairs (s.config r)) s).2.1 r'
    · rfl
  have hnh : ∀ r' v ip, r' ∈ (StaticBfd.detach s r).nexthop (nhKey v ip) ↔
      r' ≠ r ∧ r' ∈ s.nexthop (nhKey v ip) := by
    intro r' v ip
    have hmem : r' ∈ (StaticBfd.detach s r).nexthop (nhKey v ip) ↔
        r' ∈ (if bfdTrue (s.config r) then dropRoute s r else s).nexthop (nhKey v ip) := Iff.rfl
    rw [hmem]
    by_cases hr : r' = r
    · subst hr
      refine ⟨fun hm => ?_, fun hm => (hm.1 rfl).elim⟩
      split at hm
      · obtain ⟨h₁, h₂⟩ := ((dropAll_spec r' (pairs (s.config r')) s).2.2 (nhKey v ip) r').mp hm
        exact (h₂ ⟨rfl, _, ((h.nexthop r' v ip).mp h₁).2.2, rfl⟩).elim
      · rename_i hb
        exact (hb ((h.nexthop r' v ip).mp hm).2.1).elim
    · simp only [ne_eq, hr, not_false_eq_true, true_and]
      split
      · exact ((dropAll_spec r (pairs (s.config r)) s).2.2 (nhKey v ip) r').trans (by simp [hr])
      · exact Iff.rfl
  refine ⟨fun r' hr v ip => ?_, fun v ip hm => ?_, fun r' hr nh hn => ?_, fun nh hn => ?_, fun r' _ => ?_⟩
  · rw [hnh, hu]; simp only [ne_eq, hr, not_false_eq_true, true_and]; exact h.nexthop r' v ip
  · simp_all
  · rw [hsrt r' hr] at hn; rw [hu]; exact h.srt r' nh hn
  · simp [StaticBfd.detach, St.setSrt] at hn
  · rw [detach_config]; exact h.wf r'

theorem XInv.del (h : XInv s) (key : Str) : XInv (staticRouteDelHandler s key true) := by
  rcases delHandler_cases s h.wf key true with e | ⟨vrf, p, _, _, e⟩
  · rw [e]; exact h
  · rw [e]; exact (h.detach (routeKey vrf p)).setConfig_off bfdTrue_nil

/-! ## Setting a route -/

theorem toggled_cases (hw : ∀ r, Wf (s.config r)) {vrf p : Str} (data : Row)
    (hk : staticRouteSplitKey key = some (vrf, p)) (hip : (checkIp p).isSome) :
    (bfdTrue (s.config (routeKey vrf p)) = true ∧ newBfd data = false ∧
      (toggled s key vrf p data).1 = detach (delStaticRouteFromApplDb s (vrf ++ ':' :: p)) (routeKey vrf p)) ∨
    (bfdTrue (s.config (routeKey vrf p)) = false ∧ newBfd data = true ∧ s.config (routeKey vrf p) ≠ [] ∧
      (toggled s key vrf p data).1 = setStaticRouteIntoApplDb s (vrf ++ ':' :: p)
        (((lowerNexthop data).set "bfd" "false").set "expiry" "false")) ∨
    ((s.config (routeKey vrf p) = [] ∨ bfdTrue (s.config (routeKey vrf p)) = newBfd data) ∧
      (toggled s key vrf p data).1 = s) := by
  unfold toggled toggleBfd newBfd
  simp only
  split_ifs with h₁ h₂ h₃
  · simp_all
  · refine Or.inl ⟨h₂.1, by simpa using h₂.2, ?_⟩
    unfold handleBfdChange
    rw [hk]
    exact (delHandler_eq (s := delStaticRouteFromApplDb s (vrf ++ ':' :: p)) hk hip h₁ (hw _) false).trans rfl
  · grind [handleBfdChange]
  · refine Or.inr (Or.inr ⟨Or.inr ?_, rfl⟩)
    grind

theorem XInv.of_sameRoutes (h : XInv s) (he : SameRoutes s t) : XInv t := by
  have hu : ∀ r' nh, Uses t r' nh ↔ Uses s r' nh := fun r' nh => by unfold Uses; rw [he.config]
  exact ⟨⟨fun r v ip => by rw [he.nexthop, hu]; exact h.nexthop r v ip,
    fun r nh hn => by rw [hu]; exact h.srt r nh (by rwa [he.srt] at hn)⟩,
    fun r => by rw [he.config]; exact h.wf r⟩

theorem XInv.removeAll (h : XInv s) {vs is ns : List Str} (hl : Listed (s.config r) vs is ns)
    {vs' is' ns' : List Str} (h₁ : is'.length = ns'.length) (h₂ : is'.length = vs'.length) :
    Ready ((zip3 vs is ns).foldl (removeDeleted r (zip3 vs' is' ns')) s) r (vs'.zip ns') := by
  obtain ⟨a₁, a₂, a₃⟩ := removeAll_spec r (zip3 vs' is' ns') (zip3 vs is ns) s
  generalize (zip3 vs is ns).foldl (removeDeleted r (zip3 vs' is' ns')) s = t at *
  have hu : ∀ r' nh, Uses t r' nh ↔ Uses s r' nh := fun r' nh => by unfold Uses; rw [a₁]
  -- a nexthop of the old lists that is not dropped is one of the new lists
  have hkeep : ∀ v ip, Uses s r (v, ip) →
      (∀ tr ∈ zip3 vs is ns, tr ∉ zip3 vs' is' ns' → ¬ (v = tr.1 ∧ ip = tr.2.2)) → (v, ip) ∈ vs'.zip ns' := by
    intro v ip hus hno
    have hold := hus.2.2
    rw [hl.pairs_eq] at hold
    grind [mem_zip3, hl.len₁, hl.len₂]
  refine ⟨fun r' hr v ip => ?_, fun v ip hm => ?_, fun r' hr nh hn => ?_, fun nh hn => ?_, fun r' _ => ?_⟩
  · rw [a₃, hu]; simp only [hr, false_and, not_false_eq_true, and_true]; exact h.nexthop r' v ip
  · obtain ⟨hm, hno⟩ := (a₃ _ _).mp hm
    refine hkeep v ip ((h.nexthop r v ip).mp hm) fun tr ht hnew e => hno ⟨rfl, tr, ht, hnew, ?_⟩
    rw [e.1, e.2]
  · rw [hu]; exact h.srt r' nh ((a₂ _ _).mp hn).1
  · obtain ⟨hm, hno⟩ := (a₂ _ _).mp hn
    refine hkeep nh.1 nh.2 (h.srt r nh hm) fun tr ht hnew e => hno ⟨rfl, tr, ht, hnew, ?_⟩
    rw [← e.1, ← e.2]
  · rw [a₁]; exact h.wf r'

theorem existingNexthops_eq {vrf : Str} {cur : Row} {vs is ns : List Str} (hl : Listed cur vs is ns)
    (nhList : List Str) : existingNexthops vrf cur nhList = some (zip3 vs is ns) := by
  unfold existingNexthops
  rw [hl.vrfs, hl.intfs, hl.nexthops]; rfl

theorem XInv.publish (h : XInv s) (r : Str) (cfg : Row) : XInv (publish s r cfg) := by
  refine XInv.of_sameRoutes ?_ (sameRoutes_setAppl _ _ _)
  have hu : ∀ r' nh, Uses s r' nh → Uses (s.setConfig r (hold0 (s.config r))) r' nh := by
    intro r' nh hus
    by_cases hr : r' = r
    · subst hr
      rw [uses_of_setConfig_self, bfdTrue_hold0, pairs_hold0]
      exact ⟨Dict.set_ne_nil _ _ _, hus.2.1, hus.2.2⟩
    · rw [uses_of_setConfig_ne hr]; exact hus
  have hu' : ∀ r' nh, Uses (s.setConfig r (hold0 (s.config r))) r' nh → Uses s r' nh := by
    intro r' nh hus
    by_cases hr : r' = r
    · subst hr
      rw [uses_of_setConfig_self, bfdTrue_hold0, pairs_hold0] at hus
      exact ⟨ne_nil_of_bfdTrue hus.2.1, hus.2.1, hus.2.2⟩
    · rwa [uses_of_setConfig_ne hr] at hus
  refine ⟨⟨fun r' v ip => ?_, fun r' nh hn => hu r' nh (h.srt r' nh hn)⟩, fun r' => ?_⟩
  · exact (h.nexthop r' v ip).trans ⟨hu r' _, hu' r' _⟩
  · by_cases hr : r' = r <;> simp_all [St.setConfig, wf_set_hold, h.wf]

theorem XInv.addSrt (h : XInv s) (hc : t.config = s.config) (hn : t.nexthop = s.nexthop)
    (hs : ∀ r nh, nh ∈ t.srt r → nh ∈ s.srt r ∨ Uses s r nh) : XInv t := by
  have hu : ∀ r' nh, Uses t r' nh ↔ Uses s r' nh := fun r' nh => by unfold Uses; rw [hc]
  refine ⟨⟨fun r v ip => by rw [hn, hu]; exact h.nexthop r v ip, fun r nh hm => ?_⟩,
    fun r => by rw [hc]; exact h.wf r⟩
  rw [hu]
  exact (hs r nh hm).elim (h.srt r nh) id

theorem XInv.refresh (h : XInv s) (hb : bfdTrue (s.config r) = true)
    (hr : refreshActiveNh s r = some s') : XInv s' := by
  rcases refresh_cases hr with ⟨_, rfl⟩ | ⟨_, cfg, _, rfl⟩
  · exact h
  · refine XInv.publish (h.addSrt ?_ ?_ ?_) r cfg
    · rw [reach_eq]
    · rw [reach_eq]
    · intro r' nh hm
      rcases (mem_reach r _ s r' nh).mp hm with hm | ⟨rfl, hm⟩
      · exact Or.inl hm
      · exact Or.inr ⟨ne_nil_of_bfdTrue hb, hb, (List.mem_filter.mp hm).1⟩

theorem store_cases (hw : ∀ r, Wf (s.config r)) {vrf p : Str}
    (hk : staticRouteSplitKey key = some (vrf, p)) (hip : (checkIp p).isSome) (hb : newBfd data = true)
    {new : List (Str × Str × Str)} {nhList : List Str}
    (ht : removeDeletedNexthops (toggled s key vrf p data).1 vrf (routeKey vrf p) (s.config (routeKey vrf p)) new
      nhList = some t) :
    (s.config (routeKey vrf p) = [] ∧ t = s) ∨
    (s.config (routeKey vrf p) ≠ [] ∧ bfdTrue (s.config (routeKey vrf p)) = false ∧
      t = setStaticRouteIntoApplDb s (vrf ++ ':' :: p) (((lowerNexthop data).set "bfd" "false").set "expiry" "false")) ∨
    (∃ vs is ns, bfdTrue (s.config (routeKey vrf p)) = true ∧ Listed (s.config (routeKey vrf p)) vs is ns ∧
      ListsOk (vs, is, ns) ∧ t = (zip3 vs is ns).foldl (removeDeleted (routeKey vrf p) new) s) := by
  unfold removeDeletedNexthops at ht
  rcases toggled_cases hw data hk hip with ⟨_, hf, _⟩ | ⟨hc, _, hne, htog⟩ | ⟨hc, htog⟩
  · simp_all
  · grind
  · rw [htog] at ht
    rcases hc with hc | hc
    · grind
    · have hcur := hc.trans hb
      obtain ⟨vs, is, ns, hl, hok⟩ := hw _ hcur
      rw [if_pos ⟨ne_nil_of_bfdTrue hcur, hcur⟩, existingNexthops_eq hl] at ht
      grind

theorem XInv.store_ready (h : XInv s) {vrf p : Str}
    (hk : staticRouteSplitKey key = some (vrf, p)) (hip : (checkIp p).isSome) (hb : newBfd data = true)
    {vs is ns nhList : List Str} (h₁ : is.length = ns.length) (h₂ : is.length = vs.length)
    (ht : removeDeletedNexthops (toggled s key vrf p data).1 vrf (routeKey vrf p) (s.config (routeKey vrf p))
      (zip3 vs is ns) nhList = some t) : Ready t (routeKey vrf p) (vs.zip ns) := by
  rcases store_cases h.wf hk hip hb ht with ⟨hc, rfl⟩ | ⟨_, hc, rfl⟩ | ⟨vs₀, is₀, ns₀, _, hl₀, _, rfl⟩
  · exact (h.ready (by rw [hc]; exact bfdTrue_nil)).mono _
  · exact ((h.ready hc).of_sameRoutes (sameRoutes_setAppl s _ _)).mono _
  · exact h.removeAll hl₀ h₁ h₂

theorem XInv.storeRoute (h : XInv s) {vrf p : Str} {lists}
    (hk : staticRouteSplitKey key = some (vrf, p)) (hip : (checkIp p).isSome)
    (hl : newLists s key vrf p data = some lists) (hok : ListsOk lists) (hb : newBfd data = true)
    (hs : storeRoute (toggled s key vrf p data).1 vrf (routeKey vrf p) (s.config (routeKey vrf p))
      (newRow s key vrf p data).1 lists = some s') : XInv s' := by
  obtain ⟨vs, is, ns⟩ := lists
  have hnew := newRow_listed hl fun v hv => (hok.1 v hv).1
  have hrow : bfdTrue (newRow s key vrf p data).1 = true := (newRow_bfdTrue s key vrf p data).trans hb
  simp only [StaticBfd.storeRoute, Option.bind_eq_some_iff] at hs
  obtain ⟨t, ht, hs⟩ := hs
  refine ((h.store_ready hk hip hb hnew.len₁ hnew.len₂ ht).store hnew hok hrow).refresh ?_ hs
  simp_all [addAll_spec, St.setConfig]

/-- A SET that turns bfd off is not skipped by the list checks, and the lists
of one that is stored with bfd on survive the table keys and the stored text. -/
def xrefOk (s : St) : Ev → Prop
  | .routeSet key data =>
    match staticRouteSplitKey key with
    | none => True
    | some (vrf, p) =>
      data ≠ [] → (checkIp p).isSome = true →
        match newLists s key vrf p data with
        | none => ¬ (bfdTrue (s.config (routeKey vrf p)) = true ∧ newBfd data = false)
        | some lists => newBfd data = true → ListsOk lists
  | _ => True

instance (s : St) : ∀ e, Decidable (xrefOk s e)
  | .routeSet key data =>
    match h : staticRouteSplitKey key with
    | none => isTrue (by simp [xrefOk, h])
    | some (vrf, p) =>
      match hl : newLists s key vrf p data with
      | none => decidable_of_iff (data ≠ [] → (checkIp p).isSome = true →
          ¬ (bfdTrue (s.config (routeKey vrf p)) = true ∧ newBfd data = false)) (by simp [xrefOk, h, hl])
      | some lists => decidable_of_iff (data ≠ [] → (checkIp p).isSome = true → newBfd data = true → ListsOk lists)
          (by simp [xrefOk, h, hl])
  | .routeDel _ | .intfSet _ | .intfDel _ | .stateSet _ _ | .stateDel _ => isTrue trivial

theorem XInv.set (h : XInv s) (hok : xrefOk s (.routeSet key data))
    (hs : staticRouteSetHandler s key data = some s') : XInv s' := by
  have hs := setStep_of_handler hs
  cases hs with
  | skip => exact h
  | @reject vrf p hd hk hip hl =>
    simp only [xrefOk, hk, hl] at hok
    have hok := hok hd hip
    rcases toggled_cases h.wf data hk hip with ⟨hc, hf, _⟩ | ⟨_, _, _, htog⟩ | ⟨_, htog⟩
    · simp_all
    · rw [htog]; exact h.of_sameRoutes (sameRoutes_setAppl _ _ _)
    · simp_all
  | @plain vrf p lists hk hip hl hb =>
    have hready : Ready (toggled s key vrf p data).1 (routeKey vrf p) [] := by
      rcases toggled_cases h.wf data hk hip with ⟨_, _, htog⟩ | ⟨_, hf, _⟩ | ⟨hc, htog⟩
      · grind [of_sameRoutes, sameRoutes_delAppl, detach]
      · simp_all
      · rw [htog]
        refine h.ready ?_
        grind [bfdTrue_nil]
    exact hready.setConfig_off (bfdTrue_set_false _)
  | @store vrf p lists _ hd hk hip hl hb hs =>
    simp only [xrefOk, hk, hl] at hok
    have hok := hok hd hip
    exact h.storeRoute hk hip hl (hok hb) hb hs

theorem XInv.removeReachable {nh : Str × Str} (h : XInv s)
    (hr : removeReachable nh s r = some s') : XInv s' ∧ s'.nexthop = s.nexthop := by
  have hx : XInv (removeFromSrtTableEntry s r nh) :=
    h.addSrt rfl rfl fun r' nh' hm => Or.inl ((mem_removeFromSrt.mp hm).1)
  rcases removeReachable_cases hr with ⟨_, rfl⟩ | ⟨_, cfg, _, rfl⟩
  · exact ⟨hx.of_sameRoutes (sameRoutes_delAppl _ _), rfl⟩
  · exact ⟨hx.of_sameRoutes (sameRoutes_setAppl _ _ _), rfl⟩

theorem XInv.bfdDown {nh : Str × Str} (h : XInv s) (hr : bfdDown nh s r = some s') :
    XInv s' ∧ s'.nexthop = s.nexthop := by
  rcases bfdDown_cases hr with ⟨_, rfl⟩ | ⟨_, hr⟩ <;> grind [removeReachable]

theorem XInv.bfdUp {v ip : Str} (h : XInv s) (hm : r ∈ s.nexthop (nhKey v ip))
    (hr : bfdUp (v, ip) s r = some s') : XInv s' ∧ s'.nexthop = s.nexthop := by
  rcases bfdUp_cases hr with ⟨_, rfl⟩ | ⟨_, cfg, _, rfl⟩
  · exact ⟨h, rfl⟩
  · refine ⟨(h.addSrt (t := appendToSrtTableEntry s r (v, ip)) rfl rfl fun r' nh hn => ?_).publish r cfg, rfl⟩
    rcases mem_appendToSrt.mp hn with hn | ⟨rfl, rfl⟩
    · exact Or.inl hn
    · exact Or.inr ((h.nexthop r' v ip).mp hm)

theorem XInv.stateSet (h : XInv s)
    (hs : bfdStateSetHandler s key data = some s') : XInv s' := by
  obtain ⟨vrf, intf, peer, _, hc⟩ := stateSet_cases hs
  have hset : ∀ k d, XInv (s.setBfd k d) := fun k d => h.of_sameRoutes (sameRoutes_setBfd s k d)
  rcases hc with ⟨_, rfl⟩ | ⟨_, _, hf⟩ | ⟨_, _, hf⟩ | ⟨_, _, _, rfl⟩
  · exact h
  · refine (foldlM_inv (fun t => XInv t ∧ t.nexthop = s.nexthop) (fun t r u hm ht hu => ?_) ⟨hset _ _, rfl⟩ hf).1
    obtain ⟨hx, hn⟩ := ht.1.bfdUp (by simp_all) hu
    simp_all
  · exact foldlM_inv XInv (fun t r u _ ht hu => (ht.bfdDown hu).1) (hset _ _) hf
  · exact hset _ _

theorem XInv.stateDel (h : XInv s) (hs : bfdStateDelHandler s key = some s') : XInv s' := by
  unfold bfdStateDelHandler at hs
  cases hk : bfdStateSplitKey key with
  | none => simp_all
  | some q =>
    obtain ⟨vrf, intf, peer⟩ := q
    rw [hk] at hs
    exact foldlM_inv XInv (fun t r u _ ht hu => (ht.removeReachable hu).1) h hs

theorem XInv.init : XInv init :=
  ⟨⟨fun r v ip => ⟨fun h => (not_mem_nil h).elim, fun h => (h.1 rfl).elim⟩,
    fun r nh h => (not_mem_nil h).elim⟩, fun r hb => by cases hb⟩

theorem XInv.step {e : Ev} (h : XInv s) (hok : xrefOk s e) (hs : step s e = some s') : XInv s' := by
  cases e with
  | routeSet key data => exact h.set hok hs
  | routeDel key => cases hs; exact h.del key
  | intfSet key => cases hs; exact h.of_sameRoutes (sameRoutes_interfaceSet s key)
  | intfDel key => cases hs; exact h.of_sameRoutes (sameRoutes_interfaceDel s key)
  | stateSet key data => exact h.stateSet hs
  | stateDel key => exact h.stateDel hs

/-- **Cross reference.** In every run whose SETs meet `xrefOk`, the nexthop
table and the stored routes are inverse to each other. -/
theorem crossRef_of_run {es : List Ev} {s : St} (hok : Along StaticBfd.step xrefOk StaticBfd.init es)
    (hr : run StaticBfd.step StaticBfd.init es = some s) : CrossRef s :=
  (run_inv StaticBfd.step (fun _ _ _ => XInv.step) XInv.init hok hr).toCrossRef

theorem crossRef_two_routes : ∃ s, run StaticBfd.step StaticBfd.init
    [.intfSet "if1|10.0.0.1/24",
     .routeSet "2.2.2.0/24" [("bfd", "true"), ("nexthop", "10.0.0.2"), ("ifname", "if1")],
     .routeSet "red|3.3.3.0/24" [("bfd", "true"), ("nexthop", "10.0.0.2,10.0.0.3"), ("ifname", "if1,if1"),
       ("nexthop-vrf", "default, ")],
     .stateSet "default|default|10.0.0.2" [("state", "Up")],
     .routeSet "red|3.3.3.0/24" [("bfd", "true"), ("nexthop", "10.0.0.3"), ("ifname", "if1")],
     .routeSet "2.2.2.0/24" [("bfd", "false"), ("nexthop", "10.0.0.2"), ("ifname", "if1")]] = some s ∧
    CrossRef s :=
  ⟨_, (Option.some_get (by decide +kernel)).symm, crossRef_of_run (by decide +kernel) (Option.some_get _).symm⟩

theorem not_crossRef_off_without_ifname : ∃ s, run StaticBfd.step StaticBfd.init
    [.routeSet "2.2.2.0/24" [("bfd", "true"), ("nexthop", "10.0.0.2"), ("ifname", "if1")],
     .routeSet "2.2.2.0/24" [("bfd", "false"), ("nexthop", "10.0.0.2")]] = some s ∧ ¬ CrossRef s := by
  refine ⟨_, (Option.some_get (by decide +kernel)).symm, fun h => ?_⟩
  have hm := (h.nexthop "default|2.2.2.0/24" "default" "10.0.0.2").mpr (by unfold Uses; decide +kernel)
  revert hm
  decide +kernel

end Sonic.StaticBfd
