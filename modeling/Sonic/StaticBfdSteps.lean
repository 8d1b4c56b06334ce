import Sonic.StaticBfd

/-! # What the handlers of staticroutebfd can do

The fields of a stored row, the effect of each table operation, and one inversion lemma for each
handler that branches. -/

namespace Sonic.StaticBfd
open List

open Str

variable {s s' : St} {k r r' key : Str} {data : Row} {nh : Str × Str}

theorem field_set_ne (d : Row) {k' : Str} (h : k ≠ k') (v : Str) : field (d.set k v) k' = field d k' := by
  unfold field; grind

theorem bfdTrue_set_ne (d : Row) (h : k ≠ "bfd") (v : Str) : bfdTrue (d.set k v) = bfdTrue d := by
  grind [bfdTrue, bfdField]

theorem bfdTrue_nil : bfdTrue [] = false := by decide

theorem ne_nil_of_bfdTrue {d : Row} (h : bfdTrue d = true) : d ≠ [] := by
  rintro rfl; rw [bfdTrue_nil] at h; cases h

theorem bfdTrue_set_false (d : Row) : bfdTrue (d.set "bfd" "false") = false := by
  unfold bfdTrue bfdField; rw [Dict.get?_set_self]; decide

def pairs (d : Row) : List (Str × Str) :=
  match field d "nexthop-vrf", field d "nexthop" with
  | some vs, some ns => vs.zip ns
  | _, _ => []

theorem pairs_set_ne (d : Row) (h₁ : k ≠ "nexthop-vrf") (h₂ : k ≠ "nexthop") (v : Str) :
    pairs (d.set k v) = pairs d := by grind [pairs, field_set_ne]

/-- A member that a comma separated list gives back as it is. -/
def Member (v : Str) : Prop := v ≠ [] ∧ Stripped v ∧ ',' ∉ v

instance (v : Str) : Decidable (Member v) := inferInstanceAs (Decidable (_ ∧ _))

theorem join_cons_cons (a b : Str) (l : List Str) : join [','] (a :: b :: l) = a ++ ',' :: join [','] (b :: l) := by
  simp [join, List.intercalate]

theorem mem_join_head {c : Char} {a : Str} (h : c ∈ a) (l : List Str) : c ∈ join [','] (a :: l) := by
  cases l <;> simp_all [join]

theorem argList_join {l : List Str} (hn : l ≠ []) (hm : ∀ v ∈ l, Member v) : argList (join [','] l) = some l := by
  unfold argList
  have hstrip : strip (join [','] l) ≠ [] := by
    cases l with
    | nil => exact absurd rfl hn
    | cons a l =>
      obtain ⟨ha, hs, _⟩ := hm a (by simp)
      grind [strip_ne_nil, strip_eq_nil, mem_join_head]
  rw [if_neg hstrip, split_join (fun p hp => (hm p hp).2.2) hn]
  congr 1
  conv_rhs => rw [← List.map_id l]
  exact map_congr_left fun v hv => (hm v hv).2.1

theorem argList_ne_nil {v : Str} {l : List Str} (h : argList v = some l) : l ≠ [] := by
  unfold argList at h
  split at h
  · cases h
  · cases h; simp [split_ne_nil]

theorem field_ne_nil {d : Row} {l : List Str} (h : field d k = some l) : l ≠ [] := by
  unfold field at h
  cases hk : d.get? k <;> grind [argList_ne_nil]

/-! ## What the table operations change -/

@[simp] theorem mem_appendToNh {k' : Str} :
    r' ∈ (appendToNhTableEntry s k r).nexthop k' ↔ r' ∈ s.nexthop k' ∨ (k' = k ∧ r' = r) := by
  unfold appendToNhTableEntry St.setNexthop
  by_cases h : k' = k <;> simp_all [or_comm]

@[simp] theorem mem_removeFromNh {k' : Str} :
    r' ∈ (removeFromNhTableEntry s k r).nexthop k' ↔ r' ∈ s.nexthop k' ∧ ¬ (k' = k ∧ r' = r) := by
  unfold removeFromNhTableEntry St.setNexthop
  grind

@[simp] theorem mem_appendToSrt {nh' : Str × Str} :
    nh' ∈ (appendToSrtTableEntry s r nh).srt r' ↔ nh' ∈ s.srt r' ∨ (r' = r ∧ nh' = nh) := by
  unfold appendToSrtTableEntry St.setSrt
  by_cases h : r' = r <;> simp_all [or_comm]

@[simp] theorem mem_removeFromSrt {nh' : Str × Str} :
    nh' ∈ (removeFromSrtTableEntry s r nh).srt r' ↔ nh' ∈ s.srt r' ∧ ¬ (r' = r ∧ nh' = nh) := by
  unfold removeFromSrtTableEntry St.setSrt
  grind

structure SameRoutes (s t : St) : Prop where
  config : t.config = s.config
  nexthop : t.nexthop = s.nexthop
  srt : t.srt = s.srt

theorem SameRoutes.refl (s : St) : SameRoutes s s := ⟨rfl, rfl, rfl⟩

theorem SameRoutes.trans {t u : St} (h₁ : SameRoutes s t) (h₂ : SameRoutes t u) : SameRoutes s u :=
  ⟨h₂.config.trans h₁.config, h₂.nexthop.trans h₁.nexthop, h₂.srt.trans h₁.srt⟩

theorem sameRoutes_createBfdSession (s : St) (k a : Str) : SameRoutes s (createBfdSession s k a) := ⟨rfl, rfl, rfl⟩

theorem sameRoutes_delAppl (s : St) (k : Str) : SameRoutes s (delStaticRouteFromApplDb s k) := ⟨rfl, rfl, rfl⟩

theorem sameRoutes_setAppl (s : St) (k : Str) (d : Row) : SameRoutes s (setStaticRouteIntoApplDb s k d) :=
  ⟨rfl, rfl, rfl⟩

theorem sameRoutes_setBfd (s : St) (k : Str) (d : Row) : SameRoutes s (s.setBfd k d) := ⟨rfl, rfl, rfl⟩

theorem sameRoutes_updatePending (ifName : Str) : ∀ (l : List (Str × Str × Str × Str)) (acc : St × List Str),
    SameRoutes acc.1 (l.foldl (updatePendingEntry ifName) acc).1
  | [], acc => .refl _
  | e :: l, acc => by
    refine .trans ?_ (sameRoutes_updatePending ifName l (updatePendingEntry ifName acc e))
    unfold updatePendingEntry
    split
    split
    · split
      · exact .refl _
      · exact sameRoutes_createBfdSession _ _ _
    · exact .refl _

theorem sameRoutes_interfaceSet (s : St) (key : Str) : SameRoutes s (interfaceSetHandler s key) := by
  unfold interfaceSetHandler
  cases getIpFromKey key with
  | none => exact .refl _
  | some p =>
    obtain ⟨isIpv4, ifName, ip⟩ := p
    unfold updateBfdPending
    have h := sameRoutes_updatePending ifName s.pending
      ({ s with interface := Function.update s.interface ifName ((s.interface ifName).set isIpv4 ip) }, [])
    exact ⟨h.config, h.nexthop, h.srt⟩

theorem sameRoutes_interfaceDel (s : St) (key : Str) : SameRoutes s (interfaceDelHandler s key) := by
  unfold interfaceDelHandler
  cases getIpFromKey key with
  | none => exact .refl _
  | some p =>
    obtain ⟨isIpv4, ifName, ip⟩ := p
    simp only
    split
    · exact .refl _
    · exact ⟨rfl, rfl, rfl⟩

theorem dropNexthop_config (r : Str) (s : St) (nh : Str × Str) : (dropNexthop r s nh).config = s.config := by
  unfold dropNexthop; simp only; split <;> rfl

theorem dropNexthop_srt (r : Str) (s : St) (nh : Str × Str) : (dropNexthop r s nh).srt = s.srt := by
  unfold dropNexthop; simp only; split <;> rfl

theorem dropNexthop_nexthop (r : Str) (s : St) (nh : Str × Str) :
    (dropNexthop r s nh).nexthop = (removeFromNhTableEntry s (nhKey nh.1 nh.2) r).nexthop := by
  unfold dropNexthop; simp only; split <;> rfl

theorem dropAll_spec (r : Str) : ∀ (l : List (Str × Str)) (s : St),
    (l.foldl (dropNexthop r) s).config = s.config ∧ (l.foldl (dropNexthop r) s).srt = s.srt ∧
      ∀ k r', r' ∈ (l.foldl (dropNexthop r) s).nexthop k ↔
        r' ∈ s.nexthop k ∧ ¬ (r' = r ∧ ∃ nh ∈ l, k = nhKey nh.1 nh.2)
  | [], s => by simp
  | nh :: l, s => by
    obtain ⟨h₁, h₂, h₃⟩ := dropAll_spec r l (dropNexthop r s nh)
    refine ⟨h₁.trans (dropNexthop_config r s nh), h₂.trans (dropNexthop_srt r s nh), fun k r' => ?_⟩
    rw [foldl_cons, h₃, dropNexthop_nexthop, mem_removeFromNh]
    simp only [mem_cons, exists_eq_or_imp]
    grind

theorem removeDeleted_config (r : Str) (new : List (Str × Str × Str)) (s : St) (t : Str × Str × Str) :
    (removeDeleted r new s t).config = s.config := by
  unfold removeDeleted; split
  · rfl
  · rw [dropNexthop_config]; rfl

theorem removeAll_spec (r : Str) (new : List (Str × Str × Str)) : ∀ (old : List (Str × Str × Str)) (s : St),
    (old.foldl (removeDeleted r new) s).config = s.config ∧
      (∀ r' nh, nh ∈ (old.foldl (removeDeleted r new) s).srt r' ↔
        nh ∈ s.srt r' ∧ ¬ (r' = r ∧ ∃ t ∈ old, t ∉ new ∧ nh = (t.1, t.2.2))) ∧
      ∀ k r', r' ∈ (old.foldl (removeDeleted r new) s).nexthop k ↔
        r' ∈ s.nexthop k ∧ ¬ (r' = r ∧ ∃ t ∈ old, t ∉ new ∧ k = nhKey t.1 t.2.2)
  | [], s => by simp
  | t :: old, s => by
    obtain ⟨h₁, h₂, h₃⟩ := removeAll_spec r new old (removeDeleted r new s t)
    refine ⟨h₁.trans (removeDeleted_config r new s t), fun r' nh => ?_, fun k r' => ?_⟩
    · rw [foldl_cons, h₂]
      unfold removeDeleted
      by_cases ht : t ∈ new
      · simp [ht]
      · rw [if_neg ht, dropNexthop_srt, mem_removeFromSrt]
        simp only [mem_cons, exists_eq_or_imp, ht, not_false_eq_true, true_and]
        grind
    · rw [foldl_cons, h₃]
      unfold removeDeleted
      by_cases ht : t ∈ new
      · simp [ht]
      · rw [if_neg ht, dropNexthop_nexthop, mem_removeFromNh]
        simp only [mem_cons, exists_eq_or_imp, ht, not_false_eq_true, true_and]
        by_cases hr : r' = r <;> simp [hr, and_assoc, removeFromSrtTableEntry, St.setSrt]

theorem addNexthop_spec (r : Str) (s : St) (t : Str × Str × Str) :
    (addNexthop r s t).config = s.config ∧ (addNexthop r s t).srt = s.srt ∧
      (addNexthop r s t).routeAppl = s.routeAppl ∧
      ∀ k r', r' ∈ (addNexthop r s t).nexthop k ↔ r' ∈ s.nexthop k ∨ (k = nhKey t.1 t.2.2 ∧ r' = r) := by
  obtain ⟨v, i, ip⟩ := t
  unfold addNexthop
  simp only [mem_appendToNh]
  split_ifs <;> (try split) <;> exact ⟨rfl, rfl, rfl, fun _ _ => Iff.rfl⟩

theorem addAll_spec (r : Str) : ∀ (new : List (Str × Str × Str)) (s : St),
    (new.foldl (addNexthop r) s).config = s.config ∧ (new.foldl (addNexthop r) s).srt = s.srt ∧
      (new.foldl (addNexthop r) s).routeAppl = s.routeAppl ∧
      ∀ k r', r' ∈ (new.foldl (addNexthop r) s).nexthop k ↔
        r' ∈ s.nexthop k ∨ (r' = r ∧ ∃ t ∈ new, k = nhKey t.1 t.2.2)
  | [], s => by simp
  | t :: new, s => by
    obtain ⟨a₁, a₂, a₃, a₄⟩ := addNexthop_spec r s t
    obtain ⟨h₁, h₂, h₃, h₄⟩ := addAll_spec r new (addNexthop r s t)
    refine ⟨h₁.trans a₁, h₂.trans a₂, h₃.trans a₃, fun k r' => ?_⟩
    rw [foldl_cons, h₄, a₄]
    simp only [mem_cons, exists_eq_or_imp]
    grind

def upPairs (s : St) (r : Str) : List (Str × Str) :=
  (pairs (s.config r)).filter fun nh => isUp (s.bfd (bfdKey nh.1 nh.2))

def reach (s : St) (r : Str) (ups : List (Str × Str)) : St := ups.foldl (appendToSrtTableEntry · r) s

theorem mem_reach (r : Str) : ∀ (ups : List (Str × Str)) (s : St) (r' : Str) (nh : Str × Str),
    nh ∈ (reach s r ups).srt r' ↔ nh ∈ s.srt r' ∨ (r' = r ∧ nh ∈ ups)
  | [], s, r', nh => by simp [reach]
  | u :: ups, s, r', nh => by
    have := mem_reach r ups (appendToSrtTableEntry s r u) r' nh
    unfold reach at *
    rw [foldl_cons, this, mem_appendToSrt, mem_cons]
    grind

theorem reach_eq (r : Str) : ∀ (ups : List (Str × Str)) (s : St),
    reach s r ups = { s with srt := (reach s r ups).srt }
  | [], s => rfl
  | u :: ups, s => by
    have := reach_eq r ups (appendToSrtTableEntry s r u)
    unfold reach at *
    rw [foldl_cons, this]; rfl

def hold0 (d : Row) : Row := d.set "bfd_nh_hold" "false"

def publish (s : St) (r : Str) (cfg : Row) : St :=
  setStaticRouteIntoApplDb (s.setConfig r (hold0 (s.config r))) (applKey r) cfg

theorem refresh_cases (h : refreshActiveNh s r = some s') :
    (upPairs s r = [] ∧ s' = s) ∨
      (upPairs s r ≠ [] ∧ ∃ cfg, reconstructStaticRouteConfig (hold0 (s.config r))
        ((reach s r (upPairs s r)).srt r) = some cfg ∧ s' = publish (reach s r (upPairs s r)) r cfg) := by
  unfold refreshActiveNh at h
  simp only [Option.bind_eq_bind, Option.bind_eq_some_iff] at h
  obtain ⟨ns, hn, vs, hv, h⟩ := h
  have hp : pairs (s.config r) = vs.zip ns := by unfold pairs; rw [hn, hv]
  have hu : (vs.zip ns).filter (fun x => isUp (s.bfd (bfdKey x.1 x.2))) = upPairs s r := by unfold upPairs; rw [hp]
  split at h
  · cases h
  · simp only [hu] at h
    split at h
    · grind
    · rename_i he
      refine Or.inr ⟨he, ?_⟩
      simp only [Option.bind_eq_some_iff] at h
      obtain ⟨cfg, hc, h⟩ := h
      have hcfg : (reach s r (upPairs s r)).config = s.config := by rw [reach_eq]
      refine ⟨cfg, ?_, ?_⟩
      · rw [← hc]; unfold hold0; rw [← hcfg]; rfl
      · simpa [publish, hold0, reach] using h.symm

section
variable (s : St) (key vrf p : Str) (data : Row)

def toggled : St × Row := toggleBfd s key (s.config (routeKey vrf p)) (lowerNexthop data)

def newRow : Row × Option (List Str) := preprocessNexthopVrf vrf (toggled s key vrf p data).2

def newLists : Option (List Str × List Str × List Str) :=
  checkedLists (newRow s key vrf p data).1 (newRow s key vrf p data).2

def newBfd : Bool := bfdTrue (lowerNexthop data)

end

inductive SetStep (s : St) (key : Str) (data : Row) : St → Prop
  | skip : SetStep s key data s
  | reject {vrf p : Str} : data ≠ [] → staticRouteSplitKey key = some (vrf, p) → (checkIp p).isSome →
      newLists s key vrf p data = none → SetStep s key data (toggled s key vrf p data).1
  | plain {vrf p : Str} {lists} : staticRouteSplitKey key = some (vrf, p) → (checkIp p).isSome →
      newLists s key vrf p data = some lists → newBfd data = false →
      SetStep s key data ((toggled s key vrf p data).1.setConfig (routeKey vrf p)
        ((newRow s key vrf p data).1.set "bfd" "false"))
  | store {vrf p : Str} {lists} {s' : St} : data ≠ [] → staticRouteSplitKey key = some (vrf, p) →
      (checkIp p).isSome → newLists s key vrf p data = some lists → newBfd data = true →
      storeRoute (toggled s key vrf p data).1 vrf (routeKey vrf p) (s.config (routeKey vrf p))
        (newRow s key vrf p data).1 lists = some s' → SetStep s key data s'

theorem setStep_of_handler (h : staticRouteSetHandler s key data = some s') :
    SetStep s key data s' := by
  unfold staticRouteSetHandler at h
  split at h
  · cases h; exact .skip
  · rename_i hd
    cases hk : staticRouteSplitKey key with
    | none => rw [hk] at h; cases h; exact .skip
    | some q =>
      obtain ⟨vrf, p⟩ := q
      rw [hk] at h
      simp only at h
      split at h
      · cases h; exact .skip
      · rename_i hip
        have hip : (checkIp p).isSome := by simpa [Option.isSome_iff_ne_none] using hip
        cases hl : newLists s key vrf p data with
        | none =>
          have e : checkedLists (newRow s key vrf p data).1 (newRow s key vrf p data).2 = none := hl
          simp only [newRow, toggled] at e
          rw [e] at h; cases h
          exact .reject hd hk hip hl
        | some lists =>
          have e : checkedLists (newRow s key vrf p data).1 (newRow s key vrf p data).2 = some lists := hl
          simp only [newRow, toggled] at e
          rw [e] at h
          simp only at h
          split at h
          · rename_i hb
            cases h
            exact .plain hk hip hl (by simpa [newBfd] using hb)
          · rename_i hb
            exact .store hd hk hip hl (by simpa [newBfd] using hb) h

/-! ## The stored row -/

theorem held_get? (s : St) (key : Str) (cur data : Row) (h : "bfd_nh_hold" ≠ k) :
    (toggleBfd s key cur data).2.get? k = data.get? k := by
  unfold toggleBfd
  simp only
  split_ifs <;> grind

theorem newRow_get? (s : St) (key vrf p : Str) (data : Row) (h₁ : "bfd_nh_hold" ≠ k)
    (h₂ : "nexthop-vrf" ≠ k) : (newRow s key vrf p data).1.get? k = (lowerNexthop data).get? k := by
  unfold newRow preprocessNexthopVrf
  have e : (toggled s key vrf p data).2.get? k = (lowerNexthop data).get? k := held_get? s key _ _ h₁
  split <;> simp_all [Dict.get?_set_ne]

theorem newRow_bfdTrue (s : St) (key vrf p : Str) (data : Row) :
    bfdTrue (newRow s key vrf p data).1 = newBfd data := by
  unfold newBfd bfdTrue bfdField
  rw [newRow_get? s key vrf p data (by decide) (by decide)]

theorem newRow_vrfs {vrf p : Str} {vs is ns : List Str}
    (h : newLists s key vrf p data = some (vs, is, ns)) :
    (newRow s key vrf p data).1.get? "nexthop-vrf" = some (join [','] vs) ∧
      field (newRow s key vrf p data).1 "ifname" = some is ∧
      field (newRow s key vrf p data).1 "nexthop" = some ns ∧ is.length = ns.length ∧ is.length = vs.length := by
  unfold newLists checkedLists at h
  split at h <;> grind [newRow, preprocessNexthopVrf]

/-- What an accepted bfd SET stores: the three lists, of one length. -/
structure Listed (d : Row) (vs is ns : List Str) : Prop where
  vrfs : field d "nexthop-vrf" = some vs
  intfs : field d "ifname" = some is
  nexthops : field d "nexthop" = some ns
  len₁ : is.length = ns.length
  len₂ : is.length = vs.length

theorem Listed.pairs_eq {d : Row} {vs is ns : List Str} (h : Listed d vs is ns) : pairs d = vs.zip ns := by
  unfold pairs; rw [h.vrfs, h.nexthops]

/-- Lists that the stored row gives back, with keys that split in one way. -/
def ListsOk (lists : List Str × List Str × List Str) : Prop :=
  (∀ v ∈ lists.1, Member v ∧ '|' ∉ v) ∧ ∀ ip ∈ lists.2.2, '|' ∉ ip

instance (lists : List Str × List Str × List Str) : Decidable (ListsOk lists) := inferInstanceAs (Decidable (_ ∧ _))

theorem newRow_listed {vrf p : Str} {vs is ns : List Str}
    (h : newLists s key vrf p data = some (vs, is, ns)) (hm : ∀ v ∈ vs, Member v) :
    Listed (newRow s key vrf p data).1 vs is ns := by
  obtain ⟨hv, hi, hn, h₁, h₂⟩ := newRow_vrfs h
  refine ⟨?_, hi, hn, h₁, h₂⟩
  grind [field_ne_nil, length_eq_zero_iff, field, argList_join]

theorem mem_zip3 {vs is ns : List Str} (h₁ : is.length = ns.length) (h₂ : is.length = vs.length) {v ip : Str} :
    (v, ip) ∈ vs.zip ns ↔ ∃ i, (v, i, ip) ∈ zip3 vs is ns := by
  unfold zip3
  induction vs generalizing is ns with
  | nil => simp
  | cons a vs ih =>
    match is, ns with
    | i :: is, n :: ns =>
      have := @ih is ns (by simpa using h₁) (by simpa using h₂)
      simp only [zip_cons_cons, mem_cons, Prod.mk.injEq, this]
      grind
    | [], _ => simp at h₂
    | _ :: _, [] => simp at h₁

theorem bfdUp_cases (h : bfdUp nh s r = some s') :
    (nh ∈ s.srt r ∧ s' = s) ∨
      (nh ∉ s.srt r ∧ ∃ cfg, reconstructStaticRouteConfig (hold0 (s.config r))
        ((appendToSrtTableEntry s r nh).srt r) = some cfg ∧ s' = publish (appendToSrtTableEntry s r nh) r cfg) := by
  unfold bfdUp at h
  split at h
  · grind
  · rename_i hm
    simp only [Option.bind_eq_bind, Option.bind_eq_some_iff] at h
    obtain ⟨cfg, hc, h⟩ := h
    exact Or.inr ⟨hm, cfg, hc, by cases h; rfl⟩

theorem removeReachable_cases (h : removeReachable nh s r = some s') :
    ((removeFromSrtTableEntry s r nh).srt r = [] ∧
      s' = delStaticRouteFromApplDb (removeFromSrtTableEntry s r nh) (applKey r)) ∨
    ((removeFromSrtTableEntry s r nh).srt r ≠ [] ∧ ∃ cfg, reconstructStaticRouteConfig (s.config r)
      ((removeFromSrtTableEntry s r nh).srt r) = some cfg ∧
      s' = setStaticRouteIntoApplDb (removeFromSrtTableEntry s r nh) (applKey r) cfg) := by
  unfold removeReachable at h
  simp only at h
  split at h
  · grind
  · rename_i he
    rw [Option.map_eq_some_iff] at h
    obtain ⟨cfg, hc, rfl⟩ := h
    exact Or.inr ⟨he, cfg, hc, rfl⟩

theorem bfdDown_cases (h : bfdDown nh s r = some s') :
    ((s.config r).get? "bfd_nh_hold" = some "true" ∧ s' = s) ∨
      ((s.config r).get? "bfd_nh_hold" ≠ some "true" ∧ removeReachable nh s r = some s') := by
  unfold bfdDown at h
  split at h
  · cases h
  · rename_i hold hh
    split at h
    · grind
    · grind

theorem stateSet_cases (h : bfdStateSetHandler s key data = some s') :
    ∃ vrf intf peer, bfdStateSplitKey key = some (vrf, intf, peer) ∧
      let k := vrf ++ ':' :: intf ++ ':' :: peer
      let state := (data.get? "state").getD "DOWN"
      let t := s.setBfd k ((s.bfd k).set "state" state)
      (s.bfd k = [] ∧ s' = s) ∨
      (s.bfd k ≠ [] ∧ upper state = "UP" ∧
        (s.nexthop (nhKey vrf peer)).foldlM (bfdUp (vrf, peer)) t = some s') ∨
      (s.bfd k ≠ [] ∧ upper state = "DOWN" ∧
        (s.nexthop (nhKey vrf peer)).foldlM (bfdDown (vrf, peer)) t = some s') ∨
      (s.bfd k ≠ [] ∧ upper state ≠ "UP" ∧ upper state ≠ "DOWN" ∧ s' = t) := by
  unfold bfdStateSetHandler at h
  cases hk : bfdStateSplitKey key with
  | none => rw [hk] at h; cases h
  | some q =>
    obtain ⟨vrf, intf, peer⟩ := q
    rw [hk] at h
    refine ⟨vrf, intf, peer, rfl, ?_⟩
    simp only at h ⊢
    split at h
    · grind
    · rename_i he
      split at h
      · rename_i hu; exact Or.inr (Or.inl ⟨he, hu, h⟩)
      · rename_i hu
        split at h
        · rename_i hd; exact Or.inr (Or.inr (Or.inl ⟨he, hd, h⟩))
        · grind

end Sonic.StaticBfd
