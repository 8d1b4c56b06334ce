import Sonic.AllowListDelete

/-! # Allow-list messages in one commit

Each handler reads the running configuration, which lacks the commands that are still to be committed. The messages of
one commit leave what they leave with a commit after each, just if none of them is misled: it does the same to its lists
and route-maps, whether it reads the configuration of the start or that of the moment. -/

namespace Sonic.AllowList
open List Option

open Str

/-- The same configuration: FRR shows lists and route-maps in an order of its own. -/
structure Frr.Same (f g : Frr) : Prop where
  other : f.other = g.other
  rules : ∀ af pl, f.rules af pl = g.rules af pl
  values : ∀ name, f.values name = g.values name
  entries : ∀ name, f.entries name = g.entries name

theorem Frr.same_equivalence : Equivalence Frr.Same where
  refl _ := ⟨rfl, fun _ _ => rfl, fun _ => rfl, fun _ => rfl⟩
  symm h := ⟨h.other.symm, fun af pl => (h.rules af pl).symm, fun n => (h.values n).symm, fun n => (h.entries n).symm⟩
  trans h h' := ⟨h.other.trans h'.other, fun af pl => (h.rules af pl).trans (h'.rules af pl),
    fun n => (h.values n).trans (h'.values n), fun n => (h.entries n).trans (h'.entries n)⟩

theorem Frr.Same.write {f g : Frr} (cs : List Cmd) (h : f.Same g) :
    (cs.foldl Frr.write f).Same (cs.foldl Frr.write g) where
  other := by rw [other_foldl, other_foldl, h.other]
  rules af pl := by rw [Frr.rules_foldl, Frr.rules_foldl, h.rules]
  values name := by rw [Frr.values_foldl, Frr.values_foldl, h.values]
  entries name := by rw [Frr.entries_foldl, Frr.entries_foldl, h.entries]

/-- Two writes to one store make the same of it just if they do to each list and each route-map of the names. -/
theorem Written.same_iff {ns : Names} {lists entries defaults lists' entries' defaults' : Af → List Cmd}
    {community community' : List Cmd} {s g g' : Frr} (h : Written ns lists entries defaults community s g)
    (h' : Written ns lists' entries' defaults' community' s g') :
    g.Same g' ↔ (∀ af, g.rules af (ns.pl af) = g'.rules af (ns.pl af)) ∧
      g.values ns.community = g'.values ns.community ∧
      ∀ af, g.entries (ns.rm af) = g'.entries (ns.rm af) := by
  constructor
  · exact fun hs => ⟨fun af => hs.rules af _, hs.values _, fun af => hs.entries _⟩
  · rintro ⟨hrules, hvalues, hentries⟩
    refine ⟨h.other.trans h'.other.symm, fun af pl => ?_, fun name => ?_, fun name => ?_⟩
    · by_cases he : ns.pl af = pl
      · exact he ▸ hrules af
      · rw [h.otherRules af pl he, h'.otherRules af pl he]
    · by_cases he : ns.community = name
      · exact he ▸ hvalues
      · rw [h.otherValues name he, h'.otherValues name he]
    · by_cases he : ∃ af, ns.rm af = name
      · obtain ⟨af, rfl⟩ := he
        exact hentries af
      · have hne : ∀ af, ns.rm af ≠ name := fun af hn => he ⟨af, hn⟩
        rw [h.otherRouteMaps name hne, h'.otherRouteMaps name hne]

/-! ## What a message leaves

As functions of what was read, which may be of another time, and of what is there. -/

/-- The rules of a prefix-list after a SET that reads `f`. -/
def rulesAfter (lib : Addresses) (constants : Constants) (f : Frr) (af : Af) (pl : Str) (l : List Str)
    (rules : List (Nat × Str)) : Option (List (Nat × Str)) :=
  (l.mapM (toPrefixRule af)).bind fun allow =>
    (isPrefixListValid lib (getText f) af pl allow (getConstantList constants af)).bind fun (exist, correct) =>
      if correct then some rules
      else (normalizeIpnetwork lib af (getConstantList constants af ++ allow)).map fun wanted =>
        wanted.zipIdx.foldl (fun rules r => insertSeq (10 + 10 * r.2) r.1 rules) (if exist then [] else rules)

/-- The values of a community-list after a SET that found one of them. -/
def valuesAfter (found : Option Str) (value : Str) (values : List Str) : List Str :=
  if value = emptyCommunity ∨ found = some value then values
  else if found.isSome then [value]
  else if value ∈ values then values else values ++ [value]

/-- The entries after the update of the default one. -/
def defaultAfter (read : List (Nat × Entry)) (action : Str) (es : List (Nat × Entry)) : List (Nat × Entry) :=
  if ((Dict.get? read 65535).bind readDefault).getD [] ≠ action then
    insertSeq 65535 (mergedEntry es 65535 [.setCommunity (action ++ " additive")]) es
  else es

/-- The entries of a route-map after a SET: an entry for it was seen, or the first number without a seen one is taken. -/
def entriesAfter (constants : Constants) (af : Af) (ns : Names) (action : Str) (read es : List (Nat × Entry)) :
    Option (List (Nat × Entry)) :=
  let seen : Dict Nat (Str × Str) := read.filterMap (seenEntry af)
  (if (findRouteMapEntry seen (ns.pl af) ns.community).isSome then some es
    else (findNextSeqNumber seen.keys (ns.community ≠ emptyCommunity)).map fun seq =>
      insertSeq seq (mergedEntry es seq (allowClauses constants af (ns.pl af) ns.community)) es).map
        (defaultAfter read action)

/-- The entries of a route-map after a DEL. -/
def entriesLeft (af : Af) (ns : Names) (action : Str) (read es : List (Nat × Entry)) : List (Nat × Entry) :=
  defaultAfter read action
    (es.filter fun x => findRouteMapEntry (read.filterMap (seenEntry af)) (ns.pl af) ns.community ≠ some x.1)

/-- A SET that reads `f` is not misled about `s`. -/
structure SetUndisturbed (lib : Addresses) (constants : Constants) (f s : Frr) (ns : Names) (value : Str)
    (data : Row) : Prop where
  lists : ∀ af, rulesAfter lib constants f af (ns.pl af) (prefixesOf data af) (s.rules af (ns.pl af)) =
    rulesAfter lib constants s af (ns.pl af) (prefixesOf data af) (s.rules af (ns.pl af))
  communityList : valuesAfter (isCommunityPresented (getText f) ns.community) value (s.values ns.community) =
    valuesAfter (isCommunityPresented (getText s) ns.community) value (s.values ns.community)
  entries : ∀ af,
    entriesAfter constants af ns (getDefaultActionCommunity constants data) (f.entries (ns.rm af))
      (s.entries (ns.rm af)) =
      entriesAfter constants af ns (getDefaultActionCommunity constants data) (s.entries (ns.rm af))
        (s.entries (ns.rm af))

/-- A DEL that reads `f` is not misled about `s`: what is there by now was there, and it finds the same entries. -/
structure DelUndisturbed (constants : Constants) (f s : Frr) (ns : Names) : Prop where
  lists : ∀ af, f.rules af (ns.pl af) = [] → s.rules af (ns.pl af) = []
  communityList : ns.community ≠ emptyCommunity → s.values ns.community = [] ∨
    ((isCommunityPresented (getText f) ns.community).isSome ↔ (isCommunityPresented (getText s) ns.community).isSome)
  entries : ∀ af, entriesLeft af ns (getDefaultActionCommunity constants []) (f.entries (ns.rm af))
    (s.entries (ns.rm af)) =
    entriesLeft af ns (getDefaultActionCommunity constants []) (s.entries (ns.rm af)) (s.entries (ns.rm af))

/-- A message that is handled is not misled. -/
def Undisturbed (lib : Addresses) (constants : Constants) (f s : Frr) : Msg → Prop
  | .set key data => constants.enabled = true → setHandlerValidate lib key data = true → ∀ p ∈ parseKey key,
    SetUndisturbed lib constants f s (generateNames p) p.communityValue data
  | .del key => constants.enabled = true → ∀ p ∈ parseKey key, DelUndisturbed constants f s (generateNames p)

instance (lib : Addresses) (constants : Constants) (f s : Frr) (ns : Names) (value : Str) (data : Row) :
    Decidable (SetUndisturbed lib constants f s ns value data) :=
  decidable_of_iff (_ ∧ _ ∧ _) ⟨fun h => ⟨h.1, h.2.1, h.2.2⟩, fun h => ⟨h.lists, h.communityList, h.entries⟩⟩

instance (constants : Constants) (f s : Frr) (ns : Names) : Decidable (DelUndisturbed constants f s ns) :=
  decidable_of_iff (_ ∧ _ ∧ _) ⟨fun h => ⟨h.1, h.2.1, h.2.2⟩, fun h => ⟨h.lists, h.communityList, h.entries⟩⟩

instance (lib : Addresses) (constants : Constants) (f s : Frr) : ∀ m, Decidable (Undisturbed lib constants f s m)
  | .set _ _ => inferInstanceAs (Decidable (_ → _ → ∀ p ∈ _, _))
  | .del _ => inferInstanceAs (Decidable (_ → ∀ p ∈ _, _))

/-! ## The parts of a message -/

section
variable {lib : Addresses} {constants : Constants} {f s g g' : Frr} {ns : Names} {data : Row} {value : Str}
  {lists entries lists' entries' : Af → List Cmd}

theorem update_rules {af : Af} {pl : Str} {l : List Str} {cs : List Cmd}
    (h : updatePrefixList lib constants (getText f) af pl l = some cs) (rules : List (Nat × Str)) :
    rulesAfter lib constants f af pl l rules = some (cs.foldl Cmd.onRules rules) := by
  rw [updatePrefixList] at h
  obtain ⟨allow, hallow, h⟩ := Option.bind_eq_some_iff.mp h
  obtain ⟨⟨exist, correct⟩, hvalid, h⟩ := Option.bind_eq_some_iff.mp h
  rw [rulesAfter, hallow, bind_some, hvalid, bind_some]
  dsimp only at h ⊢
  cases correct with
  | true =>
    cases h
    rfl
  | false =>
    rw [if_neg Bool.false_ne_true] at h ⊢
    obtain ⟨wanted, hwanted, h⟩ := Option.bind_eq_some_iff.mp h
    cases h
    rw [hwanted, map_some, foldl_append, foldl_map]
    cases exist <;> rfl

theorem update_values (conf : List Str) (name value : Str) (values : List Str) :
    (updateCommunity conf name value).foldl Cmd.onValues values =
      valuesAfter (isCommunityPresented conf name) value values := by
  rw [updateCommunity, valuesAfter]
  by_cases he : value = emptyCommunity
  · rw [if_pos he, if_pos (.inl he)]
    rfl
  rw [if_neg he]
  cases hfound : isCommunityPresented conf name with
  | none =>
    rw [if_neg (by simpa using he), if_neg (by simp)]
    rfl
  | some found =>
    dsimp only
    by_cases hv : value = found
    · rw [if_pos hv, if_pos (.inr (congrArg some hv.symm))]
      rfl
    · have hno : ¬ (value = emptyCommunity ∨ some found = some value) :=
        fun h => h.elim he fun hs => hv (Option.some.inj hs).symm
      rw [if_neg hv, if_neg hno, if_pos Option.isSome_some]
      rfl

theorem default_after (hf : f.Wf) {rm action : Str} (hrm : IsWord rm) (es : List (Nat × Entry)) :
    (updateDefaultRouteMapEntry (getText f) rm action).foldl Cmd.onEntries es =
      defaultAfter (f.entries rm) action es := by
  rw [updateDefaultRouteMapEntry, parseDefaultActionRouteMapEntry_getText hf hrm, defaultAfter]
  split
  · rfl
  · rfl

theorem Committed.entries_after (hc : Committed lib constants data ns value f s g lists entries) (hf : f.Wf)
    (hn : ns.AreNames)
    (af : Af) : entriesAfter constants af ns (getDefaultActionCommunity constants data) (f.entries (ns.rm af))
      (s.entries (ns.rm af)) = some (g.entries (ns.rm af)) := by
  have h := hc.allow af
  rw [updateAllowRouteMapEntry, parseAllowRouteMapEntries_seen hf (hn.rm af).2, bind_eq_bind, bind_some] at h
  rw [hc.routeMaps af, default_after hf (hn.rm af).2, entriesAfter]
  split at h
  · rename_i hfound
    rw [if_pos hfound, ← Option.some.inj h]
    rfl
  · rename_i hfound
    obtain ⟨seq, hseq, h⟩ := Option.bind_eq_some_iff.mp h
    rw [if_neg hfound, hseq, ← Option.some.inj h]
    rfl

theorem Withdrawn.entries_after {action : Str} (hw : Withdrawn lib ns action f s g lists entries) (hf : f.Wf)
    (hn : ns.AreNames)
    (af : Af) : g.entries (ns.rm af) = entriesLeft af ns action (f.entries (ns.rm af)) (s.entries (ns.rm af)) := by
  rw [hw.routeMaps af, remove_entries hf (hn.rm af).2 (hw.entries_eq af), default_after hf (hn.rm af).2, entriesLeft]

theorem ite_nil_iff {a b : Bool} {values : List Str} :
    (if a then [] else values) = (if b then [] else values) ↔ values = [] ∨ (a = true ↔ b = true) := by
  cases a <;> cases b <;> simp

variable (hf : f.Wf) (hs : s.Wf) (hn : ns.AreNames)
include hf hs hn

theorem Committed.same_iff (hc : Committed lib constants data ns value f s g lists entries)
    (hc' : Committed lib constants data ns value s s g' lists' entries') :
    g.Same g' ↔ SetUndisturbed lib constants f s ns value data := by
  rw [hc.toWritten.same_iff hc'.toWritten]
  constructor
  · rintro ⟨hrules, hvalues, hmaps⟩
    refine ⟨fun af => ?_, ?_, fun af => ?_⟩
    · rw [update_rules (hc.update af), update_rules (hc'.update af), ← hc.rules af, ← hc'.rules af, hrules af]
    · rw [← update_values, ← update_values, ← hc.values, ← hc'.values, hvalues]
    · rw [hc.entries_after hf hn, hc'.entries_after hs hn, hmaps af]
  · rintro ⟨hrules, hvalues, hmaps⟩
    refine ⟨fun af => ?_, ?_, fun af => ?_⟩
    · have hr := hrules af
      rw [update_rules (hc.update af), update_rules (hc'.update af), ← hc.rules af, ← hc'.rules af] at hr
      exact Option.some.inj hr
    · rw [hc.values, hc'.values, update_values, update_values, hvalues]
    · have hm := hmaps af
      rw [hc.entries_after hf hn, hc'.entries_after hs hn] at hm
      exact Option.some.inj hm

theorem Withdrawn.same_iff
    (hw : Withdrawn lib ns (getDefaultActionCommunity constants []) f s g lists entries)
    (hw' : Withdrawn lib ns (getDefaultActionCommunity constants []) s s g' lists' entries') :
    g.Same g' ↔ DelUndisturbed constants f s ns := by
  rw [hw.toWritten.same_iff hw'.toWritten]
  have hrules (af : Af) : g.rules af (ns.pl af) = g'.rules af (ns.pl af) ↔
      (f.rules af (ns.pl af) = [] → s.rules af (ns.pl af) = []) := by
    rw [hw'.no_rules hs hn, hw.rules af, remove_rules hf (hn.pl af).2 (hw.lists_eq af), ite_eq_right_iff]
  have hvalues : g.values ns.community = g'.values ns.community ↔
      (ns.community ≠ emptyCommunity → s.values ns.community = [] ∨
      ((isCommunityPresented (getText f) ns.community).isSome ↔
        (isCommunityPresented (getText s) ns.community).isSome)) := by
    rw [hw.values, hw'.values]
    by_cases hne : ns.community = emptyCommunity
    · rw [removeCommunity, removeCommunity, if_pos hne, if_pos hne]
      exact iff_of_true rfl fun hno => (hno hne).elim
    · rw [remove_values hne, remove_values hne, forall_prop_of_true hne]
      exact ite_nil_iff
  constructor
  · rintro ⟨hr, hv, hm⟩
    refine ⟨fun af => (hrules af).mp (hr af), hvalues.mp hv, fun af => ?_⟩
    rw [← hw.entries_after hf hn, ← hw'.entries_after hs hn, hm af]
  · rintro ⟨hr, hv, hm⟩
    refine ⟨fun af => (hrules af).mpr (hr af), hvalues.mpr hv, fun af => ?_⟩
    rw [hw.entries_after hf hn, hw'.entries_after hs hn, hm af]

end

/-! ## Messages -/

/-- What a message is, whatever configuration is read. -/
inductive Handled (lib : Addresses) (constants : Constants) (m : Msg) : Prop
  | ignored (hc : ∀ conf, handler lib constants conf m = some []) (hu : ∀ f s, Undisturbed lib constants f s m)
  | set {ns : Names} {value : Str} {data : Row} (hn : ns.AreNames)
    (hc : ∀ {f s cs}, s.Wf → handler lib constants (getText f) m = some cs →
      ∃ lists entries, Committed lib constants data ns value f s (cs.foldl Frr.write s) lists entries)
    (hu : ∀ f s, Undisturbed lib constants f s m ↔ SetUndisturbed lib constants f s ns value data)
  | del {ns : Names} (hn : ns.AreNames)
    (hc : ∀ {f s cs}, s.Wf → handler lib constants (getText f) m = some cs →
      ∃ lists entries, Withdrawn lib ns (getDefaultActionCommunity constants []) f s
        (cs.foldl Frr.write s) lists entries)
    (hu : ∀ f s, Undisturbed lib constants f s m ↔ DelUndisturbed constants f s ns)

section
variable {lib : Addresses} {constants : Constants} {f s : Frr} {m : Msg} {cs ds : List Cmd} (hkey : IsWord m.key)
  (h : handler lib constants (getText f) m = some cs)
include hkey h

theorem handled : Handled lib constants m := by
  by_cases hen : constants.enabled = true
  · cases m with
    | set key data =>
      by_cases hval : setHandlerValidate lib key data = true
      · rw [handler, if_neg (by simp [hen, hval])] at h
        obtain ⟨p, hp, -⟩ := Option.bind_eq_some_iff.mp h
        exact .set (areNames_generateNames hkey hp) (fun hs h => committed hkey hp hen hval hs h) fun f s =>
          ⟨fun hu => hu hen hval p hp, fun hu _ _ q hq => Option.some.inj (hp.symm.trans hq) ▸ hu⟩
      · exact .ignored (fun conf => if_pos (.inr hval)) fun _ _ _ hv => (hval hv).elim
    | del key =>
      rw [handler, if_neg (not_not_intro hen)] at h
      split at h
      · cases h
      · rename_i hre
        obtain ⟨p, hp, -⟩ := Option.bind_eq_some_iff.mp h
        have hn := areNames_generateNames hkey hp
        refine .del hn (fun hs h => withdrawn hn hs ?_) fun f s =>
          ⟨fun hu => hu hen p hp, fun hu _ q hq => Option.some.inj (hp.symm.trans hq) ▸ hu⟩
        rw [handler, if_neg (not_not_intro hen), if_neg hre, hp] at h
        exact h
  · cases m with
    | set key data => exact .ignored (fun conf => if_pos (.inl hen)) fun _ _ he => (hen he).elim
    | del key => exact .ignored (fun conf => if_pos hen) fun _ _ he => (hen he).elim

theorem wf_handled (hs : s.Wf) : (cs.foldl Frr.write s).Wf := by
  cases handled hkey h with
  | ignored hc _ =>
    cases (hc _).symm.trans h
    exact hs
  | set _ hc _ =>
    obtain ⟨_, _, hw⟩ := hc hs h
    exact hw.wf
  | del _ hc _ =>
    obtain ⟨_, _, hw⟩ := hc hs h
    exact hw.wf

/-- A message that reads `f` does to `s` what it does when it reads `s`, just if it is not misled. -/
theorem handled_same_iff (hf : f.Wf) (hs : s.Wf) (h' : handler lib constants (getText s) m = some ds) :
    (cs.foldl Frr.write s).Same (ds.foldl Frr.write s) ↔ Undisturbed lib constants f s m := by
  cases handled hkey h with
  | ignored hc hu =>
    cases (hc _).symm.trans h
    cases (hc _).symm.trans h'
    exact iff_of_true (Frr.same_equivalence.refl s) (hu f s)
  | set hn hc hu =>
    obtain ⟨_, _, hw⟩ := hc hs h
    obtain ⟨_, _, hw'⟩ := hc hs h'
    exact (hw.same_iff hf hs hn hw').trans (hu f s).symm
  | del hn hc hu =>
    obtain ⟨_, _, hw⟩ := hc hs h
    obtain ⟨_, _, hw'⟩ := hc hs h'
    exact (hw.same_iff hf hs hn hw').trans (hu f s).symm

end

/-- One message of a run with a commit after each. -/
def commitEach (lib : Addresses) (constants : Constants) : Frr → Msg → Option Frr :=
  Batch.step Frr.write fun m f => handler lib constants (getText f) m

/-- Two DELs of one deployment, then one SET twice. -/
def delsAndSets : List Msg :=
  [.del "DEPLOYMENT_ID|5|1010:2020", .del "DEPLOYMENT_ID|5", .set "DEPLOYMENT_ID|6|1010:2020" setBoth,
    .set "DEPLOYMENT_ID|6|1010:2020" setBoth]

end Sonic.AllowList
