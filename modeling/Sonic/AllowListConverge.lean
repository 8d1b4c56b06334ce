import Sonic.AllowListEntries

/-! # What a SET commits

The commands of a SET fall into parts, one for each list and route-map that the policy names. What is
committed of each object is its part alone, and every other object stays as it was. -/

namespace Sonic.AllowList
open List Option

open Str

/-! ## Parts of the commands -/

def Parts (parts : List (Target × List Cmd)) : Prop := ∀ q ∈ parts, ∀ c ∈ q.2, c.target = q.1

theorem Parts.filter_target : ∀ {parts : List (Target × List Cmd)}, Parts parts → ∀ t,
    (parts.flatMap Prod.snd).filter (fun c => c.target = t) = (parts.filter fun q => q.1 = t).flatMap Prod.snd
  | [], _, _ => rfl
  | (u, cs) :: parts, h, t => by
    have hparts : Parts parts := fun q hq => h q (mem_cons_of_mem _ hq)
    have ih := hparts.filter_target t
    rw [flatMap_cons, filter_append, ih, filter_cons]
    by_cases hu : u = t
    · have hcs : cs.filter (fun c => c.target = t) = cs :=
        List.filter_eq_self.mpr fun c hc => decide_eq_true ((h _ mem_cons_self c hc).trans hu)
      grind
    · have hcs : cs.filter (fun c => c.target = t) = [] :=
        List.filter_eq_nil_iff.mpr fun c hc hd => hu ((h _ mem_cons_self c hc).symm.trans (of_decide_eq_true hd))
      grind

theorem Parts.wf {parts : List (Target × List Cmd)} (h : Parts parts) (hw : ∀ q ∈ parts, IsWord q.1.name) {f : Frr}
    (hf : f.Wf) :
    ((parts.flatMap Prod.snd).foldl Frr.write f).Wf := by
  refine Frr.wf_foldl _ hf fun c hc => ?_
  obtain ⟨q, hq, hc⟩ := List.mem_flatMap.mp hc
  rw [h q hq c hc]
  exact hw q hq

section
variable {lib : Addresses} {constants : Constants} {conf : List Str} {af : Af} {pl community rm : Str} {cs : List Cmd}

theorem updatePrefixList_target {l : List Str} (h : updatePrefixList lib constants conf af pl l = some cs) :
    ∀ c ∈ cs, c.target = .prefixList af pl := by
  simp only [updatePrefixList, bind_eq_bind, bind_eq_some_iff] at h
  obtain ⟨rules, -, ⟨exist, correct⟩, -, h⟩ := h
  cases correct with
  | true => cases h; simp
  | false =>
    rw [if_neg Bool.false_ne_true] at h
    obtain ⟨rules', -, h⟩ := Option.bind_eq_some_iff.mp h
    cases h
    intro c hc
    rcases List.mem_append.mp hc with hc | hc
    · cases exist with
      | false => cases hc
      | true => rw [List.mem_singleton.mp hc]; rfl
    · obtain ⟨r, -, rfl⟩ := List.mem_map.mp hc
      rfl

theorem updateCommunity_target {name value : Str} :
    ∀ c ∈ updateCommunity conf name value, c.target = .communityList name := by
  intro c hc
  unfold updateCommunity at hc
  split at hc
  · cases hc
  · split at hc
    · split at hc
      · cases hc
      · simp only [mem_cons, not_mem_nil, or_false] at hc
        rcases hc with rfl | rfl <;> rfl
    · rw [List.mem_singleton.mp hc]
      rfl

theorem updateAllowRouteMapEntry_target (h : updateAllowRouteMapEntry constants conf af pl community rm = some cs) :
    ∀ c ∈ cs, c.target = .routeMap rm := by
  simp only [updateAllowRouteMapEntry, bind_eq_bind, bind_eq_some_iff] at h
  obtain ⟨entries, -, h⟩ := h
  split at h
  · cases h; simp
  · obtain ⟨seq, -, h⟩ := Option.bind_eq_some_iff.mp h
    cases h
    intro c hc
    rw [List.mem_singleton.mp hc]
    rfl

theorem updateDefaultRouteMapEntry_target {action : Str} :
    ∀ c ∈ updateDefaultRouteMapEntry conf rm action, c.target = .routeMap rm := by
  intro c hc
  unfold updateDefaultRouteMapEntry at hc
  split at hc
  · rw [List.mem_singleton.mp hc]
    rfl
  · cases hc

end

def setParts (ns : Names) (lists entries defaults : Af → List Cmd) (community : List Cmd) : List (Target × List Cmd) :=
  [(.prefixList .v4 (ns.pl .v4), lists .v4), (.prefixList .v6 (ns.pl .v6), lists .v6),
    (.communityList ns.community, community),
    (.routeMap (ns.rm .v4), entries .v4), (.routeMap (ns.rm .v6), entries .v6),
    (.routeMap (ns.rm .v4), defaults .v4), (.routeMap (ns.rm .v6), defaults .v6)]

/-- The commands of a SET for the prefix-lists and for the entries of the route-maps. -/
structure SetCommands (lib : Addresses) (constants : Constants) (conf : List Str) (data : Row) (ns : Names)
    (lists entries : Af → List Cmd) : Prop where
  update : ∀ af, updatePrefixList lib constants conf af (ns.pl af) (prefixesOf data af) = some (lists af)
  allow : ∀ af, updateAllowRouteMapEntry constants conf af (ns.pl af) ns.community (ns.rm af) = some (entries af)

section
variable {lib : Addresses} {constants : Constants} {conf : List Str} {p : Policy} {data : Row} {action : Str}

theorem updatePolicy_eq_some_iff {ns : Names} (hns : generateNames p = ns) {cs : List Cmd} :
    updatePolicy lib constants conf p (prefixes data "prefixes_v4") (prefixes data "prefixes_v6") action = some cs ↔
      ∃ lists entries, SetCommands lib constants conf data ns lists entries ∧
        cs = (setParts ns lists entries (fun af => updateDefaultRouteMapEntry conf (ns.rm af) action)
          (updateCommunity conf ns.community p.communityValue)).flatMap Prod.snd := by
  subst hns
  unfold updatePolicy
  constructor
  · intro h
    obtain ⟨plV4, h4, h⟩ := Option.bind_eq_some_iff.mp h
    obtain ⟨plV6, h6, h⟩ := Option.bind_eq_some_iff.mp h
    obtain ⟨rmV4, hr4, h⟩ := Option.bind_eq_some_iff.mp h
    obtain ⟨rmV6, hr6, h⟩ := Option.bind_eq_some_iff.mp h
    cases h
    refine ⟨Af.rec plV4 plV6, Af.rec rmV4 rmV6, ⟨?_, ?_⟩, by simp [setParts, Names.rm]⟩
    · rintro (_ | _)
      · exact h4
      · exact h6
    · rintro (_ | _)
      · exact hr4
      · exact hr6
  · rintro ⟨lists, entries, h, rfl⟩
    refine Option.bind_eq_some_iff.mpr ⟨_, h.update .v4, Option.bind_eq_some_iff.mpr ⟨_, h.update .v6,
      Option.bind_eq_some_iff.mpr ⟨_, h.allow .v4, Option.bind_eq_some_iff.mpr ⟨_, h.allow .v6, ?_⟩⟩⟩⟩
    simp [setParts, Names.rm]

theorem SetCommands.parts {ns : Names} {value : Str} {lists entries : Af → List Cmd}
    (h : SetCommands lib constants conf data ns lists entries) :
    Parts (setParts ns lists entries (fun af => updateDefaultRouteMapEntry conf (ns.rm af) action)
      (updateCommunity conf ns.community value)) := by
  simp only [Parts, setParts, forall_mem_cons]
  grind [updatePrefixList_target (h.update .v4), updatePrefixList_target (h.update .v6), updateCommunity_target,
    updateAllowRouteMapEntry_target (h.allow .v4), updateAllowRouteMapEntry_target (h.allow .v6),
    updateDefaultRouteMapEntry_target]

end

theorem rm_ne (p : Policy) : (generateNames p).rm .v4 ≠ (generateNames p).rm .v6 := by
  intro h
  have := append_cancel_left h
  simp_all

/-! ## Entries -/

theorem get?_insertSeq {seq k : Nat} {v : Entry} : ∀ (es : List (Nat × Entry)),
    Dict.get? (insertSeq seq v es) k = if seq = k then some v else Dict.get? es k
  | [] => by rw [insertSeq, Dict.get?_cons]
  | (j, w) :: es => by
    rw [insertSeq]
    split
    · rw [Dict.get?_cons]
    · split
      · grind
      · rename_i hj
        rw [Dict.get?_cons, get?_insertSeq es, Dict.get?_cons]
        grind

theorem mem_seqNumbers {seq : Nat} {hasCommunity : Bool} (h : seq ∈ seqNumbers hasCommunity) : seq ≠ 65535 := by
  grind [seqNumbers]

structure Names.AreNames (ns : Names) : Prop where
  pl : ∀ af, IsName (ns.pl af)
  rm : ∀ af, IsName (ns.rm af)
  community : IsName ns.community

theorem areNames_generateNames {key : Str} {p : Policy} (hk : IsWord key) (h : parseKey key = some p) :
    (generateNames p).AreNames := by
  obtain ⟨hc, hn⟩ := isWord_parseKey hk h
  have hw := words_generateNames hc hn
  refine ⟨fun af => ⟨?_, hw.pl af⟩, fun af => ⟨?_, hw.rm af⟩, ?_, hw.community⟩
  · cases af <;> exact cons_ne_nil _ _
  · cases af <;> exact cons_ne_nil _ _
  · rw [community_eq]
    split <;> exact cons_ne_nil _ _

/-! ## Committing a SET -/

/-- The store `g` is `s` with the commands of each part written to its object. -/
structure Written (ns : Names) (lists entries defaults : Af → List Cmd) (community : List Cmd) (s g : Frr) : Prop where
  wf : g.Wf
  other : g.other = s.other
  rules : ∀ af, g.rules af (ns.pl af) = (lists af).foldl Cmd.onRules (s.rules af (ns.pl af))
  values : g.values ns.community = community.foldl Cmd.onValues (s.values ns.community)
  routeMaps : ∀ af, g.entries (ns.rm af) =
    (defaults af).foldl Cmd.onEntries ((entries af).foldl Cmd.onEntries (s.entries (ns.rm af)))
  otherRules : ∀ af pl, ns.pl af ≠ pl → g.rules af pl = s.rules af pl
  otherValues : ∀ name, ns.community ≠ name → g.values name = s.values name
  otherRouteMaps : ∀ name, (∀ af, ns.rm af ≠ name) → g.entries name = s.entries name

theorem other_foldl : ∀ (cs : List Cmd) (f : Frr), (cs.foldl Frr.write f).other = f.other
  | [], _ => rfl
  | c :: cs, f => by
    rw [foldl_cons, other_foldl cs]
    cases c <;> rfl

/-- Commands that come to each object as those of `setParts` do write each part to its object. -/
theorem written {ns : Names} {lists entries defaults : Af → List Cmd} {community : List Cmd}
    {parts : List (Target × List Cmd)}
    (hset : Parts (setParts ns lists entries defaults community)) (hrm : ns.rm .v4 ≠ ns.rm .v6) (hn : ns.AreNames)
    (hparts : ∀ t, parts.filter (fun q => q.1 = t) = (setParts ns lists entries defaults community).filter fun q =>
      q.1 = t)
    {s : Frr} (hs : s.Wf) :
    Written ns lists entries defaults community s ((parts.flatMap Prod.snd).foldl Frr.write s) := by
  have hmem : ∀ q ∈ parts, q ∈ setParts ns lists entries defaults community := fun q hq =>
    mem_of_mem_filter (hparts q.1 ▸ List.mem_filter.mpr ⟨hq, decide_eq_true rfl⟩)
  have hwords : ∀ q ∈ setParts ns lists entries defaults community, IsWord q.1.name := by
    simp only [setParts, forall_mem_cons]
    exact ⟨(hn.pl .v4).2, (hn.pl .v6).2, hn.community.2, (hn.rm .v4).2, (hn.rm .v6).2, (hn.rm .v4).2, (hn.rm .v6).2,
      nofun⟩
  have hp : Parts parts := fun q hq => hset q (hmem q hq)
  refine ⟨hp.wf (fun q hq => hwords q (hmem q hq)) hs, other_foldl _ s, fun af => ?_, ?_, fun af => ?_,
    fun af pl hne => ?_,
    fun name hne => ?_, fun name hne => ?_⟩
  · rw [Frr.rules_foldl, hp.filter_target, hparts]
    cases af <;> simp [setParts]
  · rw [Frr.values_foldl, hp.filter_target, hparts]
    simp [setParts]
  · rw [Frr.entries_foldl, hp.filter_target, hparts]
    cases af <;> simp [setParts, hrm, hrm.symm]
  · rw [Frr.rules_foldl, hp.filter_target, hparts]
    cases af <;> simp [setParts, hne]
  · rw [Frr.values_foldl, hp.filter_target, hparts]
    simp [setParts, hne]
  · rw [Frr.entries_foldl, hp.filter_target, hparts]
    simp [setParts, hne]

/-- A SET that reads `f` is written to `s`. -/
structure Committed (lib : Addresses) (constants : Constants) (data : Row) (ns : Names) (value : Str) (f s g : Frr)
    (lists entries : Af → List Cmd) : Prop extends SetCommands lib constants (getText f) data ns lists entries,
      Written ns lists entries
        (fun af => updateDefaultRouteMapEntry (getText f) (ns.rm af) (getDefaultActionCommunity constants data))
        (updateCommunity (getText f) ns.community value) s g

section
variable {lib : Addresses} {constants : Constants} {f s : Frr} {key : Str} {data : Row} {p : Policy} {cs : List Cmd}
  (hkey : IsWord key) (hp : parseKey key = some p) (hen : constants.enabled = true)
  (hval : setHandlerValidate lib key data = true)

include hp hen hval in
theorem handler_set_eq (conf : List Str) : handler lib constants conf (.set key data) =
    updatePolicy lib constants conf p (prefixes data "prefixes_v4") (prefixes data "prefixes_v6")
      (getDefaultActionCommunity constants data) := by simp_all [handler]

include hkey hp hen hval in
theorem committed (hs : s.Wf) (h : handler lib constants (getText f) (.set key data) = some cs) :
    ∃ lists entries,
      Committed lib constants data (generateNames p) p.communityValue f s (cs.foldl Frr.write s) lists entries := by
  rw [handler_set_eq hp hen hval] at h
  obtain ⟨lists, entries, hc, rfl⟩ := (updatePolicy_eq_some_iff rfl).mp h
  exact ⟨lists, entries, hc, written hc.parts (rm_ne p) (areNames_generateNames hkey hp) (fun _ => rfl) hs⟩

end

def plainAddress : Addresses := ⟨fun _ => true, fun _ => true, fun s => if IsName s then some s else none⟩

theorem canonical_plainAddress : plainAddress.Canonical := by
  have hname {s n : Str} (h : plainAddress.ipv6Network s = some n) : IsName s ∧ s = n := by grind [plainAddress]
  exact ⟨fun s n h => (hname h).2 ▸ (hname h).1, fun s n h => (hname h).2 ▸ h⟩

def setBoth : Row := [("prefixes_v4", "10.20.30.0/24"), ("prefixes_v6", "fc00:20::/64")]

end Sonic.AllowList
