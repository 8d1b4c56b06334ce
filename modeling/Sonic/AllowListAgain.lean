import Sonic.AllowListConverge

/-!
# The same SET again

A route-map can have entries that the manager did not write. Its scanner keeps the leading match lines of a permit entry
and drops the rest, so what it makes of such an entry depends on the order in which FRR shows the lines. Here every entry
is allowed, and a SET converges just if the scanner can see the one entry that the SET leaves behind.
-/

namespace Sonic.AllowList
open List Option

open Str

/-! ## What the scanner sees -/

/-- The prefix-list and the community of the leading match lines. -/
def scanned (af : Af) : Option Str × Str → List Clause → Option Str × Str
  | acc, [] => acc
  | acc, c :: cs =>
    if startsWith (matchPlAllowList af) (strip c.text) then
      scanned af (some ((strip c.text).drop (matchPlAllowList af).length), acc.2) cs
    else if startsWith "match community " (strip c.text) then
      scanned af (acc.1, (strip c.text).drop "match community ".length) cs
    else acc

def Entry.seen (af : Af) (e : Entry) : Option (Str × Str) :=
  if e.permit then
    (scanned af (none, emptyCommunity) e.clauses).1.map (·, (scanned af (none, emptyCommunity) e.clauses).2)
  else none

def seenEntry (af : Af) (x : Nat × Entry) : Option (Nat × Str × Str) := (x.2.seen af).map (x.1, ·)

section
variable {af : Af} {rm : Str}

/-- The lines of an entry up to `exit` close it with what was scanned. -/
theorem foldlM_clauses {seq : Nat} : ∀ (cs : List Clause) {s : EntryScan}, s.inside = some seq →
    (cs.map Clause.text ++ ["exit".toList]).foldlM (entryLine af rm) s =
      some ({ s with pl := (scanned af (s.pl, s.community) cs).1,
                     community := (scanned af (s.pl, s.community) cs).2 }.close seq)
  | [], s, hs => foldlM_rest hs nofun
  | c :: cs, s, hs => by
    rw [map_cons, cons_append, foldlM_cons, scanned]
    by_cases hpl : startsWith (matchPlAllowList af) (strip c.text) = true
    · rw [if_pos hpl, entryLine, hs]
      dsimp only
      rw [if_pos hpl, bind_eq_bind, bind_some, foldlM_clauses cs rfl]
    · rw [if_neg hpl]
      by_cases hc : startsWith "match community " (strip c.text) = true
      · rw [if_pos hc, entryLine, hs]
        dsimp only
        rw [if_neg hpl, if_pos hc, bind_eq_bind, bind_some, foldlM_clauses cs rfl]
      · -- Any other line ends the entry for the scanner.
        rw [if_neg hc, entryLine, hs]
        dsimp only
        rw [if_neg hpl, if_neg hc, EntryScan.enter, (passed_clause rm c).entry, if_neg Bool.false_ne_true, bind_eq_bind,
          bind_some]
        exact foldlM_pass rfl cs

theorem foldlM_seenEntry (x : Nat × Entry) (d : Dict Nat (Str × Str)) :
    ((Frr.entryLines rm x).filter shown).foldlM (entryLine af rm) { EntryScan.init with entries := d } =
      some { EntryScan.init with entries := Dict.update d (seenEntry af x).toList } := by
  obtain ⟨seq, e⟩ := x
  rw [filter_entryLines, foldlM_cons, seenEntry, Entry.seen]
  cases hp : e.permit with
  | false =>
    rw [if_neg Bool.false_ne_true, if_neg Bool.false_ne_true, entryLine_passed rfl (passed_deny rm seq)]
    exact foldlM_pass rfl e.clauses
  | true =>
    rw [if_pos rfl, if_pos rfl, permitLine_eq, entryLine_permit rfl seq, bind_eq_bind, bind_some, foldlM_clauses _ rfl]
    dsimp only [EntryScan.init]
    cases hs : (scanned af (none, emptyCommunity) e.clauses).1 with
    | none => simp [EntryScan.close, EntryScan.init, Dict.update]
    | some pl => simp [EntryScan.close, EntryScan.init, Dict.update]

theorem foldlM_seenEntries : ∀ (es : List (Nat × Entry)) (d : Dict Nat (Str × Str)),
    (es.flatMap fun x => (Frr.entryLines rm x).filter shown).foldlM (entryLine af rm) { EntryScan.init with entries :=
      d } =
      some { EntryScan.init with entries := Dict.update d (es.filterMap (seenEntry af)) }
  | [], _ => rfl
  | x :: es, d => by
    rw [flatMap_cons, foldlM_append, foldlM_seenEntry, bind_eq_bind, bind_some, foldlM_seenEntries es,
      ← Dict.update_append,
      filterMap_cons]
    cases seenEntry af x <;> rfl

theorem nodup_seenEntry {es : List (Nat × Entry)} (h : es.Pairwise fun a b => a.1 < b.1) :
    (Dict.keys (es.filterMap (seenEntry af))).Nodup := by
  have hkey {x : Nat × Entry} {y : Nat × Str × Str} (h : seenEntry af x = some y) : y.1 = x.1 := by
    obtain ⟨v, -, rfl⟩ := Option.map_eq_some_iff.mp h
    rfl
  rw [Dict.keys, List.Nodup, pairwise_map]
  refine List.Pairwise.filterMap _ (fun a b hab a' ha b' hb => ?_) h
  rw [hkey ha, hkey hb]
  exact Nat.ne_of_lt hab

theorem parseAllowRouteMapEntries_seen {f : Frr} (hf : f.Wf) (hrm : IsWord rm) :
    parseAllowRouteMapEntries (getText f) af rm = some ((f.entries rm).filterMap (seenEntry af)) := by
  have htail (s : EntryScan) (hs : s.inside = none) :
      ["end".toList, "     ".toList, []].foldlM (entryLine af rm) s = some s :=
    Scan.foldlM_passed fun l hl => entryLine_passed hs <| passed_of_first <| by
      simp only [mem_cons, not_mem_nil, or_false] at hl
      rcases hl with rfl | rfl | rfl <;> decide
  rw [parseAllowRouteMapEntries, foldlM_routeMap (fun s => s.inside = none) entryLine_passed entryLine_exit hf hrm rfl,
    foldlM_append]
  have hscan := @foldlM_seenEntries af rm (f.entries rm) []
  rw [Dict.update_nil_of_nodup (nodup_seenEntry (hf.sorted rm))] at hscan
  rw [show EntryScan.init = { EntryScan.init with entries := [] } from rfl, hscan, bind_eq_bind, bind_some,
    htail _ rfl]
  rfl

end

/-! ## Entries for a prefix-list and a community -/

instance decidableForallAf {P : Af → Prop} [∀ af, Decidable (P af)] : Decidable (∀ af, P af) :=
  decidable_of_iff (P .v4 ∧ P .v6) ⟨fun h af => by cases af; exacts [h.1, h.2], fun h => ⟨h .v4, h .v6⟩⟩

/-- The entry permits just what the prefix-list and the community match. -/
def Entry.isFor (af : Af) (pl community : Str) (e : Entry) : Bool :=
  e.permit ∧ e.clauses.filter (·.rank = 1) = ownClauses af pl community

/-- The numbers of the entries for the two, other than the default entry. -/
def forSeqs (af : Af) (pl community : Str) (es : List (Nat × Entry)) : List Nat :=
  es.filterMap fun x => if x.1 ≠ 65535 ∧ x.2.isFor af pl community then some x.1 else none

/-- The numbers of the entries that the scanner takes for such ones. -/
def seenSeqs (af : Af) (pl community : Str) (es : List (Nat × Entry)) : List Nat :=
  es.filterMap fun x => if x.1 ≠ 65535 ∧ x.2.seen af = some (pl, community) then some x.1 else none

section
variable {af : Af} {pl community : Str} {es : List (Nat × Entry)}

theorem seenSeqs_eq_nil : seenSeqs af pl community es = [] ↔
    ∀ x ∈ es, x.1 ≠ 65535 → x.2.seen af ≠ some (pl, community) := by
  rw [seenSeqs, filterMap_eq_nil_iff]
  refine forall₂_congr fun x _ => ?_
  by_cases h : x.1 ≠ 65535 ∧ x.2.seen af = some (pl, community)
  · rw [if_pos h]
    exact iff_of_false (by simp) fun hno => hno h.1 h.2
  · rw [if_neg h]
    exact iff_of_true rfl fun h1 h2 => h ⟨h1, h2⟩

theorem findRouteMapEntry_seen :
    (findRouteMapEntry (es.filterMap (seenEntry af)) pl community).isSome = true ↔
      seenSeqs af pl community es ≠ [] := by
  rw [findRouteMapEntry, isSome_map, List.find?_isSome, Ne, seenSeqs_eq_nil]
  constructor
  · rintro ⟨y, hy, hd⟩ hno
    obtain ⟨x, hx, hs⟩ := List.mem_filterMap.mp hy
    obtain ⟨v, hv, rfl⟩ := Option.map_eq_some_iff.mp hs
    obtain ⟨hne, he⟩ := of_decide_eq_true hd
    exact hno x hx hne (hv.trans (congrArg some he))
  · intro hex
    by_contra hno
    refine hex fun x hx hne hs => hno ⟨(x.1, pl, community), List.mem_filterMap.mpr ⟨x, hx, ?_⟩,
      decide_eq_true ⟨hne, rfl⟩⟩
    rw [seenEntry, hs]
    rfl

theorem mem_insertSeq_self (seq : Nat) (e : Entry) : (seq, e) ∈ insertSeq seq e es :=
  Dict.get?_eq_some_mem (by rw [get?_insertSeq, if_pos rfl])

/-- Where no entry was seen, the new one is the only one that can be. -/
theorem seenSeqs_insertSeq {seq : Nat} {e : Entry} (hseq : seq ≠ 65535) (hnone : seenSeqs af pl community es = []) :
    seenSeqs af pl community (insertSeq seq e es) ≠ [] ↔ e.seen af = some (pl, community) := by
  rw [seenSeqs_eq_nil] at hnone
  rw [Ne, seenSeqs_eq_nil]
  constructor
  · intro hno
    by_contra he
    refine hno fun x hx hne => ?_
    rcases mem_insertSeq hx with rfl | hx
    · exact he
    · exact hnone x hx hne
  · exact fun he hno => hno _ (mem_insertSeq_self seq e) hseq he

end

/-! ## Convergence -/

/-- The clauses that `__update_allow_route_map_entry` writes. -/
def allowClauses (constants : Constants) (af : Af) (pl community : Str) : List Clause :=
  .matchPrefixList af pl ::
    if ¬ endsWith emptyCommunity community then [.matchCommunity community]
    else match constants.prefixMatchTag with
      | some tag => if tag = [] then [] else [.setTag tag]
      | none => []

/-- The entry that the clauses make of the one that FRR has at the number. -/
def mergedEntry (es : List (Nat × Entry)) (seq : Nat) (clauses : List Clause) : Entry :=
  ⟨true, clauses.foldl Clause.add ((Dict.get? es seq).map Entry.clauses |>.getD [])⟩

/-- An entry for the policy is seen and it is the only one; or none is seen, and the entry at the first number that is free
of seen ones becomes one that is seen, and the only one. -/
def EntryReady (constants : Constants) (af : Af) (pl community : Str) (es : List (Nat × Entry)) : Prop :=
  if seenSeqs af pl community es ≠ [] then (forSeqs af pl community es).length = 1
  else ∀ seq ∈ findNextSeqNumber (Dict.keys (es.filterMap (seenEntry af))) (community ≠ emptyCommunity),
    (mergedEntry es seq (allowClauses constants af pl community)).seen af = some (pl, community) ∧
      (forSeqs af pl community (insertSeq seq
        (mergedEntry es seq (allowClauses constants af pl community)) es)).length = 1

instance (constants : Constants) (af : Af) (pl community : Str) (es : List (Nat × Entry)) :
    Decidable (EntryReady constants af pl community es) := by
  unfold EntryReady
  infer_instance

/-- No rule that is wanted in the prefix-list has blanks at its end: those are not read back. -/
def RulesReady (lib : Addresses) (constants : Constants) (af : Af) (l : List Str) : Prop :=
  ∀ rules ∈ wantedRules lib constants af l, ∀ r ∈ rules, rstrip r = r

instance (lib : Addresses) (constants : Constants) (af : Af) (l : List Str) :
    Decidable (RulesReady lib constants af l) :=
  inferInstanceAs (Decidable (∀ rules ∈ _, _))

/-- The default entry has the action, or it gets it: its first line is the community then. -/
def DefaultReady (action : Str) (es : List (Nat × Entry)) : Prop :=
  ((Dict.get? es 65535).bind readDefault).getD [] = action ∨
    (readDefault (mergedEntry es 65535 [.setCommunity (action ++ " additive")])).getD [] = action

instance (action : Str) (es : List (Nat × Entry)) : Decidable (DefaultReady action es) :=
  inferInstanceAs (Decidable (_ ∨ _))

section
variable {constants : Constants} {f : Frr} {af : Af} {pl community rm action : Str} {cs : List Cmd}

theorem allow_again {g : Frr} (hg : g.Wf) (hrm : IsWord rm) :
    updateAllowRouteMapEntry constants (getText g) af pl community rm = some [] ↔
      seenSeqs af pl community (g.entries rm) ≠ [] := by
  rw [updateAllowRouteMapEntry, parseAllowRouteMapEntries_seen hg hrm, bind_eq_bind, bind_some,
    ← findRouteMapEntry_seen]
  split
  · rename_i hfound
    exact iff_of_true rfl hfound
  · rename_i hfound
    refine iff_of_false (fun h => ?_) hfound
    obtain ⟨seq, -, h⟩ := Option.bind_eq_some_iff.mp h
    cases h

/-- The entries after the first SET, but for the default one. -/
theorem allow_entries (hf : f.Wf) (hrm : IsWord rm)
    (h : updateAllowRouteMapEntry constants (getText f) af pl community rm = some cs) :
    (seenSeqs af pl community (cs.foldl Cmd.onEntries (f.entries rm)) ≠ [] ∧
        (forSeqs af pl community (cs.foldl Cmd.onEntries (f.entries rm))).length = 1) ↔
      EntryReady constants af pl community (f.entries rm) := by
  rw [updateAllowRouteMapEntry, parseAllowRouteMapEntries_seen hf hrm, bind_eq_bind, bind_some] at h
  unfold EntryReady
  split at h
  · rename_i hfound
    cases h
    rw [if_pos (findRouteMapEntry_seen.mp hfound)]
    exact and_iff_right (findRouteMapEntry_seen.mp hfound)
  · rename_i hfound
    have hnone : seenSeqs af pl community (f.entries rm) = [] := by
      by_contra hne
      exact hfound (findRouteMapEntry_seen.mpr hne)
    obtain ⟨seq, hseq, h⟩ := Option.bind_eq_some_iff.mp h
    cases h
    have h65535 : seq ≠ 65535 := mem_seqNumbers (List.mem_of_find?_eq_some hseq)
    have hunseen : ¬ seenSeqs af pl community (f.entries rm) ≠ [] := not_not_intro hnone
    have hentries : ([Cmd.routeMap rm seq (allowClauses constants af pl community)].foldl Cmd.onEntries
        (f.entries rm)) = insertSeq seq (mergedEntry (f.entries rm) seq (allowClauses constants af pl community))
          (f.entries rm) :=
      rfl
    change (seenSeqs af pl community ([Cmd.routeMap rm seq (allowClauses constants af pl community)].foldl _ _) ≠ [] ∧
      _) ↔ _
    rw [hentries, seenSeqs_insertSeq h65535 hnone, if_neg hunseen, hseq]
    exact ⟨fun h seq' hs => Option.some.inj hs ▸ h, fun h => h seq rfl⟩

theorem allow_default (h : updateAllowRouteMapEntry constants (getText f) af pl community rm = some cs)
    (es : List (Nat × Entry)) :
    Dict.get? (cs.foldl Cmd.onEntries es) 65535 = Dict.get? es 65535 := by
  simp only [updateAllowRouteMapEntry, bind_eq_bind, bind_eq_some_iff] at h
  obtain ⟨entries, -, h⟩ := h
  split at h
  · cases h
    rfl
  · obtain ⟨seq, hseq, h⟩ := Option.bind_eq_some_iff.mp h
    cases h
    have h65535 : seq ≠ 65535 := mem_seqNumbers (List.mem_of_find?_eq_some hseq)
    rw [foldl_cons, foldl_nil, Cmd.onEntries, get?_insertSeq, if_neg h65535]

/-- The update of the default entry leaves the others as they are. -/
theorem default_entries (conf : List Str) (es : List (Nat × Entry)) :
    seenSeqs af pl community ((updateDefaultRouteMapEntry conf rm action).foldl Cmd.onEntries es) =
        seenSeqs af pl community es ∧
      forSeqs af pl community ((updateDefaultRouteMapEntry conf rm action).foldl Cmd.onEntries es) =
        forSeqs af pl community es := by
  unfold updateDefaultRouteMapEntry
  split
  · exact ⟨filterMap_insertSeq (fun w => if_neg fun h => h.1 rfl) es,
      filterMap_insertSeq (fun w => if_neg fun h => h.1 rfl) es⟩
  · exact ⟨rfl, rfl⟩

theorem default_again {g : Frr} (hf : f.Wf) (hg : g.Wf) (hrm : IsWord rm) {es : List (Nat × Entry)}
    (hes : Dict.get? es 65535 = Dict.get? (f.entries rm) 65535)
    (he : g.entries rm = (updateDefaultRouteMapEntry (getText f) rm action).foldl Cmd.onEntries es) :
    updateDefaultRouteMapEntry (getText g) rm action = [] ↔ DefaultReady action (f.entries rm) := by
  have hnil {conf : List Str} : updateDefaultRouteMapEntry conf rm action = [] ↔
      parseDefaultActionRouteMapEntry conf rm = action := by
    unfold updateDefaultRouteMapEntry
    split
    · rename_i hne
      exact iff_of_false (by simp) hne
    · rename_i heq
      exact iff_of_true rfl (not_not.mp heq)
  rw [hnil, parseDefaultActionRouteMapEntry_getText hg hrm, he, DefaultReady]
  by_cases hold : parseDefaultActionRouteMapEntry (getText f) rm = action
  · rw [hnil.mpr hold, foldl_nil, hes]
    rw [parseDefaultActionRouteMapEntry_getText hf hrm] at hold
    exact iff_of_true hold (.inl hold)
  · have hnew : (updateDefaultRouteMapEntry (getText f) rm action).foldl Cmd.onEntries es =
        insertSeq 65535 (mergedEntry es 65535 [.setCommunity (action ++ " additive")]) es := by
      rw [updateDefaultRouteMapEntry, if_pos hold]
      rfl
    rw [parseDefaultActionRouteMapEntry_getText hf hrm] at hold
    rw [hnew, get?_insertSeq, if_pos rfl, bind_some, mergedEntry, hes]
    exact ⟨.inr, fun h => h.resolve_left hold⟩

end

section
variable {lib : Addresses} {constants : Constants} {f : Frr} {key : Str} {data : Row} {p : Policy} {cs : List Cmd}

/-- A SET has nothing to do, if none of its parts has. -/
theorem updatePolicy_eq_nil {conf : List Str} {action : Str} {ns : Names} (hns : generateNames p = ns) :
    updatePolicy lib constants conf p (prefixes data "prefixes_v4") (prefixes data "prefixes_v6") action = some [] ↔
      updateCommunity conf ns.community p.communityValue = [] ∧
      ∀ af, updatePrefixList lib constants conf af (ns.pl af) (prefixesOf data af) = some [] ∧
        updateAllowRouteMapEntry constants conf af (ns.pl af) ns.community (ns.rm af) = some [] ∧
        updateDefaultRouteMapEntry conf (ns.rm af) action = [] := by
  rw [updatePolicy_eq_some_iff hns]
  constructor
  · rintro ⟨lists, entries, h, hnil⟩
    simp only [setParts, flatMap_cons, nil_eq, append_eq_nil_iff] at hnil
    obtain ⟨l4, l6, hcomm, h4, h6, d4, d6, -⟩ := hnil
    refine ⟨hcomm, ?_⟩
    rintro (_ | _)
    · exact ⟨l4 ▸ h.update .v4, h4 ▸ h.allow .v4, d4⟩
    · exact ⟨l6 ▸ h.update .v6, h6 ▸ h.allow .v6, d6⟩
  · rintro ⟨hcomm, hall⟩
    refine ⟨fun _ => [], fun _ => [], ⟨fun af => (hall af).1, fun af => (hall af).2.1⟩, ?_⟩
    simp [setParts, hcomm, fun af => (hall af).2.2]

end

/-- Someone else denies routes ahead of the manager's entries and has an entry of their own among them. -/
def foreign : Frr :=
  { Frr.empty with
    routeMaps := [("ALLOW_LIST_DEPLOYMENT_ID_5_V4",
      [(5, ⟨false, []⟩), (20, ⟨true, [.description "theirs", .otherMatch "tag 7"]⟩)])] }

theorem wf_foreign : foreign.Wf where
  noPrefixList := nofun
  noCommunityList := nofun
  prefixLists := nodup_nil
  communityLists := nodup_nil
  routeMaps := by decide
  prefixListWords := nofun
  communityListWords := nofun
  routeMapWords := by decide +kernel
  sorted name := by
    rw [Frr.entries, foreign, Dict.get?_cons]
    split
    · decide
    · exact List.Pairwise.nil

end Sonic.AllowList
