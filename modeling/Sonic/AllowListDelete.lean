import Sonic.AllowListAgain

/-! # A DEL after any run of SETs

The prefix-lists of a SET stay whatever other SETs are committed after it. A DEL takes out what the
manager finds for its key, and with it what belongs to every key whose policy has the same label. -/

namespace Sonic.AllowList
open List Option

open Str

def Policy.label (p : Policy) : Str := p.scope ++ "_COMMUNITY_" ++ p.communityValue

theorem pl_inj {p q : Policy} (af : Af) : (generateNames p).pl af = (generateNames q).pl af ↔ p.label = q.label := by
  have hpl (r : Policy) (t : Str) : "PL_ALLOW_LIST_".toList ++ r.scope ++ "_COMMUNITY_".toList ++ r.communityValue ++
      t =
      "PL_ALLOW_LIST_".toList ++ (r.label ++ t) := by simp only [Policy.label, append_assoc]
  cases af with
  | v4 =>
    show _ ++ _ ++ _ ++ _ ++ "_V4".toList = _ ++ _ ++ _ ++ _ ++ "_V4".toList ↔ _
    rw [hpl, hpl]
    simp_all
  | v6 =>
    show _ ++ _ ++ _ ++ _ ++ "_V6".toList = _ ++ _ ++ _ ++ _ ++ "_V6".toList ↔ _
    rw [hpl, hpl]
    simp_all

theorem community_inj {p q : Policy} (hne : (generateNames p).community ≠ emptyCommunity)
    (h : (generateNames p).community = (generateNames q).community) : p.label = q.label := by
  have hcommunity (r : Policy) : "COMMUNITY_ALLOW_LIST_" ++ r.scope ++ "_COMMUNITY_" ++ r.communityValue =
      "COMMUNITY_ALLOW_LIST_" ++ r.label := by simp only [Policy.label, append_assoc]
  have hnot {r : Policy} (hr : (generateNames r).community ≠ emptyCommunity) : ¬ r.communityValue = emptyCommunity :=
    fun he => hr (by rw [community_eq, if_pos he])
  have hne' : (generateNames q).community ≠ emptyCommunity := h ▸ hne
  rw [community_eq, community_eq, if_neg (hnot hne), if_neg (hnot hne'), hcommunity, hcommunity] at h
  exact append_cancel_left h

theorem af_of_rm {p q : Policy} {af af' : Af} (h : (generateNames p).rm af = (generateNames q).rm af') : af = af' := by
  have hlast (r : Policy) : ∀ af, ((generateNames r).rm af).getLast? = if af = .v4 then some '4' else some '6' := by
    rintro (_ | _)
    · exact List.getLast?_append_cons _ _ _
    · exact List.getLast?_append_cons _ _ _
  cases af <;> cases af' <;> grind

/-! ## Installed policies -/

/-- The policy has rules in one of its prefix-lists. -/
def Listed (f : Frr) (p : Policy) : Prop := ∃ af, f.rules af ((generateNames p).pl af) ≠ []

section
variable {lib : Addresses} {constants : Constants} {f g : Frr} {key : Str} {data : Row} {p q : Policy} {cs : List Cmd}
  {lists entries : Af → List Cmd}

theorem prefixesOf_ne_nil (hval : setHandlerValidate lib key data = true) : ∃ af, prefixesOf data af ≠ [] := by
  by_contra hno
  have hnil (af : Af) : prefixesOf data af = [] := not_not.mp fun hne => hno ⟨af, hne⟩
  have h4 : prefixes data "prefixes_v4" = [] := hnil .v4
  have h6 : prefixes data "prefixes_v6" = [] := hnil .v6
  grind [setHandlerValidate]

theorem insertSeq_ne_nil {β : Type*} (seq : Nat) (v : β) (l : List (Nat × β)) : insertSeq seq v l ≠ [] := by
  unfold insertSeq
  split
  · exact cons_ne_nil _ _
  · split
    · exact cons_ne_nil _ _
    · split <;> exact cons_ne_nil _ _

theorem mapM_ne_nil {α β : Type*} {k : α → Option β} {l : List α} {l' : List β} (hl : l ≠ []) (h : l.mapM k = some l') :
    l' ≠ [] := by
  obtain ⟨a, l, rfl⟩ := exists_cons_of_ne_nil hl
  rw [mapM_cons] at h
  obtain ⟨b, -, h⟩ := Option.bind_eq_some_iff.mp h
  obtain ⟨bs, -, h⟩ := Option.bind_eq_some_iff.mp h
  cases h
  exact cons_ne_nil _ _

theorem foldl_prefixList_ne_nil (af : Af) (pl : Str) {rules : List Str} (hne : rules ≠ []) (cs : List Cmd)
    (old : List (Nat × Str)) :
    (cs ++ rules.zipIdx.map fun x => Cmd.prefixList af pl (10 + 10 * x.2) x.1).foldl
      Cmd.onRules old ≠ [] := by
  obtain ⟨init, last, rfl⟩ := (eq_nil_or_concat rules).resolve_left hne
  rw [concat_eq_append, zipIdx_append, map_append, ← append_assoc, foldl_append]
  exact insertSeq_ne_nil _ _ _

/-- A SET with prefixes of the family leaves rules behind. -/
theorem rules_ne_nil (hf : f.Wf) {af : Af} {pl : Str} {l : List Str} (hpl : IsWord pl)
    (h : updatePrefixList lib constants (getText f) af pl l = some cs) (hl : l ≠ []) :
    cs.foldl Cmd.onRules (f.rules af pl) ≠ [] := by
  rw [updatePrefixList] at h
  obtain ⟨allow, hallow, h⟩ := Option.bind_eq_some_iff.mp h
  rw [isPrefixListValid_getText hf lib hpl] at h
  obtain ⟨⟨exist, correct⟩, hvalid, h⟩ := Option.bind_eq_some_iff.mp h
  dsimp only at h
  cases correct with
  | true =>
    cases h
    intro hnil
    rw [foldl_nil] at hnil
    rw [hnil, isPrefixListValid_nil] at hvalid
    cases hvalid
  | false =>
    rw [if_neg Bool.false_ne_true] at h
    obtain ⟨rules, hrules, h⟩ := Option.bind_eq_some_iff.mp h
    cases h
    refine foldl_prefixList_ne_nil af pl (mapM_ne_nil (fun hnil => ?_) hrules) _ _
    exact mapM_ne_nil hl hallow (append_eq_nil_iff.mp hnil).2

theorem Committed.listed (hc : Committed lib constants data (generateNames p) p.communityValue f f g lists entries)
    (hkey : IsWord key) (hp : parseKey key = some p)
    (hval : setHandlerValidate lib key data = true) (hf : f.Wf) : Listed g p := by
  obtain ⟨af, hl⟩ := prefixesOf_ne_nil hval
  refine ⟨af, ?_⟩
  rw [hc.rules af]
  exact rules_ne_nil hf ((areNames_generateNames hkey hp).pl af).2 (hc.update af) hl

theorem Committed.keeps (hc : Committed lib constants data (generateNames p) p.communityValue f f g lists entries)
    (hkey : IsWord key) (hp : parseKey key = some p)
    (hval : setHandlerValidate lib key data = true) (hf : f.Wf) (hq : Listed f q) : Listed g q := by
  by_cases hlabel : p.label = q.label
  · obtain ⟨af, hrules⟩ := hc.listed hkey hp hval hf
    exact ⟨af, (pl_inj af).mpr hlabel ▸ hrules⟩
  · obtain ⟨af, hrules⟩ := hq
    refine ⟨af, ?_⟩
    rwa [hc.otherRules af _ fun he => hlabel ((pl_inj af).mp he)]

end

/-- A SET that is accepted, with a key that can be part of names. -/
def IsSet (lib : Addresses) (m : Msg) (p : Policy) : Prop :=
  ∃ key data, m = .set key data ∧ setHandlerValidate lib key data = true ∧ IsWord key ∧ parseKey key = some p

theorem listed_run {lib : Addresses} {constants : Constants} (hen : constants.enabled = true) :
    ∀ {ms : List Msg} {f g : Frr}, f.Wf → (∀ m ∈ ms, ∃ p, IsSet lib m p) → runnerEach lib constants f ms = some g →
      g.Wf ∧ ∀ m p, IsSet lib m p → (Listed f p ∨ m ∈ ms) → Listed g p
  | [], f, g, hf, _, h => by
    cases h
    exact ⟨hf, fun m p _ hq => hq.resolve_right not_mem_nil⟩
  | m :: ms, f, g, hf, hms, h => by
    obtain ⟨p, key, data, rfl, hval, hkey, hp⟩ := hms m mem_cons_self
    obtain ⟨cs, hcs, h⟩ := Option.bind_eq_some_iff.mp h
    obtain ⟨lists, entries, hc⟩ := committed hkey hp hen hval hf hcs
    obtain ⟨hg, hinst⟩ := listed_run hen hc.wf (fun m' hm' => hms m' (mem_cons_of_mem _ hm')) h
    refine ⟨hg, fun m' q hset' hq => hinst m' q hset' ?_⟩
    rcases hq with hq | hq
    · exact .inl (hc.keeps hkey hp hval hf hq)
    · rcases List.mem_cons.mp hq with rfl | hq
      · obtain ⟨_, _, he, -, -, hp'⟩ := hset'
        cases he
        obtain rfl : p = q := Option.some.inj (hp.symm.trans hp')
        exact .inl (hc.listed hkey hp hval hf)
      · exact .inr hq

section
variable {lib : Addresses} {conf : List Str} {af : Af} {pl community rm : Str} {cs : List Cmd}

theorem removePrefixList_target (h : removePrefixList lib conf af pl = some cs) :
    ∀ c ∈ cs, c.target = .prefixList af pl := by
  obtain ⟨⟨exist, _⟩, -, h⟩ := Option.bind_eq_some_iff.mp h
  cases h
  intro c hc
  cases exist with
  | false => cases hc
  | true => rw [List.mem_singleton.mp hc]; rfl

theorem removeCommunity_target : ∀ c ∈ removeCommunity conf community, c.target = .communityList community := by
  intro c hc
  unfold removeCommunity at hc
  split at hc
  · cases hc
  · split at hc
    · rw [List.mem_singleton.mp hc]; rfl
    · cases hc

theorem removeAllowRouteMapEntry_target (h : removeAllowRouteMapEntry conf af pl community rm = some cs) :
    ∀ c ∈ cs, c.target = .routeMap rm := by
  obtain ⟨entries, -, h⟩ := Option.bind_eq_some_iff.mp h
  cases h
  intro c hc
  split at hc
  · rw [List.mem_singleton.mp hc]; rfl
  · cases hc

end

/-- The same parts as those of a SET, the entries first. -/
def delParts (ns : Names) (lists entries defaults : Af → List Cmd) (community : List Cmd) : List (Target × List Cmd) :=
  [(.routeMap (ns.rm .v4), entries .v4), (.routeMap (ns.rm .v6), entries .v6),
    (.prefixList .v4 (ns.pl .v4), lists .v4), (.prefixList .v6 (ns.pl .v6), lists .v6),
    (.communityList ns.community, community),
    (.routeMap (ns.rm .v4), defaults .v4), (.routeMap (ns.rm .v6), defaults .v6)]

/-- A DEL that reads `f` is written to `s`. -/
structure Withdrawn (lib : Addresses) (ns : Names) (action : Str) (f s g : Frr) (lists entries : Af → List Cmd) :
    Prop extends
    Written ns lists entries (fun af => updateDefaultRouteMapEntry (getText f) (ns.rm af) action)
      (removeCommunity (getText f) ns.community) s g where
  lists_eq : ∀ af, removePrefixList lib (getText f) af (ns.pl af) = some (lists af)
  entries_eq : ∀ af, removeAllowRouteMapEntry (getText f) af (ns.pl af) ns.community (ns.rm af) = some (entries af)

theorem withdrawn {lib : Addresses} {f s : Frr} {p : Policy} {action : Str} {cs : List Cmd}
    (hn : (generateNames p).AreNames) (hs : s.Wf) (h : removePolicy lib (getText f) p action = some cs) :
    ∃ lists entries, Withdrawn lib (generateNames p) action f s (cs.foldl Frr.write s) lists entries := by
  unfold removePolicy at h
  obtain ⟨rmV4, hr4, h⟩ := Option.bind_eq_some_iff.mp h
  obtain ⟨rmV6, hr6, h⟩ := Option.bind_eq_some_iff.mp h
  obtain ⟨plV4, h4, h⟩ := Option.bind_eq_some_iff.mp h
  obtain ⟨plV6, h6, h⟩ := Option.bind_eq_some_iff.mp h
  have hcs : cs = (delParts (generateNames p) (Af.rec plV4 plV6) (Af.rec rmV4 rmV6)
      (fun af => updateDefaultRouteMapEntry (getText f) ((generateNames p).rm af) action)
      (removeCommunity (getText f) (generateNames p).community)).flatMap Prod.snd := by
    cases h
    simp [delParts, Names.rm]
  rw [hcs]
  refine ⟨Af.rec plV4 plV6, Af.rec rmV4 rmV6, written ?_ (rm_ne p) hn (fun t => ?_) hs, ?_, ?_⟩
  · simp only [Parts, setParts, forall_mem_cons]
    exact ⟨removePrefixList_target h4, removePrefixList_target h6, removeCommunity_target,
      removeAllowRouteMapEntry_target hr4,
      removeAllowRouteMapEntry_target hr6, updateDefaultRouteMapEntry_target, updateDefaultRouteMapEntry_target, by simp⟩
  · cases t <;> simp [delParts, setParts, filter_cons]
  · rintro (_ | _)
    · exact h4
    · exact h6
  · rintro (_ | _)
    · exact hr4
    · exact hr6

section
variable {lib : Addresses} {f : Frr} {af : Af} {pl community rm : Str} {cs : List Cmd}

theorem remove_rules (hf : f.Wf) (hpl : IsWord pl) (h : removePrefixList lib (getText f) af pl = some cs)
    (rules : List (Nat × Str)) :
    cs.foldl Cmd.onRules rules = if f.rules af pl = [] then rules else [] := by
  rw [removePrefixList, isPrefixListValid_getText hf lib hpl] at h
  obtain ⟨⟨exist, correct⟩, hvalid, h⟩ := Option.bind_eq_some_iff.mp h
  cases h
  by_cases hnil : f.rules af pl = []
  · rw [if_pos hnil]
    rw [hnil, isPrefixListValid_nil] at hvalid
    cases hvalid
    rfl
  · obtain rfl : exist = true := isPrefixListValid_exist hnil hvalid
    rw [if_neg hnil]
    rfl

theorem remove_values {conf : List Str} (hne : community ≠ emptyCommunity) (values : List Str) :
    (removeCommunity conf community).foldl Cmd.onValues values =
      if (isCommunityPresented conf community).isSome then [] else values := by
  rw [removeCommunity, if_neg hne]
  split
  · rfl
  · rfl

theorem remove_entries (hf : f.Wf) (hrm : IsWord rm)
    (h : removeAllowRouteMapEntry (getText f) af pl community rm = some cs)
    (es : List (Nat × Entry)) : cs.foldl Cmd.onEntries es =
      es.filter fun x => findRouteMapEntry ((f.entries rm).filterMap (seenEntry af)) pl community ≠ some x.1 := by
  rw [removeAllowRouteMapEntry, parseAllowRouteMapEntries_seen hf hrm, bind_eq_bind, bind_some] at h
  cases hfind : findRouteMapEntry ((f.entries rm).filterMap (seenEntry af)) pl community with
  | none =>
    rw [hfind] at h
    cases h
    exact (List.filter_eq_self.mpr fun x _ => by simp).symm
  | some seq =>
    rw [hfind] at h
    cases h
    exact filter_congr fun x _ => by simp [eq_comm]

end

/-! ## What is left -/

/-- The entries for the prefix-list and the community, other than the default entry. -/
def entriesFor (af : Af) (pl community : Str) (es : List (Nat × Entry)) : List (Nat × Entry) :=
  es.filter fun x => x.1 ≠ 65535 ∧ x.2.isFor af pl community

theorem mem_forSeqs {af : Af} {es : List (Nat × Entry)} {pl community : Str} {seq : Nat} :
    seq ∈ forSeqs af pl community es ↔ ∃ x ∈ es, x.1 = seq ∧ x.1 ≠ 65535 ∧ x.2.isFor af pl community = true := by
  rw [forSeqs, List.mem_filterMap]
  constructor
  · rintro ⟨x, hx, h⟩
    split at h
    · rename_i hok
      cases h
      exact ⟨x, hx, rfl, hok⟩
    · cases h
  · rintro ⟨x, hx, rfl, hok⟩
    exact ⟨x, hx, if_pos hok⟩

theorem entriesFor_default (af : Af) (conf : List Str) (rm action : Str) (es : List (Nat × Entry))
    (pl community : Str) :
    entriesFor af pl community ((updateDefaultRouteMapEntry conf rm action).foldl Cmd.onEntries es) =
      entriesFor af pl community es := by
  rw [entriesFor, entriesFor, ← filterMap_eq_filter]
  unfold updateDefaultRouteMapEntry
  split
  · exact filterMap_insertSeq (fun w => by simp [Option.guard]) es
  · rfl

/-! ## The entry that is found -/

/-- The scanner has the prefix-list from a line of the entry. -/
theorem scanned_pl {af : Af} : ∀ {cs : List Clause} {acc : Option Str × Str} {pl : Str},
    (scanned af acc cs).1 = some pl → acc.1 = some pl ∨ ∃ c ∈ cs, startsWith (matchPlAllowList af) (strip c.text) =
      true ∧
      (strip c.text).drop (matchPlAllowList af).length = pl
  | [], _, _, h => .inl h
  | c :: cs, acc, pl, h => by
    unfold scanned at h
    split at h
    · rename_i hpl
      rcases scanned_pl h with h | ⟨d, hd, hrest⟩
      · exact .inr ⟨c, mem_cons_self, hpl, Option.some.inj h⟩
      · exact .inr ⟨d, mem_cons_of_mem _ hd, hrest⟩
    · split at h
      · rcases scanned_pl h with h | ⟨d, hd, hrest⟩
        · exact .inl h
        · exact .inr ⟨d, mem_cons_of_mem _ hd, hrest⟩
      · exact .inl h

theorem rank_of_startsWith {af : Af} {c : Clause} (h : startsWith (matchPlAllowList af) (strip c.text) = true) :
    c.rank = 1 := by
  have hm : first c.text = some 'm' := by
    cases af with
    | v4 => exact first_of_strip h
    | v6 => exact first_of_strip h
  cases c with
  | matchPrefixList | matchCommunity | otherMatch => rfl
  | description text =>
    rw [show first (Clause.description text).text = some 'd' from first_blank_cons (by decide)] at hm
    cases hm
  | setTag | setCommunity | otherSet => exact absurd hm (first_of_rank (Nat.lt_succ_self 1))
  | call | onMatch => exact absurd hm (first_of_rank (Nat.one_lt_succ_succ _))

theorem strip_matchPrefixList (af : Af) {pl : Str} (hpl : IsName pl) :
    strip (Clause.matchPrefixList af pl).text = matchPlAllowList af ++ pl := by
  have htext : (Clause.matchPrefixList af pl).text = ' ' :: (matchPlAllowList af ++ pl) := by cases af <;> rfl
  obtain ⟨t, ht⟩ : ∃ t, matchPlAllowList af = 'm' :: t := by cases af <;> exact ⟨_, rfl⟩
  rw [htext, strip_cons_of_isSpace (by decide), ht]
  exact stripped_append (by decide) hpl.tidy.1 hpl.tidy.2

/-- An entry for one prefix-list is not taken for an entry of another. -/
theorem pl_of_seen {af : Af} {e : Entry} {pl pl' community community' : Str} (hpl : IsName pl) (hc : IsName community)
    (hfor : e.isFor af pl community = true) (hseen : e.seen af = some (pl', community')) : pl' = pl := by
  obtain ⟨hpermit, hclauses⟩ := of_decide_eq_true hfor
  rw [Entry.seen, if_pos hpermit] at hseen
  obtain ⟨name, hname, he⟩ := Option.map_eq_some_iff.mp hseen
  cases he
  rcases scanned_pl hname with h | ⟨c, hmem, hstarts, hdrop⟩
  · cases h
  have hown : c ∈ ownClauses af pl community := by
    rw [← hclauses]
    exact List.mem_filter.mpr ⟨hmem, decide_eq_true (rank_of_startsWith hstarts)⟩
  rw [← hdrop]
  rcases List.mem_cons.mp hown with rfl | hcomm
  · rw [strip_matchPrefixList af hpl, drop_left]
  · split at hcomm
    · cases hcomm
    · rw [List.mem_singleton.mp hcomm] at hstarts
      have hstrip : strip (Clause.matchCommunity community).text = "match community " ++ community := by
        have htext : (Clause.matchCommunity community).text = ' ' :: ("match community " ++ community) := rfl
        rw [htext, strip_cons_of_isSpace (by decide)]
        exact stripped_append (c := 'm') (by decide) hc.tidy.1 hc.tidy.2
      rw [hstrip] at hstarts
      cases af <;> cases hstarts

theorem find?_seenSeqs {af : Af} {pl community : Str} : ∀ (es : List (Nat × Entry)),
    findRouteMapEntry (es.filterMap (seenEntry af)) pl community = (seenSeqs af pl community es).head?
  | [] => rfl
  | x :: es => by
    have ih := @find?_seenSeqs af pl community es
    rw [findRouteMapEntry] at ih ⊢
    rw [seenSeqs, filterMap_cons, filterMap_cons, seenEntry]
    cases hs : x.2.seen af with
    | none =>
      rw [Option.map_none, if_neg (by simp)]
      exact ih
    | some v =>
      rw [Option.map_some]
      dsimp only
      rw [find?_cons]
      by_cases hok : x.1 ≠ 65535 ∧ some v = some (pl, community)
      · rw [if_pos hok, decide_eq_true ⟨hok.1, Option.some.inj hok.2⟩]
        rfl
      · rw [if_neg hok, decide_eq_false fun h => hok ⟨h.1, congrArg some h.2⟩]
        exact ih

section
variable {af : Af} {es : List (Nat × Entry)} {pl community : Str}

theorem forSeqs_removed {n : Option Nat} :
    forSeqs af pl community (es.filter fun x => n ≠ some x.1) = [] ↔
      ∀ seq ∈ forSeqs af pl community es, n = some seq := by
  rw [List.eq_nil_iff_forall_not_mem]
  refine forall_congr' fun seq => ?_
  rw [mem_forSeqs, mem_forSeqs]
  constructor
  · rintro hno ⟨x, hx, rfl, hok⟩
    by_contra hn
    exact hno ⟨x, List.mem_filter.mpr ⟨hx, decide_eq_true hn⟩, rfl, hok⟩
  · rintro hall ⟨x, hx, rfl, hok⟩
    obtain ⟨hx, hn⟩ := List.mem_filter.mp hx
    exact of_decide_eq_true hn (hall ⟨x, hx, rfl, hok⟩)

theorem entriesFor_removed (hs : es.Pairwise fun a b => a.1 < b.1) {pl' community' : Str} (hpl' : IsName pl')
    (hc' : IsName community') (hne : pl ≠ pl') :
    entriesFor af pl' community' (es.filter fun x => (seenSeqs af pl community es).head? ≠ some x.1) =
      entriesFor af pl' community' es := by
  have hnodup : (Dict.keys es).Nodup := List.pairwise_map.mpr (hs.imp Nat.ne_of_lt)
  rw [entriesFor, entriesFor, List.filter_filter]
  refine filter_congr fun y hy => ?_
  by_cases hq : y.1 ≠ 65535 ∧ y.2.isFor af pl' community'
  · -- An entry with the number of the removed one is that entry.
    have hnum : (seenSeqs af pl community es).head? ≠ some y.1 := fun he => by
      have hmem := List.mem_of_mem_head? he
      obtain ⟨x, hx, hsome⟩ := List.mem_filterMap.mp hmem
      split at hsome
      · rename_i hok
        have hxy : x.1 = y.1 := Option.some.inj hsome
        obtain rfl : y = x := Prod.ext hxy.symm (Option.some.inj
          ((Dict.get?_of_nodup hnodup hy).symm.trans (hxy ▸ Dict.get?_of_nodup hnodup hx)))
        exact hne (pl_of_seen hpl' hc' hq.2 hok.2)
      · cases hsome
    simp [hq, hnum]
  · simp [hq]

end

/-- Nothing of a policy is there. -/
structure Removed (f : Frr) (ns : Names) : Prop where
  lists : ∀ af, f.rules af (ns.pl af) = []
  communityList : ns.community ≠ emptyCommunity → f.values ns.community = []
  entries : ∀ af, forSeqs af (ns.pl af) ns.community (f.entries (ns.rm af)) = []

/-- All of a policy is there as it was. -/
structure Unchanged (f g : Frr) (ns : Names) : Prop where
  lists : ∀ af, g.rules af (ns.pl af) = f.rules af (ns.pl af)
  communityList : ns.community ≠ emptyCommunity → g.values ns.community = f.values ns.community
  entries : ∀ af, entriesFor af (ns.pl af) ns.community (g.entries (ns.rm af)) =
    entriesFor af (ns.pl af) ns.community (f.entries (ns.rm af))

/-- The manager finds all that is there for the policy: each entry is the first one that the scanner takes for it, and a
community-list is seen. -/
structure Found (f : Frr) (ns : Names) : Prop where
  entries : ∀ af, ∀ seq ∈ forSeqs af (ns.pl af) ns.community (f.entries (ns.rm af)),
    (seenSeqs af (ns.pl af) ns.community (f.entries (ns.rm af))).head? = some seq
  communityList : ns.community ≠ emptyCommunity →
    f.values ns.community = [] ∨ (isCommunityPresented (getText f) ns.community).isSome = true

instance (f : Frr) (ns : Names) : Decidable (Found f ns) :=
  decidable_of_iff (_ ∧ _) ⟨fun h => ⟨h.1, h.2⟩, fun h => ⟨h.entries, h.communityList⟩⟩

section
variable {lib : Addresses} {f g : Frr} {ns : Names} {action : Str} {lists entries : Af → List Cmd}
  (hw : Withdrawn lib ns action f f g lists entries) (hf : f.Wf) (hn : ns.AreNames)
include hw hf hn

theorem Withdrawn.entries_left (af : Af) : g.entries (ns.rm af) =
    (updateDefaultRouteMapEntry (getText f) (ns.rm af) action).foldl Cmd.onEntries ((f.entries (ns.rm af)).filter
      fun x => (seenSeqs af (ns.pl af) ns.community (f.entries (ns.rm af))).head? ≠ some x.1) := by
  rw [hw.routeMaps af, remove_entries hf (hn.rm af).2 (hw.entries_eq af), find?_seenSeqs]

theorem Withdrawn.no_rules (af : Af) : g.rules af (ns.pl af) = [] := by
  rw [hw.rules af, remove_rules hf (hn.pl af).2 (hw.lists_eq af), ite_eq_right_iff]
  exact id

theorem Withdrawn.removed_iff : Removed g ns ↔ Found f ns := by
  have hvalues (hne : ns.community ≠ emptyCommunity) : g.values ns.community = [] ↔
      f.values ns.community = [] ∨ (isCommunityPresented (getText f) ns.community).isSome = true := by
    rw [hw.values, remove_values hne, ite_eq_left_iff, or_iff_not_imp_right]
  have hentries (af : Af) : forSeqs af (ns.pl af) ns.community (g.entries (ns.rm af)) = [] ↔
      ∀ seq ∈ forSeqs af (ns.pl af) ns.community (f.entries (ns.rm af)),
        (seenSeqs af (ns.pl af) ns.community (f.entries (ns.rm af))).head? = some seq := by
    rw [hw.entries_left hf hn af, (default_entries _ _).2, forSeqs_removed]
  constructor
  · rintro ⟨-, hcomm, hent⟩
    exact ⟨fun af => (hentries af).mp (hent af), fun hne => (hvalues hne).mp (hcomm hne)⟩
  · rintro ⟨hent, hcomm⟩
    exact ⟨hw.no_rules hf hn, fun hne => (hvalues hne).mpr (hcomm hne), fun af => (hentries af).mpr (hent af)⟩

end

theorem Withdrawn.unchanged {lib : Addresses} {f g : Frr} {p q : Policy} {action : Str} {lists entries : Af → List Cmd}
    (hw : Withdrawn lib (generateNames p) action f f g lists entries) (hf : f.Wf) (hn : (generateNames p).AreNames)
    (hnq : (generateNames q).AreNames) (hlabel : p.label ≠ q.label) : Unchanged f g (generateNames q) := by
  have hpl (af : Af) : (generateNames p).pl af ≠ (generateNames q).pl af := fun he => hlabel ((pl_inj af).mp he)
  refine ⟨fun af => hw.otherRules af _ (hpl af), fun hne => ?_, fun af => ?_⟩
  · exact hw.otherValues _ fun he => hlabel (community_inj (he ▸ hne) he)
  · by_cases hsame : (generateNames p).rm af = (generateNames q).rm af
    · rw [← hsame, hw.entries_left hf hn af, entriesFor_default]
      exact entriesFor_removed (hf.sorted _) (hnq.pl af) hnq.community (hpl af)
    · have hother (af' : Af) : (generateNames p).rm af' ≠ (generateNames q).rm af :=
        fun he => hsame ((af_of_rm he) ▸ he)
      rw [hw.otherRouteMaps _ hother]

def twoSets : List Msg := [.set "DEPLOYMENT_ID|5|1010:2020" setBoth, .set "DEPLOYMENT_ID|5" setBoth]

theorem isSet_twoSets : IsSet plainAddress (.set "DEPLOYMENT_ID|5|1010:2020" setBoth) ⟨5, "1010:2020", []⟩ ∧
    IsSet plainAddress (.set "DEPLOYMENT_ID|5" setBoth) ⟨5, "empty", []⟩ :=
  ⟨⟨_, _, rfl, by decide +kernel, by decide, rfl⟩, ⟨_, _, rfl, by decide +kernel, by decide, rfl⟩⟩

theorem twoSets_isSet : ∀ m ∈ twoSets, ∃ p, IsSet plainAddress m p := fun m hm => by
  rcases List.mem_cons.mp hm with rfl | hm
  · exact ⟨_, isSet_twoSets.1⟩
  · rw [List.mem_singleton.mp hm]
    exact ⟨_, isSet_twoSets.2⟩

end Sonic.AllowList
