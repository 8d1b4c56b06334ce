import Sonic.AllowListNames
import Sonic.Run

/-! # Which accepted messages are handled

`__set_handler_validate` and `__del_handler_validate` look at the key with one regular expression
and at the prefixes with netaddr. The handlers take both apart with other means, which raise for
some of what was accepted. -/

namespace Sonic.AllowList
open List Option

open Str

variable {pl rm pfx : Str} {af : Af}

def afterId (key : Str) : Str := (key.drop "DEPLOYMENT_ID|".length).dropWhile Char.isDigit

def keyParses (key : Str) : Bool :=
  !contains "NEIGHBOR_TYPE" key || startsWith "|NEIGHBOR_TYPE|" (afterId key)

theorem keyRe_spec {key : Str} (h : keyRe key = true) : ∃ id rest, key = "DEPLOYMENT_ID|" ++ (id ++ rest) ∧ id ≠ [] ∧
    id.all Char.isDigit = true ∧ afterId key = rest ∧ (atEnd rest = true ∨ ∃ r, rest = '|' :: r) := by
  rw [keyRe, Bool.and_eq_true] at h
  obtain ⟨hstart, h⟩ := h
  obtain ⟨t, rfl⟩ := startsWith_iff.mp hstart
  have hdrop : ("DEPLOYMENT_ID|" ++ t).drop "DEPLOYMENT_ID|".length = t := rfl
  rw [hdrop] at h
  have hrest : t.drop (t.takeWhile Char.isDigit).length = t.dropWhile Char.isDigit := by
    grind [takeWhile_append_dropWhile]
  dsimp only at h
  rw [hrest] at h
  simp only [Bool.and_eq_true, Bool.or_eq_true] at h
  refine ⟨t.takeWhile Char.isDigit, t.dropWhile Char.isDigit, by simp_all, of_decide_eq_true h.1,
    all_takeWhile, by rw [afterId, hdrop], ?_⟩
  rcases h.2 with (h | h) | h
  · exact .inl h
  · obtain ⟨r, hr⟩ := startsWith_iff.mp h.1.1
    grind
  · obtain ⟨r, hr⟩ := startsWith_iff.mp h.1 <;> grind

theorem strip_newline {s : Str} (hn : s ≠ []) (h : IsWord s) : strip (s ++ ['\n']) = s := by
  have hl : lstrip (s ++ ['\n']) = s ++ ['\n'] := by
    cases s with
    | nil => simp_all
    | cons c s => exact dropWhile_cons_of_neg (by simp [h c mem_cons_self])
  rw [strip, hl, rstrip, rdropWhile_concat_pos _ _ _ (by decide)]
  exact h.rstrip_eq

theorem int_digits {id t : Str} (hn : id ≠ []) (hd : id.all Char.isDigit = true) (ht : t = [] ∨ t = ['\n']) :
    (int (id ++ t)).isSome = true := by grind [int_of_isDigit, int_strip, strip_newline, isWord_of_isDigit]

theorem int_eq_none {s : Str} (h : '|' ∈ s) : int s = none := by
  have hdigits : ∀ {t : Str}, '|' ∈ t → digits t = none := fun {t} ht => by
    rw [← join_split '_' t] at ht
    obtain ⟨p, hp, hc⟩ := (mem_join ht).resolve_left (by decide)
    rw [digits, if_neg fun hall => ?_]
    have hd := (of_decide_eq_true (List.all_eq_true.mp hall p hp)).2
    grind
  have hs := mem_strip (by decide) h
  rw [int]
  split
  · grind
  · grind
  · simp_all

theorem parseKey_isSome {key : Str} (h : keyRe key = true) : (parseKey key).isSome = true ↔ keyParses key = true := by
  obtain ⟨id, rest, rfl, hne, hdigit, hafter, hrest⟩ := keyRe_spec h
  have hall := List.all_eq_true.mp hdigit
  have hno {c : Char} (hc : c.isDigit = false) : c ∉ id := fun hm => by grind
  have hremove (t : Str) : remove "DEPLOYMENT_ID|" ("DEPLOYMENT_ID|" ++ (id ++ t)) =
      id ++ remove "DEPLOYMENT_ID|" t := by grind [remove_append_self, remove_append]
  have hbar (t : Str) : remove "DEPLOYMENT_ID|" ('|' :: t) = ['|'] ++ remove "DEPLOYMENT_ID|" t :=
    remove_append (s := ['|']) (by decide)
  rw [keyParses, hafter, parseKey]
  cases hcont : contains "NEIGHBOR_TYPE" ("DEPLOYMENT_ID|" ++ (id ++ rest)) with
  | false =>
    rw [if_neg Bool.false_ne_true, hremove]
    simp only [Bool.not_false, Bool.true_or, iff_true]
    rcases hrest with hend | ⟨r, rfl⟩
    · have hend := of_decide_eq_true hend
      have hsplit : splitCommunity (id ++ remove "DEPLOYMENT_ID|" rest) = (id ++ rest, emptyCommunity) := by
        rcases hend with rfl | rfl
        · rw [splitCommunity, splitOnce_append (hno (by decide))]
          rfl
        · rw [splitCommunity, splitOnce_append (hno (by decide))]
          rfl
      obtain ⟨n, hn⟩ := Option.isSome_iff_exists.mp (int_digits hne hdigit hend) <;> simp_all
    · have hsplit : splitCommunity (id ++ remove "DEPLOYMENT_ID|" ('|' :: r)) =
          (id, remove "DEPLOYMENT_ID|" r) := by
        rw [splitCommunity, splitOnce_append (hno (by decide)), hbar, splitOnce_self]
        simp
      obtain ⟨n, hn⟩ := Option.isSome_iff_exists.mp (int_digits hne hdigit (.inl rfl))
      grind
  | true =>
    have hsplit : splitOnce "|NEIGHBOR_TYPE|" ("DEPLOYMENT_ID|" ++ (id ++ rest)) =
        (splitOnce "|NEIGHBOR_TYPE|" rest).map fun p => ("DEPLOYMENT_ID|" ++ (id ++ p.1), p.2) := by
      obtain ⟨c, id', rfl⟩ := exists_cons_of_ne_nil hne
      have hc : c ≠ 'N' := fun he => absurd (hall c mem_cons_self) (by rw [he]; decide)
      have hfirst : startsWith "|NEIGHBOR_TYPE|" ('|' :: (c :: id' ++ rest)) = false := by
        rw [Bool.eq_false_iff]
        intro hs
        obtain ⟨r, hr⟩ := startsWith_iff.mp hs
        simp_all
      rw [show "DEPLOYMENT_ID|" ++ (c :: id' ++ rest) = "DEPLOYMENT_ID" ++ ('|' :: (c :: id' ++ rest)) from rfl,
        show "|NEIGHBOR_TYPE|" = '|' :: "NEIGHBOR_TYPE|" from rfl, splitOnce_append (by decide), splitOnce,
        if_neg (by simp_all),
        splitOnce_append (hno (by decide)), Option.map_map, Option.map_map]
      rfl
    rw [if_pos rfl, hsplit, Bool.not_true, Bool.false_or]
    cases hstart : startsWith "|NEIGHBOR_TYPE|" rest with
    | true =>
      obtain ⟨t, rfl⟩ := startsWith_iff.mp hstart
      obtain ⟨n, hn⟩ := Option.isSome_iff_exists.mp (int_digits hne hdigit (.inl rfl))
      rw [show "|NEIGHBOR_TYPE|" = '|' :: "NEIGHBOR_TYPE|" from rfl, splitOnce_self]
      simp only [map_some, bind_eq_bind, bind_some, hremove, iff_true]
      rw [show remove "DEPLOYMENT_ID|" [] = [] from rfl, hn]
      rfl
    | false =>
      simp only [Bool.false_eq_true, iff_false, Bool.not_eq_true, isSome_eq_false_iff, isNone_iff_eq_none]
      rcases hrest with hend | ⟨r, rfl⟩
      · rcases of_decide_eq_true hend with rfl | rfl <;> rfl
      · rw [splitOnce, hstart, if_neg Bool.false_ne_true]
        cases splitOnce "|NEIGHBOR_TYPE|" r <;> grind [int_eq_none]

def ruleOk (pfx : Str) : Bool :=
  contains "le" pfx || contains "ge" pfx || ((split '/' pfx)[1]?.bind int).isSome

def networkOk (lib : Addresses) : Af → Str → Bool
  | .v4, _ => true
  | .v6, pfx => (lib.ipv6Network (pfx.takeWhile (· ≠ ' '))).isSome

theorem toPrefixRule_isSome : (toPrefixRule af pfx).isSome = true ↔ ruleOk pfx = true := by
  unfold toPrefixRule ruleOk
  extract_lets n
  rw [Bool.or_eq_true, Bool.or_eq_true]
  by_cases hr : contains "le" pfx = true ∨ contains "ge" pfx = true
  · simp_all
  · rw [if_neg hr, or_iff_right hr]
    cases (split '/' pfx)[1]? with
    | none => exact Iff.rfl
    | some m =>
      rw [bind_some, bind_eq_bind, bind_some]
      cases int m <;> exact Iff.rfl

theorem toPrefixRule_eq {rule : Str} (h : toPrefixRule af pfx = some rule) :
    rule = "permit " ++ pfx ∨ ∃ n, rule = "permit " ++ (pfx ++ (" le " ++ ofNat n)) := by
  unfold toPrefixRule at h
  extract_lets n at h
  by_cases hr : contains "le" pfx = true ∨ contains "ge" pfx = true
  · rw [if_pos hr] at h
    simp_all
  · rw [if_neg hr] at h
    obtain ⟨m, -, h⟩ := Option.bind_eq_some_iff.mp h
    obtain ⟨mask, -, h⟩ := Option.bind_eq_some_iff.mp h
    by_cases hm : mask = n
    · rw [if_pos hm] at h
      exact .inl (Option.some.inj h).symm
    · rw [if_neg hm] at h
      refine .inr ⟨n, ?_⟩
      rw [← Option.some.inj h, append_assoc, append_assoc]

theorem takeWhile_append_blank (pfx t : Str) : (pfx ++ ' ' :: t).takeWhile (· ≠ ' ') = pfx.takeWhile (· ≠ ' ') := by
  rw [takeWhile_append]
  split
  · rename_i hall
    rw [takeWhile_cons_of_neg (by simp), append_nil]
    exact (( takeWhile_prefix _).eq_of_length hall).symm
  · rfl

theorem normalizeItem_rule {lib : Addresses} {rule : Str} (h : toPrefixRule af pfx = some rule) :
    (normalizeItem lib af rule).isSome = true ↔ networkOk lib af pfx = true := by
  obtain ⟨l, hsplit⟩ : ∃ l, split ' ' rule = "permit".toList :: pfx.takeWhile (· ≠ ' ') :: l := by
    have hpermit (t : Str) : split ' ' ("permit ".toList ++ t) = "permit".toList :: split ' ' t :=
      split_append_sep (a := "permit".toList) (by decide) t
    rcases toPrefixRule_eq h with rfl | ⟨n, rfl⟩
    · obtain ⟨l, hl⟩ := split_eq_cons ' ' pfx <;> simp_all
    · obtain ⟨l, hl⟩ := split_eq_cons ' ' (pfx ++ (" le ".toList ++ ofNat n))
      grind [takeWhile_append_blank]
  cases af with
  | v4 => exact ⟨fun _ => rfl, fun _ => rfl⟩
  | v6 =>
    simp only [normalizeItem, networkOk, hsplit, List.getElem?_cons_succ, List.getElem?_cons_zero, bind_eq_bind,
      bind_some]
    cases lib.ipv6Network (pfx.takeWhile (· ≠ ' ')) <;> exact Iff.rfl

theorem normalizeIpnetwork_isSome {lib : Addresses} {l : List Str} :
    (normalizeIpnetwork lib af l).isSome = true ↔ ∀ x ∈ l, (normalizeItem lib af x).isSome = true := mapM_isSome_iff

theorem normalizeIpnetwork_rules (lib : Addresses) :
    ∀ {l rules : List Str}, l.mapM (toPrefixRule af) = some rules →
    ((normalizeIpnetwork lib af rules).isSome = true ↔ ∀ pfx ∈ l, networkOk lib af pfx = true)
  | [], rules, h => by
    cases h
    exact ⟨nofun, fun _ => rfl⟩
  | pfx :: l, rules, h => by
    rw [mapM_cons] at h
    obtain ⟨rule, hrule, h⟩ := Option.bind_eq_some_iff.mp h
    obtain ⟨rest, hrest, h⟩ := Option.bind_eq_some_iff.mp h
    cases h
    rw [normalizeIpnetwork_isSome, forall_mem_cons, forall_mem_cons, normalizeItem_rule hrule,
      ← normalizeIpnetwork_isSome, normalizeIpnetwork_rules lib hrest]

/-! ## The running configuration -/

section
variable (lib : Addresses) (conf : List Str)

def readable (af : Af) (pl : Str) : Bool :=
  !(conf.any fun l => startsWith (prefixListMatch af pl) (strip l)) ||
    (conf.filter (startsWith (prefixListMatch af pl))).all fun l => (normalizeItem lib af (ruleOf af pl l)).isSome

def numbered (rm : Str) : Bool :=
  conf.all fun l => !startsWith (routeMapMatch rm) l || isdigit (l.drop (routeMapMatch rm).length)

def hasRoom (af : Af) (pl community rm : Str) : Bool :=
  (parseAllowRouteMapEntries conf af rm).all fun entries =>
    (entries.any fun e => e.1 ≠ 65535 ∧ e.2 = (pl, community)) ||
      (seqNumbers (community ≠ emptyCommunity)).any (· ∉ entries.keys)

variable {lib conf}

theorem isPrefixListValid_none {allow const : List Str}
    (h : conf.any (fun l => startsWith (prefixListMatch af pl) (strip l)) = false) :
    isPrefixListValid lib conf af pl allow const = some (false, false) := by simp_all [isPrefixListValid]

theorem isPrefixListValid_isSome (lib : Addresses) (allow const : List Str)
    (h : conf.any (fun l => startsWith (prefixListMatch af pl) (strip l)) = true) :
    (isPrefixListValid lib conf af pl allow const).isSome = true ↔
      ((normalizeIpnetwork lib af const).isSome = true ∧ (normalizeIpnetwork lib af allow).isSome = true) ∧
        readable lib conf af pl = true := by
  have hread : readable lib conf af pl = true ↔
      (normalizeIpnetwork lib af ((conf.filter (startsWith (prefixListMatch af pl))).map (ruleOf af pl))).isSome =
        true := by
    rw [readable, h, Bool.not_true, Bool.false_or, List.all_eq_true, normalizeIpnetwork_isSome, List.forall_mem_map]
  rw [hread, isPrefixListValid, if_neg (fun hn => hn h)]
  cases normalizeIpnetwork lib af const with
  | none => simp
  | some a =>
    cases normalizeIpnetwork lib af allow with
    | none => simp
    | some b =>
      cases hc : normalizeIpnetwork lib af ((conf.filter (startsWith (prefixListMatch af pl))).map (ruleOf af pl)) <;>
        simp [hc]

theorem updatePrefixList_isSome {constants : Constants} {l : List Str} :
    (updatePrefixList lib constants conf af pl l).isSome = true ↔
    (∀ pfx ∈ l, ruleOk pfx = true ∧ networkOk lib af pfx = true) ∧
      (∀ rule ∈ getConstantList constants af, (normalizeItem lib af rule).isSome = true) ∧
        readable lib conf af pl = true := by
  rw [forall₂_and, ← normalizeIpnetwork_isSome]
  cases hrules : l.mapM (toPrefixRule af) with
  | none => grind [toPrefixRule_isSome, mapM_isSome_iff, updatePrefixList]
  | some rules =>
    have hall : ∀ pfx ∈ l, ruleOk pfx = true := fun pfx hp =>
      toPrefixRule_isSome.mp (mapM_isSome_iff.mp (by rw [hrules]; rfl) pfx hp)
    have happend : (normalizeIpnetwork lib af (getConstantList constants af ++ rules)).isSome = true ↔
        (normalizeIpnetwork lib af (getConstantList constants af)).isSome = true ∧
          (normalizeIpnetwork lib af rules).isSome = true := by
      simp only [normalizeIpnetwork_isSome, forall_mem_append]
    rw [← normalizeIpnetwork_rules lib hrules, and_iff_right hall]
    simp only [updatePrefixList, hrules, bind_eq_bind, bind_some]
    cases hany : conf.any fun l => startsWith (prefixListMatch af pl) (strip l) with
    | false =>
      have hread : readable lib conf af pl = true := by rw [readable, hany]; rfl
      rw [isPrefixListValid_none hany, and_left_comm, ← and_assoc, and_iff_left hread, ← happend]
      cases normalizeIpnetwork lib af (getConstantList constants af ++ rules) <;> simp
    | true =>
      have hvalid := isPrefixListValid_isSome lib rules (getConstantList constants af) hany
      rw [and_left_comm, ← and_assoc, ← hvalid]
      cases hv : isPrefixListValid lib conf af pl rules (getConstantList constants af) with
      | none => simp
      | some v =>
        obtain ⟨l', hl'⟩ := Option.isSome_iff_exists.mp (happend.mpr (hvalid.mp (by rw [hv]; rfl)).1)
        grind

theorem removePrefixList_isSome :
    (removePrefixList lib conf af pl).isSome = true ↔ readable lib conf af pl = true := by
  have hsame : (removePrefixList lib conf af pl).isSome = (isPrefixListValid lib conf af pl [] []).isSome := by
    rw [removePrefixList]
    cases isPrefixListValid lib conf af pl [] [] <;> rfl
  rw [hsame]
  cases hany : conf.any fun l => startsWith (prefixListMatch af pl) (strip l) with
  | false =>
    rw [isPrefixListValid_none hany, readable, hany]
    exact Iff.rfl
  | true =>
    rw [isPrefixListValid_isSome lib _ _ hany]
    exact and_iff_right ⟨rfl, rfl⟩

theorem enter_isSome {s : EntryScan} {l : Str} :
    (s.enter rm l).isSome = true ↔
      (!startsWith (routeMapMatch rm) l || isdigit (l.drop (routeMapMatch rm).length)) = true := by
  rw [EntryScan.enter]
  cases startsWith (routeMapMatch rm) l with
  | false => simp_all
  | true => simp_all

theorem entryLine_isSome {s : EntryScan} {l : Str} :
    (entryLine af rm s l).isSome = true ↔
      (!startsWith (routeMapMatch rm) l || isdigit (l.drop (routeMapMatch rm).length)) = true := by
  have hclause {p : Str} (h : startsWith ('m' :: p) (strip l) = true) : startsWith (routeMapMatch rm) l = false := by
    have hfirst := first_of_strip h
    by_contra hm
    obtain ⟨t, ht⟩ : ∃ t, routeMapMatch rm = 'r' :: t := ⟨_, rfl⟩
    rw [ht] at hm
    rw [first_of_startsWith (c := 'r') (by decide) (by simpa using hm)] at hfirst
    simp_all
  unfold entryLine
  split
  · exact enter_isSome
  · split
    · rename_i hpl
      have hno : startsWith (routeMapMatch rm) l = false := by
        cases af with
        | v4 => exact hclause hpl
        | v6 => exact hclause hpl
      grind
    · split
      · rename_i hcomm
        rw [hclause hcomm]
        simp_all
      · exact enter_isSome

theorem parseAllowRouteMapEntries_isSome (af : Af) :
    (parseAllowRouteMapEntries conf af rm).isSome = true ↔ numbered conf rm = true := by
  rw [parseAllowRouteMapEntries, isSome_map, foldlM_isSome_iff (f := entryLine af rm) fun s l => entryLine_isSome,
    numbered, List.all_eq_true, forall_mem_append, and_iff_left]
  intro l hl
  rw [List.mem_singleton.mp hl]
  rfl

theorem updateAllowRouteMapEntry_isSome {constants : Constants} {community : Str} :
    (updateAllowRouteMapEntry constants conf af pl community rm).isSome = true ↔
      numbered conf rm = true ∧ hasRoom conf af pl community rm = true := by
  rw [← parseAllowRouteMapEntries_isSome af, updateAllowRouteMapEntry, hasRoom]
  cases parseAllowRouteMapEntries conf af rm with
  | none => simp
  | some entries =>
    have hfind : (findRouteMapEntry entries pl community).isSome =
        entries.any fun e => e.1 ≠ 65535 ∧ e.2 = (pl, community) := by
      rw [findRouteMapEntry, isSome_map, Bool.eq_iff_iff, List.find?_isSome, List.any_eq_true]
    have hnext : (findNextSeqNumber entries.keys (community ≠ emptyCommunity)).isSome =
        (seqNumbers (community ≠ emptyCommunity)).any (· ∉ entries.keys) := by
      rw [findNextSeqNumber, Bool.eq_iff_iff, List.find?_isSome, List.any_eq_true]
    rw [all_some, ← hfind, ← hnext, bind_eq_bind, bind_some]
    cases findRouteMapEntry entries pl community with
    | some seq => simp
    | none => cases findNextSeqNumber entries.keys (community ≠ emptyCommunity) <;> simp

theorem removeAllowRouteMapEntry_isSome {community : Str} :
    (removeAllowRouteMapEntry conf af pl community rm).isSome = true ↔ numbered conf rm = true := by
  rw [← parseAllowRouteMapEntries_isSome af, removeAllowRouteMapEntry]
  cases parseAllowRouteMapEntries conf af rm <;> exact Iff.rfl

end

/-! ## Messages -/

def accepted (lib : Addresses) : Msg → Bool
  | .set key data => setHandlerValidate lib key data
  | .del key => keyRe key

def prefixesOf (data : Row) : Af → List Str
  | .v4 => prefixes data "prefixes_v4"
  | .v6 => prefixes data "prefixes_v6"

section
variable (lib : Addresses) (constants : Constants) (conf : List Str)

def rulesOk (data : Row) (af : Af) : Bool :=
  (prefixesOf data af).all (fun pfx => ruleOk pfx && networkOk lib af pfx) &&
    (getConstantList constants af).all fun rule => (normalizeItem lib af rule).isSome

def namesOk (ns : Names) (af : Af) : Bool := readable lib conf af (ns.pl af) && numbered conf (ns.rm af)

def safe : Msg → Bool
  | .set key data =>
    keyParses key && rulesOk lib constants data .v4 && rulesOk lib constants data .v6 &&
      (parseKey key).all fun p => [Af.v4, .v6].all fun af =>
        let ns := generateNames p
        namesOk lib conf ns af && hasRoom conf af (ns.pl af) ns.community (ns.rm af)
  | .del key =>
    keyParses key && (parseKey key).all fun p => [Af.v4, .v6].all (namesOk lib conf (generateNames p))

variable {lib constants conf}

theorem isSome_four {α β : Type} {x y z w : Option α} {g : α → α → α → α → β} :
    (do return g (← x) (← y) (← z) (← w) : Option β).isSome = true ↔
      (x.isSome = true ∧ y.isSome = true) ∧ z.isSome = true ∧ w.isSome = true := by
  cases x <;> cases y <;> cases z <;> cases w <;> simp

theorem updatePolicy_isSome {p : Policy} {data : Row} {action : Str} :
    (updatePolicy lib constants conf p (prefixes data "prefixes_v4") (prefixes data "prefixes_v6") action).isSome =
      true ↔
      (rulesOk lib constants data .v4 = true ∧ rulesOk lib constants data .v6 = true) ∧
        ([Af.v4, .v6].all fun af =>
          let ns := generateNames p
          namesOk lib conf ns af && hasRoom conf af (ns.pl af) ns.community (ns.rm af)) = true := by
  have hpl (af : Af) : (updatePrefixList lib constants conf af ((generateNames p).pl af) (prefixesOf data af)).isSome =
      true ↔
      rulesOk lib constants data af = true ∧ readable lib conf af ((generateNames p).pl af) = true := by
    simp_all [updatePrefixList_isSome, rulesOk, and_assoc]
  unfold updatePolicy
  refine isSome_four.trans (Iff.trans (and_congr_left' (and_congr (hpl .v4) (hpl .v6))) ?_)
  simp only [updateAllowRouteMapEntry_isSome, namesOk, Names.pl, Names.rm, all_cons, all_nil, Bool.and_true,
    Bool.and_eq_true]
  grind

theorem removePolicy_isSome {p : Policy} {action : Str} :
    (removePolicy lib conf p action).isSome = true ↔
    ([Af.v4, .v6].all (namesOk lib conf (generateNames p))) = true := by
  unfold removePolicy
  refine isSome_four.trans ?_
  simp only [removeAllowRouteMapEntry_isSome, removePrefixList_isSome, namesOk, Names.pl, Names.rm, all_cons, all_nil,
    Bool.and_true,
    Bool.and_eq_true]
  grind

/-- A handler that accepts its message does not raise where the message is safe, and only there. -/
theorem handler_isSome_iff {m : Msg} (h : accepted lib m = true) :
    (handler lib constants conf m).isSome = true ↔ (constants.enabled = true → safe lib constants conf m = true) := by
  cases hen : constants.enabled with
  | false => cases m <;> simp [handler, hen]
  | true =>
    rw [imp_iff_right rfl]
    cases m with
    | set key data =>
      have hkey : keyRe key = true := by
        rw [accepted, setHandlerValidate] at h
        simp only [Bool.and_eq_true] at h
        exact h.1.1.1.1
      have hvalid : setHandlerValidate lib key data = true := h
      rw [handler, hen, hvalid, if_neg (by simp), safe, Bool.and_eq_true, Bool.and_eq_true, Bool.and_eq_true,
        ← parseKey_isSome hkey]
      cases parseKey key with
      | none => simp
      | some p =>
        rw [Option.bind_eq_bind, Option.bind_some, updatePolicy_isSome, Option.all_some]
        simp only [Option.isSome_some, true_and]
    | del key =>
      have hkey : keyRe key = true := h
      rw [handler, hen, hkey, if_neg (by simp), if_neg (by simp), safe, Bool.and_eq_true, ← parseKey_isSome hkey]
      cases parseKey key with
      | none => simp
      | some p =>
        rw [Option.bind_eq_bind, Option.bind_some, removePolicy_isSome, Option.all_some]
        simp only [Option.isSome_some, true_and]

end

theorem set_safe : accepted anyAddress (.set "DEPLOYMENT_ID|5|1010:2020" [("prefixes_v4", "10.20.30.0/24")]) = true ∧
    (handler anyAddress defaultConstants (getText Frr.empty)
      (.set "DEPLOYMENT_ID|5|1010:2020" [("prefixes_v4", "10.20.30.0/24")])).isSome = true :=
  ⟨by decide +kernel, (handler_isSome_iff (by decide +kernel)).mpr fun _ => by decide +kernel⟩

theorem neighborType_after_community :
    accepted anyAddress (.set "DEPLOYMENT_ID|5|1010:2020|NEIGHBOR_TYPE|T1" [("prefixes_v4", "10.20.30.0/24")]) = true ∧
      handler anyAddress defaultConstants (getText Frr.empty)
        (.set "DEPLOYMENT_ID|5|1010:2020|NEIGHBOR_TYPE|T1" [("prefixes_v4", "10.20.30.0/24")]) = none := by
  decide +kernel

end Sonic.AllowList
