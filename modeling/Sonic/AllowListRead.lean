import Sonic.AllowListStore
import Sonic.AllowListValid

/-! # Reading back what was written

What the manager reads of the text that FRR shows, in terms of the store, and what it reads there
after its own commands. -/

namespace Sonic.AllowList
open List

open Str

variable {pl s t : Str} {af : Af} {items : List (Nat × Str)}

/-- Text that keeps its end in a line. -/
def Tidy (s : Str) : Prop := s ≠ [] ∧ rstrip s = s

/-- A name that a line of the configuration can hold. -/
def IsName (s : Str) : Prop := s ≠ [] ∧ IsWord s

instance (s : Str) : Decidable (IsName s) := inferInstanceAs (Decidable (_ ∧ _))

theorem IsName.tidy (h : IsName s) : Tidy s := ⟨h.1, h.2.rstrip_eq⟩

theorem Tidy.append (ht : Tidy t) : Tidy (s ++ t) :=
  ⟨fun h => ht.1 (List.append_eq_nil_iff.mp h).2, rstrip_append ht.1 ht.2⟩

theorem Tidy.of_append (h : Tidy (s ++ ' ' :: t)) : Tidy t := by
  have hlast := List.rdropWhile_eq_self_iff.mp h.2
  have hn : t ≠ [] := fun hn => by
    subst hn
    have := hlast (by simp)
    rw [getLast_append_of_ne_nil _ (cons_ne_nil _ _)] at this
    exact this (by decide)
  refine ⟨hn, List.rdropWhile_eq_self_iff.mpr fun _ => ?_⟩
  simp_all

theorem Tidy.prefix_strip {c : Char} (hc : isSpace c = false) (h : Tidy (c :: s)) :
    c :: s <+: strip (c :: s ++ t) := by
  have hl : lstrip (c :: s ++ t) = c :: s ++ t := dropWhile_cons_of_neg (by simp [hc])
  rw [strip, hl, rstrip, List.rdropWhile, reverse_append, dropWhile_append]
  split
  · have := h.2
    rw [rstrip, List.rdropWhile] at this
    exact this.symm ▸ prefix_rfl
  · rw [reverse_append, reverse_reverse]
    exact prefix_append _ _

/-- What follows a text without blanks at its end is stripped for itself. -/
theorem Tidy.rstrip_append (h : Tidy s) (t : Str) : rstrip (s ++ t) = s ++ rstrip t := by
  rw [rstrip, rstrip, rdropWhile, rdropWhile, reverse_append, dropWhile_append]
  split
  · rename_i hall
    have hs : rdropWhile isSpace s = s := h.2
    rw [rdropWhile] at hs
    rw [hs, List.isEmpty_iff.mp hall, reverse_nil, append_nil]
  · rw [reverse_append, reverse_reverse]

theorem rstrip_rstrip (s : Str) : rstrip (rstrip s) = rstrip s := rdropWhile_idempotent isSpace s

theorem rstrip_cons_blank (t : Str) : rstrip (' ' :: t) = [] ∧ rstrip t = [] ∨ rstrip (' ' :: t) = ' ' :: rstrip t := by
  induction t using List.reverseRecOn with
  | nil => exact .inl ⟨rfl, rfl⟩
  | append_singleton t c ih =>
    rw [← cons_append]
    by_cases hc : isSpace c = true
    · rw [rstrip, rstrip, rdropWhile_concat_pos _ _ _ hc, rdropWhile_concat_pos _ _ _ hc]
      exact ih
    · rw [rstrip, rstrip, rdropWhile_concat_neg _ _ _ hc, rdropWhile_concat_neg _ _ _ hc]
      exact .inr rfl

/-! ## Prefix-lists -/

/-- Networks are written in one way. -/
structure Addresses.Canonical (lib : Addresses) : Prop where
  name : ∀ s n, lib.ipv6Network s = some n → IsName n
  again : ∀ s n, lib.ipv6Network s = some n → lib.ipv6Network n = some n

section
variable {lib : Addresses} (hlib : lib.Canonical)
include hlib

/-- A normalized rule is the two words of its start and a rest. -/
theorem normalizeItem_parts {item rule : Str} (h : normalizeItem lib .v6 item = some rule) :
    ∃ a b n t, ' ' ∉ a ∧ IsName n ∧ lib.ipv6Network n = some n ∧ rule = (a ++ ' ' :: n) ++ t ∧
      item = (a ++ ' ' :: b) ++ t ∧
      (t = [] ∨ ∃ u, t = ' ' :: u) := by
  unfold normalizeItem at h
  dsimp only at h
  obtain ⟨b, hb, h⟩ := Option.bind_eq_some_iff.mp h
  obtain ⟨n, hnet, h⟩ := Option.bind_eq_some_iff.mp h
  cases h
  have hjoin := join_split ' ' item
  have hblank : ∀ p ∈ split ' ' item, ' ' ∉ p := fun p hp => not_mem_split hp
  generalize split ' ' item = parts at hb hjoin hblank ⊢
  obtain _ | ⟨a, _ | ⟨b', rest⟩⟩ := parts
  · cases hb
  · cases hb
  · obtain rfl : b' = b := Option.some.inj hb
    have hset : (a :: b' :: rest).set 1 n = a :: n :: rest := rfl
    rw [hset, ← hjoin]
    cases rest with
    | nil =>
      refine ⟨a, b', n, [], hblank a mem_cons_self, hlib.name _ _ hnet, hlib.again _ _ hnet, ?_, ?_, .inl rfl⟩
      · simp [join]
      · simp [join]
    | cons r rest =>
      refine ⟨a, b', n, ' ' :: join [' '] (r :: rest), hblank a mem_cons_self, hlib.name _ _ hnet, hlib.again _ _ hnet,
        ?_, ?_,
        .inr ⟨_, rfl⟩⟩
      · simp [join_cons_cons]
      · simp [join_cons_cons]

omit hlib in
theorem normalizeItem_of_parts {a n : Str} (ha : ' ' ∉ a) (hn : IsName n) (hnet : lib.ipv6Network n = some n)
    (ht : t = [] ∨ ∃ u, t = ' ' :: u) : normalizeItem lib .v6 ((a ++ ' ' :: n) ++ t) = some ((a ++ ' ' :: n) ++ t) := by
  have hrule (rest : List Str) (hs : split ' ' ((a ++ ' ' :: n) ++ t) = a :: n :: rest) :
      normalizeItem lib .v6 ((a ++ ' ' :: n) ++ t) = some ((a ++ ' ' :: n) ++ t) := by
    have hjoin := join_split ' ' ((a ++ ' ' :: n) ++ t)
    unfold normalizeItem
    dsimp only
    rw [hs] at hjoin ⊢
    refine Option.bind_eq_some_iff.mpr ⟨n, rfl, Option.bind_eq_some_iff.mpr ⟨n, hnet, ?_⟩⟩
    exact congrArg some hjoin
  rcases ht with rfl | ⟨u, rfl⟩
  · refine hrule [] ?_
    rw [append_nil, split_append_sep ha, split_of_not_mem hn.2.not_blank]
  · refine hrule (split ' ' u) ?_
    rw [append_assoc, cons_append, split_append_sep ha, split_append_sep hn.2.not_blank]

omit hlib in
theorem tail_rstrip (ht : t = [] ∨ ∃ u, t = ' ' :: u) : rstrip t = [] ∨ ∃ u, rstrip t = ' ' :: u := by
  rcases ht with rfl | ⟨u, rfl⟩
  · exact .inl rfl
  · exact (rstrip_cons_blank u).imp And.left fun h => ⟨_, h⟩

/-- A normalized rule stays normal without the blanks at its end. -/
theorem normalizeItem_rstrip {item rule : Str} (h : normalizeItem lib af item = some rule) :
    normalizeItem lib af (rstrip rule) = some (rstrip rule) := by
  cases af with
  | v4 => exact congrArg some (join_split ' ' (rstrip rule))
  | v6 =>
    obtain ⟨a, b, n, t, ha, hn, hnet, rfl, -, ht⟩ := normalizeItem_parts hlib h
    have hstart : Tidy (a ++ ' ' :: n) := Tidy.append (Tidy.append (s := [' ']) hn.tidy)
    rw [hstart.rstrip_append]
    exact normalizeItem_of_parts ha hn hnet (tail_rstrip ht)

/-- The rule of a text without blanks at its end has none there. -/
theorem rstrip_normalizeItem {item rule : Str} (h : normalizeItem lib af (rstrip item) = some rule) :
    rstrip rule = rule := by
  cases af with
  | v4 =>
    obtain rfl : rstrip item = rule := (join_split ' ' (rstrip item)).symm.trans (Option.some.inj h)
    exact rstrip_rstrip item
  | v6 =>
    obtain ⟨a, b, n, t, ha, hn, hnet, rfl, hitem, ht⟩ := normalizeItem_parts hlib h
    have hstart : Tidy (a ++ ' ' :: n) := Tidy.append (Tidy.append (s := [' ']) hn.tidy)
    rw [hstart.rstrip_append]
    rcases ht with rfl | ⟨u, rfl⟩
    · rfl
    · have htidy : Tidy (a ++ ' ' :: b ++ ' ' :: u) := by
        rw [← hitem]
        refine ⟨?_, rstrip_rstrip item⟩
        rw [hitem]
        simp
      have htail : Tidy (' ' :: u) := Tidy.append (s := [' ']) htidy.of_append
      rw [htail.2]

end

/-- The line of a rule is read without the blanks at its end. -/
theorem ruleOf_line (n : Nat) (rule : Str) :
    ruleOf af pl (af.family ++ (" prefix-list " ++ (pl ++ (" seq " ++ (ofNat n ++ ' ' :: rule))))) = rstrip rule := by
  have hline : af.family ++ (" prefix-list " ++ (pl ++ (" seq " ++ (ofNat n ++ ' ' :: rule)))) =
      prefixListMatch af pl ++ (ofNat n ++ ' ' :: rule) := by simp [prefixListMatch]
  have hname : IsName (ofNat n) := ⟨ofNat_ne_nil n, isWord_ofNat n⟩
  have hstrip : strip (ofNat n ++ ' ' :: rule) = ofNat n ++ rstrip (' ' :: rule) := by
    obtain ⟨c, ds, hc⟩ := exists_cons_of_ne_nil hname.1
    have hspace := hname.2 c (hc ▸ mem_cons_self)
    have hl : lstrip (ofNat n ++ ' ' :: rule) = ofNat n ++ ' ' :: rule := by
      rw [hc]
      exact dropWhile_cons_of_neg (by simp [hspace])
    rw [strip, hl, hname.tidy.rstrip_append]
  rw [ruleOf, hline, drop_left, hstrip]
  rcases rstrip_cons_blank rule with ⟨he, hr⟩ | he
  · rw [he, hr, append_nil, split_of_not_mem hname.2.not_blank]
    rfl
  · rw [he, split_append_sep hname.2.not_blank, drop_one, tail_cons, join_split]

section
variable {f : Frr} (hf : f.Wf)
include hf

theorem isPrefixListValid_getText (lib : Addresses) (hpl : IsWord pl) (allow const : List Str) :
    isPrefixListValid lib (getText f) af pl allow const =
      isPrefixListValid lib (Frr.prefixListLines ((af, pl), f.rules af pl)) af pl allow const := by
  rw [isPrefixListValid_filter, filter_prefixListLines hf hpl, ← isPrefixListValid_filter]
  intro l hl
  simp only [isPrefixListLine, Bool.or_eq_true] at hl
  rcases hl with hl | hl
  · exact (startsWith_iff.mp hl).trans ( rdropWhile_prefix isSpace (lstrip l))
  · obtain ⟨t, rfl⟩ := startsWith_iff.mp hl
    obtain ⟨s, hs⟩ := prefixListMatch_cons af pl
    rw [hs, cons_append, lstrip, dropWhile_cons_of_neg (by decide), ← cons_append]
    simp_all

end

theorem startsWith_prefixListLine {l : Str} (items : List (Nat × Str))
    (h : l ∈ Frr.prefixListLines ((af, pl), items)) :
    startsWith (prefixListMatch af pl) l = true ∧ startsWith (prefixListMatch af pl) (strip l) = true := by
  obtain ⟨r, -, rfl⟩ := List.mem_map.mp h
  have hline : af.family ++ (" prefix-list " ++ (pl ++ (" seq " ++ (ofNat r.1 ++ ' ' :: r.2)))) =
      (prefixListMatch af pl ++ ofNat r.1) ++ ' ' :: r.2 := by grind [prefixListMatch]
  obtain ⟨s, hs⟩ := prefixListMatch_cons af pl
  have htidy : Tidy (prefixListMatch af pl ++ ofNat r.1) := (IsName.tidy ⟨ofNat_ne_nil _, isWord_ofNat _⟩).append
  dsimp only
  rw [hline, startsWith_iff, startsWith_iff]
  refine ⟨by grind, (prefix_append _ (ofNat r.1)).trans ?_⟩
  rw [hs] at htidy ⊢
  exact htidy.prefix_strip (by decide)

theorem any_prefixListLine (hn : items ≠ []) :
    (Frr.prefixListLines ((af, pl), items)).any (fun l => startsWith (prefixListMatch af pl) (strip l)) = true := by
  obtain ⟨r, items, rfl⟩ := exists_cons_of_ne_nil hn
  exact List.any_eq_true.mpr ⟨_, mem_cons_self, (startsWith_prefixListLine (r :: items) mem_cons_self).2⟩

theorem isPrefixListValid_nil (lib : Addresses) (af : Af) (pl : Str) (allow const : List Str) :
    isPrefixListValid lib (Frr.prefixListLines ((af, pl), [])) af pl allow const = some (false, false) := rfl

theorem isPrefixListValid_exist {lib : Addresses} (hn : items ≠ [])
    {allow const : List Str} {v : Bool × Bool}
    (h : isPrefixListValid lib (Frr.prefixListLines ((af, pl), items)) af pl allow const = some v) : v.1 = true := by
  grind [isPrefixListValid, any_prefixListLine, Option.bind_eq_some_iff]

theorem isPrefixListValid_lines {lib : Addresses} (hn : items ≠ [])
    (allow const : List Str) :
    isPrefixListValid lib (Frr.prefixListLines ((af, pl), items)) af pl allow const = (do
      let expectSet := (← normalizeIpnetwork lib af const) ++ (← normalizeIpnetwork lib af allow)
      return (true, sameSet expectSet (← normalizeIpnetwork lib af (items.map fun r => rstrip r.2)))) := by
  have hfilter : (Frr.prefixListLines ((af, pl), items)).filter (startsWith (prefixListMatch af pl)) =
      Frr.prefixListLines ((af, pl), items) := List.filter_eq_self.mpr fun l hl => (startsWith_prefixListLine _ hl).1
  have hrules : (Frr.prefixListLines ((af, pl), items)).map (ruleOf af pl) = items.map fun r => rstrip r.2 := by
    rw [Frr.prefixListLines, List.map_map]
    exact map_congr_left fun r _ => ruleOf_line r.1 r.2
  rw [isPrefixListValid, if_neg (fun hno => hno (any_prefixListLine hn)), hfilter, hrules]

theorem foldl_onRules : ∀ (rules : List Str) (k : Nat) (items : List (Nat × Str)),
    (∀ r ∈ items, r.1 < 10 + 10 * k) →
    ((rules.zipIdx k).map fun r => Cmd.prefixList af pl (10 + 10 * r.2) r.1).foldl Cmd.onRules items =
      items ++ (rules.zipIdx k).map fun r => (10 + 10 * r.2, r.1)
  | [], _, items, _ => (append_nil items).symm
  | rule :: rules, k, items, h => by
    rw [zipIdx_cons, map_cons, foldl_cons, Cmd.onRules, insertSeq_last h, foldl_onRules rules (k + 1)]
    · simp_all
    · grind

theorem sameSet_self (l : List Str) : sameSet l l = true := by simp [sameSet]

/-- The rules that `__update_prefix_list` wants in the list: of the constants and of the prefixes. -/
def wantedRules (lib : Addresses) (constants : Constants) (af : Af) (l : List Str) : Option (List Str) :=
  (l.mapM (toPrefixRule af)).bind fun allow => normalizeIpnetwork lib af (getConstantList constants af ++ allow)

theorem sameSet_rstrip {rules : List Str} :
    sameSet rules (rules.map rstrip) = true ↔ ∀ r ∈ rules, rstrip r = r := by
  constructor
  · intro h r hr
    obtain ⟨s, -, rfl⟩ := List.mem_map.mp (of_decide_eq_true (List.all_eq_true.mp (Bool.and_eq_true_iff.mp h).1 r hr))
    exact rstrip_rstrip s
  · intro h
    rw [map_congr_left h, map_id']
    exact sameSet_self rules

section
variable {lib : Addresses} {constants : Constants} {f g : Frr} {af : Af} {pl : Str} {l : List Str} {cs : List Cmd}
  (hlib : lib.Canonical)
include hlib

/-- What is valid as it stands has no blanks at the ends of its rules. -/
theorem rstrip_of_valid {allow const rules : List Str}
    (h : isPrefixListValid lib (Frr.prefixListLines ((af, pl), items)) af pl allow const = some (true, true))
    (hrules : normalizeIpnetwork lib af (const ++ allow) = some rules) : ∀ r ∈ rules, rstrip r = r := by
  have hn : items ≠ [] := by
    rintro rfl
    cases h
  rw [isPrefixListValid_lines hn] at h
  obtain ⟨a, ha, h⟩ := Option.bind_eq_some_iff.mp h
  obtain ⟨b, hb, h⟩ := Option.bind_eq_some_iff.mp h
  obtain ⟨read, hread, h⟩ := Option.bind_eq_some_iff.mp h
  have hab : rules = a ++ b := by
    rw [normalizeIpnetwork, mapM_append] at hrules
    rw [normalizeIpnetwork] at ha hb
    rw [ha, hb] at hrules
    exact (Option.some.inj hrules).symm
  intro r hr
  have hsame : sameSet (a ++ b) read = true := (Prod.mk.inj (Option.some.inj h)).2
  have hmem := of_decide_eq_true (List.all_eq_true.mp (Bool.and_eq_true_iff.mp hsame).1 r (hab ▸ hr))
  obtain ⟨x, hx, hnorm⟩ := exists_of_mem_mapM hread hmem
  obtain ⟨y, -, rfl⟩ := List.mem_map.mp hx
  exact rstrip_normalizeItem hlib hnorm

/-- The list that was just written is valid just if its rules have no blanks at their ends. -/
theorem valid_written {allow const rules : List Str} (hne : rules ≠ [])
    (hrules : normalizeIpnetwork lib af (const ++ allow) = some rules) :
    ∃ correct, isPrefixListValid lib (Frr.prefixListLines ((af, pl), rules.zipIdx.map fun r => (10 + 10 * r.2, r.1)))
      af pl
        allow const = some (true, correct) ∧ (correct = true ↔ ∀ r ∈ rules, rstrip r = r) := by
  have hitems : rules.zipIdx.map (fun r => (10 + 10 * r.2, r.1)) ≠ [] := by simpa using hne
  have hread : (rules.zipIdx.map fun r => (10 + 10 * r.2, r.1)).map (fun r => rstrip r.2) = rules.map rstrip := by
    rw [List.map_map, ← zipIdx_map_fst 0 rules, List.map_map, zipIdx_map_fst 0 rules]
    rfl
  have hagain : normalizeIpnetwork lib af (rules.map rstrip) = some (rules.map rstrip) := by
    have hself : ∀ r ∈ rules.map rstrip, normalizeItem lib af r = some (id r) := by
      intro r hr
      obtain ⟨s, hs, rfl⟩ := List.mem_map.mp hr
      obtain ⟨x, -, hx⟩ := exists_of_mem_mapM hrules hs
      exact normalizeItem_rstrip hlib hx
    rw [normalizeIpnetwork, mapM_of_forall hself, map_id]
  rw [normalizeIpnetwork, mapM_append] at hrules
  obtain ⟨a, ha, hrules⟩ := Option.bind_eq_some_iff.mp hrules
  obtain ⟨b, hb, hrules⟩ := Option.bind_eq_some_iff.mp hrules
  obtain rfl : a ++ b = rules := Option.some.inj hrules
  refine ⟨sameSet (a ++ b) ((a ++ b).map rstrip), ?_, sameSet_rstrip⟩
  rw [isPrefixListValid_lines hitems, hread, hagain, normalizeIpnetwork, ha, normalizeIpnetwork, hb]
  rfl

variable (hf : f.Wf) (hg : g.Wf) (hpl : IsWord pl)
include hf hg hpl

theorem updatePrefixList_again_iff (h : updatePrefixList lib constants (getText f) af pl l = some cs)
    (hrules : g.rules af pl = cs.foldl Cmd.onRules (f.rules af pl)) :
    updatePrefixList lib constants (getText g) af pl l = some [] ↔
      ∀ rules ∈ wantedRules lib constants af l, ∀ r ∈ rules, rstrip r = r := by
  simp only [updatePrefixList, isPrefixListValid_getText hf lib hpl, Option.bind_eq_bind, Option.bind_eq_some_iff] at h
  obtain ⟨allow, hallow, ⟨exist, correct⟩, hvalid, h⟩ := h
  simp only [updatePrefixList, isPrefixListValid_getText hg lib hpl, Option.bind_eq_bind, hallow, Option.bind_some,
    wantedRules]
  cases correct with
  | true =>
    -- Nothing was written, and nothing will be.
    cases h
    rw [foldl_nil] at hrules
    obtain rfl : exist = true := by
      refine isPrefixListValid_exist (fun hnil => ?_) hvalid
      rw [hnil] at hvalid
      cases hvalid
    rw [hrules, hvalid, Option.bind_some]
    exact iff_of_true rfl fun rules hr => rstrip_of_valid hlib hvalid hr
  | false =>
    rw [if_neg Bool.false_ne_true] at h
    obtain ⟨rules, hnorm, h⟩ := Option.bind_eq_some_iff.mp h
    cases h
    have hitems : g.rules af pl = rules.zipIdx.map fun r => (10 + 10 * r.2, r.1) := by
      have hfresh : (if exist then [Cmd.noPrefixList af pl] else []).foldl Cmd.onRules (f.rules af pl) = [] := by
        cases exist with
        | true => rfl
        | false =>
          by_contra hne
          exact Bool.false_ne_true (isPrefixListValid_exist hne hvalid)
      rw [hrules, foldl_append, hfresh]
      exact (foldl_onRules rules 0 [] (by simp)).trans (nil_append _)
    rw [hitems, hnorm]
    have hall : (∀ rs ∈ some rules, ∀ r ∈ rs, rstrip r = r) ↔ ∀ r ∈ rules, rstrip r = r := by simp
    rw [hall]
    cases hr : rules with
    | nil => exact iff_of_true rfl (by simp)
    | cons r rs =>
      obtain ⟨correct, hread, hiff⟩ := @valid_written lib af pl hlib allow (getConstantList constants af) rules
        (by simp [hr]) hnorm
      rw [← hr, hread, Option.bind_some, ← hiff]
      cases correct with
      | true => exact iff_of_true rfl rfl
      | false => exact iff_of_false (by simp) Bool.false_ne_true

end

theorem remove_of_not_mem {sub : Str} {d : Char} (hd : d ∈ sub) : ∀ {s : Str}, d ∉ s → remove sub s = s
  | [], _ => by cases sub <;> rfl
  | c :: s, h => by
    have hstart : startsWith sub (c :: s) = false := by
      by_contra hs
      exact h ((startsWith_iff.mp (eq_true_of_ne_false hs)).subset hd)
    have ih := remove_of_not_mem hd fun hm => h (mem_cons_of_mem _ hm)
    simp_all [remove, removeFrom]

theorem isCommunityPresented_getText {f : Frr} (hf : f.Wf) {name : Str} (hn : IsWord name) :
    isCommunityPresented (getText f) name = isCommunityPresented
      (Frr.communityListLines (name, f.values name)) name := by
  unfold isCommunityPresented
  rw [filter_communityListLines hf hn]
  exact fun l hl => (startsWith_iff.mp hl).trans ( rdropWhile_prefix isSpace (lstrip l))

theorem communityListLines_eq (name : Str) (values : List Str) :
    Frr.communityListLines (name, values) = values.map fun v => communityMatch name ++ v := by
  have hassoc (a b c d : Str) : a ++ (b ++ (c ++ d)) = a ++ (b ++ c) ++ d := by simp only [append_assoc]
  exact map_congr_left fun v _ => hassoc _ _ _ v

theorem communityLine_read (name : Str) {value : Str} (hv : IsName value) :
    startsWith (communityMatch name) (strip (communityMatch name ++ value)) = true ∧
      remove (communityMatch name) (strip (communityMatch name ++ value)) = value := by
  obtain ⟨s, hs⟩ : ∃ s, communityMatch name = 'b' :: s := ⟨_, rfl⟩
  have hstrip : strip (communityMatch name ++ value) = communityMatch name ++ value := by
    rw [hs]
    exact stripped_append (by decide) hv.tidy.1 hv.tidy.2
  have hblank : ' ' ∈ communityMatch name := mem_append_right _ (mem_append_right _ (by decide))
  rw [hstrip]
  refine ⟨startsWith_iff.mpr (prefix_append _ _), ?_⟩
  rw [hs, remove_append_self, ← hs]
  exact remove_of_not_mem hblank hv.2.not_blank

theorem isCommunityPresented_lines {name value : Str} (hv : IsName value) {values : List Str}
    (h : isCommunityPresented (Frr.communityListLines (name, values)) name = none) :
    value ∉ values ∧ isCommunityPresented (Frr.communityListLines (name, values ++ [value])) name = some value := by
  obtain ⟨hstart, hremove⟩ := communityLine_read name hv
  rw [isCommunityPresented, communityListLines_eq, Option.map_eq_none_iff] at h
  have hnone := List.head?_eq_none_iff.mp h
  refine ⟨fun hm => List.filter_eq_nil_iff.mp hnone _ (List.mem_map_of_mem hm) hstart, ?_⟩
  have hlast : [communityMatch name ++ value].filter (fun l => startsWith (communityMatch name) (strip l)) =
      [communityMatch name ++ value] := List.filter_eq_self.mpr fun l hl => by simp_all
  rw [isCommunityPresented, communityListLines_eq, map_append, filter_append, hnone, nil_append, map_singleton,
    hlast]
  simp_all

theorem suffix_of_removeFrom_nil {sub : Str} (hn : sub ≠ []) : ∀ {k : Nat} {s : Str}, removeFrom sub k s = [] →
    s.length ≤ k ∨ sub <:+ s
  | _, [], _ => .inl (Nat.zero_le _)
  | k + 1, c :: s, h => by
    rcases suffix_of_removeFrom_nil hn (k := k) h with hl | hs
    · exact .inl (Nat.succ_le_succ hl)
    · exact .inr (hs.trans (suffix_cons c s))
  | 0, c :: s, h => by
    rw [removeFrom] at h
    split at h
    · rename_i hstart
      have hpre := startsWith_iff.mp hstart
      rcases suffix_of_removeFrom_nil hn h with hl | hs
      · have hpos : 0 < sub.length := length_pos_iff.mpr hn
        have hlen : sub.length = (c :: s).length := by
          have hle := hpre.length_le
          rw [length_cons] at hle ⊢
          omega
        exact .inr (hpre.eq_of_length hlen ▸ suffix_refl _)
      · exact .inr (hs.trans (suffix_cons c s))
    · cases h

theorem communityMatch_blank (name : Str) : ∃ t, communityMatch name = t ++ [' '] := by
  have hend : " permit " = " permit" ++ [' '] := by decide
  unfold communityMatch
  rw [hend, ← append_assoc, ← append_assoc]
  exact ⟨_, rfl⟩

/-- No line is read as an empty community: a line does not end in a blank. -/
theorem isCommunityPresented_ne_nil (conf : List Str) (name : Str) : isCommunityPresented conf name ≠ some [] := by
  intro h
  obtain ⟨l, hl, hremove⟩ := Option.map_eq_some_iff.mp h
  have hstart := startsWith_iff.mp (List.mem_filter.mp (List.mem_of_mem_head? hl)).2
  have hne : communityMatch name ≠ [] := cons_ne_nil _ _
  rcases suffix_of_removeFrom_nil hne hremove with hlen | hsuffix
  · have hnil : strip l = [] := length_eq_zero_iff.mp (Nat.le_zero.mp hlen)
    exact hne (prefix_nil.mp (hnil ▸ hstart))
  · obtain ⟨t, ht⟩ := communityMatch_blank name
    obtain ⟨u, hu⟩ := hsuffix
    have hself : rstrip (strip l) = strip l := rdropWhile_idempotent isSpace (lstrip l)
    rw [← hu, ht, ← append_assoc, rstrip, rdropWhile_concat_pos _ _ _ (by decide)] at hself
    have hlen := ( rdropWhile_prefix isSpace (u ++ t)).length_le
    rw [hself, length_append] at hlen
    exact Nat.not_succ_le_self _ hlen

section
variable {f g : Frr} (hf : f.Wf) (hg : g.Wf) {name value : Str} (hn : IsWord name)
  (hvalues : g.values name = (updateCommunity (getText f) name value).foldl Cmd.onValues (f.values name))
include hf hg hn hvalues

theorem updateCommunity_again (hv : IsName value) : updateCommunity (getText g) name value = [] := by
  unfold updateCommunity at hvalues ⊢
  by_cases he : value = emptyCommunity
  · rw [if_pos he]
  rw [if_neg he] at hvalues ⊢
  rw [isCommunityPresented_getText hf hn] at hvalues
  rw [isCommunityPresented_getText hg hn]
  cases hfound : isCommunityPresented (Frr.communityListLines (name, f.values name)) name with
  | none =>
    rw [hfound] at hvalues
    obtain ⟨hmem, hread⟩ := isCommunityPresented_lines hv hfound
    have hg' : g.values name = f.values name ++ [value] := by
      rw [hvalues]
      exact if_neg hmem
    simp_all
  | some found =>
    rw [hfound] at hvalues
    by_cases hsame : value = found
    · grind
    · have hg' : g.values name = [] ++ [value] := by
        rw [hvalues]
        dsimp only
        rw [if_neg hsame]
        rfl
      rw [hg', (isCommunityPresented_lines hv rfl).2]
      exact if_pos rfl

theorem updateCommunity_again_iff (hw : IsWord value) : updateCommunity (getText g) name value = [] ↔ value ≠ [] := by
  by_cases hnil : value = []
  · refine iff_of_false (fun h => ?_) (not_not_intro hnil)
    rw [hnil, updateCommunity, if_neg (by decide)] at h
    cases hfound : isCommunityPresented (getText g) name with
    | none =>
      rw [hfound] at h
      cases h
    | some found =>
      rw [hfound] at h
      dsimp only at h
      have hne : ¬ [] = found := by
        rintro rfl
        exact isCommunityPresented_ne_nil (getText g) name hfound
      rw [if_neg hne] at h
      cases h
  · exact iff_of_true (updateCommunity_again hf hg hn hvalues ⟨hnil, hw⟩) hnil

end

end Sonic.AllowList
