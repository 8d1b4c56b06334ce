import Sonic.AllowList
import Sonic.Scan

/-! # The lines of the running configuration

Which lines of the configuration the readers of the manager pass over: each looks for lines that
begin with the name of one list or one route-map. -/

namespace Sonic.AllowList
open List

open Str

namespace Names

structure Words (ns : Names) : Prop where
  pl : ∀ af, IsWord (ns.pl af)
  rm : ∀ af, IsWord (ns.rm af)
  community : IsWord ns.community

end Names

/-! ## Lines

The first character of a line tells the sections of the configuration apart. -/

def first (l : Str) : Option Char := (lstrip l).head?

theorem first_cons {c : Char} {l : Str} (hc : isSpace c = false) : first (c :: l) = some c := by
  simp [first, lstrip, hc]

theorem first_blank_cons {c : Char} {l : Str} (hc : isSpace c = false) : first (' ' :: c :: l) = some c := by
  rw [← first_cons (l := l) hc]
  rfl

theorem first_of_strip {c : Char} {p l : Str} (h : startsWith (c :: p) (strip l) = true) : first l = some c := by
  obtain ⟨r, hr⟩ := (startsWith_iff.mp h).trans ( rdropWhile_prefix isSpace (lstrip l))
  rw [first, ← hr]
  rfl

theorem first_of_startsWith {c : Char} {p l : Str} (hc : isSpace c = false) (h : startsWith (c :: p) l = true) :
    first l = some c := by
  obtain ⟨r, rfl⟩ := startsWith_iff.mp h
  exact first_cons hc

theorem first_prefixListLine {p : (Af × Str) × List (Nat × Str)} {l : Str} (h : l ∈ Frr.prefixListLines p) :
    first l = some 'i' := by
  obtain ⟨⟨af, pl⟩, rules⟩ := p
  obtain ⟨r, -, rfl⟩ := List.mem_map.mp h
  cases af <;> exact first_cons (by decide)

theorem first_communityListLine {p : Str × List Str} {l : Str} (h : l ∈ Frr.communityListLines p) :
    first l = some 'b' := by
  obtain ⟨v, -, rfl⟩ := List.mem_map.mp h
  exact first_cons (by decide)

theorem first_clause (c : Clause) : ∃ d, d ∉ "ibr".toList ∧ first c.text = some d := by
  cases c with
  | matchPrefixList af pl => exact ⟨'m', by decide, first_blank_cons (by decide)⟩
  | matchCommunity name => exact ⟨'m', by decide, first_blank_cons (by decide)⟩
  | setTag tag => exact ⟨'s', by decide, first_blank_cons (by decide)⟩
  | setCommunity value => exact ⟨'s', by decide, first_blank_cons (by decide)⟩
  | description text => exact ⟨'d', by decide, first_blank_cons (by decide)⟩
  | otherMatch text => exact ⟨'m', by decide, first_blank_cons (by decide)⟩
  | otherSet text => exact ⟨'s', by decide, first_blank_cons (by decide)⟩
  | call text => exact ⟨'c', by decide, first_blank_cons (by decide)⟩
  | onMatch text => exact ⟨'o', by decide, first_blank_cons (by decide)⟩

theorem routeMapLine_cases {p : Str × List (Nat × Entry)} {l : Str} (h : l ∈ Frr.routeMapLines p) :
    (∃ t, l = "route-map ".toList ++ (p.1 ++ ' ' :: t)) ∨ ∃ d, d ∉ "ibr".toList ∧ first l = some d := by
  obtain ⟨e, -, h⟩ := List.mem_flatMap.mp h
  rcases List.mem_cons.mp h with rfl | h
  · refine .inl ⟨(if e.2.permit then "permit " else "deny ").toList ++ ofNat e.1, ?_⟩
    cases e.2.permit <;> rfl
  · right
    rcases List.mem_append.mp h with h | h
    · obtain ⟨c, -, rfl⟩ := List.mem_map.mp h
      exact first_clause c
    · simp only [mem_cons, not_mem_nil, or_false] at h
      rcases h with rfl | rfl
      · exact ⟨'e', by decide, by decide⟩
      · exact ⟨'!', by decide, by decide⟩

theorem first_routeMapLine {p : Str × List (Nat × Entry)} {l : Str} (h : l ∈ Frr.routeMapLines p) :
    first l ≠ some 'i' ∧ first l ≠ some 'b' := by
  rcases routeMapLine_cases h with ⟨t, rfl⟩ | ⟨d, hd, he⟩
  · rw [show first ("route-map " ++ (p.1 ++ ' ' :: t)) = some 'r' from first_cons (by decide)]
    decide
  · grind

/-! ## Lists -/

theorem prefixListMatch_cons (af : Af) (pl : Str) : ∃ s, prefixListMatch af pl = 'i' :: s := by
  cases af <;> exact ⟨_, rfl⟩

theorem prefixListMatch_inj {af af' : Af} {pl pl' t : Str} (hp : ' ' ∉ pl) (hp' : ' ' ∉ pl')
    (h : prefixListMatch af pl <+: af'.family ++ (" prefix-list " ++ (pl' ++ ' ' :: t))) :
    af = af' ∧ pl = pl' := by
  cases af <;> cases af'
  · exact ⟨rfl, word_inj (a := "ip prefix-list ") hp hp' h⟩
  · obtain ⟨r, hr⟩ := h
    injection hr with _ hr; simp_all
  · obtain ⟨r, hr⟩ := h
    injection hr with _ hr; simp_all
  · exact ⟨rfl, word_inj (a := "ipv6 prefix-list ") hp hp' h⟩

def isPrefixListLine (af : Af) (pl l : Str) : Bool :=
  startsWith (prefixListMatch af pl) (strip l) || startsWith (prefixListMatch af pl) l

theorem isPrefixListValid_filter (lib : Addresses) (conf : List Str) (af : Af) (pl : Str) (allow const : List Str) :
    isPrefixListValid lib conf af pl allow const =
      isPrefixListValid lib (conf.filter (isPrefixListLine af pl)) af pl allow const := by
  unfold isPrefixListValid
  have h1 : (conf.filter (isPrefixListLine af pl)).any (fun l => startsWith (prefixListMatch af pl) (strip l)) =
      conf.any fun l => startsWith (prefixListMatch af pl) (strip l) := by
    rw [List.any_filter]
    grind [isPrefixListLine]
  have h2 : (conf.filter (isPrefixListLine af pl)).filter (startsWith (prefixListMatch af pl)) =
      conf.filter (startsWith (prefixListMatch af pl)) := by
    rw [List.filter_filter]
    congr 1
    grind [isPrefixListLine]
  rw [h1, h2]

/-! ## Route-maps -/

structure Passed (rm l : Str) : Prop where
  entry : startsWith (routeMapMatch rm) l = false
  default : strip l ≠ routeMapMatch rm ++ "65535"

theorem startsWith_routeMapMatch {rm l : Str} (h : routeMapMatch rm <+: l) : startsWith "route-map " l = true :=
  startsWith_iff.mpr ((prefix_append _ _).trans h)

theorem passed_of_lstrip {rm l : Str} (h : startsWith "route-map " (lstrip l) = false) : Passed rm l where
  entry := by
    by_contra hm
    obtain ⟨r, rfl⟩ := startsWith_iff.mp (by simpa using hm)
    have hl : lstrip (routeMapMatch rm ++ r) = routeMapMatch rm ++ r := rfl
    grind [startsWith_routeMapMatch]
  default := by
    intro hm
    have hp : strip l <+: lstrip l := rdropWhile_prefix isSpace (lstrip l)
    grind [startsWith_routeMapMatch, prefix_append]

theorem passed_of_first {rm l : Str} (h : first l ≠ some 'r') : Passed rm l := by
  apply passed_of_lstrip
  by_contra hm
  obtain ⟨r, hr⟩ := startsWith_iff.mp (by simpa using hm) <;> grind [first]

theorem passed_of_ne {rm name t : Str} (hr : ' ' ∉ rm) (hn : ' ' ∉ name) (hne : rm ≠ name) :
    Passed rm ("route-map " ++ (name ++ ' ' :: t)) where
  entry := by
    by_contra hm
    exact hne (word_inj hr hn (startsWith_iff.mp (eq_true_of_ne_false hm)))
  default := by
    intro hm
    have hp : strip ("route-map " ++ (name ++ ' ' :: t)) <+: "route-map " ++ (name ++ ' ' :: t) :=
      strip_prefix_of_head (by decide)
    rw [hm] at hp
    exact hne (word_inj hr hn ((prefix_append _ _).trans hp))

def shown (l : Str) : Bool := !startsWith ['!'] (lstrip l)

section
variable {σ : Type*} {step : σ → Str → Option σ} {Outside : σ → Prop} {rm : Str}
  (hpass : ∀ {s l}, Outside s → Passed rm l → step s l = some s)
  (hexit : ∀ {s s'}, step s "exit" = some s' → Outside s')

include hpass in
theorem foldlM_getText (f : Frr) {s : σ} (hs : Outside s) : (getText f ++ [[]]).foldlM step s =
    (f.routeMaps.flatMap (fun p => (Frr.routeMapLines p).filter shown) ++
      ["end".toList, "     ".toList, []]).foldlM step s := by
  have pass {ls : List Str} (h : ∀ l ∈ ls, Passed rm l) : (ls.filter shown).foldlM step s = some s :=
    Scan.foldlM_passed fun l hl => hpass hs (h l (List.mem_filter.mp hl).1)
  have ho : (f.other.filter shown).foldlM step s = some s := pass fun l hl => passed_of_lstrip (f.noRouteMap l hl)
  have hp : ((f.prefixLists.flatMap Frr.prefixListLines).filter shown).foldlM step s = some s := pass fun l hl => by
    grind [passed_of_first, first_prefixListLine]
  have hc : ((f.communityLists.flatMap Frr.communityListLines).filter shown).foldlM step s = some s :=
    pass fun l hl => by grind [passed_of_first, first_communityListLine]
  have ht : getText f ++ [[]] = f.other.filter shown ++ ((f.prefixLists.flatMap Frr.prefixListLines).filter shown ++
      ((f.communityLists.flatMap Frr.communityListLines).filter shown ++
        (f.routeMaps.flatMap (fun p => (Frr.routeMapLines p).filter shown) ++
          ["end".toList, "     ".toList, []]))) := by
    rw [← filter_flatMap]
    show (f.showRunningConfig.filter shown ++ ["     ".toList]) ++ [[]] = _
    simp only [Frr.showRunningConfig, filter_append, append_assoc]
    rfl
  grind [foldlM_append, Option.bind_some]

include hexit in
theorem outside_entry (name : Str) (e : Nat × Entry) {s s' : σ}
    (h : ((Frr.entryLines name e).filter shown).foldlM step s = some s') : Outside s' := by
  have he : Frr.entryLines name e =
      (("route-map ".toList ++ (name ++ ((if e.2.permit then " permit " else " deny ").toList
      ++ ofNat e.1))) :: e.2.clauses.map Clause.text) ++ ["exit".toList, "!".toList] := rfl
  have ht : ["exit".toList, "!".toList].filter shown = ["exit".toList] := by decide
  rw [he, filter_append, ht, foldlM_append] at h
  obtain ⟨t, -, h⟩ := Option.bind_eq_some_iff.mp h
  rw [foldlM_cons] at h
  obtain ⟨u, hu, h⟩ := Option.bind_eq_some_iff.mp h
  grind

end

theorem entryLine_passed {af : Af} {rm : Str} {s : EntryScan} {l : Str} (hs : s.inside = none) (hl : Passed rm l) :
    entryLine af rm s l = some s := by simp [entryLine, hs, EntryScan.enter, hl.entry]

theorem enter_exit {rm : Str} {s s' : EntryScan} (hs : s.inside = none) (h : s.enter rm "exit" = some s') :
    s'.inside = none := by
  have hn : startsWith (routeMapMatch rm) "exit" = false := (passed_of_first (by decide)).entry
  grind [EntryScan.enter]

theorem entryLine_exit {af : Af} {rm : Str} {s s' : EntryScan} (h : entryLine af rm s "exit" = some s') :
    s'.inside = none := by
  unfold entryLine at h
  split at h
  · rename_i hs
    exact enter_exit hs h
  · have hp : startsWith (matchPlAllowList af) (strip "exit") = false := by cases af <;> decide
    have hc : startsWith "match community " (strip "exit") = false := by decide
    rw [hp, hc, if_neg (by decide), if_neg (by decide)] at h
    exact enter_exit rfl h

theorem defaultLine_passed {rm : Str} {s : DefaultScan} {l : Str} (hs : s.inside = false ∨ s.found.isSome)
    (hl : Passed rm l) : defaultLine rm s l = s := by
  unfold defaultLine
  split
  · rfl
  · rename_i hf
    have hi : s.inside = false := hs.resolve_right hf
    rw [hi, if_neg (by decide), if_neg hl.default]

theorem defaultLine_exit (rm : Str) (s : DefaultScan) :
    (defaultLine rm s "exit").inside = false ∨ (defaultLine rm s "exit").found.isSome := by
  unfold defaultLine
  split
  · exact .inr ‹_›
  · split
    · exact .inl rfl
    · rename_i hi
      have hp : Passed rm "exit" := passed_of_first (by decide)
      rw [if_neg hp.default]
      simp_all

end Sonic.AllowList
