import Sonic.AllowListRead

/-! # Entries of route-maps in the running configuration

How the two scanners of the manager pass over the lines of one route-map entry, and what the one for
the default action reads there. -/

namespace Sonic.AllowList
open List Option

open Str

def ownClauses (af : Af) (pl community : Str) : List Clause :=
  .matchPrefixList af pl :: if community = emptyCommunity then [] else [.matchCommunity community]

/-! ## Scanning an entry -/

theorem shown_clause (c : Clause) : shown c.text = true := by cases c <;> rfl

theorem filter_entryLines (name : Str) (x : Nat × Entry) : (Frr.entryLines name x).filter shown =
    ("route-map ".toList ++ (name ++ ((if x.2.permit then " permit " else " deny ").toList ++ ofNat x.1)))
      :: (x.2.clauses.map Clause.text ++ ["exit".toList]) := by
  have hhead : shown ("route-map ".toList ++
      (name ++ ((if x.2.permit then " permit " else " deny ").toList ++ ofNat x.1))) = true :=
    rfl
  have htail : ["exit".toList, "!".toList].filter shown = ["exit".toList] := by decide
  simp_all [Frr.entryLines, shown_clause]

theorem passed_clause (rm : Str) (c : Clause) : Passed rm c.text := by
  obtain ⟨d, hd, hf⟩ := first_clause c
  grind [passed_of_first]

theorem entryLine_close {af : Af} {rm : Str} {s : EntryScan} {seq : Nat} {l : Str} (hs : s.inside = some seq)
    (hl : first l ≠ some 'm') (hp : Passed rm l) : entryLine af rm s l = some (s.close seq) := by
  have hno {p : Str} : startsWith ('m' :: p) (strip l) = false := by
    by_contra hm
    exact hl (first_of_strip (eq_true_of_ne_false hm))
  have hpl : startsWith (matchPlAllowList af) (strip l) = false := by
    cases af with
    | v4 => exact hno
    | v6 => exact hno
  have hcomm : startsWith "match community " (strip l) = false := hno
  simp_all [entryLine, EntryScan.enter, hp.entry]

theorem foldlM_pass {af : Af} {rm : Str} {s : EntryScan} (hs : s.inside = none) (cs : List Clause) :
    (cs.map Clause.text ++ ["exit".toList]).foldlM (entryLine af rm) s = some s :=
  Scan.foldlM_passed fun l hl => by
    refine entryLine_passed hs ?_
    rcases List.mem_append.mp hl with hl | hl
    · grind [passed_clause]
    · rw [List.mem_singleton.mp hl]
      exact passed_of_first (by decide)

theorem first_of_rank {c : Clause} (h : 1 < c.rank) : first c.text ≠ some 'm' := by
  cases c with
  | matchPrefixList af pl => exact absurd h (Nat.lt_irrefl 1)
  | matchCommunity name => exact absurd h (Nat.lt_irrefl 1)
  | description text => exact absurd h (Nat.not_lt_zero 1)
  | otherMatch text => exact absurd h (Nat.lt_irrefl 1)
  | setTag tag => rw [show first (Clause.setTag tag).text = some 's' from first_blank_cons (by decide)]; decide
  | setCommunity value =>
    rw [show first (Clause.setCommunity value).text = some 's' from first_blank_cons (by decide)]
    decide
  | otherSet text => rw [show first (Clause.otherSet text).text = some 's' from first_blank_cons (by decide)]; decide
  | call text => rw [show first (Clause.call text).text = some 'c' from first_blank_cons (by decide)]; decide
  | onMatch text => rw [show first (Clause.onMatch text).text = some 'o' from first_blank_cons (by decide)]; decide

theorem foldlM_rest {af : Af} {rm : Str} {s : EntryScan} {seq : Nat} (hs : s.inside = some seq) {rest : List Clause}
    (hrest : ∀ c ∈ rest.head?, 1 < c.rank) :
    (rest.map Clause.text ++ ["exit".toList]).foldlM (entryLine af rm) s = some (s.close seq) := by
  cases rest with
  | nil =>
    rw [map_nil, nil_append, foldlM_cons, entryLine_close hs (by decide) (passed_of_first (by decide))]
    rfl
  | cons c rest =>
    rw [map_cons, cons_append, foldlM_cons, entryLine_close hs (first_of_rank (hrest c rfl)) (passed_clause rm c)]
    exact foldlM_pass rfl rest

theorem permitLine_eq (rm : Str) (seq : Nat) :
    "route-map " ++ (rm ++ (" permit " ++ ofNat seq)) = routeMapMatch rm ++ ofNat seq := by
  have hassoc (a b c d : Str) : a ++ (b ++ (c ++ d)) = a ++ (b ++ c) ++ d := by simp only [append_assoc]
  exact hassoc _ _ _ _

theorem entryLine_permit {af : Af} {rm : Str} {s : EntryScan} (hs : s.inside = none) (seq : Nat) :
    entryLine af rm s (routeMapMatch rm ++ ofNat seq) = some { s with inside := some seq } := by
  have hdigit : isdigit (ofNat seq) = true := decide_eq_true ⟨ofNat_ne_nil seq, List.all_eq_true.mpr (isDigit_ofNat seq)⟩
  simp_all [entryLine, EntryScan.enter, startsWith_iff, decimal_ofNat]

theorem passed_deny (rm : Str) (seq : Nat) :
    Passed rm ("route-map ".toList ++ (rm ++ (" deny ".toList ++ ofNat seq))) := by
  have hno {t : Str} : ¬ "route-map ".toList ++ (rm ++ (" permit ".toList ++ t)) <+:
      "route-map ".toList ++ (rm ++ (" deny ".toList ++ ofNat seq)) := fun h => by simp_all
  constructor
  · by_contra hm
    exact hno (t := []) (startsWith_iff.mp (eq_true_of_ne_false hm))
  · intro hm
    have hp : strip ("route-map ".toList ++ (rm ++ (" deny ".toList ++ ofNat seq))) <+:
        "route-map ".toList ++ (rm ++ (" deny ".toList ++ ofNat seq)) := strip_prefix_of_head (by decide)
    rw [hm, show "65535".toList = ofNat 65535 from by decide, ← permitLine_eq] at hp
    exact hno hp

section
variable {σ : Type*} {step : σ → Str → Option σ} (Outside : σ → Prop) {rm : Str}
  (hpass : ∀ {s l}, Outside s → Passed rm l → step s l = some s)
  (hexit : ∀ {s s'}, step s "exit" = some s' → Outside s')

include hpass hexit in
theorem foldlM_routeMap {f : Frr} (hf : f.Wf) (hrm : IsWord rm) {s : σ} (hs : Outside s) :
    (getText f ++ [[]]).foldlM step s =
      ((f.entries rm).flatMap (fun x => (Frr.entryLines rm x).filter shown) ++
        ["end".toList, "     ".toList, []]).foldlM step s := by
  have hsections := @Scan.foldlM_sections _ _ _ (fun p => (Frr.routeMapLines p).filter shown)
    (fun p => decide (p.1 = rm)) step Outside ?_ f.routeMaps s ?_ hs
  · rw [foldlM_getText hpass f hs, foldlM_append, hsections, foldlM_append, Dict.filter_key hf.routeMaps, Frr.entries]
    congr 1
    cases f.routeMaps.get? rm with
    | none => rfl
    | some es => simp [Frr.routeMapLines, filter_flatMap]
  · intro p s s' hs h
    rw [Frr.routeMapLines, filter_flatMap] at h
    exact Scan.foldlM_outside _ (fun e s s' _ h => outside_entry hexit p.1 e h) hs h
  · intro p hp hk s hs l hl
    have hw : IsWord p.1 := hf.routeMapWords p.1 (List.mem_map_of_mem hp)
    grind [routeMapLine_cases, passed_of_ne, Sonic.Str.IsWord.not_blank, Sonic.Str.IsWord.not_blank, passed_of_first]

end

def readDefault (e : Entry) : Option Str :=
  if e.permit then e.clauses.head?.bind fun c => setCommunityMatch (strip c.text) else none

theorem foldl_skip {rm : Str} {s : DefaultScan} {ls : List Str} (hs : s.inside = false ∨ s.found.isSome)
    (h : ∀ l ∈ ls, strip l ≠ routeMapMatch rm ++ "65535") : ls.foldl (defaultLine rm) s = s := by
  induction ls with
  | nil => rfl
  | cons l ls ih =>
    have hl : defaultLine rm s l = s := by
      unfold defaultLine
      split
      · rfl
      · simp_all
    grind

theorem strip_permitLine (rm : Str) (seq : Nat) :
    strip (routeMapMatch rm ++ ofNat seq) = routeMapMatch rm ++ ofNat seq := by
  obtain ⟨t, ht⟩ : ∃ t, routeMapMatch rm = 'r' :: t := ⟨_, rfl⟩
  rw [ht]
  exact stripped_append (by decide) (ofNat_ne_nil seq) (isWord_ofNat seq).rstrip_eq

theorem default_ne_clauses (rm : Str) (cs : List Clause) : ∀ l ∈ cs.map Clause.text ++ ["exit".toList],
    strip l ≠ routeMapMatch rm ++ "65535".toList := by
  intro l hl
  rcases List.mem_append.mp hl with hl | hl
  · obtain ⟨c, -, rfl⟩ := List.mem_map.mp hl
    exact (passed_clause rm c).default
  · rw [List.mem_singleton.mp hl]
    exact (passed_of_first (by decide)).default

theorem foldl_default_ne {rm : Str} {s : DefaultScan} {x : Nat × Entry} (hs : s.inside = false ∨ s.found.isSome)
    (hx : x.1 ≠ 65535) : ((Frr.entryLines rm x).filter shown).foldl (defaultLine rm) s = s := by
  refine foldl_skip hs fun l hl => ?_
  rw [filter_entryLines] at hl
  rcases List.mem_cons.mp hl with rfl | hl
  · cases x.2.permit with
    | false => exact (passed_deny rm x.1).default
    | true =>
      rw [if_pos rfl, permitLine_eq, strip_permitLine]
      intro he
      exact hx (ofNat_injective ((List.append_cancel_left he).trans (by decide)))
  · grind [default_ne_clauses]

theorem foldl_default_eq (rm : Str) (e : Entry) :
    ((Frr.entryLines rm (65535, e)).filter shown).foldl (defaultLine rm) ⟨false, none⟩ = ⟨false, readDefault e⟩ := by
  rw [filter_entryLines, readDefault, foldl_cons]
  cases e.permit with
  | false =>
    rw [if_neg Bool.false_ne_true, if_neg Bool.false_ne_true, defaultLine_passed (.inl rfl) (passed_deny rm 65535)]
    exact foldl_skip (.inl rfl) (default_ne_clauses rm e.clauses)
  | true =>
    have hhead : defaultLine rm ⟨false, none⟩ (routeMapMatch rm ++ ofNat 65535) = ⟨true, none⟩ := by
      show (if strip (routeMapMatch rm ++ ofNat 65535) = routeMapMatch rm ++ "65535" then ⟨true, none⟩
        else ⟨false, none⟩ : DefaultScan) = _
      rw [strip_permitLine, if_pos (by rw [show ofNat 65535 = "65535" from by decide])]
    rw [if_pos rfl, if_pos rfl, permitLine_eq, hhead]
    cases e.clauses with
    | nil =>
      rw [map_nil, nil_append, foldl_cons]
      show (⟨false, setCommunityMatch (strip "exit")⟩ : DefaultScan) = _
      rw [show setCommunityMatch (strip "exit") = none from by decide]
      rfl
    | cons c cs => exact foldl_skip (.inl rfl) (default_ne_clauses rm cs)

theorem foldl_default_skip {rm : Str} {s : DefaultScan} (hs : s.inside = false ∨ s.found.isSome) :
    ∀ {es : List (Nat × Entry)}, (∀ x ∈ es, x.1 ≠ 65535) →
      (es.flatMap fun x => (Frr.entryLines rm x).filter shown).foldl (defaultLine rm) s = s
  | [], _ => rfl
  | x :: es, h => by
    rw [flatMap_cons, foldl_append, foldl_default_ne hs (h x mem_cons_self),
      foldl_default_skip hs fun y hy => h y (mem_cons_of_mem _ hy)]

theorem foldl_default (rm : Str) : ∀ {es : List (Nat × Entry)}, es.Pairwise (fun a b => a.1 < b.1) →
    (es.flatMap fun x => (Frr.entryLines rm x).filter shown).foldl (defaultLine rm) ⟨false, none⟩ =
      ⟨false, (Dict.get? es 65535).bind readDefault⟩
  | [], _ => rfl
  | (seq, e) :: es, h => by
    obtain ⟨hlt, hes⟩ := List.pairwise_cons.mp h
    rw [flatMap_cons, foldl_append, Dict.get?_cons]
    by_cases hseq : seq = 65535
    · subst hseq
      rw [if_pos rfl, foldl_default_eq]
      grind [foldl_default_skip]
    · rw [if_neg hseq, foldl_default_ne (.inl rfl) hseq, foldl_default rm hes]

theorem parseDefaultActionRouteMapEntry_getText {f : Frr} (hf : f.Wf) {rm : Str} (hrm : IsWord rm) :
    parseDefaultActionRouteMapEntry (getText f) rm = ((Dict.get? (f.entries rm) 65535).bind readDefault).getD [] := by
  have hscan := @foldlM_routeMap DefaultScan (fun s l => some (defaultLine rm s l))
    (fun s => s.inside = false ∨ s.found.isSome) rm (fun hs hl => congrArg some (defaultLine_passed hs hl))
    (fun h => by cases h; exact defaultLine_exit rm _) f hf hrm ⟨false, none⟩ (.inl rfl)
  have hfold (ls : List Str) (s : DefaultScan) : ls.foldlM (fun s l => some (defaultLine rm s l)) s =
      some (ls.foldl (defaultLine rm) s) := foldlM_pure
  have htail : ∀ l ∈ ["end".toList, "     ".toList, []], strip l ≠ routeMapMatch rm ++ "65535".toList := fun l hl => by
    refine (passed_of_first ?_).default
    simp only [mem_cons, not_mem_nil, or_false] at hl
    rcases hl with rfl | rfl | rfl <;> decide
  rw [hfold, hfold] at hscan
  rw [parseDefaultActionRouteMapEntry, Option.some.inj hscan, foldl_append, foldl_default rm (hf.sorted rm),
    foldl_skip (.inl rfl) htail]

end Sonic.AllowList
