import Sonic.YangPath

/-! # The scanners of xpaths

`xpath_split` works with positions in the text: three loops, each of which hands the position it has
reached to the next. A loop gets a number of rounds and is `none` if it has not ended by then. The
loops are shown to follow the modes of an automaton that reads the text character by character. -/

namespace Sonic.Xpath
open List

open Str
open Yang (apostrophe)

section
variable (xpath : Str)

def quoteStrLoop (ch : Char) : Nat → Nat → Option Nat
  | 0, idx => if idx < xpath.length then none else some idx
  | fuel + 1, idx =>
    match xpath[idx]? with
    | none => some idx
    | some c => if c = ch then some idx else quoteStrLoop ch fuel (idx + 1)

def getXpathQuoteStrEnd (fuel : Nat) (ch : Char) (start : Nat) : Option Nat := quoteStrLoop xpath ch fuel (start + 1)

def getXpathPredicateEnd : Nat → Nat → Option Nat
  | 0, idx => if idx < xpath.length then none else some idx
  | fuel + 1, idx =>
    match xpath[idx]? with
    | none => some idx
    | some c =>
      if c = ']' then some idx
      else if c = apostrophe ∨ c = '"' then
        (getXpathQuoteStrEnd xpath fuel c idx).bind fun idx => getXpathPredicateEnd fuel (idx + 1)
      else getXpathPredicateEnd fuel (idx + 1)

def getXpathTokenEnd : Nat → Nat → Option Nat
  | 0, idx => if idx < xpath.length then none else some idx
  | fuel + 1, idx =>
    match xpath[idx]? with
    | none => some idx
    | some c =>
      if c = '/' then some idx
      else if c = '[' then (getXpathPredicateEnd xpath (fuel + 1) idx).bind fun idx => getXpathTokenEnd fuel (idx + 1)
      else getXpathTokenEnd fuel (idx + 1)

def splitLoop : Nat → Nat → Option (List Str)
  | 0, idx => if idx < xpath.length then none else some []
  | fuel + 1, idx =>
    if idx < xpath.length then
      (getXpathTokenEnd xpath fuel (idx + 1)).bind fun stop =>
        (splitLoop fuel stop).map (((xpath.take stop).drop (idx + 1)) :: ·)
    else some []

def xpathSplit (fuel : Nat) : Option (Option (List Str)) :=
  if xpath = [] then some none
  else if xpath = ['/'] then some (some [])
  else (splitLoop xpath fuel 0).map some

end

def xpathJoin (tokens : List Str) (schemaXpath : Bool) : Str :=
  if schemaXpath = false then '/' :: ['/'].intercalate tokens else '/' :: ['/'].intercalate tokens

/-! ## The scan as an automaton -/

/-- Where in an xpath token the scan is: outside of predicates, in one, or in a quoted text in one. -/
inductive Mode where
  | token
  | predicate
  | quoted (q : Char)

/-- `none` where the token ends. -/
def Mode.next : Mode → Char → Option Mode
  | token, c => if c = '/' then none else if c = '[' then some predicate else some token
  | predicate, c => if c = ']' then some token else if c = apostrophe ∨ c = '"' then some (quoted c) else some predicate
  | quoted q, c => if c = q then some predicate else some (quoted q)

def xpathTokens (mode : Mode) : Str → List Str
  | [] => [[]]
  | c :: s =>
    match mode.next c with
    | none => [] :: xpathTokens .token s
    | some mode' => (xpathTokens mode' s).modifyHead (c :: ·)

def splitTokens (xpath : Str) : Option (List Str) :=
  if xpath = [] then none else if xpath = ['/'] then some [] else some (xpathTokens .token (xpath.drop 1))

def Mode.run : Mode → Str → Option Mode
  | mode, [] => some mode
  | mode, c :: s => (mode.next c).bind (·.run s)

theorem Mode.run_append (s t : Str) : ∀ mode : Mode, mode.run (s ++ t) = (mode.run s).bind (·.run t) := by
  induction s with
  | nil => exact fun _ => rfl
  | cons c s ih =>
    intro mode
    rw [cons_append, Mode.run, Mode.run]
    cases mode.next c <;> simp_all

theorem Mode.run_stay {mode : Mode} : ∀ {s : Str}, (∀ c ∈ s, mode.next c = some mode) → mode.run s = some mode
  | [], _ => rfl
  | c :: s, h => by
    rw [Mode.run, h c mem_cons_self, Option.bind_some]
    exact Mode.run_stay fun d hd => h d (mem_cons_of_mem _ hd)

theorem xpathTokens_append (t : Str) : ∀ {s : Str} {mode mode' : Mode}, mode.run s = some mode' →
    xpathTokens mode (s ++ t) = (xpathTokens mode' t).modifyHead (s ++ ·)
  | [], mode, mode', h => by
    cases h
    show _ = List.modifyHead id _
    simp_all
  | c :: s, mode, mode', h => by
    rw [Mode.run] at h
    obtain ⟨m, hm, h⟩ := Option.bind_eq_some_iff.mp h
    rw [cons_append, xpathTokens, hm]
    dsimp only
    rw [xpathTokens_append t h, modifyHead_modifyHead]
    rfl

theorem xpathTokens_flatMap : ∀ {s : Str} {tokens : List Str}, Mode.token.run s = some .token →
    (∀ t ∈ tokens, Mode.token.run t = some .token) → xpathTokens .token (s ++ tokens.flatMap ('/' :: ·)) = s :: tokens
  | s, [], hs, _ => by
    rw [xpathTokens_append _ hs]
    show List.modifyHead (s ++ ·) [[]] = [s]
    simp
  | s, t :: tokens, hs, htokens => by
    have ih := xpathTokens_flatMap (htokens t mem_cons_self) fun u hu => htokens u (mem_cons_of_mem _ hu)
    rw [xpathTokens_append _ hs, flatMap_cons, cons_append]
    show List.modifyHead (s ++ ·) ([] :: xpathTokens .token _) = _
    grind [modifyHead_cons]

def span : Mode → Str → Nat
  | _, [] => 0
  | mode, c :: s =>
    match mode.next c with
    | none => 0
    | some mode' => span mode' s + 1

theorem span_le : ∀ (mode : Mode) (s : Str), span mode s ≤ s.length
  | _, [] => le_rfl
  | mode, c :: s => by
    rw [span]
    cases mode.next c with
    | none => exact Nat.zero_le _
    | some mode' => exact Nat.succ_le_succ (span_le mode' s)

section
variable {xpath : Str} {mode : Mode} {idx : Nat}

def stop (xpath : Str) (mode : Mode) (idx : Nat) : Nat := min (idx + span mode (xpath.drop idx)) xpath.length

theorem stop_of_le (h : xpath.length ≤ idx) (mode : Mode) : stop xpath mode idx = xpath.length :=
  Nat.min_eq_right (Nat.le_add_right_of_le h)

theorem stop_step {c : Char} (hc : xpath[idx]? = some c) (mode : Mode) : stop xpath mode idx =
    match mode.next c with
    | none => idx
    | some mode' => stop xpath mode' (idx + 1) := by
  obtain ⟨hlt, hget⟩ := List.getElem?_eq_some_iff.mp hc
  rw [stop, drop_eq_getElem_cons hlt, hget, span]
  cases mode.next c with
  | none => grind
  | some mode' =>
    show min (idx + (span mode' (xpath.drop (idx + 1)) + 1)) _ = min (idx + 1 + span mode' (xpath.drop (idx + 1))) _
    grind

theorem stop_next {c : Char} {mode' : Mode} (hc : xpath[idx]? = some c) (hn : mode.next c = some mode') :
    stop xpath mode idx = stop xpath mode' (idx + 1) := by rw [stop_step hc, hn]

theorem stop_past {mode' : Mode} (h : xpath.length ≤ idx) : stop xpath mode idx = stop xpath mode' (idx + 1) := by
  grind [stop_of_le]

/-! ## The loops

Each loop ends within as many rounds as there are characters left, at the
position where the modes change. -/

theorem quoteStrLoop_spec (xpath : Str) (ch : Char) : ∀ fuel idx : Nat, xpath.length ≤ idx + fuel →
    ∃ e, quoteStrLoop xpath ch fuel idx = some e ∧ idx ≤ e ∧ stop xpath (.quoted ch) idx = stop xpath .predicate (e + 1)
  | 0, idx, hf => ⟨idx, if_neg (Nat.not_lt.mpr hf), le_rfl, stop_past hf⟩
  | fuel + 1, idx, hf => by
    rw [quoteStrLoop]
    cases hc : xpath[idx]? with
    | none => grind [stop_past]
    | some c =>
      by_cases he : c = ch
      · exact ⟨idx, if_pos he, le_rfl, stop_next hc (if_pos he)⟩
      · have hnext : (Mode.quoted ch).next c = some (.quoted ch) := if_neg he
        obtain ⟨e, hloop, hle, hstop⟩ := quoteStrLoop_spec xpath ch fuel (idx + 1) (by omega)
        grind [stop_next]

theorem getXpathPredicateEnd_spec (xpath : Str) : ∀ fuel idx : Nat, xpath.length ≤ idx + fuel →
    ∃ e, getXpathPredicateEnd xpath fuel idx = some e ∧ idx ≤ e ∧ stop xpath .predicate idx = stop xpath .token (e + 1)
  | 0, idx, hf => ⟨idx, if_neg (Nat.not_lt.mpr hf), le_rfl, stop_past hf⟩
  | fuel + 1, idx, hf => by
    rw [getXpathPredicateEnd]
    cases hc : xpath[idx]? with
    | none => grind [stop_past]
    | some c =>
      by_cases hend : c = ']'
      · exact ⟨idx, if_pos hend, le_rfl, stop_next hc (if_pos hend)⟩
      by_cases hquote : c = apostrophe ∨ c = '"'
      · -- the literal is skipped, and the loop goes on behind it
        have hnext : Mode.predicate.next c = some (.quoted c) := (if_neg hend).trans (if_pos hquote)
        obtain ⟨q, hq, hleq, hstopq⟩ := quoteStrLoop_spec xpath c fuel (idx + 1) (by omega)
        obtain ⟨e, hloop, hle, hstop⟩ := getXpathPredicateEnd_spec xpath fuel (q + 1) (by omega)
        grind [getXpathQuoteStrEnd, stop_next]
      · have hnext : Mode.predicate.next c = some .predicate := (if_neg hend).trans (if_neg hquote)
        obtain ⟨e, hloop, hle, hstop⟩ := getXpathPredicateEnd_spec xpath fuel (idx + 1) (by omega)
        grind [stop_next]

theorem getXpathTokenEnd_spec (xpath : Str) : ∀ fuel idx : Nat, xpath.length ≤ idx + fuel →
    ∃ e, getXpathTokenEnd xpath fuel idx = some e ∧ idx ≤ e ∧ stop xpath .token idx = min e xpath.length
  | 0, idx, hf => ⟨idx, if_neg (Nat.not_lt.mpr hf), le_rfl, (stop_of_le hf _).trans (Nat.min_eq_right hf).symm⟩
  | fuel + 1, idx, hf => by
    rw [getXpathTokenEnd]
    cases hc : xpath[idx]? with
    | none => simp_all [stop_of_le]
    | some c =>
      have hlt : idx < xpath.length := (List.getElem?_eq_some_iff.mp hc).1
      by_cases hslash : c = '/'
      · refine ⟨idx, if_pos hslash, le_rfl, ?_⟩
        rw [stop_step hc, show Mode.token.next c = none from if_pos hslash, Nat.min_eq_left (Nat.le_of_lt hlt)]
      by_cases hopen : c = '['
      · -- the scan of the predicate starts at its bracket
        have hnext : Mode.token.next c = some .predicate := (if_neg hslash).trans (if_pos hopen)
        have hpred : Mode.predicate.next c = some .predicate := by rw [hopen]; rfl
        obtain ⟨p, hp, hlep, hstopp⟩ := getXpathPredicateEnd_spec xpath (fuel + 1) idx hf
        obtain ⟨e, hloop, hle, hstop⟩ := getXpathTokenEnd_spec xpath fuel (p + 1) (by omega)
        refine ⟨e, ?_, by omega, ?_⟩
        · grind
        · rw [stop_next hc hnext, ← stop_next hc hpred, hstopp, hstop]
      · have hnext : Mode.token.next c = some .token := (if_neg hslash).trans (if_neg hopen)
        obtain ⟨e, hloop, hle, hstop⟩ := getXpathTokenEnd_spec xpath fuel (idx + 1) (by omega)
        grind [stop_next]

theorem xpathTokens_eq : ∀ (mode : Mode) (s : Str), xpathTokens mode s =
    s.take (span mode s) :: if span mode s < s.length then xpathTokens .token (s.drop (span mode s + 1)) else []
  | _, [] => rfl
  | mode, c :: s => by
    rw [xpathTokens, span]
    cases mode.next c with
    | none => rfl
    | some mode' =>
      dsimp only
      rw [xpathTokens_eq mode' s, modifyHead_cons, take_succ_cons, length_cons, drop_succ_cons]
      simp only [Nat.add_lt_add_iff_right]

theorem splitLoop_of_le (h : xpath.length ≤ idx) : ∀ fuel, splitLoop xpath fuel idx = some []
  | 0 => if_neg (Nat.not_lt.mpr h)
  | _ + 1 => if_neg (Nat.not_lt.mpr h)

theorem splitLoop_spec : ∀ (fuel idx : Nat), idx < xpath.length → xpath.length ≤ idx + fuel →
    splitLoop xpath fuel idx = some (xpathTokens .token (xpath.drop (idx + 1)))
  | 0, _, hlt, hf => absurd hf (Nat.not_le.mpr hlt)
  | fuel + 1, idx, hlt, hf => by
    obtain ⟨e, he, hle, hstop⟩ := getXpathTokenEnd_spec xpath fuel (idx + 1) (by omega)
    rw [stop] at hstop
    have hlen : (xpath.drop (idx + 1)).length = xpath.length - (idx + 1) := length_drop
    rw [splitLoop, if_pos hlt, he, Option.bind_some, xpathTokens_eq]
    generalize hn : span .token (xpath.drop (idx + 1)) = n at hstop ⊢
    have hspan : n ≤ xpath.length - (idx + 1) := by grind [span_le]
    have htoken : (xpath.take e).drop (idx + 1) = (xpath.drop (idx + 1)).take n := by
      rw [drop_take, take_eq_take_iff, hlen]
      omega
    by_cases hend : e < xpath.length
    · have hn' : idx + 1 + n = e := by omega
      rw [splitLoop_spec fuel e hend (by omega), if_pos (by omega), drop_drop, htoken, ← Nat.add_assoc, hn']
      rfl
    · grind [splitLoop_of_le]

theorem xpathSplit_eq {fuel : Nat} (h : xpath.length ≤ fuel) : xpathSplit xpath fuel = some (splitTokens xpath) := by
  grind [xpathSplit, splitTokens, splitLoop_spec, length_pos_of_ne_nil]

end

/-! ## Joining and splitting -/

structure Predicate where
  key : Str
  quote : Char
  value : Str
  key_plain : ∀ c ∈ key, c ≠ ']' ∧ c ≠ apostrophe ∧ c ≠ '"'
  quote_is : quote = apostrophe ∨ quote = '"'
  value_free : quote ∉ value

def Predicate.text (p : Predicate) : Str := '[' :: (p.key ++ '=' :: p.quote :: (p.value ++ [p.quote, ']']))

structure Token where
  name : Str
  preds : List Predicate
  name_plain : ∀ c ∈ name, c ≠ '/' ∧ c ≠ '[' ∧ c ≠ apostrophe ∧ c ≠ '"'
  nonempty : name ≠ [] ∨ preds ≠ []

def Token.text (t : Token) : Str := t.name ++ t.preds.flatMap Predicate.text

theorem Predicate.run_text (p : Predicate) : Mode.token.run p.text = some .token := by
  have hkey : Mode.predicate.run p.key = some .predicate := Mode.run_stay fun c hc => by
    simp_all [p.key_plain, Mode.next]
  have hopen : Mode.predicate.next p.quote = some (.quoted p.quote) := by
    have hend : p.quote ≠ ']' := by
      rcases p.quote_is with h | h <;> rw [h] <;> decide
    rw [Mode.next, if_neg hend, if_pos p.quote_is]
  have hvalue : (Mode.quoted p.quote).run p.value = some (.quoted p.quote) := Mode.run_stay fun c hc => by
    have hne : c ≠ p.quote := fun he => p.value_free (he ▸ hc)
    rw [Mode.next, if_neg hne]
  have hclose : (Mode.quoted p.quote).run [p.quote, ']'] = some .token := by
    rw [Mode.run, Mode.next, if_pos rfl]
    rfl
  show Mode.predicate.run (p.key ++ _) = _
  rw [Mode.run_append, hkey, Option.bind_some]
  show (Mode.predicate.next p.quote).bind _ = _
  grind [Mode.run_append]

theorem run_predicates : ∀ ps : List Predicate, Mode.token.run (ps.flatMap Predicate.text) = some .token
  | [] => rfl
  | p :: ps => by rw [flatMap_cons, Mode.run_append, p.run_text, Option.bind_some, run_predicates ps]

theorem Token.run_text (t : Token) : Mode.token.run t.text = some .token := by
  have hname : Mode.token.run t.name = some .token := Mode.run_stay fun c hc => by grind [t.name_plain, Mode.next]
  grind [Token.text, Mode.run_append, run_predicates]

theorem Token.text_ne_nil (t : Token) : t.text ≠ [] := by
  intro he
  obtain ⟨hname, hpreds⟩ := List.append_eq_nil_iff.mp he
  rcases t.nonempty with h | h
  · exact h hname
  · obtain ⟨p, ps, hp⟩ := exists_cons_of_ne_nil h
    rw [hp, flatMap_cons] at hpreds
    exact cons_ne_nil _ _ (List.append_eq_nil_iff.mp hpreds).1

theorem xpathJoin_cons (schemaXpath : Bool) : ∀ (t : Str) (tokens : List Str),
    xpathJoin (t :: tokens) schemaXpath = '/' :: (t ++ tokens.flatMap ('/' :: ·)) := by
  have hjoin : ∀ (tokens : List Str) (t : Str), ['/'].intercalate (t :: tokens) = t ++ tokens.flatMap ('/' :: ·) := by
    intro tokens
    induction tokens <;> simp_all
  simp_all [xpathJoin]

theorem split_join (tokens : List Token) (schemaXpath : Bool) :
    splitTokens (xpathJoin (tokens.map Token.text) schemaXpath) = some (tokens.map Token.text) := by
  cases tokens with
  | nil => cases schemaXpath <;> rfl
  | cons t tokens =>
    have hne : '/' :: (t.text ++ (tokens.map Token.text).flatMap ('/' :: ·)) ≠ ['/'] := fun he =>
      t.text_ne_nil (List.append_eq_nil_iff.mp (tail_eq_of_cons_eq he)).1
    have hrun : ∀ s ∈ tokens.map Token.text, Mode.token.run s = some .token :=
      List.forall_mem_map.mpr fun t _ => t.run_text
    simp_all [xpathJoin_cons, splitTokens, xpathTokens_flatMap, Token.run_text]

/-- Splitting ends on every text, within a round for each character, and gives
back the tokens that a text was joined from. -/
theorem xpathSplit_terminates_and_inverts :
    (∀ (xpath : Str) (fuel : Nat), xpath.length ≤ fuel → (xpathSplit xpath fuel).isSome) ∧
    ∀ (tokens : List Token) (schemaXpath : Bool) (fuel : Nat),
      (xpathJoin (tokens.map Token.text) schemaXpath).length ≤ fuel →
        xpathSplit (xpathJoin (tokens.map Token.text) schemaXpath) fuel = some (some (tokens.map Token.text)) := by
  refine ⟨fun xpath fuel h => ?_, fun tokens schemaXpath fuel h => ?_⟩
  · rw [xpathSplit_eq h]
    rfl
  · rw [xpathSplit_eq h, split_join]

theorem xpathSplit_quoted_delimiters :
    xpathSplit "/port/list[name=\"it's/[a]\"]".toList 27 =
      some (some ["port".toList, "list[name=\"it's/[a]\"]".toList]) :=
  xpathSplit_terminates_and_inverts.2
    [⟨"port".toList, [], @of_decide_eq_true _ (List.decidableBAll _ _) rfl, .inl (by decide)⟩,
      ⟨"list".toList, [⟨"name".toList,
        '"', "it's/[a]".toList, @of_decide_eq_true _ (List.decidableBAll _ _) rfl, .inr rfl,
        by decide⟩], @of_decide_eq_true _ (List.decidableBAll _ _) rfl, .inl (by decide)⟩]
    false 27 (by decide)

end Sonic.Xpath
