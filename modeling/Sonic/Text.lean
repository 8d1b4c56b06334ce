import Mathlib.Data.List.DropRight
import Mathlib.Data.List.TakeWhile

/-! # Text as lists of characters

The string methods the daemons use, on lists of characters: `split` at one character, `join`,
`strip`, `lower` and `upper`. A text that is joined from parts without the separator splits into
these parts again. -/

namespace Sonic
open List

abbrev Str := List Char

instance : Coe String Str := ⟨String.toList⟩

instance : LawfulBEq Str := inferInstance

namespace Str

def isSpace (c : Char) : Bool :=
  let n := c.toNat
  (9 ≤ n && n ≤ 13) || (28 ≤ n && n ≤ 32) || n = 0x85 || n = 0xa0 || n = 0x1680 ||
    (0x2000 ≤ n && n ≤ 0x200a) || n = 0x2028 || n = 0x2029 || n = 0x202f || n = 0x205f || n = 0x3000

def lstrip (s : Str) : Str := s.dropWhile isSpace

def rstrip (s : Str) : Str := s.rdropWhile isSpace

def strip (s : Str) : Str := rstrip (lstrip s)

def split (sep : Char) (s : Str) : List Str := s.splitOn sep

def join (sep : Str) (l : List Str) : Str := sep.intercalate l

def lower (s : Str) : Str := s.map Char.toLower

def upper (s : Str) : Str := s.map Char.toUpper

def replace (a b : Char) (s : Str) : Str := s.map fun c => if c = a then b else c

def startsWith (p s : Str) : Bool := p.isPrefixOf s

def endsWith (p s : Str) : Bool := p.isSuffixOf s

def splitOnce (sub : Str) : Str → Option (Str × Str)
  | [] => if sub = [] then some ([], []) else none
  | c :: s =>
    if startsWith sub (c :: s) then some ([], (c :: s).drop sub.length)
    else (splitOnce sub s).map fun p => (c :: p.1, p.2)

def contains (sub s : Str) : Bool := (splitOnce sub s).isSome

def removeFrom (sub : Str) : Nat → Str → Str
  | _, [] => []
  | k + 1, _ :: s => removeFrom sub k s
  | 0, c :: s => if startsWith sub (c :: s) then removeFrom sub (sub.length - 1) s else c :: removeFrom sub 0 s

def remove (sub s : Str) : Str := removeFrom sub 0 s

def ofNat (n : Nat) : Str := Nat.toDigits 10 n

/-- Decimal digits are those of ASCII, here and in `int`. -/
def isdigit (s : Str) : Bool := s ≠ [] ∧ s.all Char.isDigit

def decimal (s : Str) : Nat := s.foldl (fun n c => n * 10 + (c.toNat - '0'.toNat)) 0

def digits (s : Str) : Option Nat :=
  if (split '_' s).all isdigit then some (decimal (split '_' s).flatten) else none

def int (s : Str) : Option Int :=
  match strip s with
  | '-' :: t => (digits t).map fun n => -n
  | '+' :: t => (digits t).map fun n => n
  | t => (digits t).map fun n => n

def ofInt : Int → Str
  | .ofNat n => ofNat n
  | .negSucc n => '-' :: ofNat (n + 1)

/-- No blank at either end. -/
def Stripped (s : Str) : Prop := strip s = s

instance (s : Str) : Decidable (Stripped s) := inferInstanceAs (Decidable (_ = _))

theorem mem_of_mem_lstrip {c : Char} {s : Str} (h : c ∈ lstrip s) : c ∈ s :=
  (dropWhile_sublist isSpace).subset h

theorem mem_of_mem_strip {c : Char} {s : Str} (h : c ∈ strip s) : c ∈ s :=
  mem_of_mem_lstrip (( rdropWhile_prefix isSpace (lstrip s)).subset h)

theorem mem_strip {c : Char} {s : Str} (hc : isSpace c = false) (h : c ∈ s) : c ∈ strip s := by
  have hdrop : ∀ {t : Str}, c ∈ t → c ∈ t.dropWhile isSpace := fun {t} ht => by
    rw [← takeWhile_append_dropWhile (p := isSpace) (l := t)] at ht
    grind [mem_takeWhile_imp]
  exact List.mem_reverse.mpr (hdrop (List.mem_reverse.mpr (hdrop h)))

theorem strip_eq_nil {s : Str} : strip s = [] ↔ ∀ c ∈ s, isSpace c = true := by
  unfold strip rstrip
  rw [rdropWhile_eq_nil_iff]
  constructor
  · intro h c hc
    rw [← takeWhile_append_dropWhile (p := isSpace) (l := s)] at hc
    rcases List.mem_append.mp hc with hc | hc
    · exact mem_takeWhile_imp hc
    · exact h c hc
  · grind [mem_of_mem_lstrip]

theorem lstrip_strip (s : Str) : lstrip (strip s) = strip s := by
  show (strip s).dropWhile isSpace = strip s
  rw [dropWhile_eq_self_iff]
  intro hl
  have hp : strip s <+: lstrip s := rdropWhile_prefix isSpace (lstrip s)
  grind [lstrip, dropWhile_eq_self_iff, dropWhile_idempotent, List.IsPrefix.getElem]

theorem strip_strip (s : Str) : Stripped (strip s) := by
  show rstrip (lstrip (strip s)) = strip s
  rw [lstrip_strip]
  exact rdropWhile_idempotent isSpace (lstrip s)

theorem strip_ne_nil {s : Str} (hs : Stripped s) (hn : s ≠ []) : ∃ c ∈ s, isSpace c = false := by
  by_contra h
  apply hn
  rw [← hs, strip_eq_nil]
  grind

theorem append_sep_inj {sep : Char} : ∀ {a b x y : Str}, sep ∉ a → sep ∉ b →
    a ++ sep :: x = b ++ sep :: y → a = b ∧ x = y
  | [], [], _, _, _, _, h => by simpa using h
  | [], c :: b, _, _, _, hb, h => by grind
  | c :: a, [], _, _, ha, _, h => by grind
  | c :: a, d :: b, _, _, ha, hb, h => by
    simp only [cons_append, List.cons.injEq] at h
    obtain ⟨rfl, h⟩ := h
    obtain ⟨rfl, rfl⟩ := append_sep_inj (fun e => ha (mem_cons_of_mem _ e))
      (fun e => hb (mem_cons_of_mem _ e)) h
    exact ⟨rfl, rfl⟩

/-! ## Words

A text without blanks is read back from a line in which a blank follows it. -/

def IsWord (s : Str) : Prop := ∀ c ∈ s, isSpace c = false

instance (s : Str) : Decidable (IsWord s) := List.decidableBAll (fun c => isSpace c = false) s

theorem IsWord.append {a b : Str} (ha : IsWord a) (hb : IsWord b) : IsWord (a ++ b) :=
  fun c hc => (List.mem_append.mp hc).elim (ha c) (hb c)

theorem IsWord.of_subset {a b : Str} (hb : IsWord b) (h : ∀ c ∈ a, c ∈ b) : IsWord a := fun c hc => hb c (h c hc)

theorem IsWord.not_blank {s : Str} (h : IsWord s) : ' ' ∉ s := fun hc => absurd (h ' ' hc) (by decide)

theorem isWord_of_isDigit {s : Str} (h : ∀ c ∈ s, c.isDigit = true) : IsWord s := by
  intro c hc
  have hd := h c hc
  simp only [Char.isDigit, Bool.and_eq_true, decide_eq_true_eq, ge_iff_le, UInt32.le_iff_toNat_le] at hd
  grind [Char.toNat, isSpace]

theorem isDigit_ofNat (n : Nat) : ∀ c ∈ ofNat n, c.isDigit = true :=
  fun _ hc => Nat.isDigit_of_mem_toDigits (by decide) (by decide) hc

theorem ofNat_ne_nil (n : Nat) : ofNat n ≠ [] := Nat.toDigits_ne_nil

theorem isWord_ofNat (n : Nat) : IsWord (ofNat n) := isWord_of_isDigit (isDigit_ofNat n)

theorem isWord_ofInt : ∀ n : Int, IsWord (ofInt n)
  | .ofNat n => isWord_ofNat n
  | .negSucc n => fun c hc => by
    rcases List.mem_cons.mp hc with rfl | hc
    · decide
    · exact isWord_ofNat (n + 1) c hc

theorem startsWith_iff {p s : Str} : startsWith p s = true ↔ p <+: s := isPrefixOf_iff_prefix

theorem strip_prefix_of_head {c : Char} {s : Str} (hc : isSpace c = false) : strip (c :: s) <+: c :: s := by
  have hl : lstrip (c :: s) = c :: s := by simp [lstrip, hc]
  rw [strip, hl]
  exact rdropWhile_prefix isSpace (c :: s)

theorem strip_cons_of_isSpace {c : Char} {s : Str} (hc : isSpace c = true) : strip (c :: s) = strip s := by
  simp [strip, lstrip, hc]

theorem word_inj {a x y s t : Str} (hx : ' ' ∉ x) (hy : ' ' ∉ y) (h : a ++ (x ++ ' ' :: s) <+: a ++ (y ++ ' ' :: t)) :
    x = y := by
  obtain ⟨r, hr⟩ := h
  grind [append_cancel_left_eq, append_sep_inj]

theorem mem_of_mem_splitOnce {sub : Str} {c : Char} : ∀ {s : Str} {p : Str × Str}, splitOnce sub s = some p →
    (c ∈ p.1 → c ∈ s) ∧ (c ∈ p.2 → c ∈ s)
  | [], p, h => by grind [splitOnce]
  | d :: s, p, h => by
    simp only [splitOnce] at h
    split at h
    · grind
    · obtain ⟨q, hq, rfl⟩ := Option.map_eq_some_iff.mp h
      obtain ⟨h1, h2⟩ := mem_of_mem_splitOnce (c := c) hq
      grind

theorem mem_of_splitOnce {sub : Str} {c : Char} : ∀ {s : Str} {p : Str × Str}, splitOnce sub s = some p →
    c ∈ sub → c ∈ s
  | [], p, h, hc => by grind [splitOnce]
  | d :: s, p, h, hc => by
    simp only [splitOnce] at h
    split at h
    · rename_i hsub
      exact (List.isPrefixOf_iff_prefix.mp hsub).subset hc
    · obtain ⟨q, hq, -⟩ := Option.map_eq_some_iff.mp h
      exact mem_cons_of_mem _ (mem_of_splitOnce hq hc)

/-! ## Splitting and joining -/

theorem split_ne_nil (sep : Char) (s : Str) : split sep s ≠ [] := splitOn_ne_nil sep s

theorem not_mem_split {sep : Char} : ∀ {s : Str} {p : Str}, p ∈ split sep s → sep ∉ p
  | [], p, h => by simp [split] at h; subst h; simp
  | c :: s, p, h => by
    unfold split at h
    rw [splitOn_cons_eq_if_modifyHead] at h
    split at h
    · rcases List.mem_cons.mp h with rfl | h
      · simp
      · exact not_mem_split h
    · rename_i hc
      cases hs : s.splitOn sep with
      | nil => simp_all
      | cons q qs =>
        rw [hs, modifyHead_cons] at h
        rcases List.mem_cons.mp h with rfl | h
        · have hq : sep ∉ q := not_mem_split (s := s) (by unfold split; rw [hs]; simp)
          simp_all [Ne.symm]
        · exact not_mem_split (s := s) (by grind [split])

theorem mem_of_mem_split {sep : Char} {s p : Str} {c : Char} (hp : p ∈ split sep s) (hc : c ∈ p) : c ∈ s := by
  induction s generalizing p with
  | nil => simp [split] at hp; subst hp; exact hc
  | cons a s ih =>
    unfold split at hp
    rw [splitOn_cons_eq_if_modifyHead] at hp
    split at hp
    · rcases List.mem_cons.mp hp with rfl | hp
      · cases hc
      · exact mem_cons_of_mem _ (ih hp hc)
    · cases hs : s.splitOn sep <;> grind [splitOn_ne_nil, modifyHead_cons, split]

theorem split_join {sep : Char} {l : List Str} (h : ∀ p ∈ l, sep ∉ p) (hn : l ≠ []) :
    split sep (join [sep] l) = l := splitOn_intercalate sep h hn

theorem join_split (sep : Char) (s : Str) : join [sep] (split sep s) = s := intercalate_splitOn sep

theorem join_cons_cons (sep p q : Str) (l : List Str) : join sep (p :: q :: l) = p ++ (sep ++ join sep (q :: l)) := by
  grind [join, intercalate_cons_cons]

theorem split_of_not_mem {sep : Char} {s : Str} (h : sep ∉ s) : split sep s = [s] := by
  have hj := @split_join sep [s] (by simpa using h) (cons_ne_nil _ _)
  rwa [join, intercalate_singleton] at hj

theorem mem_join {c sep : Char} : ∀ {parts : List Str}, c ∈ join [sep] parts → c = sep ∨ ∃ p ∈ parts, c ∈ p
  | [], h => by cases h
  | [p], h => .inr ⟨p, mem_singleton_self p, by simpa [join] using h⟩
  | p :: q :: parts, h => by
    rw [join_cons_cons] at h
    rcases List.mem_append.mp h with h | h
    · simp_all
    · rcases List.mem_append.mp h with h | h
      · simp_all
      · rcases mem_join h with h | ⟨p', hp', h⟩ <;> grind

theorem split_append_sep {sep : Char} {a : Str} (h : sep ∉ a) (b : Str) :
    split sep (a ++ sep :: b) = a :: split sep b := by
  have hjoin : join [sep] (a :: split sep b) = a ++ sep :: b := by
    obtain ⟨p, l, hp⟩ := exists_cons_of_ne_nil (split_ne_nil sep b)
    rw [hp, join_cons_cons, ← hp, join_split]
    rfl
  rw [← hjoin, split_join (List.forall_mem_cons.mpr ⟨h, fun _ => not_mem_split⟩) (cons_ne_nil _ _)]

theorem split_eq_cons (sep : Char) (s : Str) : ∃ l, split sep s = s.takeWhile (· ≠ sep) :: l := by
  have hcut : ∀ c ∈ s.takeWhile (· ≠ sep), c ≠ sep := fun c hc => by simpa using mem_takeWhile_imp hc
  have hno : sep ∉ s.takeWhile (· ≠ sep) := fun hm => hcut sep hm rfl
  cases hrest : s.dropWhile (· ≠ sep) with
  | nil =>
    refine ⟨[], ?_⟩
    grind [takeWhile_append_dropWhile, split_of_not_mem]
  | cons c t => grind [List.head?_dropWhile_not, takeWhile_append_dropWhile, split_append_sep]

theorem startsWith_cons_ne {c d : Char} {p s : Str} (h : c ≠ d) : startsWith (c :: p) (d :: s) = false := by
  rw [Bool.eq_false_iff]
  grind [startsWith_iff]

theorem removeFrom_skip {sub : Str} : ∀ (s t : Str), removeFrom sub s.length (s ++ t) = removeFrom sub 0 t
  | [], _ => rfl
  | c :: s, t => by
    rw [length_cons, cons_append, removeFrom]
    exact removeFrom_skip s t

theorem remove_append_self {c : Char} {sub t : Str} : remove (c :: sub) (c :: sub ++ t) = remove (c :: sub) t := by
  simp_all [startsWith, remove, removeFrom, removeFrom_skip]

theorem remove_append {c : Char} {sub t : Str} :
    ∀ {s : Str}, c ∉ s → remove (c :: sub) (s ++ t) = s ++ remove (c :: sub) t
  | [], _ => rfl
  | d :: s, h => by
    rw [mem_cons, not_or] at h
    rw [remove, cons_append, removeFrom, if_neg (by simp_all [startsWith_cons_ne]), cons_append,
      ← remove_append h.2]
    rfl

theorem splitOnce_append {c : Char} {sub t : Str} : ∀ {s : Str}, c ∉ s →
    splitOnce (c :: sub) (s ++ t) = (splitOnce (c :: sub) t).map fun p => (s ++ p.1, p.2)
  | [], _ => by simp
  | d :: s, h => by
    rw [mem_cons, not_or] at h
    rw [cons_append, splitOnce, if_neg (by simp_all [startsWith_cons_ne]), splitOnce_append h.2,
      Option.map_map]
    rfl

theorem splitOnce_self {c : Char} {sub t : Str} : splitOnce (c :: sub) (c :: sub ++ t) = some ([], t) := by
  grind [startsWith_iff, splitOnce]

/-! ## Numbers and their texts -/

theorem decimal_ofNat (n : Nat) : decimal (ofNat n) = n := by
  have h := @Nat.ofDigitChars_ten_toDigits n
  rw [Nat.ofDigitChars_eq_foldl] at h
  simp only [Nat.mul_comm 10] at h
  exact h

theorem ofNat_injective {m n : Nat} (h : ofNat m = ofNat n) : m = n := by rw [← decimal_ofNat m, h, decimal_ofNat]

theorem digits_of_isDigit {s : Str} (hn : s ≠ []) (h : ∀ c ∈ s, c.isDigit = true) : digits s = some (decimal s) := by
  grind [isdigit, digits, split_of_not_mem]

theorem digits_ofNat (n : Nat) : digits (ofNat n) = some n := by
  rw [digits_of_isDigit (ofNat_ne_nil n) (isDigit_ofNat n), decimal_ofNat]

theorem IsWord.rstrip_eq {s : Str} (h : IsWord s) : rstrip s = s :=
  List.rdropWhile_eq_self_iff.mpr fun hn => by rw [h _ (getLast_mem hn)]; exact Bool.false_ne_true

theorem IsWord.stripped {s : Str} (h : IsWord s) : Stripped s := by
  have hl : lstrip s = s := List.dropWhile_eq_self_iff.mpr fun hl => by simp [h _ (getElem_mem hl)]
  rw [Stripped, strip, hl, h.rstrip_eq]

theorem rstrip_append {s t : Str} (hn : t ≠ []) (ht : rstrip t = t) : rstrip (s ++ t) = s ++ t := by
  rw [rstrip, rdropWhile_eq_self_iff] at *
  simp_all

theorem stripped_append {c : Char} {s t : Str} (hc : isSpace c = false) (hn : t ≠ []) (ht : rstrip t = t) :
    Stripped (c :: (s ++ t)) := by
  have hl : lstrip (c :: (s ++ t)) = c :: (s ++ t) := dropWhile_cons_of_neg (by simp [hc])
  grind [Stripped, strip, rstrip_append]

theorem int_of_isDigit {s : Str} (hn : s ≠ []) (h : ∀ c ∈ s, c.isDigit = true) : int s = some (decimal s : Int) := by
  have hsign : ∀ t : Str, ∀ c ∈ ['-', '+'], s ≠ c :: t := by
    intro t c hc he
    have hd := h c (he ▸ mem_cons_self)
    rcases List.mem_cons.mp hc with rfl | hc <;> simp_all
  rw [int, (isWord_of_isDigit h).stripped]
  split <;> simp_all [digits_of_isDigit]

theorem int_ofNat (n : Nat) : int (ofNat n) = some (n : Int) := by
  rw [int_of_isDigit (ofNat_ne_nil n) (isDigit_ofNat n), decimal_ofNat]

theorem int_strip (s : Str) : int (strip s) = int s := by rw [int, int, strip_strip s]

theorem int_ofInt : ∀ n : Int, int (ofInt n) = some n
  | .ofNat n => int_ofNat n
  | .negSucc n => by
    have hs : strip ('-' :: ofNat (n + 1)) = '-' :: ofNat (n + 1) := (isWord_ofInt (.negSucc n)).stripped
    simp only [int, ofInt, hs, digits_ofNat]
    rfl

theorem ofInt_injective {m n : Int} (h : ofInt m = ofInt n) : m = n :=
  Option.some.inj (by rw [← int_ofInt m, h, int_ofInt])

end Str

end Sonic
