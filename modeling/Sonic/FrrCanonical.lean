import Sonic.Run
import Sonic.Text

/-! # The canonical form of FRR configurations

`ConfigMgr.to_canonical` turns an indented configuration into one path for each line. It keeps the
path and the indentation of the line before, and takes two names off the path at a line that is less
indented, however many blocks end there. -/

namespace Sonic.Canonical
open List

open Str

def countSpaces (line : Str) : Nat := line.length - (lstrip line).length

def isCommand (line : Str) : Bool := !startsWith ['!'] (strip line) && strip line ≠ []

def linesOf (rawConfig : Str) : List Str := (split '\n' rawConfig).filter isCommand

def nextPath (curPath : List Str) (curOffset : Nat) (line : Str) : List Str :=
  if countSpaces line = curOffset then curPath.dropLast ++ [strip line]
  else if curOffset < countSpaces line then curPath ++ [strip line]
  else curPath.take (curPath.length - 2) ++ [strip line]

def pathLoop : List Str → Nat → List Str → List (List Str)
  | _, _, [] => []
  | curPath, curOffset, line :: lines =>
    nextPath curPath curOffset line :: pathLoop (nextPath curPath curOffset line) (countSpaces line) lines

def toCanonical (rawConfig : Str) : List (List Str) :=
  match linesOf rawConfig with
  | [] => []
  | line :: lines => pathLoop [line] (countSpaces line) (line :: lines)

def fromCanonical (canonicalConfig : List (List Str)) : Option Str :=
  (canonicalConfig.mapM fun lines : List Str =>
    lines.getLast?.map fun line => List.replicate (lines.length - 1) ' ' ++ line ++ ['\n']).map List.flatten

/-! ## Blocks -/

def ancestors : List Str → Nat → List Str
  | [], _ => []
  | line :: earlier, n =>
    if countSpaces line < n then line :: ancestors earlier (countSpaces line) else ancestors earlier n

def blockPath (earlier : List Str) (line : Str) : List Str :=
  ((line :: ancestors earlier (countSpaces line)).map strip).reverse

def blockPaths : List Str → List Str → List (List Str)
  | _, [] => []
  | earlier, line :: lines => blockPath earlier line :: blockPaths (line :: earlier) lines

/-- A line with `n` blanks ends the block that the line before is in, and no other; `above` are the ancestors of the line
before. -/
def EndsOne (above : List Str) (n : Nat) : Prop :=
  match above with
  | [] => True
  | [parent] => n ≤ countSpaces parent
  | parent :: grandparent :: _ => n ≤ countSpaces parent ∧ countSpaces grandparent < n

def Stepwise : List Str → Str → List Str → Prop
  | _, _, [] => True
  | earlier, prev, line :: lines =>
    (countSpaces line < countSpaces prev → EndsOne (ancestors earlier (countSpaces prev)) (countSpaces line)) ∧
      Stepwise (prev :: earlier) line lines

/-- Every line that is less indented than the one before ends exactly one block. -/
def StepwiseText (rawConfig : Str) : Prop :=
  match linesOf rawConfig with
  | [] => True
  | line :: lines => Stepwise [] line lines

theorem ancestors_of_le {n : Nat} : ∀ (earlier : List Str) {m : Nat}, n ≤ m →
    ancestors earlier n = (ancestors earlier m).dropWhile fun line => n ≤ countSpaces line
  | [], _, _ => rfl
  | line :: earlier, m, hnm => by
    rw [ancestors, ancestors]
    by_cases hn : countSpaces line < n
    · rw [if_pos hn, if_pos (Nat.lt_of_lt_of_le hn hnm), dropWhile_cons_of_neg (by simpa using hn)]
    · have hle : n ≤ countSpaces line := Nat.not_lt.mp hn
      rw [if_neg hn]
      by_cases hm : countSpaces line < m
      · rw [if_pos hm, dropWhile_cons_of_pos (by simpa using hle)]
        exact ancestors_of_le earlier hle
      · rw [if_neg hm]
        exact ancestors_of_le earlier hnm

theorem endsOne_iff {above : List Str} {n : Nat} :
    EndsOne above n ↔ (above.dropWhile fun line => n ≤ countSpaces line).length = (above.drop 1).length := by
  cases above with
  | nil => exact iff_of_true trivial rfl
  | cons parent rest =>
    cases rest with
    | nil => simp_all [EndsOne]
    | cons grandparent rest =>
      by_cases h : n ≤ countSpaces parent
      · by_cases h' : n ≤ countSpaces grandparent
        · have hlen := (dropWhile_sublist (l := rest) fun line => decide (n ≤ countSpaces line)).length_le
          simp [EndsOne, h, h', Nat.not_lt.mpr h']
          omega
        · simp [EndsOne, h, h', Nat.not_le.mp h']
      · simp [EndsOne, h]

theorem blockPath_eq (earlier : List Str) (line : Str) :
    blockPath earlier line = ((ancestors earlier (countSpaces line)).map strip).reverse ++ [strip line] := by
  grind [blockPath]

theorem take_blockPath (earlier : List Str) (prev : Str) :
    (blockPath earlier prev).take ((blockPath earlier prev).length - 2) =
      (((ancestors earlier (countSpaces prev)).drop 1).map strip).reverse := by
  rw [blockPath, length_reverse, take_reverse, length_map, length_cons, map_drop]
  generalize ancestors earlier (countSpaces prev) = above
  cases above with
  | nil => rfl
  | cons parent above =>
    have hlen : (parent :: above).length + 1 - ((parent :: above).length + 1 - 2) = 2 := by grind
    rw [hlen]
    rfl

theorem nextPath_iff (earlier : List Str) (prev line : Str) :
    nextPath (blockPath earlier prev) (countSpaces prev) line = blockPath (prev :: earlier) line ↔
      (countSpaces line < countSpaces prev → EndsOne (ancestors earlier (countSpaces prev)) (countSpaces line)) := by
  rw [nextPath, blockPath_eq (prev :: earlier), ancestors]
  rcases Nat.lt_trichotomy (countSpaces line) (countSpaces prev) with h | h | h
  · rw [if_neg (Nat.ne_of_lt h), if_neg (Nat.lt_asymm h), if_neg (Nat.lt_asymm h), take_blockPath, endsOne_iff,
      ancestors_of_le earlier (Nat.le_of_lt h), append_left_inj, reverse_inj, forall_prop_of_true h]
    generalize ancestors earlier (countSpaces prev) = above
    have hsuffix := dropWhile_suffix (l := above) fun line' => decide (countSpaces line ≤ countSpaces line')
    constructor
    · grind [length_map]
    · intro hlen
      rw [(suffix_of_suffix_length_le (drop_suffix 1 above) hsuffix hlen.ge).eq_of_length hlen.symm]
  · simp_all [blockPath_eq]
  · simp_all [Nat.ne_of_gt, blockPath_eq, Nat.lt_asymm]

theorem pathLoop_iff : ∀ (lines earlier : List Str) (prev : Str),
    pathLoop (blockPath earlier prev) (countSpaces prev) lines = blockPaths (prev :: earlier) lines ↔
      Stepwise earlier prev lines
  | [], _, _ => iff_of_true rfl trivial
  | line :: lines, earlier, prev => by
    rw [pathLoop, blockPaths, Stepwise, ← nextPath_iff, cons_eq_cons]
    refine and_congr_right fun hpath => ?_
    rw [hpath]
    exact pathLoop_iff lines (prev :: earlier) line

theorem nextPath_first (first line : Str) : nextPath [first] (countSpaces line) line = [strip line] := if_pos rfl

theorem toCanonical_iff (rawConfig : Str) :
    toCanonical rawConfig = blockPaths [] (linesOf rawConfig) ↔ StepwiseText rawConfig := by
  rw [toCanonical, StepwiseText]
  cases linesOf rawConfig with
  | nil => exact iff_of_true rfl trivial
  | cons line lines =>
    dsimp only
    rw [pathLoop, nextPath_first, blockPaths, cons_eq_cons]
    exact (and_iff_right rfl).trans (pathLoop_iff lines [] line)

/-! ## The written form -/

def render (path : List Str) : Str := List.replicate (path.length - 1) ' ' ++ path.getLastD []

section
variable {line s : Str} {path curPath : List Str}

theorem lstrip_blanks (k : Nat) (s : Str) : lstrip (List.replicate k ' ' ++ s) = lstrip s :=
  dropWhile_append_of_pos fun c hc => by
    rw [eq_of_mem_replicate hc]
    rfl

theorem countSpaces_blanks (k : Nat) (hs : Stripped s) : countSpaces (List.replicate k ' ' ++ s) = k := by
  have hl : lstrip s = s := by
    rw [← hs]
    exact lstrip_strip s
  grind [countSpaces, lstrip_blanks]

theorem strip_blanks (k : Nat) (hs : Stripped s) : strip (List.replicate k ' ' ++ s) = s := by
  rw [strip, lstrip_blanks]
  exact hs

theorem nextPath_eq_concat (curPath : List Str) (n : Nat) (line : Str) :
    ∃ above, nextPath curPath n line = above ++ [strip line] := by
  rw [nextPath]
  split
  · exact ⟨_, rfl⟩
  · split
    · exact ⟨_, rfl⟩
    · exact ⟨_, rfl⟩

theorem render_concat (above : List Str) (s : Str) : render (above ++ [s]) = List.replicate above.length ' ' ++ s := by
  grind [render]

theorem nextPath_render (hpath : curPath ≠ []) (n : Nat) (line : Str) :
    nextPath curPath (curPath.length - 1) (render (nextPath curPath n line)) = nextPath curPath n line := by
  have hpos := length_pos_of_ne_nil hpath
  have hmove : ∀ above, nextPath curPath (curPath.length - 1) (render (above ++ [strip line])) =
      if above.length = curPath.length - 1 then curPath.dropLast ++ [strip line]
      else if curPath.length - 1 < above.length then curPath ++ [strip line]
      else curPath.take (curPath.length - 2) ++ [strip line] := by
    grind [nextPath, render_concat, countSpaces_blanks, strip_strip, strip_blanks]
  by_cases heq : countSpaces line = n <;> grind [nextPath]

theorem pathLoop_render : ∀ (lines : List Str) {curPath : List Str} {n : Nat}, curPath ≠ [] →
    pathLoop curPath (curPath.length - 1) ((pathLoop curPath n lines).map render) = pathLoop curPath n lines
  | [], _, _, _ => rfl
  | line :: lines, curPath, n, hpath => by
    obtain ⟨above, habove⟩ := nextPath_eq_concat curPath n line
    have hne : nextPath curPath n line ≠ [] := by grind [concat_ne_nil]
    have hcount : countSpaces (render (nextPath curPath n line)) = (nextPath curPath n line).length - 1 := by
      grind [render_concat, countSpaces_blanks, strip_strip]
    rw [pathLoop, map_cons, pathLoop, nextPath_render hpath, hcount, pathLoop_render lines hne]

theorem pathLoop_last : ∀ {lines : List Str} {curPath : List Str} {n : Nat}, path ∈ pathLoop curPath n lines →
    ∃ above, ∃ line ∈ lines, path = above ++ [strip line]
  | line :: lines, curPath, n, h => by
    rw [pathLoop] at h
    rcases List.mem_cons.mp h with rfl | h
    · obtain ⟨above, habove⟩ := nextPath_eq_concat curPath n line
      grind
    · obtain ⟨above, line', hline, hp⟩ := pathLoop_last h
      grind

theorem split_written : ∀ {lines : List Str}, (∀ line ∈ lines, '\n' ∉ line) →
    split '\n' (lines.map (· ++ ['\n'])).flatten = lines ++ [[]]
  | [], _ => rfl
  | line :: lines, h => by
    rw [map_cons, flatten_cons, append_assoc]
    show split '\n' (line ++ '\n' :: (lines.map (· ++ ['\n'])).flatten) = _
    rw [split_append_sep (h line mem_cons_self), split_written fun l hl => h l (mem_cons_of_mem _ hl)]
    rfl

end

theorem toCanonical_last {rawConfig : Str} {path : List Str} (h : path ∈ toCanonical rawConfig) :
    ∃ above, ∃ line ∈ linesOf rawConfig, path = above ++ [strip line] := by grind [toCanonical, pathLoop_last]

theorem fromCanonical_toCanonical (rawConfig : Str) : ∃ text, fromCanonical (toCanonical rawConfig) = some text ∧
    linesOf text = (toCanonical rawConfig).map render := by
  have hrender : ∀ path ∈ toCanonical rawConfig,
      (path.getLast?.map fun line => List.replicate (path.length - 1) ' ' ++ line ++ ['\n']) =
        some (render path ++ ['\n']) := by
    intro path hpath
    obtain ⟨above, line, -, rfl⟩ := toCanonical_last hpath
    grind [render]
  have hplain : ∀ line ∈ (toCanonical rawConfig).map render, '\n' ∉ line ∧ isCommand line = true := by
    refine List.forall_mem_map.mpr fun path hpath => ?_
    obtain ⟨above, line, hline, rfl⟩ := toCanonical_last hpath
    obtain ⟨hsplit, hcommand⟩ := List.mem_filter.mp hline
    rw [render_concat]
    constructor
    · intro hmem
      rcases List.mem_append.mp hmem with hmem | hmem
      · grind
      · exact not_mem_split hsplit (mem_of_mem_strip hmem)
    · grind [isCommand, strip_blanks, strip_strip]
  refine ⟨((toCanonical rawConfig).map fun path => render path ++ ['\n']).flatten, ?_, ?_⟩
  · rw [fromCanonical, mapM_of_forall hrender]
    rfl
  · rw [linesOf, ← Function.comp_def (· ++ ['\n']) render, ← List.map_map,
      split_written fun line hline => (hplain line hline).1,
      filter_append, List.filter_eq_self.mpr fun line hline => (hplain line hline).2]
    exact append_nil _

theorem toCanonical_written (rawConfig : Str) :
    (fromCanonical (toCanonical rawConfig)).map toCanonical = some (toCanonical rawConfig) := by
  obtain ⟨text, htext, hlines⟩ := fromCanonical_toCanonical rawConfig
  rw [htext, Option.map_some, Option.some_inj]
  cases hl : linesOf rawConfig with
  | nil => grind [toCanonical]
  | cons line lines =>
    have hcons : toCanonical rawConfig = [strip line] :: pathLoop [strip line] (countSpaces line) lines := by
      grind [toCanonical, pathLoop, nextPath_first]
    have hfirst : countSpaces (strip line) = 0 := countSpaces_blanks 0 (strip_strip line)
    rw [hcons] at hlines ⊢
    rw [toCanonical, hlines]
    show pathLoop [strip line] (countSpaces (strip line)) (strip line :: _) = _
    rw [pathLoop, nextPath_first, strip_strip line, hfirst]
    exact congrArg _ (pathLoop_render lines (cons_ne_nil _ _))

/-- `to_canonical` gives each line the path of its blocks exactly if every line that is less indented than the one before
ends just one block; what it gives is always the canonical form of the text that is written for it. -/
theorem toCanonical_iff_stepwise (rawConfig : Str) :
    (toCanonical rawConfig = blockPaths [] (linesOf rawConfig) ↔ StepwiseText rawConfig) ∧
      (fromCanonical (toCanonical rawConfig)).map toCanonical = some (toCanonical rawConfig) :=
  ⟨toCanonical_iff rawConfig, toCanonical_written rawConfig⟩

theorem not_blockPaths_two_levels :
    toCanonical "router bgp 1\n address-family ipv4\n  neighbor A\nroute-map R\n" ≠
      blockPaths [] (linesOf "router bgp 1\n address-family ipv4\n  neighbor A\nroute-map R\n") := by
  decide +kernel

end Sonic.Canonical
