import Sonic.Ipaddress
import Sonic.Run

/-! # The characters of an address

`inet_pton` reads an address the same way in capitals and in small letters, and takes no blanks. So an address that it
accepts is accepted, with the same value, after it has been stripped and lower-cased (`inetPton_strip_lower`). The facts
about single characters are decided for the 26 capitals; `lower` leaves every other character alone. -/

namespace Sonic.Ipaddress
open List

open Str

/-! ## Lower case -/

def capitals : List Char := (range 26).map fun i => Char.ofNat (65 + i)

theorem mem_capitals {c : Char} (h : 65 ≤ c.toNat ∧ c.toNat ≤ 90) : c ∈ capitals :=
  mem_map.mpr ⟨c.toNat - 65, mem_range.mpr (by omega), by rw [Nat.add_sub_cancel' h.1, Char.ofNat_toNat]⟩

theorem toLower_of_not_capital {c : Char} (h : ¬(65 ≤ c.toNat ∧ c.toNat ≤ 90)) : c.toLower = c := by
  unfold Char.toLower
  rw [dif_neg]
  exact h

/-- A relation between characters that holds of every capital with its small letter, and of every character with itself. -/
theorem toLower_induct {r : Char → Char → Prop} (hcap : ∀ c ∈ capitals, r c c.toLower) (hrefl : ∀ c, r c c) (c : Char) :
    r c c.toLower := by
  by_cases h : 65 ≤ c.toNat ∧ c.toNat ≤ 90
  · exact hcap c (mem_capitals h)
  · rw [toLower_of_not_capital h]
    exact hrefl c

theorem hexDigit_toLower (c : Char) : hexDigit c.toLower = hexDigit c :=
  @toLower_induct (fun c d => hexDigit d = hexDigit c) (@of_decide_eq_true _ (decidableBAll _ _) rfl) (fun _ => rfl) c

theorem isDigit_toLower (c : Char) : c.toLower.isDigit = c.isDigit :=
  @toLower_induct (fun c d => d.isDigit = c.isDigit) (@of_decide_eq_true _ (decidableBAll _ _) rfl) (fun _ => rfl) c

theorem isSpace_toLower (c : Char) : isSpace c.toLower = isSpace c :=
  @toLower_induct (fun c d => isSpace d = isSpace c) (@of_decide_eq_true _ (decidableBAll _ _) rfl) (fun _ => rfl) c

/-- Neither a letter nor a digit: a separator stays where it is. -/
def separators : List Char := [',', '.', ':', '/', '%', '\x00']

theorem letters_capitals :
    (capitals.all fun c => !separators.contains c.toLower && !separators.contains c) = true := by
  decide +kernel

theorem toLower_eq_separator {sep : Char} (hsep : sep ∈ separators) (c : Char) : c.toLower = sep ↔ c = sep := by
  refine @toLower_induct (fun c d => d = sep ↔ c = sep) (fun c hc => ?_) (fun _ => Iff.rfl) c
  have hletters : c.toLower ∉ separators ∧ c ∉ separators := by
    simpa using List.all_eq_true.mp letters_capitals c hc
  exact iff_of_false (fun he => hletters.1 (he ▸ hsep)) fun he => hletters.2 (he ▸ hsep)

theorem mem_lower {sep : Char} (hsep : sep ∈ separators) {s : Str} : sep ∈ lower s ↔ sep ∈ s := by
  rw [lower, mem_map]
  constructor
  · rintro ⟨c, hc, he⟩
    exact (toLower_eq_separator hsep c).mp he ▸ hc
  · intro h
    exact ⟨sep, h, (toLower_eq_separator hsep sep).mpr rfl⟩

theorem lower_join {sep : Char} (hsep : sep ∈ separators) (l : List Str) :
    lower (join [sep] l) = join [sep] (l.map lower) := by
  induction l with
  | nil => rfl
  | cons p l ih =>
    cases l with
    | nil => simp [join]
    | cons q l =>
      rw [map_cons, map_cons, join_cons_cons, join_cons_cons, ← map_cons, ← ih]
      simp [lower, (toLower_eq_separator hsep sep).mpr rfl]

theorem split_lower {sep : Char} (hsep : sep ∈ separators) (s : Str) :
    split sep (lower s) = (split sep s).map lower := by
  conv_lhs => rw [← join_split sep s, lower_join hsep]
  refine split_join (fun p hp => ?_) (by simpa using split_ne_nil sep s)
  obtain ⟨q, hq, rfl⟩ := mem_map.mp hp
  rw [mem_lower hsep]
  exact not_mem_split hq

theorem strip_lower (s : Str) : strip (lower s) = lower (strip s) := by
  have hspace : isSpace ∘ Char.toLower = isSpace := funext isSpace_toLower
  have hdrop (t : Str) : lstrip (lower t) = lower (lstrip t) := by
    rw [lower, lstrip, dropWhile_map, hspace]
    rfl
  rw [strip, hdrop, rstrip, rdropWhile, lower, ← map_reverse, dropWhile_map, hspace, ← map_reverse]
  rfl

theorem toLower_toLower (c : Char) : c.toLower.toLower = c.toLower := by
  by_cases h : 65 ≤ c.toNat ∧ c.toNat ≤ 90
  · have hcap : ∀ c ∈ capitals, c.toLower.toLower = c.toLower := @of_decide_eq_true _ (decidableBAll _ _) rfl
    exact hcap c (mem_capitals h)
  · rw [toLower_of_not_capital h, toLower_of_not_capital h]

theorem lower_eq_nil {s : Str} : lower s = [] ↔ s = [] := map_eq_nil_iff

theorem lower_lower (s : Str) : lower (lower s) = lower s := by
  rw [lower, lower, map_map]
  exact map_congr_left fun c _ => toLower_toLower c

/-! ## Reading in lower case -/

theorem parseOctet_lower (p : Str) : parseOctet (lower p) = parseOctet p := by
  have hall : (lower p).all Char.isDigit = p.all Char.isDigit := by
    rw [lower, all_map, show Char.isDigit ∘ Char.toLower = Char.isDigit from funext isDigit_toLower]
  by_cases h : p.all Char.isDigit = true
  · have hsame : lower p = p := by
      refine (map_congr_left fun c hc => ?_).trans (map_id p)
      refine toLower_of_not_capital fun hcap => ?_
      have hdigit := all_eq_true.mp h c hc
      have hno : ∀ c ∈ capitals, c.isDigit = false := @of_decide_eq_true _ (decidableBAll _ _) rfl
      exact Bool.false_ne_true ((hno c (mem_capitals hcap)).symm.trans hdigit)
    rw [hsame]
  · rw [parseOctet, parseOctet, if_pos (.inr (by rw [hall]; exact h)), if_pos (.inr h)]

theorem ipv4Address_lower (s : Str) : ipv4Address (lower s) = ipv4Address s := by
  rw [ipv4Address, ipv4Address, split_lower (by decide)]
  simp only [mem_lower (show '/' ∈ separators by decide), length_map, mapM_map]
  rw [show parseOctet ∘ lower = parseOctet from funext parseOctet_lower]

theorem parseHextet_lower (p : Str) : parseHextet (lower p) = parseHextet p := by
  have hmap : (lower p).mapM hexDigit = p.mapM hexDigit := by
    rw [lower, mapM_map, show hexDigit ∘ Char.toLower = hexDigit from funext hexDigit_toLower]
  rw [parseHextet, parseHextet, hmap]
  simp only [lower, map_eq_nil_iff, length_map]

def lowerPart : Option Str ⊕ Nat → Option Str ⊕ Nat := Sum.map (Option.map lower) id

theorem hextetOf_lowerPart (p : Option Str ⊕ Nat) : hextetOf (lowerPart p) = hextetOf p := by
  rcases p with (_ | p) | v
  · rfl
  · exact parseHextet_lower p
  · rfl

theorem isBlank_lowerPart (p : Option Str ⊕ Nat) : isBlank (lowerPart p) = isBlank p := by
  rcases p with (_ | p) | v <;> rfl

theorem ipv6Parts_lower (s : Str) : ipv6Parts (lower s) = (ipv6Parts s).map (·.map lowerPart) := by
  have htext (p : Str) : (.inl (if lower p = [] then none else some (lower p)) : Option Str ⊕ Nat) =
      lowerPart (.inl (if p = [] then none else some p)) := by
    cases p with
    | nil => rfl
    | cons c p => rfl
  rw [ipv6Parts, ipv6Parts, split_lower (by decide)]
  simp only [length_map, getLast?_map]
  split
  · rfl
  · cases hlast : (split ':' s).getLast? with
    | none => rfl
    | some lst =>
      simp only [Option.map_some, mem_lower (show '.' ∈ separators by decide), ipv4Address_lower]
      split
      · cases ipv4Address lst with
        | none => rfl
        | some v =>
          simp only [Option.map_some, map_append, ← map_dropLast, map_map]
          congr 2
          exact map_congr_left fun p _ => htext p
      · simp only [Option.map_some, map_map]
        congr 1
        exact map_congr_left fun p _ => htext p

theorem ipv6Value_lower (parts : List (Option Str ⊕ Nat)) : ipv6Value (parts.map lowerPart) = ipv6Value parts := by
  have hblank : isBlank ∘ lowerPart = isBlank := funext isBlank_lowerPart
  have hhextet : hextetOf ∘ lowerPart = hextetOf := funext hextetOf_lowerPart
  have hskips : skips (parts.map lowerPart) = skips parts := by
    simp only [skips, length_map, getElem?_map, Option.map_map, hblank]
  rw [ipv6Value, ipv6Value, hskips]
  simp only [length_map, head?_map, getLast?_map, Option.map_map, hblank, mapM_map, hhextet, ← map_take, ← map_drop]

theorem ipv6Address_lower {s : Str} (hs : '%' ∉ s) : ipv6Address (lower s) = ipv6Address s := by
  have hscope {t : Str} (ht : '%' ∉ t) : splitScopeId t = some t := by rw [splitScopeId, split_of_not_mem ht]
  rw [ipv6Address, ipv6Address, hscope hs, hscope (by rwa [mem_lower (by decide)])]
  simp only [mem_lower (show '/' ∈ separators by decide), Option.bind_some, ipv6Parts_lower, lower_eq_nil]
  cases ipv6Parts s with
  | none => rfl
  | some parts => simp only [Option.map_some, Option.bind_some, ipv6Value_lower]

theorem inetPton_lower (af : Af) (s : Str) : inetPton af (lower s) = inetPton af s := by
  unfold inetPton
  simp only [mem_lower (show '\x00' ∈ separators by decide), mem_lower (show '%' ∈ separators by decide)]
  split
  · rfl
  · cases af with
    | inet => simp only [ipv4Address_lower]
    | inet6 =>
      by_cases hs : '%' ∈ s
      · simp only [if_pos hs]
      · simp only [if_neg hs, ipv6Address_lower hs]

/-! ## No blanks -/

theorem isSpace_of_hexDigit {c : Char} {n : Nat} (h : hexDigit c = some n) : isSpace c = false := by
  have hcode : 48 ≤ c.toNat ∧ c.toNat ≤ 57 ∨ 97 ≤ c.toNat ∧ c.toNat ≤ 102 ∨ 65 ≤ c.toNat ∧ c.toNat ≤ 70 := by
    unfold hexDigit at h
    split at h
    · rename_i hd
      simp only [Char.isDigit, Bool.and_eq_true, decide_eq_true_eq] at hd
      exact .inl hd
    · split at h
      · rename_i hd
        exact .inr (.inl hd)
      · split at h
        · rename_i hd
          exact .inr (.inr hd)
        · cases h
  simp only [isSpace, Bool.or_eq_false_iff, Bool.and_eq_false_iff, decide_eq_false_iff_not]
  omega

theorem isWord_of_parts {sep : Char} (hsep : isSpace sep = false) {s : Str} (h : ∀ p ∈ split sep s, IsWord p) :
    IsWord s := by
  intro c hc
  rw [← join_split sep s] at hc
  rcases mem_join hc with rfl | ⟨p, hp, hcp⟩
  · exact hsep
  · exact h p hp c hcp

theorem isWord_of_ipv4Address {s : Str} {v : Nat} (h : ipv4Address s = some v) : IsWord s := by
  unfold ipv4Address at h
  split at h
  · cases h
  · dsimp only at h
    split at h
    · cases h
    · obtain ⟨l, hl, -⟩ := Option.map_eq_some_iff.mp h
      have hoctet := mapM_isSome_iff.mp (Option.isSome_of_eq_some hl)
      refine @isWord_of_parts '.' (by decide) _ fun p hp => isWord_of_isDigit ?_
      have hp := hoctet p hp
      unfold parseOctet at hp
      split at hp
      · cases hp
      · rename_i hd
        rw [not_or, not_not] at hd
        exact all_eq_true.mp hd.2

theorem isWord_of_parseHextet {p : Str} {v : Nat} (h : parseHextet p = some v) : IsWord p := by
  unfold parseHextet at h
  split at h
  · cases h
  · obtain ⟨l, hl, -⟩ := Option.map_eq_some_iff.mp h
    intro c hc
    obtain ⟨n, hn⟩ := Option.isSome_iff_exists.mp (mapM_isSome_iff.mp (Option.isSome_of_eq_some hl) c hc)
    exact isSpace_of_hexDigit hn

/-- Every part of an address is a number or blank: blanks are where the zeros are left out, and at an end beside them. -/
theorem part_of_ipv6Value {parts : List (Option Str ⊕ Nat)} {v : Nat} (h : ipv6Value parts = some v) {k : Nat}
    {p : Option Str ⊕ Nat} (hp : parts[k]? = some p) : isBlank p = true ∨ (hextetOf p).isSome = true := by
  have hlt : k < parts.length := (List.getElem?_eq_some_iff.mp hp).1
  have hread {hi lo : List (Option Str ⊕ Nat)} {hs ls : List Nat} (hhi : hi.mapM hextetOf = some hs)
      (hlo : lo.mapM hextetOf = some ls) : ∀ p, p ∈ hi ∨ p ∈ lo → (hextetOf p).isSome = true := by
    rintro p (hm | hm)
    · exact mapM_isSome_iff.mp (Option.isSome_of_eq_some hhi) p hm
    · exact mapM_isSome_iff.mp (Option.isSome_of_eq_some hlo) p hm
  have hhd : (parts.head?.map isBlank).getD false = true → k = 0 → isBlank p = true := by
    rintro hb rfl
    rw [head?_eq_getElem?, hp] at hb
    exact hb
  have hlst : (parts.getLast?.map isBlank).getD false = true → k + 1 = parts.length → isBlank p = true := by
    intro hb hk
    rw [getLast?_eq_getElem?, ← hk, Nat.add_sub_cancel, hp] at hb
    exact hb
  unfold ipv6Value at h
  split at h
  · cases h
  dsimp only at h
  split at h
  · split at h
    · cases h
    · split at h
      · rename_i hhi hlo
        exact .inr (hread hhi hlo p (.inl (mem_of_getElem? hp)))
      · cases h
  · rename_i i hskips
    obtain ⟨-, hskip⟩ := mem_filter.mp (show i ∈ skips parts by rw [hskips]; exact mem_singleton_self i)
    simp only [Bool.and_eq_true, decide_eq_true_eq] at hskip
    obtain ⟨⟨hpos, hend⟩, hblank⟩ := hskip
    have hi : k = i → isBlank p = true := by
      rintro rfl
      rw [hp] at hblank
      exact hblank
    obtain ⟨a, ha⟩ : ∃ a, a = if (parts.head?.map isBlank).getD false = true then 1 else 0 := ⟨_, rfl⟩
    obtain ⟨b, hb⟩ : ∃ b, b = if (parts.getLast?.map isBlank).getD false = true then 1 else 0 := ⟨_, rfl⟩
    rw [← ha, ← hb] at h
    split at h
    · cases h
    split at h
    · cases h
    split at h
    · cases h
    rename_i hfirst hlast _
    split at h
    rotate_left
    · cases h
    rename_i hhi hlo
    have hnum := hread hhi hlo p
    by_cases hki : k = i
    · exact .inl (hi hki)
    rcases Nat.lt_or_gt_of_ne hki with hlow | hhigh
    · by_cases hd : (parts.head?.map isBlank).getD false = true
      · rw [if_pos hd] at ha
        exact .inl (hhd hd (by by_contra; exact hfirst ⟨hd, by omega⟩))
      · rw [if_neg hd] at ha
        refine .inr (hnum (.inl (mem_of_getElem? (i := k) ?_)))
        rw [ha, getElem?_take_of_lt (by omega), hp]
    · by_cases hd : (parts.getLast?.map isBlank).getD false = true
      · rw [if_pos hd] at hb
        exact .inl (hlst hd (by by_contra; exact hlast ⟨hd, by omega⟩))
      · rw [if_neg hd] at hb
        refine .inr (hnum (.inr (mem_of_getElem? (i := k - (i + 1)) ?_)))
        rw [hb, getElem?_drop, ← hp]
        congr 1
        omega
  · cases h

theorem isWord_of_ipv6Address {s : Str} (hs : '%' ∉ s) {v : Nat} (h : ipv6Address s = some v) : IsWord s := by
  unfold ipv6Address at h
  split at h
  · cases h
  rw [splitScopeId, split_of_not_mem hs] at h
  simp only [Option.bind_some] at h
  split at h
  · cases h
  obtain ⟨parts, hparts, hvalue⟩ := Option.bind_eq_some_iff.mp h
  refine @isWord_of_parts ':' (by decide) _ fun p hp => ?_
  obtain ⟨k, hk⟩ := List.mem_iff_getElem?.mp hp
  have htext (hpart : parts[k]? = some (.inl (if p = [] then none else some p))) : IsWord p := by
    by_cases hnil : p = []
    · rw [hnil]
      exact fun _ hc => absurd hc not_mem_nil
    · rw [if_neg hnil] at hpart
      rcases part_of_ipv6Value hvalue hpart with hb | hn
      · cases hb
      · obtain ⟨n, hn⟩ := Option.isSome_iff_exists.mp hn
        exact isWord_of_parseHextet hn
  unfold ipv6Parts at hparts
  dsimp only at hparts
  split at hparts
  · cases hparts
  cases hlast : (split ':' s).getLast? with
  | none =>
    rw [hlast] at hparts
    cases hparts
  | some lst =>
    rw [hlast] at hparts
    dsimp only at hparts
    split at hparts
    · obtain ⟨w, hw, rfl⟩ := Option.map_eq_some_iff.mp hparts
      by_cases hend : k + 1 = (split ':' s).length
      · rw [getLast?_eq_getElem?, ← hend, Nat.add_sub_cancel, hk] at hlast
        obtain rfl := Option.some.inj hlast
        exact isWord_of_ipv4Address hw
      · have hlt : k < (split ':' s).length := (List.getElem?_eq_some_iff.mp hk).1
        refine htext ?_
        rw [getElem?_append_left (by rw [length_map, length_dropLast]; omega), getElem?_map, getElem?_dropLast,
          if_pos (by omega), hk]
        rfl
    · cases hparts
      refine htext ?_
      rw [getElem?_map, hk]
      rfl

/-- An address in any case and with blanks around it is the address in lower case without them. -/
theorem inetPton_strip_lower {af : Af} {s : Str} {v : Nat} (h : inetPton af s = .ok v) :
    inetPton af (strip (lower s)) = .ok v := by
  have hword : IsWord s := by
    unfold inetPton at h
    split at h
    · cases h
    · cases af with
      | inet =>
        dsimp only at h
        cases hv : ipv4Address s with
        | none => rw [hv] at h; cases h
        | some w => exact isWord_of_ipv4Address hv
      | inet6 =>
        by_cases hs : '%' ∈ s
        · simp only [if_pos hs] at h
          cases h
        · simp only [if_neg hs] at h
          cases hv : ipv6Address s with
          | none => rw [hv] at h; cases h
          | some w => exact isWord_of_ipv6Address hs hv
  rw [strip_lower, hword.stripped, inetPton_lower, h]

end Sonic.Ipaddress
