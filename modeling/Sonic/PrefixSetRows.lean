import Sonic.PrefixSet
import Sonic.Sll

/-! # The entries of prefix-lists and the rows they come from

While the rows of a set come after the set and go before it, and no two rows of a set have one
prefix and one range, every row has its entry in FRR. -/

namespace Sonic.PrefixSet
open List Option

open Frrcfgd
open Sll (find?_of_nodup mem_eraseP_of_nodup)
open Ipaddress (Af)

variable {key name a : Str} {k : PrefixKey} {p : MatchPrefix}

/-! ## What a row asks for -/

def rowSpec (key : Str) : Option (Str × PrefixKey) :=
  (Str.splitOnce "|" key).bind fun p => (parseKey p.2).map (p.1, ·)

def setAf (sets : Row) (name : Str) : Option Af := (sets.get? name).map fun m => (MatchPrefixList.new (Str.lower m)).af

section
variable (normalizeIpPrefix : Af → Str → Option (Str × Nat))

def rowMatch (sets : Row) (key action : Str) : Option (Str × Af × MatchPrefix) :=
  (rowSpec key).bind fun p => (setAf sets p.1).bind fun af =>
    (matchPrefix normalizeIpPrefix af p.2.ipPfx p.2.lenRange action p.2.seq).map fun q => (p.1, af, q)

def rowEntry (sets : Row) (key action : Str) : Option Entry :=
  (rowMatch normalizeIpPrefix sets key action).map fun p => entryOf p.2.1 p.1 p.2.2

/-- The lengths of prefixes that an entry matches. -/
def Entry.matchesLen (e : Entry) (n : Nat) : Prop :=
  match e.ge, e.le with
  | none, none => n = e.ipPrefix.2
  | some lo, none => lo ≤ n
  | none, some hi => e.ipPrefix.2 ≤ n ∧ n ≤ hi
  | some lo, some hi => lo ≤ n ∧ n ≤ hi

/-- The lengths that a row asks for. -/
def wantsLen (lenRange : Option Str) (pfxLen n : Nat) : Prop :=
  match lenRange with
  | none => n = pfxLen
  | some r => ∃ lo hi, readRange r = some (lo, hi) ∧ pfxLen ≤ n ∧ lo ≤ n ∧ n ≤ hi

def rowFits (sets : Row) (key : Str) : Bool :=
  match rowSpec key with
  | none => false
  | some (name, k) =>
    match setAf sets name with
    | none => false
    | some af =>
      getIpAf k.ipPfx = some af && (normalizeIpPrefix af k.ipPfx).isSome &&
      match k.lenRange with
      | none => true
      | some r =>
        match readRange r with
        | none => false
        | some (lo, hi) => 0 ≤ lo && hi ≤ maxLen af

def sameRow (sets : Row) (key key' : Str) : Bool :=
  match rowMatch normalizeIpPrefix sets key [], rowMatch normalizeIpPrefix sets key' [] with
  | some (name, _, p), some (name', _, p') => name = name' && p.ident = p'.ident
  | _, _ => false

/-- Rows of PREFIX_SET and PREFIX are well-formed and keep their mode; the rows of a set come after it and go
before it, and no other row of the set is taken for the new one. -/
def prefixOk (s : Sys) : Event → Prop
  | .setPrefixSet key data =>
    '|' ∉ key ∧ ((Dict.update [] data).get? modeAttr).isSome ∧
    ((s.cfg.sets.get? key).isSome → s.cfg.sets.get? key = (Dict.update [] data).get? modeAttr)
  | .delPrefixSet key => '|' ∉ key ∧ ∀ row ∈ s.cfg.rows.keys, setName row ≠ key
  | .setPrefix key data =>
    ((Dict.update [] data).get? actionAttr).isSome ∧ rowFits normalizeIpPrefix s.cfg.sets key ∧
    ∀ row ∈ s.cfg.rows.keys, sameRow normalizeIpPrefix s.cfg.sets key row → row = key
  | .delPrefix key => (rowSpec key).isSome

instance (s : Sys) : ∀ e, Decidable (prefixOk normalizeIpPrefix s e)
  | .setPrefixSet key data => by unfold prefixOk; exact inferInstance
  | .delPrefixSet key => by unfold prefixOk; exact inferInstance
  | .setPrefix key data => by unfold prefixOk; exact inferInstance
  | .delPrefix key => by unfold prefixOk; exact inferInstance

end

/-! ## The invariant -/

section
variable {normalizeIpPrefix : Af → Str → Option (Str × Nat)}

theorem matchPrefix_eq (af : Af) (ipPfx : Str) (lenRange : Option Str) (action : Str) (seq : Option Str) :
    matchPrefix normalizeIpPrefix af ipPfx lenRange action seq =
      (matchPrefix normalizeIpPrefix af ipPfx lenRange [] none).map fun p =>
        { p with action := action, sequenceNumber := seq } := by
  unfold matchPrefix
  cases normalizeIpPrefix af ipPfx with
  | none => rfl
  | some ipPrefix =>
    cases lenRange with
    | none => rfl
    | some r =>
      simp only [bind_some]
      cases readRange r <;> grind

theorem rowMatch_spec {sets : Row} {action : Str} {af : Af}
    (h : rowMatch normalizeIpPrefix sets key action = some (name, af, p)) :
    ∃ k, rowSpec key = some (name, k) ∧ setAf sets name = some af ∧
      matchPrefix normalizeIpPrefix af k.ipPfx k.lenRange action k.seq = some p := by
  obtain ⟨⟨n, k⟩, hk, h⟩ := Option.bind_eq_some_iff.mp h
  grind [bind_eq_some_iff, map_eq_some_iff]

theorem sameRow_of_ident {sets : Row} {key' action action' : Str} {af af' : Af} {p' : MatchPrefix}
    (h : rowMatch normalizeIpPrefix sets key action = some (name, af, p))
    (h' : rowMatch normalizeIpPrefix sets key' action' = some (name, af', p')) (hi : p.ident = p'.ident) :
    sameRow normalizeIpPrefix sets key key' = true := by
  have hbase : ∀ {key action : Str} {af : Af} {p : MatchPrefix},
      rowMatch normalizeIpPrefix sets key action = some (name, af, p) →
      ∃ q, rowMatch normalizeIpPrefix sets key [] = some (name, af, q) ∧ q.ident = p.ident := by
    intro key action af p h
    obtain ⟨k, hk, haf, hp⟩ := rowMatch_spec h
    rw [matchPrefix_eq] at hp
    obtain ⟨q, hq, rfl⟩ := Option.map_eq_some_iff.mp hp
    refine ⟨{ q with action := [], sequenceNumber := k.seq }, ?_, rfl⟩
    grind [rowMatch, matchPrefix_eq]
  grind [sameRow]

variable (normalizeIpPrefix) in
def wanted (sets : Row) (row : Str → Option Str) (key : Str) : List Entry :=
  ((row key).bind (rowEntry normalizeIpPrefix sets key)).toList

variable (normalizeIpPrefix) in
structure Inv (s : Sys) : Prop where
  afs : ∀ name, (s.prefixSetList.get? name).map MatchPrefixList.af = setAf s.cfg.sets name
  cached : ∀ key, (rowOf s.cache prefixTable key).get? actionAttr = s.cfg.rows.get? key
  nodup : ∀ key, (rowOf s.cache prefixTable key).keys.Nodup
  fits : ∀ key a, s.cfg.rows.get? key = some a → rowFits normalizeIpPrefix s.cfg.sets key = true
  idents : ∀ name l, s.prefixSetList.get? name = some l → (l.items.map MatchPrefix.ident).Nodup
  items : ∀ name l p, s.prefixSetList.get? name = some l →
    (p ∈ l.items ↔ ∃ key a, s.cfg.rows.get? key = some a ∧
      rowMatch normalizeIpPrefix s.cfg.sets key a = some (name, l.af, p))
  distinct : ∀ key key' a a', s.cfg.rows.get? key = some a → s.cfg.rows.get? key' = some a' →
    sameRow normalizeIpPrefix s.cfg.sets key key' = true → key = key'
  frr : Lines.Holds s.frr (wanted normalizeIpPrefix s.cfg.sets s.cfg.rows.get?)

theorem rowFits_spec {sets : Row} (h : rowFits normalizeIpPrefix sets key = true) :
    ∃ name k af net, rowSpec key = some (name, k) ∧ setAf sets name = some af ∧ getIpAf k.ipPfx = some af ∧
      normalizeIpPrefix af k.ipPfx = some net ∧
      ∀ r, k.lenRange = some r → ∃ lo hi, readRange r = some (lo, hi) ∧ 0 ≤ lo ∧ hi ≤ maxLen af := by
  unfold rowFits at h
  split at h
  · cases h
  · rename_i name k hk
    split at h
    · cases h
    · rename_i af haf
      simp only [Bool.and_eq_true, decide_eq_true_eq] at h
      obtain ⟨⟨hip, hnet⟩, hr⟩ := h <;> grind [isSome_iff_exists]

theorem rowMatch_of_fits {sets : Row} (h : rowFits normalizeIpPrefix sets key = true) (a : Str) :
    ∃ name k af p, rowSpec key = some (name, k) ∧ setAf sets name = some af ∧ getIpAf k.ipPfx = some af ∧
      matchPrefix normalizeIpPrefix af k.ipPfx k.lenRange a k.seq = some p ∧
      rowMatch normalizeIpPrefix sets key a = some (name, af, p) := by
  obtain ⟨name, k, af, net, hk, haf, hip, hnet, hr⟩ := rowFits_spec h
  have hp : ∃ p, matchPrefix normalizeIpPrefix af k.ipPfx k.lenRange a k.seq = some p := by
    unfold matchPrefix
    rw [hnet, bind_some]
    cases hl : k.lenRange with
    | none => exact ⟨_, rfl⟩
    | some r =>
      obtain ⟨lo, hi, hlh, -⟩ := hr r hl
      dsimp only
      rw [hlh]
      exact ⟨_, rfl⟩
  grind [rowMatch]

theorem sameRow_of_entry {sets : Row} {key' a' : Str} {e : Entry}
    (h : rowEntry normalizeIpPrefix sets key a = some e) (h' : rowEntry normalizeIpPrefix sets key' a' = some e) :
    sameRow normalizeIpPrefix sets key key' = true := by
  obtain ⟨⟨name, af, p⟩, hp, rfl⟩ := Option.map_eq_some_iff.mp h
  obtain ⟨⟨name', af', p'⟩, hp', he⟩ := Option.map_eq_some_iff.mp h'
  have hname : name' = name := congrArg Entry.name he
  have hi : p.ident = p'.ident := by
    have h₁ : p'.ipPrefix = p.ipPrefix := congrArg Entry.ipPrefix he
    have h₂ : p'.minLen = p.minLen := congrArg Entry.ge he
    have h₃ : p'.maxLen = p.maxLen := congrArg Entry.le he
    grind [MatchPrefix.ident]
  subst hname
  exact sameRow_of_ident hp hp' hi

variable (normalizeIpPrefix) in
def rowPrefix (sets : Row) (row : Str → Option Str) (key : Str) : Option MatchPrefix :=
  (row key).bind fun a => (rowMatch normalizeIpPrefix sets key a).map fun p => p.2.2

theorem rowPrefix_eq_some {sets : Row} {row : Str → Option Str} {af : Af}
    (hk : rowSpec key = some (name, k)) (haf : setAf sets name = some af) {q : MatchPrefix} :
    rowPrefix normalizeIpPrefix sets row key = some q ↔
      ∃ a, row key = some a ∧ rowMatch normalizeIpPrefix sets key a = some (name, af, q) := by
  unfold rowPrefix
  rw [bind_eq_some_iff]
  refine exists_congr fun a => and_congr_right fun _ => ?_
  grind [map_eq_some_iff, rowMatch_spec]

section
variable {sets : Row} {row : Str → Option Str} {key : Str}

theorem rowPrefix_of_match {af : Af} (ha : row key = some a)
    (hp : rowMatch normalizeIpPrefix sets key a = some (name, af, p)) :
    rowPrefix normalizeIpPrefix sets row key = some p := by grind [rowPrefix]

theorem rowPrefix_of_none (h : row key = none) : rowPrefix normalizeIpPrefix sets row key = none := by
  rw [rowPrefix, h]
  rfl

theorem wanted_of_match {af : Af} (ha : row key = some a)
    (hp : rowMatch normalizeIpPrefix sets key a = some (name, af, p)) :
    wanted normalizeIpPrefix sets row key = [entryOf af name p] := by grind [wanted, rowEntry]

theorem wanted_of_none (h : row key = none) : wanted normalizeIpPrefix sets row key = [] := by
  rw [wanted, h]
  rfl

end

section
variable {s : Sys} (hs : Inv normalizeIpPrefix s)
include hs

theorem Inv.setAf_of_list {l : MatchPrefixList} (h : s.prefixSetList.get? name = some l) :
    setAf s.cfg.sets name = some l.af := by
  rw [← hs.afs name, h]
  rfl

theorem Inv.list_of_setAf {af : Af} (h : setAf s.cfg.sets name = some af) :
    ∃ l, s.prefixSetList.get? name = some l ∧ l.af = af :=
  Option.map_eq_some_iff.mp ((hs.afs name).trans h)

theorem Inv.row (hk : rowSpec key = some (name, k)) {l : MatchPrefixList}
    (hl : s.prefixSetList.get? name = some l) {items : List MatchPrefix} {rows : Row} {cache : Cache}
    (hrows : ∀ key', key' ≠ key → rows.get? key' = s.cfg.rows.get? key')
    (hfits : ∀ a, rows.get? key = some a → rowFits normalizeIpPrefix s.cfg.sets key = true)
    (hdist : ∀ a, rows.get? key = some a → ∀ key' a', s.cfg.rows.get? key' = some a' →
      sameRow normalizeIpPrefix s.cfg.sets key key' = true → key' = key)
    (hcache : ∀ key', key' ≠ key → rowOf cache prefixTable key' = rowOf s.cache prefixTable key')
    (hcached : (rowOf cache prefixTable key).get? actionAttr = rows.get? key)
    (hnodup : (rowOf cache prefixTable key).keys.Nodup)
    (hitems : ∀ q, q ∈ items ↔ q ∈ l.items ∧ rowPrefix normalizeIpPrefix s.cfg.sets s.cfg.rows.get? key ≠ some q ∨
      rowPrefix normalizeIpPrefix s.cfg.sets rows.get? key = some q)
    (hidents : (items.map MatchPrefix.ident).Nodup) {frr : List Entry}
    (hfrr : frr = (wanted normalizeIpPrefix s.cfg.sets rows.get? key).foldl Lines.add
      ((wanted normalizeIpPrefix s.cfg.sets s.cfg.rows.get? key).foldl Lines.remove s.frr)) :
    Inv normalizeIpPrefix ⟨{ s.cfg with rows := rows }, cache, s.prefixSetList.set name { l with items := items },
      frr⟩ := by
  have haf := hs.setAf_of_list hl
  -- another row that is taken for the old or the new one is that row
  have hold : ∀ {key' a a' : Str}, s.cfg.rows.get? key = some a → s.cfg.rows.get? key' = some a' →
      sameRow normalizeIpPrefix s.cfg.sets key key' = true → key' = key :=
    fun ha ha' h => (hs.distinct _ _ _ _ ha ha' h).symm
  refine ⟨fun n => ?_, fun key' => ?_, fun key' => ?_, fun key' a ha => ?_, fun n m hm => ?_, fun n m q hm => ?_,
    fun key₁ key₂ a₁ a₂ h₁ h₂ hsame => ?_, ?_⟩
  · grind [hs.afs]
  · dsimp only
    by_cases h : key' = key <;> grind [hs.cached]
  · dsimp only
    by_cases h : key' = key <;> grind [hs.nodup]
  · grind [hs.fits]
  · grind [hs.idents]
  · dsimp only at hm ⊢
    rw [Dict.get?_set] at hm
    split at hm
    · rename_i hn
      subst hn
      cases hm
      dsimp only
      rw [hitems q, hs.items name l q hl]
      constructor
      · grind [rowPrefix_eq_some]
      · rintro ⟨key', a, ha, hq⟩
        by_cases h : key' = key
        · grind [rowPrefix_eq_some]
        · rw [hrows key' h] at ha
          refine .inl ⟨⟨key', a, ha, hq⟩, fun hq' => h ?_⟩
          obtain ⟨b, hb, hq'⟩ := (rowPrefix_eq_some hk haf).mp hq'
          exact hold hb ha (sameRow_of_ident hq' hq rfl)
    · rename_i hn
      rw [hs.items n m q hm]
      -- the row that changes is of another set
      have hother : ∀ {a : Str}, rowMatch normalizeIpPrefix s.cfg.sets key a ≠ some (n, m.af, q) := by
        grind [rowMatch_spec]
      grind
  · dsimp only at h₁ h₂ hsame
    have hsymm : ∀ {x y : Str}, sameRow normalizeIpPrefix s.cfg.sets x y = true →
        sameRow normalizeIpPrefix s.cfg.sets y x = true := by
      intro x y h
      unfold sameRow at h ⊢
      split at h
      · rename_i hx hy
        rw [hx, hy]
        simp only [Bool.and_eq_true, decide_eq_true_eq] at h ⊢
        grind
      · cases h
    by_cases e₁ : key₁ = key
    · by_cases e₂ : key₂ = key
      · rw [e₁, e₂]
      · subst e₁
        rw [hrows key₂ e₂] at h₂
        exact (hdist a₁ h₁ key₂ a₂ h₂ hsame).symm
    · grind [hs.distinct]
  · have hwant : wanted normalizeIpPrefix s.cfg.sets rows.get? =
        Function.update (wanted normalizeIpPrefix s.cfg.sets s.cfg.rows.get?) key
          (wanted normalizeIpPrefix s.cfg.sets rows.get? key) := by grind [wanted]
    dsimp only
    rw [hwant, hfrr]
    refine hs.frr.replace _ _ (fun e he => .inr he) (fun e he => he) (fun e he => .inl he) fun e he key' h he' => h ?_
    obtain ⟨a, ha, hea⟩ := Option.bind_eq_some_iff.mp (Option.mem_toList.mp he)
    obtain ⟨a', ha', hea'⟩ := Option.bind_eq_some_iff.mp (Option.mem_toList.mp he')
    exact hold ha ha' (sameRow_of_entry hea hea')

theorem Inv.same {t : Sys} (hsets : t.cfg.sets = s.cfg.sets) (hrows : t.cfg.rows.get? = s.cfg.rows.get?)
    (hcache : ∀ key, rowOf t.cache prefixTable key = rowOf s.cache prefixTable key)
    (hlists : ∀ name, t.prefixSetList.get? name = s.prefixSetList.get? name) (hfrr : t.frr = s.frr) :
    Inv normalizeIpPrefix t := by
  refine ⟨fun name => ?_, fun key => ?_, fun key => ?_, fun key a ha => ?_, fun name l h => ?_, fun name l p h => ?_,
    fun key key' a a' h h' => ?_, ?_⟩
  · rw [hlists, hsets]; exact hs.afs name
  · rw [hcache, hrows]; exact hs.cached key
  · rw [hcache]; exact hs.nodup key
  · simp_all [hs.fits]
  · exact hs.idents name l (hlists name ▸ h)
  · rw [hrows, hsets]; exact hs.items name l p (hlists name ▸ h)
  · rw [hsets]; exact hs.distinct key key' a a' (hrows ▸ h) (hrows ▸ h')
  · rw [hfrr, hsets, hrows]; exact hs.frr

end

/-! ## Rows of PREFIX -/

theorem rowSpec_parts (h : rowSpec key = some (name, k)) :
    ∃ rest, Str.splitOnce "|" key = some (name, rest) ∧ parseKey rest = some k := by
  obtain ⟨⟨n, rest⟩, hsplit, h⟩ := Option.bind_eq_some_iff.mp h
  simp_all

theorem rowOf_ne {cache : Cache} {key' : Str} (h : key' ≠ key) (ops : OpData) :
    rowOf (updateCacheData cache prefixTable key ops) prefixTable key' = rowOf cache prefixTable key' := by
  rw [rowOf_updateCacheData, if_neg fun he => h (congrArg Prod.snd he).symm]

theorem rowOf_self (cache : Cache) (key : Str) (ops : OpData) :
    rowOf (updateCacheData cache prefixTable key ops) prefixTable key =
      updateRow (rowOf cache prefixTable key) ops := by
  rw [rowOf_updateCacheData, if_pos rfl]

theorem rowOf_fail (cache : Cache) (key : Str) (data : Row) (key' : Str) :
    rowOf (updateCacheData cache prefixTable key (addOp (rowOf cache prefixTable key) data)) prefixTable key' =
      rowOf cache prefixTable key' := by
  by_cases h : key' = key
  · rw [h, rowOf_self, updateRow_of_fail (addOp_fail _ _)]
  · exact rowOf_ne h _

theorem addEntry_eq (name : Str) {l : MatchPrefixList} (frr : List Entry)
    (hip : getIpAf k.ipPfx = some l.af) (hp : matchPrefix normalizeIpPrefix l.af k.ipPfx k.lenRange a k.seq = some p) :
    addEntry normalizeIpPrefix name l frr k a =
      ({ l with items := l.items ++ [p] }, Lines.add frr (entryOf l.af name p), true) := by
  grind [addEntry, MatchPrefixList.addPrefix]

section
variable {s : Sys} (hs : Inv normalizeIpPrefix s)
include hs

theorem Inv.takePrefix {b : Str} {l : MatchPrefixList}
    (hk : rowSpec key = some (name, k)) (hl : s.prefixSetList.get? name = some l) (ha : s.cfg.rows.get? key = some a)
    (hp : rowMatch normalizeIpPrefix s.cfg.sets key a = some (name, l.af, p)) :
    ∃ p₀, matchPrefix normalizeIpPrefix l.af k.ipPfx k.lenRange b none = some p₀ ∧
      l.takePrefix p₀ = some ({ l with items := l.items.eraseP (·.ident = p.ident) }, p) := by
  obtain ⟨k', hk', -, hm⟩ := rowMatch_spec hp
  rw [hk] at hk'
  cases hk'
  rw [matchPrefix_eq] at hm
  obtain ⟨q, hq, rfl⟩ := Option.map_eq_some_iff.mp hm
  refine ⟨{ q with action := b, sequenceNumber := none }, by rw [matchPrefix_eq, hq]; rfl, ?_⟩
  have hmem := (hs.items name l _ hl).mpr ⟨key, a, ha, hp⟩
  have hfind := find?_of_nodup (hs.idents name l hl) hmem
    (b := MatchPrefix.ident { q with action := b, sequenceNumber := none }) rfl
  rw [MatchPrefixList.takePrefix, hfind]
  rfl

theorem Inv.mem_eraseP {l : MatchPrefixList}
    (hl : s.prefixSetList.get? name = some l) (ha : s.cfg.rows.get? key = some a)
    (hp : rowMatch normalizeIpPrefix s.cfg.sets key a = some (name, l.af, p)) (q : MatchPrefix) :
    q ∈ l.items.eraseP (·.ident = p.ident) ↔ q ∈ l.items ∧ q ≠ p :=
  mem_eraseP_of_nodup (hs.idents name l hl) ((hs.items name l p hl).mpr ⟨key, a, ha, hp⟩) rfl

theorem Inv.cached_allSucc (key : Str) {data : Row} (hd : data.keys.Nodup) (k : Str) :
    (rowOf (updateCacheData s.cache prefixTable key (allSucc (addOp (rowOf s.cache prefixTable key) data)))
      prefixTable key).get? k = data.get? k := by rw [rowOf_self, get?_updateRow_allSucc (hs.nodup key) hd]

theorem Inv.delPrefix {s' : Sys} (he : step normalizeIpPrefix s (.delPrefix key) = some s') :
    Inv normalizeIpPrefix s' := by
  obtain ⟨⟨cache, sets, frr⟩, hh, rfl⟩ := Option.map_eq_some_iff.mp he
  obtain ⟨⟨name, rest⟩, hsplit, hh⟩ := Option.bind_eq_some_iff.mp hh
  obtain ⟨⟨sets', frr', ops⟩, hu, hh⟩ := Option.map_eq_some_iff.mp hh
  cases hh
  have hops := get?_addOp (rowOf s.cache prefixTable key) [] actionAttr
  rw [hs.cached key] at hops
  cases ha : s.cfg.rows.get? key with
  | none =>
    -- there is nothing to delete
    rw [ha] at hops
    have hrows : (s.cfg.rows.erase key).get? = s.cfg.rows.get? := by grind
    have hsame : updatePrefix normalizeIpPrefix s.prefixSetList s.frr name rest
        (addOp (rowOf s.cache prefixTable key) []) = some (sets, frr, ops) →
        sets = s.prefixSetList ∧ frr = s.frr ∧ ops = addOp (rowOf s.cache prefixTable key) [] := by
      grind [updatePrefix, bind_eq_some_iff]
    obtain ⟨rfl, rfl, rfl⟩ := hsame hu
    exact hs.same rfl hrows (fun key' => rowOf_fail s.cache key [] key') (fun _ => rfl) rfl
  | some a =>
    rw [ha] at hops
    obtain ⟨name', k, af, p, hk, haf, hip, hp, hm⟩ := rowMatch_of_fits (hs.fits key a ha) a
    obtain ⟨rest', hsplit', hrest⟩ := rowSpec_parts hk
    rw [hsplit] at hsplit'
    cases hsplit'
    obtain ⟨l, hl, rfl⟩ := hs.list_of_setAf haf
    obtain ⟨p₀, hp₀, htake⟩ := hs.takePrefix (b := a) hk hl ha hm
    unfold updatePrefix at hu
    rw [hl] at hu
    dsimp only at hu
    rw [hrest, bind_some] at hu
    simp only [addOpToData, foldl_nil] at hu
    rw [hops] at hu
    simp only [updateEntry, Dict.get?_nil, map_some, hp₀, htake, if_true] at hu
    cases hu
    have hgone : (s.cfg.rows.erase key).get? key = none := Dict.get?_erase_self _ _
    refine hs.row hk hl (fun key' h => Dict.get?_erase_ne (Ne.symm h) _) (fun b hb => ?_) (fun b hb => ?_)
      (fun key' h => rowOf_ne h _) ?_ ?_ (fun q => ?_) ?_ ?_
    · grind
    · grind
    · rw [hgone]
      have hd : (Dict.keys ([] : Row)).Nodup := nodup_nil
      exact hs.cached_allSucc key hd actionAttr
    · rw [rowOf_self]
      exact nodup_updateRow (hs.nodup key)
    · rw [hs.mem_eraseP hl ha hm, rowPrefix_of_match ha hm, rowPrefix_of_none hgone]
      simp [eq_comm]
    · exact (hs.idents name l hl).sublist (List.eraseP_sublist.map _)
    · rw [wanted_of_match ha hm, wanted_of_none hgone]
      rfl

theorem Inv.setPrefix {s' : Sys} {data : Row}
    (hok : prefixOk normalizeIpPrefix s (.setPrefix key data))
    (he : step normalizeIpPrefix s (.setPrefix key data) = some s') : Inv normalizeIpPrefix s' := by
  obtain ⟨hact, hfits, hdist⟩ := hok
  obtain ⟨a, hact⟩ := Option.isSome_iff_exists.mp hact
  have hd : (Dict.update [] data : Row).keys.Nodup := Dict.nodup_update _ nodup_nil
  obtain ⟨⟨cache, sets, frr⟩, hh, rfl⟩ := Option.map_eq_some_iff.mp he
  obtain ⟨⟨name, rest⟩, hsplit, hh⟩ := Option.bind_eq_some_iff.mp hh
  obtain ⟨⟨sets', frr', ops⟩, hu, hh⟩ := Option.map_eq_some_iff.mp hh
  cases hh
  generalize (Dict.update [] data : Row) = row at *
  have hops := get?_addOp (rowOf s.cache prefixTable key) row actionAttr
  rw [hs.cached key, hact] at hops
  obtain ⟨name', k, af, p, hk, haf, hip, hp, hm⟩ := rowMatch_of_fits hfits a
  obtain ⟨rest', hsplit', hrest⟩ := rowSpec_parts hk
  rw [hsplit] at hsplit'
  cases hsplit'
  obtain ⟨l, hl, rfl⟩ := hs.list_of_setAf haf
  unfold updatePrefix at hu
  rw [hl] at hu
  dsimp only at hu
  rw [hrest, bind_some] at hu
  simp only [addOpToData, foldl_nil] at hu
  rw [hops] at hu
  dsimp only at hu
  dsimp only
  rw [hact, getD_some]
  have hnew : (s.cfg.rows.set key a).get? key = some a := Dict.get?_set_self _ _ _
  have hrows : ∀ key', key' ≠ key → (s.cfg.rows.set key a).get? key' = s.cfg.rows.get? key' :=
    fun key' h => Dict.get?_set_ne _ (Ne.symm h) _
  have hdist' : ∀ key' a', s.cfg.rows.get? key' = some a' → sameRow normalizeIpPrefix s.cfg.sets key key' = true →
      key' = key := fun key' a' ha' => hdist key' (Dict.mem_keys_of_get? ha')
  have hcached : (rowOf (updateCacheData s.cache prefixTable key
      (allSucc (addOp (rowOf s.cache prefixTable key) row))) prefixTable key).get? actionAttr =
      (s.cfg.rows.set key a).get? key := by rw [hs.cached_allSucc key hd, hact, hnew]
  have hnodup : (rowOf (updateCacheData s.cache prefixTable key
      (allSucc (addOp (rowOf s.cache prefixTable key) row))) prefixTable key).keys.Nodup := by
    rw [rowOf_self]
    exact nodup_updateRow (hs.nodup key)
  cases ha : s.cfg.rows.get? key with
  | none =>
    rw [ha] at hu
    simp only [opOf, updateEntry, addEntry_eq name s.frr hip hp, map_some, if_true] at hu
    cases hu
    refine hs.row hk hl hrows (fun _ _ => hfits) (fun _ _ => hdist') (fun key' h => rowOf_ne h _) hcached hnodup
      (fun q => ?_) ?_ ?_
    · rw [rowPrefix_of_none ha, rowPrefix_of_match hnew hm]
      simp [eq_comm]
    · rw [map_append, map_singleton, nodup_append_comm, singleton_append, nodup_cons]
      grind [hs.idents, hs.items, sameRow_of_ident]
    · rw [wanted_of_none ha, wanted_of_match hnew hm]
      rfl
  | some b =>
    rw [ha] at hu
    by_cases hab : a = b
    · subst hab
      simp only [opOf, updateEntry, if_true, map_some, Bool.false_eq_true, if_false] at hu
      cases hu
      refine hs.same rfl ?_ (rowOf_fail s.cache key row) (fun n => ?_) rfl <;> grind
    · obtain ⟨name', k', af', p', hk', haf', -, hp', hm'⟩ := rowMatch_of_fits hfits b
      rw [hk] at hk'
      cases hk'
      rw [haf] at haf'
      cases haf'
      obtain ⟨p₀, hp₀, htake⟩ := hs.takePrefix (b := a) hk hl ha hm'
      have hadd := addEntry_eq name (l := { l with items := l.items.eraseP (·.ident = p'.ident) })
        (Lines.remove s.frr (entryOf l.af name p')) hip hp
      simp only [opOf, updateEntry, if_neg hab, hp₀, map_some, htake, hadd, if_true] at hu
      cases hu
      refine hs.row hk hl hrows (fun _ _ => hfits) (fun _ _ => hdist') (fun key' h => rowOf_ne h _) hcached hnodup
        (fun q => ?_) ?_ ?_
      · rw [mem_append, hs.mem_eraseP hl ha hm', rowPrefix_of_match ha hm', rowPrefix_of_match hnew hm]
        simp [eq_comm]
      · rw [map_append, map_singleton, nodup_append_comm, singleton_append, nodup_cons]
        refine ⟨fun hmem => ?_, (hs.idents name l hl).sublist (List.eraseP_sublist.map _)⟩
        obtain ⟨q, hq, hi⟩ := List.mem_map.mp hmem
        obtain ⟨hq, hne⟩ := (hs.mem_eraseP hl ha hm' q).mp hq
        grind [hs.items, sameRow_of_ident]
      · rw [wanted_of_match ha hm', wanted_of_match hnew hm]
        rfl

end

/-! ## Rows of PREFIX_SET -/

theorem rowMatch_congr {sets sets' : Row} (hk : rowSpec key = some (name, k))
    (h : setAf sets' name = setAf sets name) (a : Str) :
    rowMatch normalizeIpPrefix sets' key a = rowMatch normalizeIpPrefix sets key a := by grind [rowMatch]

theorem rowFits_congr {sets sets' : Row} (hk : rowSpec key = some (name, k))
    (h : setAf sets' name = setAf sets name) :
    rowFits normalizeIpPrefix sets' key = rowFits normalizeIpPrefix sets key := by grind [rowFits]

theorem setName_of_spec (hk : rowSpec key = some (name, k)) : setName key = name := by
  grind [rowSpec_parts, setName]

section
variable {s : Sys} (hs : Inv normalizeIpPrefix s)
include hs

theorem Inv.spec_of_row (ha : s.cfg.rows.get? key = some a) :
    ∃ k, rowSpec key = some (setName key, k) ∧ (setAf s.cfg.sets (setName key)).isSome = true := by
  obtain ⟨name, k, af, -, hk, haf, -⟩ := rowFits_spec (hs.fits key a ha)
  grind [setName_of_spec]

theorem Inv.sets {sets : Row} {cache : Cache} {lists : Dict Str MatchPrefixList}
    (hsets : ∀ key a, s.cfg.rows.get? key = some a → setAf sets (setName key) = setAf s.cfg.sets (setName key))
    (hcache : ∀ key, rowOf cache prefixTable key = rowOf s.cache prefixTable key)
    (hafs : ∀ name, (lists.get? name).map MatchPrefixList.af = setAf sets name)
    (hlists : ∀ name l, lists.get? name = some l → s.prefixSetList.get? name = some l ∨
      l.items = [] ∧ ∀ key a, s.cfg.rows.get? key = some a → setName key ≠ name) :
    Inv normalizeIpPrefix ⟨{ s.cfg with sets := sets }, cache, lists, s.frr⟩ := by
  have hmatch : ∀ {key a : Str}, s.cfg.rows.get? key = some a → ∀ b,
      rowMatch normalizeIpPrefix sets key b = rowMatch normalizeIpPrefix s.cfg.sets key b := by
    grind [spec_of_row, rowMatch_congr]
  refine ⟨hafs, fun key => ?_, fun key => ?_, fun key a ha => ?_, fun name l h => ?_, fun name l p h => ?_,
    fun key key' a a' h h' hsame => ?_, ?_⟩
  · dsimp only; rw [hcache]; exact hs.cached key
  · dsimp only; rw [hcache]; exact hs.nodup key
  · obtain ⟨k, hk, -⟩ := hs.spec_of_row ha
    dsimp only
    rw [rowFits_congr hk (hsets key a ha)]
    exact hs.fits key a ha
  · grind [hs.idents]
  · dsimp only
    rcases hlists name l h with h | ⟨hnil, hno⟩
    · rw [hs.items name l p h]
      grind
    · grind [rowMatch_spec, setName_of_spec]
  · dsimp only at hsame
    rw [sameRow, hmatch h, hmatch h'] at hsame
    exact hs.distinct key key' a a' h h' hsame
  · have hwant : wanted normalizeIpPrefix sets s.cfg.rows.get? =
        wanted normalizeIpPrefix s.cfg.sets s.cfg.rows.get? := by
      funext key
      cases ha : s.cfg.rows.get? key <;> simp_all [wanted, rowEntry]
    dsimp only
    rw [hwant]
    exact hs.frr

end

theorem setName_of_not_mem (h : '|' ∉ key) : setName key = key := by
  have hnone : Str.splitOnce "|" key = none := by
    cases hk : Str.splitOnce "|" key <;> grind [Str.mem_of_splitOnce]
  rw [setName, hnone]
  rfl

theorem updatePrefixSet_of_some {sets : Dict Str MatchPrefixList} {l : MatchPrefixList}
    (h : sets.get? name = some l) (data : OpData) : updatePrefixSet sets name false data = (sets, data) := by
  simp_all [updatePrefixSet]

theorem updatePrefixSet_of_none {sets : Dict Str MatchPrefixList} (h : sets.get? name = none)
    {data : OpData} {mode : CachedDataWithOp} (hm : data.get? modeAttr = some mode) :
    updatePrefixSet sets name false data =
      (sets.set name (MatchPrefixList.new (Str.lower mode.data)), allSucc data) := by simp_all [updatePrefixSet]

theorem rowOf_prefixSet (cache : Cache) (key : Str) (ops : OpData) (key' : Str) :
    rowOf (updateCacheData cache prefixSetTable key ops) prefixTable key' = rowOf cache prefixTable key' := by
  rw [rowOf_updateCacheData, if_neg]
  intro h
  have htable : prefixSetTable = prefixTable := congrArg Prod.fst h
  exact absurd htable (by decide)

section
variable {s : Sys} (hs : Inv normalizeIpPrefix s)
include hs

theorem Inv.setPrefixSet {s' : Sys} {data : Row}
    (hok : prefixOk normalizeIpPrefix s (.setPrefixSet key data))
    (he : step normalizeIpPrefix s (.setPrefixSet key data) = some s') : Inv normalizeIpPrefix s' := by
  obtain ⟨hbar, hmode, hkeep⟩ := hok
  obtain ⟨m, hmode⟩ := Option.isSome_iff_exists.mp hmode
  have hops := get?_addOp (rowOf s.cache prefixSetTable key) (Dict.update [] data) modeAttr
  rw [hmode] at hops hkeep
  have hs' : s' = ⟨{ s.cfg with sets := s.cfg.sets.set key (((Dict.update [] data).get? modeAttr).getD []) },
      updateCacheData s.cache prefixSetTable key (updatePrefixSet s.prefixSetList (setName key) false
        (addOp (rowOf s.cache prefixSetTable key) (Dict.update [] data))).2,
      (updatePrefixSet s.prefixSetList (setName key) false
        (addOp (rowOf s.cache prefixSetTable key) (Dict.update [] data))).1, s.frr⟩ := (Option.some.inj he).symm
  rw [hmode, getD_some, setName_of_not_mem hbar] at hs'
  subst hs'
  have hget : ∀ {name}, key ≠ name → setAf (s.cfg.sets.set key m) name = setAf s.cfg.sets name :=
    fun h => by rw [setAf, setAf, Dict.get?_set_ne _ h]
  cases hl : s.prefixSetList.get? key with
  | some l =>
    -- the set is there, with the mode that it has
    rw [updatePrefixSet_of_some hl]
    have hsame : s.cfg.sets.get? key = some m := by
      obtain ⟨m', hm', -⟩ := Option.map_eq_some_iff.mp (hs.setAf_of_list hl) <;> simp_all
    have hget' : ∀ name, setAf (s.cfg.sets.set key m) name = setAf s.cfg.sets name := by
      intro name
      by_cases h : key = name <;> simp_all [setAf]
    simp_all [sets, rowOf_prefixSet, hs.afs]
  | none =>
    rw [updatePrefixSet_of_none hl hops]
    dsimp only
    -- no row has this set yet
    have hno : ∀ key' a, s.cfg.rows.get? key' = some a → setName key' ≠ key := by
      intro key' a ha hname
      obtain ⟨k, -, haf⟩ := hs.spec_of_row ha
      rw [hname, ← hs.afs key, hl] at haf
      cases haf
    have hdata : (opOf ((rowOf s.cache prefixSetTable key).get? modeAttr) m).data = m := by
      unfold opOf
      split <;> rfl
    rw [hdata]
    refine hs.sets (fun key' a ha => hget (hno key' a ha).symm) (rowOf_prefixSet _ _ _) (fun name => ?_)
      (fun name l h => ?_)
    · grind [setAf, hs.afs]
    · by_cases hn : key = name
      · rw [← hn, Dict.get?_set_self] at h
        cases h
        exact .inr ⟨rfl, fun key' a ha => hn ▸ hno key' a ha⟩
      · rw [Dict.get?_set_ne _ hn] at h
        exact .inl h

theorem Inv.delPrefixSet {s' : Sys} (hok : prefixOk normalizeIpPrefix s (.delPrefixSet key))
    (he : step normalizeIpPrefix s (.delPrefixSet key) = some s') : Inv normalizeIpPrefix s' := by
  obtain ⟨hbar, hno⟩ := hok
  have hs' := (Option.some.inj he).symm
  have hno' : ∀ key' a, s.cfg.rows.get? key' = some a → setName key' ≠ key :=
    fun key' a ha => hno key' (Dict.mem_keys_of_get? ha)
  subst hs'
  dsimp only [prefixSetHandler, updatePrefixSet, isNone_none, if_true]
  rw [setName_of_not_mem hbar]
  refine hs.sets (fun key' a ha => ?_) (rowOf_prefixSet _ _ _) (fun name => ?_) (fun name l h => .inl ?_)
  · rw [setAf, setAf, Dict.get?_erase_ne (hno' key' a ha).symm]
  · grind [setAf, hs.afs]
  · grind

end

theorem inv_new : Inv normalizeIpPrefix Sys.new := by
  refine ⟨fun _ => rfl, fun _ => rfl, fun _ => nodup_nil, fun _ _ h => ?_, fun _ _ h => ?_, fun _ _ _ h => ?_,
    fun _ _ _ _ h => ?_, fun e => ⟨fun h => ?_, ?_⟩⟩
  · cases h
  · cases h
  · cases h
  · cases h
  · cases h
  · rintro ⟨key, he⟩
    exact absurd he not_mem_nil

theorem inv_step (s : Sys) (e : Event) (s' : Sys) (hs : Inv normalizeIpPrefix s) (hok : prefixOk normalizeIpPrefix s e)
    (he : step normalizeIpPrefix s e = some s') : Inv normalizeIpPrefix s' := by
  cases e <;> grind [Inv.setPrefixSet, Inv.delPrefixSet, Inv.setPrefix, Inv.delPrefix]

theorem updateEntry_isSome {l : MatchPrefixList} {frr : List Entry}
    (hp : matchPrefix normalizeIpPrefix l.af k.ipPfx k.lenRange a k.seq = some p)
    (v : CachedDataWithOp) : (updateEntry normalizeIpPrefix name l frr k v).isSome = true := by
  rw [matchPrefix_eq] at hp
  obtain ⟨q, hq, -⟩ := Option.map_eq_some_iff.mp hp
  have hdel : matchPrefix normalizeIpPrefix l.af k.ipPfx k.lenRange v.data none =
      some { q with action := v.data, sequenceNumber := none } := by
    rw [matchPrefix_eq, hq]
    rfl
  grind [updateEntry]

theorem Inv.step_isSome {s : Sys} (hs : Inv normalizeIpPrefix s) {e : Event} (hok : prefixOk normalizeIpPrefix s e) :
    (step normalizeIpPrefix s e).isSome = true := by
  have hfits : ∀ {key name : Str} {k : PrefixKey} {l : MatchPrefixList}, rowSpec key = some (name, k) →
      s.prefixSetList.get? name = some l → rowFits normalizeIpPrefix s.cfg.sets key = true →
      ∀ frr v, (updateEntry normalizeIpPrefix name l frr k v).isSome = true := by
    intro key name k l hk hl h frr v
    obtain ⟨name', k', af, p, hk', haf, -, hp, -⟩ := rowMatch_of_fits h []
    rw [hk] at hk'
    cases hk'
    rw [hs.setAf_of_list hl] at haf
    cases haf
    exact updateEntry_isSome hp v
  have hprefix : ∀ {key : Str} (data : Row), (rowSpec key).isSome = true →
      (rowFits normalizeIpPrefix s.cfg.sets key = true ∨
        (addOp (rowOf s.cache prefixTable key) data).get? actionAttr = none) →
      (prefixHandler normalizeIpPrefix s key data).isSome = true := by
    intro key data hspec h
    obtain ⟨⟨name, k⟩, hk⟩ := Option.isSome_iff_exists.mp hspec
    obtain ⟨rest, hsplit, hrest⟩ := rowSpec_parts hk
    rw [prefixHandler, hsplit, bind_some, addOpToData, foldl_nil, isSome_map, updatePrefix]
    grind
  cases e with
  | setPrefixSet key data => rfl
  | delPrefixSet key => rfl
  | setPrefix key data =>
    obtain ⟨-, h, -⟩ := hok
    rw [step, isSome_map]
    obtain ⟨name, k, af, net, hk, -⟩ := rowFits_spec h
    exact hprefix _ (by rw [hk]; rfl) (.inl h)
  | delPrefix key =>
    rw [step, isSome_map]
    refine hprefix _ hok ?_
    cases ha : s.cfg.rows.get? key with
    | some a => exact .inl (hs.fits key a ha)
    | none =>
      rw [get?_addOp, hs.cached key, ha]
      exact .inr rfl

theorem rowEntry_of_fits {sets : Row} (h : rowFits normalizeIpPrefix sets key = true) (a : Str) :
    ∃ name k af net e, rowSpec key = some (name, k) ∧ setAf sets name = some af ∧
      normalizeIpPrefix af k.ipPfx = some net ∧ rowEntry normalizeIpPrefix sets key a = some e ∧
      e.isV4 = decide (af = .inet) ∧ e.name = name ∧ e.seq = k.seq ∧ e.action = Str.lower a ∧ e.ipPrefix = net ∧
      ∀ n ≤ maxLen af, e.matchesLen n ↔ wantsLen k.lenRange net.2 n := by
  obtain ⟨name, k, af, net, hk, haf, hip, hnet, hr⟩ := rowFits_spec h
  obtain ⟨name', k', af', p, hk', haf', -, hp, hm⟩ := rowMatch_of_fits h a
  rw [hk] at hk'
  cases hk'
  rw [haf] at haf'
  cases haf'
  refine ⟨name, k, af, net, entryOf af name p, hk, haf, hnet, by rw [rowEntry, hm]; rfl, ?_⟩
  unfold matchPrefix at hp
  rw [hnet, bind_some] at hp
  cases hl : k.lenRange with
  | none =>
    rw [hl] at hp
    cases hp
    exact ⟨rfl, rfl, rfl, rfl, rfl, fun n _ => Iff.rfl⟩
  | some r =>
    obtain ⟨lo, hi, hlh, hlo, hhi⟩ := hr r hl
    have hwants : ∀ n, wantsLen (some r) net.2 n ↔ net.2 ≤ n ∧ lo ≤ n ∧ n ≤ hi := by grind [wantsLen]
    rw [hl] at hp
    dsimp only at hp
    rw [hlh, map_some] at hp
    simp only [hwants]
    -- a lower bound below the prefix and an upper bound of the whole family are left out
    grind [Entry.matchesLen, entryOf]

/-- In a run that meets the condition every row has its own entry, and there are no other entries. -/
theorem entries_of_run {events : List Event}
    (hok : Along (step normalizeIpPrefix) (prefixOk normalizeIpPrefix) Sys.new events) :
    ∃ s, run (step normalizeIpPrefix) Sys.new events = some s ∧
      (∀ e, e ∈ s.frr ↔
        ∃ key a, s.cfg.rows.get? key = some a ∧ rowEntry normalizeIpPrefix s.cfg.sets key a = some e) ∧
      (∀ key key' a a' e, s.cfg.rows.get? key = some a → s.cfg.rows.get? key' = some a' →
        rowEntry normalizeIpPrefix s.cfg.sets key a = some e →
        rowEntry normalizeIpPrefix s.cfg.sets key' a' = some e → key = key') ∧
      ∀ key a, s.cfg.rows.get? key = some a →
        ∃ name k af net e, rowSpec key = some (name, k) ∧ setAf s.cfg.sets name = some af ∧
          normalizeIpPrefix af k.ipPfx = some net ∧ rowEntry normalizeIpPrefix s.cfg.sets key a = some e ∧
          e.isV4 = decide (af = .inet) ∧ e.name = name ∧ e.seq = k.seq ∧ e.action = Str.lower a ∧ e.ipPrefix = net ∧
          ∀ n ≤ maxLen af, e.matchesLen n ↔ wantsLen k.lenRange net.2 n := by
  obtain ⟨s, hr, hs⟩ := run_total _ (fun s e hs hok => Option.isSome_iff_exists.mp (Inv.step_isSome hs hok)) inv_step
    inv_new hok
  refine ⟨s, hr, fun e => ?_, fun key key' a a' e ha ha' he he' => ?_,
    fun key a ha => rowEntry_of_fits (hs.fits key a ha) a⟩
  · refine (hs.frr e).trans (exists_congr fun key => ?_)
    rw [wanted, Option.mem_toList, Option.bind_eq_some_iff]
  · exact hs.distinct key key' a a' ha ha' (sameRow_of_entry he he')

end

def writtenIpPrefix (_ : Af) (ipPfx : Str) : Option (Str × Nat) :=
  (Str.splitOnce "/" ipPfx).bind fun p => (Str.int p.2).map fun n => (p.1, n.toNat)

def permitTen : Event := .setPrefix "s|10|10.0.0.0/8|16..24" [(actionAttr, "permit")]
def createSet : Event := .setPrefixSet "s" [(modeAttr, "ipv4")]

def edits : List Event :=
  [createSet, permitTen, .setPrefix "s|20|10.0.0.0/8|exact" [(actionAttr, "permit")],
    .setPrefix "s|20|10.0.0.0/8|exact" [(actionAttr, "deny")], .delPrefix "s|10|10.0.0.0/8|16..24"]

theorem entries_edited : ∃ s, run (step writtenIpPrefix) Sys.new edits = some s ∧
    ∀ e, e ∈ s.frr ↔ ∃ key a, s.cfg.rows.get? key = some a ∧ rowEntry writtenIpPrefix s.cfg.sets key a = some e := by
  obtain ⟨s, hr, h, -⟩ := @entries_of_run writtenIpPrefix edits (by decide +kernel)
  exact ⟨s, hr, h⟩

theorem no_entry_row_first : ∃ s e, run (step writtenIpPrefix) Sys.new [permitTen, createSet] = some s ∧
    setAf s.cfg.sets "s".toList = some .inet ∧
    s.cfg.rows.get? "s|10|10.0.0.0/8|16..24".toList = some "permit".toList ∧
    rowEntry writtenIpPrefix s.cfg.sets "s|10|10.0.0.0/8|16..24".toList "permit".toList = some e ∧ e ∉ s.frr :=
  ⟨_, _, (Option.some_get (by decide +kernel)).symm, by decide +kernel, by decide +kernel,
    (Option.some_get (by decide +kernel)).symm, by decide +kernel⟩

end Sonic.PrefixSet
