import Sonic.YangPath

/-! # The path cache

`configdb_path_to_xpath` keeps its answers by path and schema flag, not by configuration. One instance therefore answers
like fresh ones exactly if any two of its calls for one path and flag agree: a call that has read a value in its
configuration is followed only by calls that would read the same. The main result is `path_cache_transparent_iff`, for every
sequence of calls; `firstServer_stale` is a sequence whose second answer is that of the first configuration. -/

namespace Sonic.Yang
open List Option

open Str

section
variable (parts : Str → Option (List Str)) (tables : ConfDbYangMap)

def answer (c : Call) : Option Str := (configdbPathToXpath parts tables [] c).1

def answers : ConfigPathCache → List Call → List (Option Str)
  | _, [] => []
  | cache, c :: cs =>
    let (result, cache) := configdbPathToXpath parts tables cache c
    result :: answers cache cs

/-! ## Where the configuration is read -/

def leafReads (M : Node) (token : Str) (rest : List Str) : Bool :=
  !findLeaf M false token && findLeaf M true token && rest ≠ []

def listReads (schemaXpath : Bool) (l : Node) (key : Str) : List Str → Bool
  | [] => false
  | token :: rest => (listToken schemaXpath l key).isSome && (type1GetModel l).isNone && leafReads l token rest

def containerReads (schemaXpath : Bool) : Node → List Str → Bool
  | M, _ :: next :: rest =>
    match getListModel M next with
    | none => false
    | some (some l) => listReads schemaXpath l next rest
    | some none =>
      match findChild M.containers next with
      | some m => containerReads schemaXpath m (next :: rest)
      | none => leafReads M next rest
  | _, _ => false

def readsValue (c : Call) : Bool :=
  !isRoot c.configdbPath && (configdbPathSplit parts c.configdbPath).any fun tokens => tokens.head?.any fun table =>
    (tables.get? table).any fun cmap => containerReads c.schemaXpath cmap.container tokens

def Call.value (c : Call) : Option (Option Str) := (configdbPathSplit parts c.configdbPath).bind (valueText c.configdb)

/-- Where the earlier of two calls for the same path and flag has read a value, the later one would read the same;
for a schema xpath it only has to find one. -/
def Agree (c d : Call) : Prop :=
  c.key = d.key → readsValue parts tables c = true → c.value parts ≠ none →
    if c.schemaXpath then d.value parts ≠ none else d.value parts = c.value parts

end

section
variable {parts : Str → Option (List Str)} {tables : ConfDbYangMap}

theorem elementToken_injective {token : Str} {v w : Option Str}
    (h : elementToken false token v = elementToken false token w) : v = w := by
  have hne : ∀ t : Str, token ≠ token ++ predicate (['.'], t) := fun t he => by
    have := congrArg List.length he
    simp [predicate] at this
  cases v with
  | none =>
    cases w with
    | none => rfl
    | some t => exact absurd h (hne t)
  | some t =>
    cases w with
    | none => exact absurd h.symm (hne t)
    | some u =>
      have hp : predicate (['.'], t) = predicate (['.'], u) := append_cancel_left h
      grind [predicate, append_cancel_right]

theorem elementToken_schema (token : Str) (v : Option Str) : elementToken true token v = token := by cases v <;> rfl

def Dependence (reads : Bool) (schemaXpath : Bool) (f : Option (Option Str) → Option (List Str)) : Prop :=
  (reads = false → ∀ v w, f v = f w) ∧
    (reads = true → ∃ pre token, ∀ v, f v = v.map fun v => pre ++ [elementToken schemaXpath token v])

theorem Dependence.map {reads schemaXpath : Bool} {f : Option (Option Str) → Option (List Str)} (l : List Str)
    (h : Dependence reads schemaXpath f) : Dependence reads schemaXpath fun v => (f v).map (l ++ ·) := by
  refine ⟨fun hr v w => congrArg (Option.map (l ++ ·)) (h.1 hr v w), fun hr => ?_⟩
  obtain ⟨pre, token, hf⟩ := h.2 hr
  refine ⟨l ++ pre, token, fun v => ?_⟩
  dsimp only
  rw [hf, Option.map_map]
  refine congrArg (Option.map · v) (funext fun x => ?_)
  simp_all

theorem Dependence.const {reads schemaXpath : Bool} {r : Option (List Str)} (h : reads = false) :
    Dependence reads schemaXpath fun _ => r :=
  ⟨fun _ _ _ => rfl, fun hr => absurd (h.symm.trans hr) Bool.false_ne_true⟩

theorem leaf_dependence (schemaXpath : Bool) (M : Node) (token : Str) (rest : List Str) :
    Dependence (leafReads M token rest) schemaXpath fun v =>
      (getXpathTokenFromLeaf schemaXpath v M token rest).map ([·]) := by
  unfold leafReads getXpathTokenFromLeaf
  cases findLeaf M false token with
  | true => exact Dependence.const rfl
  | false =>
    cases findLeaf M true token with
    | false => exact Dependence.const rfl
    | true =>
      cases rest with
      | nil => exact Dependence.const rfl
      | cons t ts =>
        refine ⟨fun hr => by simp at hr, fun _ => ⟨[], token, fun v => ?_⟩⟩
        cases v <;> rfl

theorem list_dependence (schemaXpath : Bool) (l : Node) (key : Str) : ∀ rest : List Str,
    Dependence (listReads schemaXpath l key rest) schemaXpath fun v => getXpathTokensFromList schemaXpath v l key rest
  | [] => by
    show Dependence _ _ fun _ => (listToken schemaXpath l key).bind fun item => some [item]
    exact Dependence.const rfl
  | token :: rest => by
    unfold listReads getXpathTokensFromList
    cases listToken schemaXpath l key with
    | none => exact Dependence.const rfl
    | some item =>
      cases type1GetModel l with
      | some inner => exact Dependence.const rfl
      | none =>
        have h := (leaf_dependence schemaXpath l token rest).map [item]
        simp only [Option.map_map] at h
        exact h

theorem container_dependence (schemaXpath : Bool) : ∀ (M : Node) (tokens : List Str),
    Dependence (containerReads schemaXpath M tokens) schemaXpath fun v =>
      getXpathTokensFromContainer schemaXpath v M tokens
  | _, [] => Dependence.const rfl
  | _, [_] => Dependence.const rfl
  | M, token :: next :: rest => by
    unfold containerReads getXpathTokensFromContainer
    cases getListModel M next with
    | none => exact Dependence.const rfl
    | some model =>
      cases model with
      | some l => exact (list_dependence schemaXpath l next rest).map [token]
      | none =>
        dsimp only [bind_some]
        cases findChild M.containers next with
        | some m => exact (container_dependence schemaXpath m (next :: rest)).map [token]
        | none =>
          have h := (leaf_dependence schemaXpath M next rest).map [token]
          simp only [Option.map_map] at h
          exact h

theorem answer_spec (c : Call) : (readsValue parts tables c = false → ∀ d : Call,
    d.key = c.key → answer parts tables d = answer parts tables c) ∧
    (readsValue parts tables c = true → ∃ pre token, ∀ d : Call, d.key = c.key →
      answer parts tables d = (d.value parts).map fun v => pre ++ elementToken c.schemaXpath token v) := by
  have hkey : ∀ d : Call, d.key = c.key → d.configdbPath = c.configdbPath ∧ d.schemaXpath = c.schemaXpath := fun d hd =>
    ⟨congrArg Prod.fst hd, congrArg Prod.snd hd⟩
  have hanswer : ∀ d : Call, d.key = c.key → answer parts tables d = if isRoot c.configdbPath then some ['/'] else
      (configdbPathSplit parts c.configdbPath).bind fun tokens =>
        convert tables tokens c.schemaXpath (valueText d.configdb tokens) := fun d hd => by
    obtain ⟨hp, hs⟩ := hkey d hd
    rw [answer, configdbPathToXpath, hp, hs]
    cases isRoot c.configdbPath with
    | true => rfl
    | false =>
      simp only [Dict.get?_nil, Bool.false_eq_true, if_false]
      grind
  unfold readsValue Call.value
  cases hroot : isRoot c.configdbPath with
  | true => simp_all
  | false =>
    cases htokens : configdbPathSplit parts c.configdbPath with
    | none => simp_all
    | some tokens =>
      have hconvert : ∀ d : Call, d.key = c.key → answer parts tables d =
          convert tables tokens c.schemaXpath (valueText d.configdb tokens) := fun d hd => by grind
      have hvalue : ∀ d : Call, d.key = c.key → (configdbPathSplit parts d.configdbPath).bind (valueText d.configdb) =
          valueText d.configdb tokens := fun d hd => by grind
      simp only [Bool.not_false, Bool.true_and, any_some]
      cases htable : tokens.head? with
      | none => exact ⟨fun _ d hd => by grind [convert], fun hr => by simp at hr⟩
      | some table =>
        cases hcmap : tables.get? table with
        | none =>
          have hnone : ∀ v, convert tables tokens c.schemaXpath v = none := fun v => by grind [convert]
          simp_all
        | some cmap =>
          simp only [any_some, hcmap]
          have hdep := container_dependence c.schemaXpath cmap.container tokens
          have hconv : ∀ v, convert tables tokens c.schemaXpath v =
              (getXpathTokensFromContainer c.schemaXpath v cmap.container tokens).map fun xpathTokens =>
                xpathJoin ((cmap.module ++ ':' :: cmap.topLevelContainer) :: xpathTokens) := fun v => by
            grind [convert]
          constructor
          · intro hr d hd
            rw [hconvert d hd, hconvert c rfl, hconv, hconv]
            exact congrArg _ (hdep.1 hr _ _)
          · intro hr
            obtain ⟨pre, token, hf⟩ := hdep.2 hr
            refine ⟨xpathJoin ((cmap.module ++ ':' :: cmap.topLevelContainer) :: pre) ++ ['/'], token, fun d hd => ?_⟩
            rw [hconvert d hd, hconv, show getXpathTokensFromContainer _ _ _ _ = _ from hf _, hvalue d hd,
              Option.map_map]
            refine congrArg (Option.map · _) (funext fun v => ?_)
            simp_all [xpathJoin]

theorem agree_iff (c d : Call) : Agree parts tables c d ↔
    (c.key = d.key → ∀ r, answer parts tables c = some r → answer parts tables d = some r) := by
  obtain ⟨hno, hyes⟩ := @answer_spec parts tables c
  unfold Agree
  by_cases hk : c.key = d.key
  · simp only [hk, true_imp_iff]
    cases hr : readsValue parts tables c with
    | false => simp [hno hr d hk.symm]
    | true =>
      obtain ⟨pre, token, hans⟩ := hyes hr
      rw [hans c rfl, hans d hk.symm]
      simp only [true_imp_iff, map_eq_some_iff, forall_exists_index, and_imp]
      cases hv : c.value parts with
      | none => simp
      | some v =>
        cases hs : c.schemaXpath with
        | true =>
          simp only [ne_eq, reduceCtorEq, not_false_eq_true, true_imp_iff, if_true, Option.some.injEq,
            elementToken_schema]
          simp_all [ne_none_iff_exists']
        | false =>
          simp only [ne_eq, reduceCtorEq, not_false_eq_true, true_imp_iff, Bool.false_eq_true, if_false,
            Option.some.injEq]
          grind [elementToken_injective, append_cancel_left]
  · simp [hk]

def NoRoot (cache : ConfigPathCache) : Prop := ∀ c : Call, isRoot c.configdbPath = true → cache.get? c.key = none

theorem configdbPathToXpath_of_root {cache : ConfigPathCache} {c : Call} (h : isRoot c.configdbPath = true) :
    configdbPathToXpath parts tables cache c = (answer parts tables c, cache) := by grind [answer, configdbPathToXpath]

theorem configdbPathToXpath_of_hit {cache : ConfigPathCache} {c : Call} {r : Str} (h : isRoot c.configdbPath = false)
    (hr : cache.get? c.key = some r) : configdbPathToXpath parts tables cache c = (some r, cache) := by
  rw [configdbPathToXpath, h, hr]
  rfl

theorem configdbPathToXpath_of_miss {cache : ConfigPathCache} {c : Call} (h : isRoot c.configdbPath = false)
    (hn : cache.get? c.key = none) : configdbPathToXpath parts tables cache c =
      (answer parts tables c, match answer parts tables c with
        | some xpath => cache.set c.key xpath
        | none => cache) := by
  rw [answer, configdbPathToXpath, configdbPathToXpath, h, hn]
  simp only [Bool.false_eq_true, if_false, Dict.get?_nil]
  cases (configdbPathSplit parts c.configdbPath).bind fun tokens =>
    convert tables tokens c.schemaXpath (valueText c.configdb tokens) <;> rfl

theorem answers_iff : ∀ {calls : List Call} {cache : ConfigPathCache}, NoRoot cache →
    (answers parts tables cache calls = calls.map (answer parts tables) ↔
      (∀ c ∈ calls, ∀ r, cache.get? c.key = some r → answer parts tables c = some r) ∧
        calls.Pairwise (Agree parts tables))
  | [], _, _ => by simp [answers]
  | c :: calls, cache, hcache => by
    rw [answers, map_cons, pairwise_cons, forall_mem_cons]
    cases hroot : isRoot c.configdbPath with
    | true =>
      -- The answer for the root is always the same.
      have hagree : ∀ d ∈ calls, Agree parts tables c d := fun d _ hk hr => by simp [readsValue, hroot] at hr
      rw [configdbPathToXpath_of_root hroot]
      simp only [List.cons.injEq, true_and]
      rw [answers_iff hcache]
      exact ⟨fun h => ⟨⟨fun r hr => (by rw [hcache c hroot] at hr; cases hr), h.1⟩, hagree, h.2⟩,
        fun h => ⟨h.1.2, h.2.2⟩⟩
    | false =>
      cases hget : cache.get? c.key with
      | some r =>
        rw [configdbPathToXpath_of_hit hroot hget]
        simp only [List.cons.injEq]
        rw [answers_iff hcache]
        -- A call that agrees with the first is answered by the entry too.
        have hagree (d : Call) (hd : answer parts tables c = some r) (hk : c.key = d.key) :
            Agree parts tables c d ↔ answer parts tables d = some r := by
          rw [agree_iff]
          constructor
          · intro h
            exact h hk r hd
          · intro h _ r' hr'
            rw [← Option.some.inj (hd.symm.trans hr')]
            exact h
        constructor
        · rintro ⟨hfirst, hrest, hpair⟩
          refine ⟨⟨fun r' hr' => ?_, hrest⟩, fun d hd => ?_, hpair⟩
          · rw [← Option.some.inj hr', hfirst]
          · by_cases hk : c.key = d.key
            · exact (hagree d hfirst.symm hk).mpr (hrest d hd r (hk ▸ hget))
            · exact fun he => absurd he hk
        · rintro ⟨⟨hfirst, hrest⟩, -, hpair⟩
          exact ⟨(hfirst r rfl).symm, hrest, hpair⟩
      | none =>
        rw [configdbPathToXpath_of_miss hroot hget]
        simp only [List.cons.injEq, true_and]
        cases hans : answer parts tables c with
        | none =>
          rw [answers_iff hcache]
          grind [agree_iff]
        | some x =>
          have hset : NoRoot (cache.set c.key x) := fun d hd => by
            have hne : c.key ≠ d.key := fun he => by
              rw [show c.configdbPath = d.configdbPath from congrArg Prod.fst he, hd] at hroot
              cases hroot
            rw [Dict.get?_set_ne _ hne]
            exact hcache d hd
          rw [answers_iff hset]
          constructor
          · rintro ⟨hrest, hpair⟩
            refine ⟨⟨fun r hr => (by cases hr), fun d hd r hr => hrest d hd r ?_⟩, fun d hd =>
              (agree_iff c d).mpr fun hk r hr => hrest d hd r ?_, hpair⟩
            · have hne : c.key ≠ d.key := fun he => by
                rw [← he, hget] at hr
                cases hr
              rw [Dict.get?_set_ne _ hne]
              exact hr
            · rw [← hk, Dict.get?_set_self, ← hans, hr]
          · rintro ⟨⟨-, hrest⟩, hagree, hpair⟩
            refine ⟨fun d hd r hr => ?_, hpair⟩
            rw [Dict.get?_set] at hr
            split at hr
            · rename_i hk
              exact (agree_iff c d).mp (hagree d hd) hk r (hans.trans hr)
            · exact hrest d hd r hr

/-- One instance answers as fresh ones do, exactly if any two calls agree. -/
theorem path_cache_transparent_iff (parts : Str → Option (List Str)) (tables : ConfDbYangMap) (calls : List Call) :
    answers parts tables [] calls = calls.map (answer parts tables) ↔ calls.Pairwise (Agree parts tables) := by
  rw [answers_iff fun _ _ => rfl]
  simp

end

def vlanMap : ConfDbYangMap :=
  let vlanList := .mk "VLAN_LIST" ["name"]
    [⟨"name", false⟩, ⟨"dhcp_servers", true⟩] [] []
  [("VLAN", ⟨"sonic-vlan", "sonic-vlan", .mk "VLAN" [] [] [vlanList] []⟩)]

def firstServer (server : String) : Call where
  configdbPath := "/VLAN/Vlan100/dhcp_servers/0"
  schemaXpath := false
  configdb := some [("VLAN", .dict [("Vlan100", .dict [("dhcp_servers", .list [server.toList])])])]

/-- The parts of a pointer without escapes. -/
def plainParts (path : Str) : Option (List Str) := some ((split '/' path).drop 1)

theorem firstServer_stale : answers plainParts vlanMap [] [firstServer "192.0.0.1", firstServer "192.0.0.2"] ≠
    [firstServer "192.0.0.1", firstServer "192.0.0.2"].map (answer plainParts vlanMap) := by
  decide +kernel

end Sonic.Yang
