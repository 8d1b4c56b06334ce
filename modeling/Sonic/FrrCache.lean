import Mathlib.Data.List.Nodup
import Sonic.Dict
import Sonic.Text

/-! # The row cache of frrcfgd

A row of CONFIG_DB is compared with the attributes that were applied before; each attribute gets the
operation that this calls for. What was carried out is then written back to the cache, attribute by
attribute. -/

namespace Sonic.Frrcfgd
open List Option

variable {data : OpData} {cached : Row} {k : Str}

inductive Op where
  | none
  | add
  | delete
  | update
  deriving DecidableEq

structure CachedDataWithOp where
  data : Str
  op : Op
  succ : Bool
  deriving DecidableEq

def CachedDataWithOp.done (v : CachedDataWithOp) : CachedDataWithOp := { v with succ := true }

abbrev Row := Dict Str Str
abbrev OpData := Dict Str CachedDataWithOp

def opOf (old : Option Str) (v : Str) : CachedDataWithOp :=
  match old with
  | some c => ⟨v, if v = c then .none else .update, false⟩
  | none => ⟨v, .add, false⟩

def addOp (cached data : Row) : OpData :=
  (data.map fun p => (p.1, opOf (cached.get? p.1) p.2)) ++
  cached.filterMap fun p => if (data.get? p.1).isNone then some (p.1, ⟨p.2, .delete, false⟩) else none

def combine (data : OpData) (keySet : List Str) : OpData :=
  if keySet.all fun key => (data.get? key).isSome then
    let ops := keySet.filterMap fun key => (data.get? key).map CachedDataWithOp.op
    let op := if .delete ∈ ops then Op.delete else if .add ∈ ops then .add else if .update ∈ ops then .update else .none
    data.map fun (key, val) => if key ∈ keySet then (key, { val with op := op }) else (key, val)
  else data.filter fun p => p.1 ∉ keySet

def addOpToData (cached data : Row) (combAttrList : List (List Str)) : OpData :=
  combAttrList.foldl combine (addOp cached data)

def allSucc (data : OpData) : OpData := data.map fun p => (p.1, p.2.done)

def markSucc (done : Str → Bool) (data : OpData) : OpData :=
  data.map fun p => (p.1, if done p.1 then p.2.done else p.2)

/-! ## The cache -/

abbrev Cache := Dict (Str × Str) Row

def rowOf (cache : Cache) (table key : Str) : Row := (cache.get? (table, key)).getD []

def updateAttr (cached : Row) (p : Str × CachedDataWithOp) : Row :=
  if p.2.succ then
    match p.2.op with
    | .none => cached
    | .delete => cached.erase p.1
    | .add | .update => cached.set p.1 p.2.data
  else cached

def updateRow (cached : Row) (data : OpData) : Row := data.foldl updateAttr cached

def updateCacheData (cache : Cache) (table key : Str) (data : OpData) : Cache :=
  let row := updateRow (rowOf cache table key) data
  if row = [] then cache.erase (table, key) else cache.set (table, key) row

theorem rowOf_updateCacheData (cache : Cache) (table key : Str) (data : OpData) (table' key' : Str) :
    rowOf (updateCacheData cache table key data) table' key' =
      if (table, key) = (table', key') then updateRow (rowOf cache table key) data else rowOf cache table' key' := by
  grind [updateCacheData, rowOf]

theorem updateRow_of_fail (h : ∀ p ∈ data, p.2.succ = false) (cached : Row) :
    updateRow cached data = cached := by
  unfold updateRow
  induction data <;> simp_all [updateAttr]

theorem get?_updateAttr_ne {p : Str × CachedDataWithOp} (h : p.1 ≠ k) :
    (updateAttr cached p).get? k = cached.get? k := by grind [updateAttr]

theorem get?_updateRow_of_not_mem (h : k ∉ data.keys) (cached : Row) :
    (updateRow cached data).get? k = cached.get? k := by
  unfold updateRow
  induction data generalizing cached with
  | nil => rfl
  | cons p data ih =>
    have hk : p.1 ≠ k := fun he => h (he ▸ mem_cons_self)
    rw [foldl_cons, ih (fun hm => h (mem_cons_of_mem _ hm)), get?_updateAttr_ne hk]

theorem get?_updateRow (hn : data.keys.Nodup) {v : CachedDataWithOp}
    (h : data.get? k = some v) (cached : Row) :
    (updateRow cached data).get? k = (updateAttr cached (k, v)).get? k := by
  induction data generalizing cached with
  | nil => cases h
  | cons p data ih =>
    obtain ⟨j, w⟩ := p
    obtain ⟨hp, hrest⟩ := List.nodup_cons.mp hn
    rw [Dict.get?_cons] at h
    rw [updateRow, foldl_cons]
    split at h
    · rename_i hj
      subst hj
      cases h
      exact get?_updateRow_of_not_mem hp _
    · rename_i hj
      have hlocal : (updateAttr (updateAttr cached (j, w)) (k, v)).get? k = (updateAttr cached (k, v)).get? k := by
        grind [updateAttr]
      exact (ih hrest h _).trans hlocal

theorem nodup_updateRow (h : cached.keys.Nodup) :
    (updateRow cached data).keys.Nodup := by
  unfold updateRow
  induction data generalizing cached with
  | nil => exact h
  | cons p data ih =>
    refine ih ?_
    unfold updateAttr
    split
    · split
      · exact h
      · exact Dict.nodup_filter _ h
      · exact Dict.nodup_set _ _ h
      · exact Dict.nodup_set _ _ h
    · exact h

/-! ## What the operations say -/

theorem keys_addOp (cached data : Row) :
    (addOp cached data).keys = data.keys ++ cached.keys.filter fun k => (data.get? k).isNone := by
  unfold addOp Dict.keys
  rw [map_append, List.map_map, map_filterMap]
  refine congrArg₂ (· ++ ·) rfl ?_
  induction cached with
  | nil => rfl
  | cons p cached ih =>
    rw [filterMap_cons, map_cons, filter_cons]
    by_cases h : (data.get? p.1).isNone <;> simp_all

theorem nodup_addOp {data : Row} (hc : cached.keys.Nodup) (hd : data.keys.Nodup) :
    (addOp cached data).keys.Nodup := by
  rw [keys_addOp]
  grind [isNone_iff_eq_none, Dict.get?_eq_none_iff]

theorem get?_addOp (cached data : Row) (k : Str) : (addOp cached data).get? k =
    match data.get? k with
    | some v => some (opOf (cached.get? k) v)
    | none => (cached.get? k).map fun c => ⟨c, .delete, false⟩ := by
  unfold addOp
  rw [Dict.get?_append, Dict.get?_map fun k v => opOf (cached.get? k) v]
  cases h : data.get? k with
  | some v => rfl
  | none =>
    rw [map_none, none_or, Dict.get?_filterMap (fun p q hq => ?_) (fun v => ?_)]
    · simp only [h, isNone_none, if_true, map_some]
      cases cached.get? k <;> rfl
    · grind
    · simp [h]

theorem addOp_fail (cached data : Row) : ∀ p ∈ addOp cached data, p.2.succ = false := by
  intro p hp
  rcases List.mem_append.mp hp with hp | hp
  · obtain ⟨q, -, rfl⟩ := List.mem_map.mp hp
    dsimp only [opOf]
    split <;> rfl
  · grind

theorem combine_cases (data : OpData) (keySet : List Str) :
    (∃ op : Op, combine data keySet =
        data.map fun p => (p.1, if p.1 ∈ keySet then { p.2 with op := op } else p.2)) ∨
      combine data keySet = data.filter fun p => p.1 ∉ keySet := by
  unfold combine
  split
  · extract_lets ops op
    refine .inl ⟨op, map_congr_left fun p _ => ?_⟩ <;> grind
  · exact .inr rfl

theorem get?_combine {keySet : List Str} (h : k ∉ keySet) (data : OpData) :
    (combine data keySet).get? k = data.get? k := by
  rcases combine_cases data keySet with ⟨op, hc⟩ | hc
  · rw [hc, Dict.get?_map fun key (v : CachedDataWithOp) => if key ∈ keySet then { v with op := op } else v]
    simp only [h, if_false, Option.map_id']
  · rw [hc, Dict.get?_filter_key (q := fun key => decide (key ∉ keySet)) (decide_eq_true h)]

theorem nodup_combine (h : data.keys.Nodup) (keySet : List Str) : (combine data keySet).keys.Nodup := by
  grind [combine_cases, Dict.keys]

theorem combine_fail (h : ∀ p ∈ data, p.2.succ = false) (keySet : List Str) :
    ∀ p ∈ combine data keySet, p.2.succ = false := by grind [combine_cases]

theorem get?_addOpToData {combAttrList : List (List Str)} (h : ∀ l ∈ combAttrList, k ∉ l)
    (cached data : Row) :
    (addOpToData cached data combAttrList).get? k = (addOp cached data).get? k := by
  unfold addOpToData
  generalize addOp cached data = d
  induction combAttrList generalizing d <;> simp_all [get?_combine]

theorem nodup_addOpToData {data : Row} (hc : cached.keys.Nodup) (hd : data.keys.Nodup)
    (combAttrList : List (List Str)) : (addOpToData cached data combAttrList).keys.Nodup := by
  unfold addOpToData
  have hn := nodup_addOp hc hd
  revert hn
  generalize addOp cached data = d
  intro hn
  induction combAttrList generalizing d <;> simp_all [nodup_combine]

theorem addOpToData_fail (cached data : Row) (combAttrList : List (List Str)) :
    ∀ p ∈ addOpToData cached data combAttrList, p.2.succ = false := by
  unfold addOpToData
  have hf := addOp_fail cached data
  revert hf
  generalize addOp cached data = d
  intro hf
  induction combAttrList generalizing d with
  | nil => exact hf
  | cons l ls ih => exact ih _ (combine_fail hf l)

theorem get?_updateRow_markSucc {data : Row} (hc : cached.keys.Nodup) (hd : data.keys.Nodup) (done : Str → Bool) (hk : done k = true) : (updateRow cached (markSucc done (addOp cached data))).get? k = data.get? k := by
  have hkeys : (markSucc done (addOp cached data)).keys = (addOp cached data).keys := by
    simp_all [markSucc, Dict.keys]
  have hget : (markSucc done (addOp cached data)).get? k =
      ((addOp cached data).get? k).map CachedDataWithOp.done := by
    rw [markSucc, Dict.get?_map (fun k (v : CachedDataWithOp) => if done k then v.done else v) k]
    simp only [hk, if_true]
  rw [get?_addOp] at hget
  cases hdk : data.get? k with
  | some v =>
    rw [hdk] at hget
    rw [get?_updateRow (hkeys ▸ nodup_addOp hc hd) hget]
    cases hck : cached.get? k with
    | none => exact (Dict.get?_set _ _ _ _).trans (if_pos rfl)
    | some c =>
      by_cases hv : v = c
      · subst hv
        simp only [updateAttr, opOf, if_true]
        exact hck
      · simp only [updateAttr, opOf, if_neg hv]
        exact (Dict.get?_set _ _ _ _).trans (if_pos rfl)
  | none =>
    rw [hdk] at hget
    cases hck : cached.get? k with
    | none => grind [get?_updateRow_of_not_mem, Dict.get?_eq_none_iff]
    | some c =>
      rw [hck] at hget
      rw [get?_updateRow (hkeys ▸ nodup_addOp hc hd) hget]
      exact Dict.get?_erase_self _ _

theorem get?_updateRow_allSucc {data : Row} (hc : cached.keys.Nodup) (hd : data.keys.Nodup) (k : Str) :
    (updateRow cached (allSucc (addOp cached data))).get? k = data.get? k :=
  get?_updateRow_markSucc hc hd (fun _ => true) rfl

end Sonic.Frrcfgd
