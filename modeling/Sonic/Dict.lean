import Mathlib.Data.List.Basic

/-! # Dictionaries in insertion order

A dictionary is the list of its items. Setting a key that is present keeps its place, a new key goes
to the end, and `merge` puts the items of another dictionary over those of the first. -/

namespace Sonic
open List

abbrev Dict (α β : Type*) := List (α × β)

namespace Dict

section
variable {α β : Type*} [DecidableEq α]

def get? (d : Dict α β) (k : α) : Option β := d.lookup k

def set : Dict α β → α → β → Dict α β
  | [], k, v => [(k, v)]
  | (k', v') :: d, k, v => if k' = k then (k, v) :: d else (k', v') :: set d k v

def erase (d : Dict α β) (k : α) : Dict α β := d.filter fun p => p.1 ≠ k

def merge (d d' : Dict α β) : Dict α β := d'.foldr (fun p d => d.set p.1 p.2) d

def keys (d : Dict α β) : List α := d.map Prod.fst

@[simp, grind =] theorem get?_nil (k : α) : get? ([] : Dict α β) k = none := rfl

@[grind =]
theorem get?_cons (k' : α) (v : β) (d : Dict α β) (k : α) :
    get? ((k', v) :: d) k = if k' = k then some v else get? d k := by
  simp only [get?, lookup_cons]
  by_cases h : k = k'
  · subst h; simp
  · grind

@[grind =]
theorem get?_set (k : α) (v : β) (k' : α) :
    ∀ d : Dict α β, get? (set d k v) k' = if k = k' then some v else get? d k'
  | [] => by simp [set, get?_cons]
  | (j, w) :: d => by
    have ih := get?_set k v k' d
    grind [set]

@[simp] theorem get?_set_self (d : Dict α β) (k : α) (v : β) : get? (set d k v) k = some v := by grind

theorem set_eq_self {k : α} {v : β} : ∀ {d : Dict α β}, get? d k = some v → set d k v = d
  | [], h => by cases h
  | (k', v') :: d, h => by
    rw [get?_cons] at h
    rw [set]
    split
    · grind
    · rename_i hk
      rw [if_neg hk] at h
      rw [set_eq_self h]

theorem set_set (k : α) (v w : β) : ∀ d : Dict α β, set (set d k v) k w = set d k w
  | [] => if_pos rfl
  | (k', v') :: d => by
    simp only [set]
    by_cases h : k' = k
    · rw [if_pos h, if_pos h]
      exact if_pos rfl
    · rw [if_neg h, if_neg h]
      exact (if_neg h).trans (by rw [set_set k v w d])

theorem get?_set_ne (d : Dict α β) {k k' : α} (h : k ≠ k') (v : β) : get? (set d k v) k' = get? d k' := by grind

theorem set_ne_nil (k : α) (v : β) : ∀ d : Dict α β, set d k v ≠ []
  | [] => by simp [set]
  | (j, w) :: d => by simp only [set]; split <;> simp

theorem mem_set {k : α} {v : β} {p : α × β} : ∀ {d : Dict α β}, p ∈ set d k v → p ∈ d ∨ p = (k, v)
  | [], h => by simpa [set] using h
  | (j, w) :: d, h => by
    simp only [set] at h
    split at h
    · grind
    · rcases List.mem_cons.mp h with h | h
      · simp_all
      · exact (mem_set h).imp (mem_cons_of_mem _) id

theorem get?_merge (k : α) (d : Dict α β) : ∀ d' : Dict α β, get? (merge d d') k = (get? d' k).or (get? d k)
  | [] => rfl
  | (j, w) :: d' => by
    have ih := get?_merge k d d'
    grind [merge]

theorem get?_filterMap {γ : Type*} {f : α × β → Option (α × γ)} (hf : ∀ p q, f p = some q → q.1 = p.1) {k : α}
    (hk : ∀ v, (f (k, v)).isSome) :
    ∀ d : Dict α β, get? (d.filterMap f) k = (get? d k).bind fun v => (f (k, v)).map Prod.snd
  | [] => rfl
  | (j, w) :: d => by
    have ih := get?_filterMap hf hk d
    grind

theorem get?_filter_key {q : α → Bool} {k : α} (hk : q k = true) (d : Dict α β) :
    get? (d.filter fun p => q p.1) k = get? d k := by
  rw [← filterMap_eq_filter, get?_filterMap (by simp [Option.guard]) (by simp [Option.guard, hk])]
  simp_all

theorem get?_eq_some_mem {d : Dict α β} {k : α} {v : β} (h : get? d k = some v) : (k, v) ∈ d := by
  induction d <;> grind

theorem get?_of_nodup {d : Dict α β} (hn : d.keys.Nodup) {k : α} {v : β} (h : (k, v) ∈ d) : get? d k = some v := by
  induction d with
  | nil => cases h
  | cons p d ih =>
    obtain ⟨j, w⟩ := p
    have hn' := List.nodup_cons.mp hn
    rw [get?_cons]
    rcases List.mem_cons.mp h with he | hm
    · cases he; simp
    · have hj : j ≠ k := fun e => hn'.1 (e ▸ List.mem_map.mpr ⟨_, hm, rfl⟩)
      rw [if_neg hj]; exact ih hn'.2 hm

@[grind =]
theorem get?_erase (d : Dict α β) (k k' : α) : get? (erase d k) k' = if k = k' then none else get? d k' := by
  induction d <;> grind [erase]

theorem get?_erase_self (d : Dict α β) (k : α) : get? (erase d k) k = none := by grind

theorem get?_erase_ne {k k' : α} (h : k ≠ k') (d : Dict α β) : get? (erase d k) k' = get? d k' := by grind

theorem get?_of_erase {k k' : α} {v : β} {d : Dict α β} (h : get? (erase d k) k' = some v) : get? d k' = some v := by
  grind

theorem filter_set {q : α → Bool} {k : α} (hk : q k = false) (v : β) :
    ∀ d : Dict α β, (set d k v).filter (fun p => q p.1) = d.filter fun p => q p.1
  | [] => by simp [set, hk]
  | (j, w) :: d => by
    simp only [set]
    by_cases h : j = k
    · grind
    · rw [if_neg h, filter_cons, filter_cons, filter_set hk v d]

theorem filter_set_of_pos {q : α → Bool} {k : α} (hk : q k = true) (v : β) :
    ∀ d : Dict α β, (set d k v).filter (fun p => q p.1) = set (d.filter fun p => q p.1) k v
  | [] => by simp [set, hk]
  | (j, w) :: d => by
    simp only [set]
    by_cases h : j = k
    · rw [if_pos h, h, filter_cons_of_pos (by exact hk), filter_cons_of_pos (by exact hk)]
      exact (if_pos rfl).symm
    · rw [if_neg h, filter_cons, filter_cons, filter_set_of_pos hk v d]
      split
      · exact (if_neg h).symm
      · rfl

theorem filter_erase {q : α → Bool} {k : α} (hk : q k = false) (d : Dict α β) :
    (erase d k).filter (fun p => q p.1) = d.filter fun p => q p.1 := by
  rw [erase, List.filter_filter]
  refine filter_congr fun p _ => ?_
  by_cases h : p.1 = k
  · simp [h, hk]
  · simp [h]

theorem mem_keys_of_get? {d : Dict α β} {k : α} {v : β} (h : get? d k = some v) : k ∈ d.keys :=
  List.mem_map.mpr ⟨_, get?_eq_some_mem h, rfl⟩

theorem get?_eq_none_iff {d : Dict α β} {k : α} : get? d k = none ↔ k ∉ d.keys := by
  constructor
  · intro h hk
    obtain ⟨⟨j, v⟩, hv, rfl⟩ := List.mem_map.mp hk
    induction d with
    | nil => cases hv
    | cons p d ih =>
      rw [get?_cons] at h
      split at h
      · cases h
      · rename_i hj
        rcases List.mem_cons.mp hv with rfl | hv
        · exact hj rfl
        · exact ih hv h (List.mem_map.mpr ⟨_, hv, rfl⟩)
  · intro h
    cases hg : get? d k <;> simp_all [mem_keys_of_get?]

theorem eq_nil_of_get? {d : Dict α β} (h : ∀ k, get? d k = none) : d = [] := by
  cases d with
  | nil => rfl
  | cons p d =>
    have hp := h p.1
    grind

theorem mem_iff_get? {d : Dict α β} (hn : d.keys.Nodup) {k : α} {v : β} : (k, v) ∈ d ↔ get? d k = some v :=
  ⟨get?_of_nodup hn, get?_eq_some_mem⟩

theorem get?_perm {d d' : Dict α β} (hn : d.keys.Nodup) (hp : d.Perm d') (k : α) : get? d k = get? d' k := by
  have hn' : d'.keys.Nodup := (hp.map Prod.fst).nodup_iff.mp hn
  refine Option.ext fun v => ?_
  rw [← mem_iff_get? hn, ← mem_iff_get? hn', hp.mem_iff]

theorem mem_keys_set {d : Dict α β} {k k' : α} {v : β} (h : k' ∈ (set d k v).keys) : k' = k ∨ k' ∈ d.keys := by
  obtain ⟨p, hp, rfl⟩ := List.mem_map.mp h
  rcases mem_set hp with hp | rfl
  · exact .inr (List.mem_map.mpr ⟨p, hp, rfl⟩)
  · exact .inl rfl

theorem nodup_set (k : α) (v : β) : ∀ {d : Dict α β}, d.keys.Nodup → (set d k v).keys.Nodup
  | [], _ => by simp [set, keys]
  | (j, w) :: d, h => by
    obtain ⟨hj, hd⟩ := List.nodup_cons.mp h
    simp only [set]
    split
    · rename_i he
      exact List.nodup_cons.mpr ⟨he ▸ hj, hd⟩
    · rename_i he
      refine List.nodup_cons.mpr ⟨fun hm => ?_, nodup_set k v hd⟩
      rcases mem_keys_set hm with hm | hm
      · exact he hm
      · exact hj hm

omit [DecidableEq α] in
theorem nodup_filter {d : Dict α β} (q : α × β → Bool) (h : d.keys.Nodup) : (keys (d.filter q)).Nodup :=
  (List.filter_sublist.map Prod.fst).nodup h

theorem filter_key {k : α} : ∀ {d : Dict α β}, d.keys.Nodup →
    d.filter (fun p => p.1 = k) = ((get? d k).map ((k, ·))).toList
  | [], _ => rfl
  | (j, w) :: d, h => by
    obtain ⟨hj, hd⟩ := List.nodup_cons.mp (show (j :: keys d).Nodup from h)
    rw [filter_cons, get?_cons, filter_key hd]
    grind [get?_eq_none_iff]

theorem get?_filterMap_of_nodup {γ : Type*} {f : α × β → Option (α × γ)} (hf : ∀ p q, f p = some q → q.1 = p.1)
    {k : α} :
    ∀ {d : Dict α β}, d.keys.Nodup →
      get? (d.filterMap f) k = (get? d k).bind fun v => (f (k, v)).map Prod.snd
  | [], _ => rfl
  | (j, w) :: d, hn => by
    obtain ⟨hj, hd⟩ := List.nodup_cons.mp hn
    have ih := get?_filterMap_of_nodup hf (k := k) hd
    rw [get?_cons]
    cases hq : f (j, w) with
    | none =>
      rw [filterMap_cons_none hq, ih]
      split
      · rename_i he
        subst he
        rw [get?_eq_none_iff.mpr hj]
        simp [hq]
      · rfl
    | some q => grind

theorem get?_append (d d' : Dict α β) (k : α) : get? (d ++ d') k = (get? d k).or (get? d' k) := lookup_append

theorem get?_map {γ : Type*} (f : α → β → γ) (k : α) :
    ∀ d : Dict α β, get? (d.map fun p => (p.1, f p.1 p.2)) k = (get? d k).map (f k)
  | [] => rfl
  | (j, w) :: d => by
    rw [map_cons, get?_cons, get?_cons, get?_map f k d]
    grind

/-! ## Items set one after the other -/

def update (d : Dict α β) (ws : List (α × β)) : Dict α β := ws.foldl (fun d p => d.set p.1 p.2) d

theorem get?_update_of_not_mem {k : α} : ∀ {ws : List (α × β)} (d : Dict α β), k ∉ ws.map Prod.fst →
    get? (update d ws) k = get? d k
  | [], _, _ => rfl
  | p :: ws, d, h => by
    simp only [map_cons, mem_cons, not_or] at h
    rw [update, foldl_cons]
    exact (get?_update_of_not_mem _ h.2).trans (get?_set_ne d (Ne.symm h.1) _)

theorem get?_update_of_mem {k : α} {v : β} : ∀ {ws : List (α × β)} (d : Dict α β), (ws.map Prod.fst).Nodup →
    (k, v) ∈ ws → get? (update d ws) k = some v
  | p :: ws, d, hn, h => by
    obtain ⟨hp, hn⟩ := List.nodup_cons.mp hn
    rw [update, foldl_cons]
    rcases List.mem_cons.mp h with rfl | h
    · exact (get?_update_of_not_mem _ hp).trans (get?_set_self d _ _)
    · exact get?_update_of_mem _ hn h

theorem get?_update_cases {k : α} {v : β} : ∀ {ws : List (α × β)} {d : Dict α β}, get? (update d ws) k = some v →
    get? d k = some v ∨ (k, v) ∈ ws
  | [], _, h => .inl h
  | p :: ws, d, h => by
    rw [update, foldl_cons] at h
    rcases get?_update_cases h with h | h <;> grind

theorem update_append (d : Dict α β) (ws ws' : List (α × β)) : update d (ws ++ ws') = update (update d ws) ws' :=
  foldl_append

theorem nodup_update : ∀ (ws : List (α × β)) {d : Dict α β}, d.keys.Nodup → (update d ws).keys.Nodup
  | [], _, h => h
  | p :: ws, _, h => nodup_update ws (nodup_set p.1 p.2 h)

theorem get?_update_concat (d : Dict α β) (ws : List (α × β)) (k : α) (v : β) (k' : α) :
    get? (update d (ws ++ [(k, v)])) k' = if k = k' then some v else get? (update d ws) k' := by
  rw [update_append]
  exact get?_set k v k' _

theorem get?_update_option (d : Dict α β) (ws : List (α × β)) (k : α) (o : Option β) (k' : α) :
    get? (update d (ws ++ (o.map ((k, ·))).toList)) k' =
      if k = k' then o.or (get? (update d ws) k') else get? (update d ws) k' := by
  cases o <;> simp_all [get?_update_concat]

theorem mem_erase {d : Dict α β} {k : α} {p : α × β} : p ∈ erase d k ↔ p ∈ d ∧ p.1 ≠ k := by simp [erase]

@[grind =]
theorem mem_keys_erase {d : Dict α β} {k k' : α} : k' ∈ (erase d k).keys ↔ k' ∈ d.keys ∧ k' ≠ k := by
  constructor
  · intro h
    obtain ⟨p, hp, rfl⟩ := List.mem_map.mp h
    exact ⟨List.mem_map.mpr ⟨p, (mem_erase.mp hp).1, rfl⟩, (mem_erase.mp hp).2⟩
  · rintro ⟨h, hne⟩
    obtain ⟨p, hp, rfl⟩ := List.mem_map.mp h
    exact List.mem_map.mpr ⟨p, mem_erase.mpr ⟨hp, hne⟩, rfl⟩

@[grind =]
theorem mem_keys_set_iff {d : Dict α β} {k k' : α} {v : β} : k' ∈ (set d k v).keys ↔ k' = k ∨ k' ∈ d.keys := by
  refine ⟨mem_keys_set, fun h => ?_⟩
  by_contra hn
  rw [← get?_eq_none_iff, get?_set] at hn
  grind [get?_eq_none_iff]

theorem mem_keys_update {k : α} : ∀ {ws : List (α × β)} {d : Dict α β}, k ∈ (update d ws).keys ↔
    k ∈ d.keys ∨ k ∈ keys ws
  | [], d => by simp [update, keys]
  | w :: ws, d => by
    rw [update, foldl_cons, ← update, mem_keys_update, mem_keys_set_iff]
    grind [keys]

theorem set_of_not_mem {k : α} {v : β} : ∀ {d : Dict α β}, k ∉ d.keys → set d k v = d ++ [(k, v)]
  | [], _ => rfl
  | (j, w) :: d, h => by
    rw [keys, map_cons, mem_cons, not_or] at h
    rw [set, if_neg (Ne.symm h.1), set_of_not_mem h.2, cons_append]

theorem update_of_nodup : ∀ {ws d : Dict α β}, (d ++ ws).keys.Nodup → update d ws = d ++ ws
  | [], d, _ => (append_nil d).symm
  | w :: ws, d, h => by
    have hnew : w.1 ∉ d.keys := fun hm => by grind [keys]
    rw [update, foldl_cons, ← update, set_of_not_mem hnew, update_of_nodup (by simpa using h), append_assoc]
    rfl

theorem update_nil_of_nodup {ws : Dict α β} (h : ws.keys.Nodup) : update [] ws = ws := update_of_nodup h

theorem countP_set (q : β → Bool) (k : α) (v : β) : ∀ {d : Dict α β}, d.keys.Nodup →
    ((set d k v).countP (q ·.2) : Int) =
      d.countP (q ·.2) + (if q v then 1 else 0) - (if (get? d k).any q then 1 else 0)
  | [], _ => by cases hv : q v <;> simp [set, hv]
  | (j, w) :: d, hn => by
    obtain ⟨hj, hd⟩ := List.nodup_cons.mp hn
    have ih := countP_set q k v hd
    rw [set, get?_cons]
    grind

theorem countP_erase (q : β → Bool) (k : α) : ∀ {d : Dict α β}, d.keys.Nodup →
    ((erase d k).countP (q ·.2) : Int) = d.countP (q ·.2) - (if (get? d k).any q then 1 else 0)
  | [], _ => by simp [erase]
  | (j, w) :: d, hn => by
    obtain ⟨hj, hd⟩ := List.nodup_cons.mp hn
    have ih := countP_erase q k hd
    rw [get?_cons]
    grind [get?, get?_eq_none_iff, erase]

end

end Dict

end Sonic
