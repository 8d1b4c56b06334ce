import Sonic.AllowListFrame

/-! # The store of FRR, list by list

Each list and each route-map changes by the commands for its name only, and in a configuration that
FRR can hold the lines of one name are those of one item. -/

namespace Sonic.AllowList
open List

open Str

section
variable {β γ : Type*} {seq : Nat} {v : β}

theorem mem_insertSeq {x : Nat × β} : ∀ {l : List (Nat × β)}, x ∈ insertSeq seq v l → x = (seq, v) ∨ x ∈ l
  | [], h => .inl (List.mem_singleton.mp h)
  | (j, w) :: l, h => by
    simp only [insertSeq] at h
    split at h
    · exact List.mem_cons.mp h
    · split at h
      · grind
      · rcases List.mem_cons.mp h with rfl | h
        · simp_all
        · exact (mem_insertSeq h).imp_right (mem_cons_of_mem _)

theorem pairwise_insertSeq : ∀ {l : List (Nat × β)}, l.Pairwise (fun a b => a.1 < b.1) →
    (insertSeq seq v l).Pairwise fun a b => a.1 < b.1
  | [], _ => pairwise_singleton _ _
  | (j, w) :: l, h => by
    obtain ⟨hj, hl⟩ := List.pairwise_cons.mp h
    simp only [insertSeq]
    split
    · grind [pairwise_cons]
    · split
      · grind [pairwise_cons]
      · refine List.pairwise_cons.mpr ⟨fun x hx => ?_, pairwise_insertSeq hl⟩
        rcases mem_insertSeq hx with rfl | hx <;> grind

theorem filterMap_insertSeq {g : Nat × β → Option γ} (hg : ∀ w, g (seq, w) = none) :
    ∀ (l : List (Nat × β)), (insertSeq seq v l).filterMap g = l.filterMap g
  | [] => by simp [insertSeq, hg]
  | (j, w) :: l => by
    simp only [insertSeq]
    split
    · simp_all
    · split
      · grind
      · rw [filterMap_cons, filterMap_cons, filterMap_insertSeq hg l]

theorem insertSeq_last : ∀ {l : List (Nat × β)}, (∀ x ∈ l, x.1 < seq) → insertSeq seq v l = l ++ [(seq, v)]
  | [], _ => rfl
  | (j, w) :: l, h => by
    have hj : j < seq := h _ mem_cons_self
    rw [insertSeq, if_neg (by omega), if_neg (by omega), insertSeq_last fun x hx => h x (mem_cons_of_mem _ hx)]
    rfl

end

/-! ## Commands for one name -/

inductive Target where
  | prefixList (af : Af) (pl : Str)
  | communityList (name : Str)
  | routeMap (name : Str)
  deriving DecidableEq

namespace Target

def name : Target → Str
  | prefixList _ pl => pl
  | communityList name => name
  | routeMap name => name

end Target

namespace Cmd

def target : Cmd → Target
  | noPrefixList af pl | prefixList af pl _ _ => .prefixList af pl
  | noCommunityList name | communityList name _ => .communityList name
  | routeMap name _ _ | noRouteMap name _ => .routeMap name

def onRules (rules : List (Nat × Str)) (c : Cmd) : List (Nat × Str) :=
  match c with
  | noPrefixList _ _ => []
  | prefixList _ _ seq rule => insertSeq seq rule rules
  | _ => rules

def onValues (values : List Str) (c : Cmd) : List Str :=
  match c with
  | noCommunityList _ => []
  | communityList _ value => if value ∈ values then values else values ++ [value]
  | _ => values

def onEntries (entries : List (Nat × Entry)) (c : Cmd) : List (Nat × Entry) :=
  match c with
  | routeMap _ seq clauses =>
    insertSeq seq ⟨true, clauses.foldl Clause.add (((entries.lookup seq).map Entry.clauses).getD [])⟩ entries
  | noRouteMap _ seq => entries.filter fun e => e.1 ≠ seq
  | _ => entries

end Cmd

namespace Frr

def rules (f : Frr) (af : Af) (pl : Str) : List (Nat × Str) := (f.prefixLists.get? (af, pl)).getD []

def values (f : Frr) (name : Str) : List Str := (f.communityLists.get? name).getD []

def entries (f : Frr) (name : Str) : List (Nat × Entry) := (f.routeMaps.get? name).getD []

theorem rules_write (f : Frr) (c : Cmd) (af : Af) (pl : Str) :
    (f.write c).rules af pl = if c.target = .prefixList af pl then c.onRules (f.rules af pl) else f.rules af pl := by
  have hne {af' : Af} {pl' : Str} (h : Target.prefixList af' pl' ≠ .prefixList af pl) : (af', pl') ≠ (af, pl) :=
    fun he => h (by simp_all)
  split
  · rename_i h
    cases c with
    | noPrefixList af' pl' =>
      cases h
      rw [rules, write, Dict.get?_erase_self]
      rfl
    | prefixList af' pl' seq rule =>
      cases h
      rw [rules, write, Dict.get?_set, if_pos rfl]
      rfl
    | _ => cases h
  · rename_i h
    cases c with
    | noPrefixList af' pl' => rw [rules, write, Dict.get?_erase_ne (hne h), rules]
    | prefixList af' pl' seq rule => rw [rules, write, Dict.get?_set_ne _ (hne h), rules]
    | _ => rfl

theorem values_write (f : Frr) (c : Cmd) (name : Str) :
    (f.write c).values name = if c.target = .communityList name then c.onValues (f.values name) else f.values name := by
  have hne {name' : Str} (h : Target.communityList name' ≠ .communityList name) : name' ≠ name := fun he => h (he ▸ rfl)
  split
  · rename_i h
    cases c with
    | noCommunityList name' =>
      cases h
      rw [values, write, Dict.get?_erase_self]
      rfl
    | communityList name' value =>
      cases h
      rw [values, write, Dict.get?_set, if_pos rfl]
      rfl
    | _ => cases h
  · rename_i h
    cases c with
    | noCommunityList name' => rw [values, write, Dict.get?_erase_ne (hne h), values]
    | communityList name' value => rw [values, write, Dict.get?_set_ne _ (hne h), values]
    | _ => rfl

theorem entries_write (f : Frr) (c : Cmd) (name : Str) :
    (f.write c).entries name = if c.target = .routeMap name then c.onEntries (f.entries name) else f.entries name := by
  have hne {name' : Str} (h : Target.routeMap name' ≠ .routeMap name) : name' ≠ name := fun he => h (he ▸ rfl)
  split
  · rename_i h
    cases c with
    | routeMap name' seq clauses =>
      cases h
      rw [entries, write, Dict.get?_set, if_pos rfl]
      rfl
    | noRouteMap name' seq =>
      cases h
      grind [entries, write, Cmd.onEntries]
    | _ => cases h
  · rename_i h
    cases c with
    | routeMap name' seq clauses => rw [entries, write, Dict.get?_set_ne _ (hne h), entries]
    | noRouteMap name' seq =>
      rw [entries, write, entries]
      dsimp only
      split
      · rw [Dict.get?_erase_ne (hne h)]
      · rw [Dict.get?_set_ne _ (hne h)]
    | _ => rfl

theorem rules_foldl (f : Frr) (cs : List Cmd) (af : Af) (pl : Str) : (cs.foldl write f).rules af pl =
    (cs.filter (·.target = .prefixList af pl)).foldl Cmd.onRules (f.rules af pl) :=
  Batch.part_foldl (fun f => f.rules af pl) (fun f c => by simpa using f.rules_write c af pl) cs f

theorem values_foldl (f : Frr) (cs : List Cmd) (name : Str) : (cs.foldl write f).values name =
    (cs.filter (·.target = .communityList name)).foldl Cmd.onValues (f.values name) :=
  Batch.part_foldl (fun f => f.values name) (fun f c => by simpa using f.values_write c name) cs f

theorem entries_foldl (f : Frr) (cs : List Cmd) (name : Str) : (cs.foldl write f).entries name =
    (cs.filter (·.target = .routeMap name)).foldl Cmd.onEntries (f.entries name) :=
  Batch.part_foldl (fun f => f.entries name) (fun f c => by simpa using f.entries_write c name) cs f

/-- Each name is a word and stands for one list, the numbers of a route-map grow, and the rest of the configuration has
no lists. -/
structure Wf (f : Frr) : Prop where
  noPrefixList : ∀ l ∈ f.other, ∀ af : Af, startsWith (af.family ++ " prefix-list ") (lstrip l) = false
  noCommunityList : ∀ l ∈ f.other, startsWith "bgp community-list " (lstrip l) = false
  prefixLists : f.prefixLists.keys.Nodup
  communityLists : f.communityLists.keys.Nodup
  routeMaps : f.routeMaps.keys.Nodup
  prefixListWords : ∀ k ∈ f.prefixLists.keys, IsWord k.2
  communityListWords : ∀ name ∈ f.communityLists.keys, IsWord name
  routeMapWords : ∀ name ∈ f.routeMaps.keys, IsWord name
  sorted : ∀ name, (f.entries name).Pairwise fun a b => a.1 < b.1

theorem wf_write {f : Frr} (hf : f.Wf) {c : Cmd} (hc : IsWord c.target.name) : (f.write c).Wf := by
  have hsorted : ∀ name, ((f.write c).entries name).Pairwise fun a b => a.1 < b.1 := fun name => by
    rw [entries_write]
    split
    · cases c with
      | routeMap name' seq clauses => exact pairwise_insertSeq (hf.sorted name)
      | noRouteMap name' seq => exact (hf.sorted name).filter _
      | _ => exact hf.sorted name
    · exact hf.sorted name
  have hset {α β : Type} [DecidableEq α] {d : Dict α β} {k k' : α} {v : β} {P : α → Prop} (hd : ∀ j ∈ d.keys, P j)
      (hk : P k)
      (h : k' ∈ (d.set k v).keys) : P k' := (Dict.mem_keys_set h).elim (fun he => he ▸ hk) (hd k')
  cases c with
  | noPrefixList af pl =>
    exact { hf with
      prefixLists := Dict.nodup_filter _ hf.prefixLists
      prefixListWords := fun k hk => hf.prefixListWords k (Dict.mem_keys_erase.mp hk).1
      sorted := hsorted }
  | prefixList af pl seq rule =>
    exact { hf with
      prefixLists := Dict.nodup_set _ _ hf.prefixLists
      prefixListWords := fun k hk => hset (P := fun k => IsWord k.2) hf.prefixListWords hc hk
      sorted := hsorted }
  | noCommunityList name =>
    exact { hf with
      communityLists := Dict.nodup_filter _ hf.communityLists
      communityListWords := fun k hk => hf.communityListWords k (Dict.mem_keys_erase.mp hk).1
      sorted := hsorted }
  | communityList name value =>
    exact { hf with
      communityLists := Dict.nodup_set _ _ hf.communityLists
      communityListWords := fun k hk => hset hf.communityListWords hc hk
      sorted := hsorted }
  | routeMap name seq clauses =>
    exact { hf with
      routeMaps := Dict.nodup_set _ _ hf.routeMaps
      routeMapWords := fun k hk => hset hf.routeMapWords hc hk
      sorted := hsorted }
  | noRouteMap name seq =>
    refine { hf with routeMaps := ?_, routeMapWords := ?_, sorted := hsorted }
    · rw [write]
      dsimp only
      split
      · exact Dict.nodup_filter _ hf.routeMaps
      · exact Dict.nodup_set _ _ hf.routeMaps
    · rw [write]
      dsimp only
      split
      · grind [hf.routeMapWords]
      · exact fun k hk => hset hf.routeMapWords hc hk

theorem wf_foldl : ∀ (cs : List Cmd) {f : Frr}, f.Wf → (∀ c ∈ cs, IsWord c.target.name) → (cs.foldl write f).Wf
  | [], _, hf, _ => hf
  | c :: cs, _, hf, h =>
    wf_foldl cs (wf_write hf (h c mem_cons_self)) fun d hd => h d (mem_cons_of_mem _ hd)

end Frr

theorem shown_of_first {l : Str} {c : Char} (hc : c ≠ '!') (h : first l = some c) : shown l = true := by
  rw [shown, Bool.not_eq_true']
  by_contra hs
  obtain ⟨t, ht⟩ := startsWith_iff.mp (by simpa using hs)
  rw [first, ← ht] at h
  grind

theorem filter_getText_sections {p : Str → Bool} {c : Char} (hc : c ≠ '!') (hend : c ≠ 'e')
    (hfirst : ∀ l, p l = true → first l = some c) (f : Frr) :
    (getText f).filter p = f.other.filter p ++ ((f.prefixLists.flatMap Frr.prefixListLines).filter p ++
      ((f.communityLists.flatMap Frr.communityListLines).filter p ++
        (f.routeMaps.flatMap Frr.routeMapLines).filter p)) := by
  have hshown : (fun l => p l && shown l) = p := by
    funext l
    cases hp : p l with
    | false => rfl
    | true => rw [shown_of_first hc (hfirst l hp)]; rfl
  have hpass {l : Str} (h : first l ≠ some c) : [l].filter p = [] :=
    List.filter_eq_nil_iff.mpr fun l' hl hp => h (List.mem_singleton.mp hl ▸ hfirst l' hp)
  have hblank : ["     ".toList].filter p = [] :=
    hpass (by rw [show first "     ".toList = none from by decide]; exact nofun)
  have hlast : ["end".toList].filter p = [] :=
    hpass (by rw [show first "end".toList = some 'e' from by decide]; grind)
  show (f.showRunningConfig.filter shown ++ ["     ".toList]).filter p = _
  rw [filter_append, hblank, append_nil, List.filter_filter, hshown]
  simp only [Frr.showRunningConfig, filter_append, hlast, append_nil]

theorem filter_none {p : Str → Bool} {ls : List Str} (h : ∀ l ∈ ls, p l = true → False) : ls.filter p = [] :=
  List.filter_eq_nil_iff.mpr h

section
variable {f : Frr} (hf : f.Wf)
include hf

theorem filter_prefixListLines {af : Af} {pl : Str} (hpl : IsWord pl) {p : Str → Bool}
    (hp : ∀ l, p l = true → prefixListMatch af pl <+: lstrip l) :
    (getText f).filter p = (Frr.prefixListLines ((af, pl), f.rules af pl)).filter p := by
  have hfirst : ∀ l, p l = true → first l = some 'i' := fun l h => by
    obtain ⟨t, ht⟩ := hp l h
    obtain ⟨s, hs⟩ := prefixListMatch_cons af pl
    rw [first, ← ht, hs]
    rfl
  have hother : f.other.filter p = [] := filter_none fun l hl hm => by
    have hno := hf.noPrefixList l hl af
    rw [startsWith_iff.mpr] at hno
    · cases hno
    · refine List.IsPrefix.trans ?_ (hp l hm) <;> simp_all [prefixListMatch]
  have hsections := Scan.filter_sections Frr.prefixListLines (fun i => decide (i.1 = (af, pl))) (p := p) f.prefixLists
    fun i hi hk l hl => by
      obtain ⟨⟨af', pl'⟩, items⟩ := i
      obtain ⟨r, -, rfl⟩ := List.mem_map.mp hl
      by_contra hm
      have hw : IsWord pl' := hf.prefixListWords (af', pl') (List.mem_map_of_mem hi)
      have hline := hp _ (eq_true_of_ne_false hm)
      have hlstrip : ∀ t, lstrip (af'.family ++ t) = af'.family ++ t := by cases af' <;> exact fun t => rfl
      rw [hlstrip] at hline
      obtain ⟨rfl, rfl⟩ := prefixListMatch_inj hpl.not_blank hw.not_blank hline
      simp at hk
  have hcommunity : (f.communityLists.flatMap Frr.communityListLines).filter p = [] := filter_none fun l hl hm => by
    grind [first_communityListLine]
  have hroute : (f.routeMaps.flatMap Frr.routeMapLines).filter p = [] := filter_none fun l hl hm => by
    obtain ⟨i, -, hl⟩ := List.mem_flatMap.mp hl
    exact (first_routeMapLine hl).1 (hfirst l hm)
  rw [filter_getText_sections (by decide) (by decide) hfirst, hother, hsections, hcommunity, hroute,
    Dict.filter_key hf.prefixLists, Frr.rules]
  cases f.prefixLists.get? (af, pl) <;> simp [Frr.prefixListLines]

theorem filter_communityListLines {name : Str} (hn : IsWord name) {p : Str → Bool}
    (hp : ∀ l, p l = true → communityMatch name <+: lstrip l) :
    (getText f).filter p = (Frr.communityListLines (name, f.values name)).filter p := by
  have hfirst : ∀ l, p l = true → first l = some 'b' := fun l h => by
    obtain ⟨t, ht⟩ := hp l h
    rw [first, ← ht]
    rfl
  have hkind : "bgp community-list ".toList <+: "bgp community-list standard ".toList := by decide +kernel
  have hother : f.other.filter p = [] := filter_none fun l hl hm => by
    have hno := hf.noCommunityList l hl
    rw [startsWith_iff.mpr] at hno
    · cases hno
    · exact (hkind.trans (prefix_append _ _)).trans (hp l hm)
  have hsections := Scan.filter_sections Frr.communityListLines (fun i => decide (i.1 = name)) (p := p) f.communityLists
    fun i hi hk l hl => by
      obtain ⟨name', items⟩ := i
      obtain ⟨v, -, rfl⟩ := List.mem_map.mp hl
      by_contra hm
      have hw : IsWord name' := hf.communityListWords name' (List.mem_map_of_mem hi)
      have hline : communityMatch name <+: "bgp community-list standard ".toList ++
          (name' ++ (" permit ".toList ++ v)) :=
        hp _ (eq_true_of_ne_false hm)
      have he : name = name' := word_inj (a := "bgp community-list standard ".toList) hn.not_blank hw.not_blank hline
      simp [he] at hk
  have hlists : (f.prefixLists.flatMap Frr.prefixListLines).filter p = [] := filter_none fun l hl hm => by
    obtain ⟨i, -, hl⟩ := List.mem_flatMap.mp hl
    have := hfirst l hm
    rw [first_prefixListLine hl] at this
    grind
  have hroute : (f.routeMaps.flatMap Frr.routeMapLines).filter p = [] := filter_none fun l hl hm => by
    obtain ⟨i, -, hl⟩ := List.mem_flatMap.mp hl
    exact (first_routeMapLine hl).2 (hfirst l hm)
  rw [filter_getText_sections (by decide) (by decide) hfirst, hother, hsections, hlists, hroute,
    Dict.filter_key hf.communityLists, Frr.values]
  cases f.communityLists.get? name <;> simp [Frr.communityListLines]

end

end Sonic.AllowList
