import Sonic.Avl

/-! # The links as a tree

`Rep` reads the tree off the links; a path from the root is a list of frames, with the link it ends
in. A part of the tree may be replaced where the links around it are kept. -/

namespace Sonic.Avl

open BinaryTree BalancedTree

section
variable {link link' : Links} {a b : Addr} {d e : Dir} {p : Option Nat}

@[simp] theorem Links.set_self : Links.set link a d p a d = p := if_pos ⟨rfl, rfl⟩

theorem Links.set_of_ne (h : b ≠ a) : Links.set link a d p b e = link b e := if_neg fun hb => h hb.1

theorem Links.set_cell_root {i : Nat} : Links.set link (.cell i) d p .root e = link .root e := if_neg nofun

theorem Links.set_of_ne_dir (h : e ≠ d) : Links.set link a d p b e = link b e := if_neg fun hb => h hb.2

theorem Links.set_comm {q : Option Nat} (h : a ≠ b) :
    Links.set (Links.set link a d p) b e q = Links.set (Links.set link b e q) a d p := by grind [Links.set]

/-- The links from `p` on are those of the tree. -/
def Rep (link : Links) : Option Nat → BinaryTree Nat → Prop
  | p, nil => p = none
  | p, node i l r => p = some i ∧ Rep link (link (.cell i) .left) l ∧ Rep link (link (.cell i) .right) r

theorem rep_join {i : Nat} {x y : BinaryTree Nat} : Rep link p (join d i x y) ↔
    p = some i ∧ Rep link (link (.cell i) d) x ∧ Rep link (link (.cell i) d.other) y := by
  cases d with
  | left => exact Iff.rfl
  | right => exact and_congr_right fun _ => and_comm

theorem Rep.congr : ∀ {t : BinaryTree Nat} {p : Option Nat}, Rep link p t →
    (∀ i ∈ inorder t, ∀ d, link' (.cell i) d = link (.cell i) d) → Rep link' p t
  | nil, _, h, _ => h
  | node i l r, p, ⟨hp, hl, hr⟩, he => by
    have hi := he i (List.mem_append_right _ List.mem_cons_self)
    refine ⟨hp, ?_, ?_⟩
    · rw [hi]
      exact hl.congr fun j hj => he j (List.mem_append_left _ hj)
    · rw [hi]
      exact hr.congr fun j hj => he j (List.mem_append_right _ (List.mem_cons_of_mem i hj))

theorem Rep.nil_iff {t : BinaryTree Nat} (h : Rep link p t) : p = none ↔ t = nil := by
  cases t with
  | nil => exact ⟨fun _ => rfl, fun _ => h⟩
  | node i l r =>
    rw [h.1]
    exact ⟨nofun, nofun⟩

theorem Rep.of_some {i : Nat} {t : BinaryTree Nat} (h : Rep link (some i) t) : ∃ l r, t = node i l r := by
  cases t with
  | nil => cases h
  | node j l r =>
    cases h.1
    exact ⟨l, r, rfl⟩

def slot : List (Frame Nat) → Addr × Dir
  | [] => (.root, .left)
  | f :: _ => (.cell f.value, f.dir)

def slots : List (Frame Nat) → List (Addr × Dir)
  | [] => [(.root, .left)]
  | f :: c => (.cell f.value, f.dir) :: slots c

def hole (link : Links) (c : List (Frame Nat)) : Option Nat := link (slot c).1 (slot c).2

theorem head?_slots (c : List (Frame Nat)) : (slots c).head? = some (slot c) := by cases c <;> rfl

def CtxRep (link : Links) : List (Frame Nat) → Prop
  | [] => True
  | f :: c => hole link c = some f.value ∧ Rep link (link (.cell f.value) f.dir.other) f.sibling ∧ CtxRep link c

theorem rep_plug : ∀ {c : List (Frame Nat)} {t : BinaryTree Nat},
    Rep link (link .root .left) (plug c t) ↔ Rep link (hole link c) t ∧ CtxRep link c
  | [], _ => (and_iff_left trivial).symm
  | f :: c, t => by
    rw [plug, rep_plug, rep_join, CtxRep]
    constructor
    · rintro ⟨⟨hp, ht, hs⟩, hc⟩
      exact ⟨ht, hp, hs, hc⟩
    · rintro ⟨ht, hp, hs, hc⟩
      exact ⟨⟨hp, ht, hs⟩, hc⟩

theorem slots_append (c' : List (Frame Nat)) : ∀ c : List (Frame Nat),
    slots (c ++ c') = c.map (fun f => (.cell f.value, f.dir)) ++ slots c'
  | [] => rfl
  | f :: c => congrArg ((Addr.cell f.value, f.dir) :: ·) (slots_append c' c)

theorem CtxRep.append {c' : List (Frame Nat)} : ∀ {c : List (Frame Nat)}, CtxRep link (c ++ c') → CtxRep link c'
  | [], h => h
  | _ :: _, ⟨_, _, h⟩ => h.append

/-! ## Replacing a part -/

def Keeps (link link' : Links) (c : List (Frame Nat)) : Prop :=
  ∀ a d, (a, d) ≠ slot c → (∀ i, a = .cell i → i ∈ around c) → link' a d = link a d

theorem Keeps.refl (link : Links) (c : List (Frame Nat)) : Keeps link link c := fun _ _ _ _ => rfl

theorem Keeps.set_slot {c : List (Frame Nat)} (h : Keeps link link' c) (p : Option Nat) :
    Keeps link (Links.set link' (slot c).1 (slot c).2 p) c := by
  intro a d hne ha
  rw [Links.set, if_neg fun he => hne (Prod.ext he.1 he.2)]
  exact h a d hne ha

theorem Keeps.set_cell {c : List (Frame Nat)} (h : Keeps link link' c) {i : Nat} (hi : i ∉ around c) (d : Dir)
    (p : Option Nat) : Keeps link (Links.set link' (.cell i) d p) c := by
  intro a e hne ha
  rw [Links.set_of_ne fun he => hi (ha i he)]
  exact h a e hne ha

theorem slot_of_not_mem {i : Nat} : ∀ {c : List (Frame Nat)}, i ∉ around c → (slot c).1 ≠ .cell i
  | [], _ => nofun
  | f :: c, h => fun he => by
    cases he
    exact h List.mem_cons_self

theorem CtxRep.keep : ∀ {c : List (Frame Nat)}, CtxRep link c → (around c).Nodup → Keeps link link' c → CtxRep link' c
  | [], _, _, _ => trivial
  | f :: c, ⟨hp, hs, hc⟩, hnd, hk => by
    obtain ⟨hf, hnd⟩ := List.nodup_cons.mp hnd
    have hfc : f.value ∉ around c := fun h => hf (List.mem_append_right _ h)
    have hfs : f.value ∉ inorder f.sibling := fun h => hf (List.mem_append_left _ h)
    refine ⟨?_, ?_, hc.keep (List.nodup_append'.mp hnd).2.1 ?_⟩
    · have hhole : hole link' c = hole link c := by
        refine hk _ _ (fun he => slot_of_not_mem hfc (congrArg Prod.fst he)) fun i hi => ?_
        by_contra hic
        exact slot_of_not_mem (fun h => hic (List.mem_cons_of_mem _ (List.mem_append_right _ h))) hi
      rw [hhole, hp]
    · have hother : link' (.cell f.value) f.dir.other = link (.cell f.value) f.dir.other := by
        refine hk _ _ (fun he => f.dir.other_ne (congrArg Prod.snd he)) fun i hi => ?_
        cases hi
        exact List.mem_cons_self
      rw [hother]
      refine hs.congr fun i hi e => hk _ _ (fun he => ?_) fun j hj => ?_
      · cases congrArg Prod.fst he
        exact hfs hi
      · cases hj
        exact List.mem_cons_of_mem _ (List.mem_append_left _ hi)
    · intro a e hne ha
      refine hk a e (fun he => ?_) fun i hi => List.mem_cons_of_mem _ (List.mem_append_right _ (ha i hi))
      exact hfc (ha f.value (congrArg Prod.fst he))

theorem Rep.replace {c : List (Frame Nat)} {t t' : BinaryTree Nat} (h : Rep link (link .root .left) (plug c t))
    (hnd : (around c).Nodup) (hk : Keeps link link' c) (h' : Rep link' (hole link' c) t') :
    Rep link' (link' .root .left) (plug c t') :=
  rep_plug.mpr ⟨h', (rep_plug.mp h).2.keep hnd hk⟩

theorem Rep.replace_slot {c : List (Frame Nat)} {t t' : BinaryTree Nat} (h : Rep link (link .root .left) (plug c t))
    (hnd : (around c).Nodup) (hk : Keeps link link' c) (h' : Rep link' p t') (hout : ∀ i ∈ inorder t', i ∉ around c) :
    Rep (Links.set link' (slot c).1 (slot c).2 p) (Links.set link' (slot c).1 (slot c).2 p .root .left)
      (plug c t') := by
  refine h.replace hnd (hk.set_slot p) ?_
  rw [hole, Links.set_self]
  exact h'.congr fun i hi e => Links.set_of_ne (slot_of_not_mem (hout i hi)).symm

section
variable {i j k : Nat} {x y z u v : BinaryTree Nat}

def singleLinks (link : Links) (d : Dir) (i j : Nat) : Links :=
  Links.set (Links.set link (.cell i) d (link (.cell j) d.other)) (.cell j) d.other (some i)

theorem Rep.single (h : Rep link p (join d i (join d j x y) z)) (hnd : (inorder (join d i (join d j x y) z)).Nodup) :
    Rep (singleLinks link d i j) (some j) (join d j x (join d i y z)) := by
  obtain ⟨-, h, hz⟩ := rep_join.mp h
  obtain ⟨-, hx, hy⟩ := rep_join.mp h
  obtain ⟨hij, hout⟩ := nodup_single hnd
  -- the rest of the tree keeps its links
  have hkeep : ∀ {s : BinaryTree Nat} {p : Option Nat}, Rep link p s → s ∈ [x, y, z] →
      Rep (singleLinks link d i j) p s := by
    intro s p hs hmem
    refine hs.congr fun k hk e => ?_
    have hki : k ≠ i := fun he => (hout s hmem).1 (he ▸ hk)
    have hkj : k ≠ j := fun he => (hout s hmem).2 (he ▸ hk)
    simp [singleLinks, Links.set, hki, hkj]
  refine rep_join.mpr ⟨rfl, ?_, rep_join.mpr ⟨?_, ?_, ?_⟩⟩
  · simpa [singleLinks, Links.set, Ne.symm hij, d.other_ne.symm] using hkeep hx (by simp)
  · simp [singleLinks, Links.set]
  · simp_all [singleLinks, Links.set]
  · simpa [singleLinks, Links.set, hij, d.other_ne] using hkeep hz (by simp)

def doubleLinks (link : Links) (d : Dir) (i j k : Nat) : Links :=
  let link := Links.set link (.cell j) d.other (link (.cell k) d)
  let link := Links.set link (.cell k) d (some j)
  let link := Links.set link (.cell i) d (link (.cell k) d.other)
  Links.set link (.cell k) d.other (some i)

theorem Rep.double (h : Rep link p (join d i (join d j x (join d k u v)) z))
    (hnd : (inorder (join d i (join d j x (join d k u v)) z)).Nodup) :
    Rep (doubleLinks link d i j k) (some k) (join d k (join d j x u) (join d i v z)) := by
  obtain ⟨-, h, hz⟩ := rep_join.mp h
  obtain ⟨-, hx, h⟩ := rep_join.mp h
  obtain ⟨-, hu, hv⟩ := rep_join.mp h
  obtain ⟨hij, hik, hjk, hout⟩ := nodup_double hnd
  -- the rest of the tree keeps its links
  have hkeep : ∀ {s : BinaryTree Nat} {p : Option Nat}, Rep link p s → s ∈ [x, u, v, z] →
      Rep (doubleLinks link d i j k) p s := by
    intro s p hs hmem
    obtain ⟨his, hjs, hks⟩ := hout s hmem
    refine hs.congr fun m hm e => ?_
    have hmi : m ≠ i := fun he => his (he ▸ hm)
    have hmj : m ≠ j := fun he => hjs (he ▸ hm)
    have hmk : m ≠ k := fun he => hks (he ▸ hm)
    simp [doubleLinks, Links.set, hmi, hmj, hmk]
  refine rep_join.mpr ⟨rfl, rep_join.mpr ⟨?_, ?_, ?_⟩, rep_join.mpr ⟨?_, ?_, ?_⟩⟩
  · simp [doubleLinks, Links.set, Ne.symm hik, d.other_ne.symm]
  · simpa [doubleLinks, Links.set, Ne.symm hij, hjk, d.other_ne.symm] using hkeep hx (by simp)
  · simpa [doubleLinks, Links.set, Ne.symm hij, hjk] using hkeep hu (by simp)
  · simp [doubleLinks, Links.set]
  · simpa [doubleLinks, Links.set, hik, Ne.symm hjk, d.other_ne] using hkeep hv (by simp)
  · simpa [doubleLinks, Links.set, hik, hij, d.other_ne] using hkeep hz (by simp)

end

end

end Sonic.Avl
