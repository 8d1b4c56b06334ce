import Mathlib.Data.List.Nodup
import Mathlib.Data.Tree.Basic
import Mathlib.Tactic.Tauto

/-! # Balanced trees with a hole

A tree whose nodes carry a balance, the height of the right subtree minus that of the left one. A
path from the root is a list of frames, the innermost one first; whether the tree is balanced
depends on what hangs in the hole only through its height. Rotations take the side they work on as a
parameter. -/

namespace Sonic

inductive Dir where
  | left
  | right
  deriving DecidableEq

namespace Dir

def other : Dir → Dir
  | left => right
  | right => left

def weight : Dir → Int
  | left => -1
  | right => 1

@[simp] theorem other_other (d : Dir) : d.other.other = d := by cases d <;> rfl

theorem other_ne (d : Dir) : d.other ≠ d := by cases d <;> nofun

theorem eq_other_of_ne {d e : Dir} (h : d ≠ e) : d = e.other := by
  cases d <;> cases e <;> first | rfl | exact absurd rfl h

@[simp] theorem weight_other (d : Dir) : d.other.weight = -d.weight := by cases d <;> rfl

theorem weight_cases (d : Dir) : d.weight = 1 ∨ d.weight = -1 := by
  cases d
  · exact .inr rfl
  · exact .inl rfl

end Dir

namespace BalancedTree

open BinaryTree

variable {α : Type*}

def join (d : Dir) (a : α) (x y : BinaryTree α) : BinaryTree α :=
  match d with
  | .left => node a x y
  | .right => node a y x

theorem join_other (d : Dir) (a : α) (x y : BinaryTree α) : join d.other a x y = join d a y x := by cases d <;> rfl

theorem exists_join (d : Dir) : ∀ {t : BinaryTree α}, t ≠ nil → ∃ a x y, t = join d a x y
  | nil, h => absurd rfl h
  | node a l r, _ => by
    cases d with
    | left => exact ⟨a, l, r, rfl⟩
    | right => exact ⟨a, r, l, rfl⟩

theorem height_join (d : Dir) (a : α) (x y : BinaryTree α) : (join d a x y).height = max x.height y.height + 1 := by
  cases d with
  | left => rfl
  | right => rw [Nat.max_comm]; rfl

def inorder : BinaryTree α → List α
  | nil => []
  | node a l r => inorder l ++ a :: inorder r

theorem length_inorder : ∀ t : BinaryTree α, (inorder t).length = t.numNodes
  | nil => rfl
  | node a l r => by
    rw [inorder, List.length_append, List.length_cons, length_inorder l, length_inorder r]
    rfl

theorem mem_inorder_join {d : Dir} {a b : α} {x y : BinaryTree α} :
    b ∈ inorder (join d a x y) ↔ b = a ∨ b ∈ inorder x ∨ b ∈ inorder y := by cases d <;> grind [join, inorder]

theorem inorder_single (d : Dir) (a b : α) (x y z : BinaryTree α) :
    inorder (join d b x (join d a y z)) = inorder (join d a (join d b x y) z) := by cases d <;> simp [join, inorder]

theorem inorder_double (d : Dir) (a b c : α) (x p q z : BinaryTree α) :
    inorder (join d c (join d b x p) (join d a q z)) = inorder (join d a (join d b x (join d c p q)) z) := by
  cases d <;> simp [join, inorder]

/-! ## Holes -/

structure Frame (α : Type*) where
  dir : Dir
  value : α
  sibling : BinaryTree α

def plug : List (Frame α) → BinaryTree α → BinaryTree α
  | [], t => t
  | f :: c, t => plug c (join f.dir f.value t f.sibling)

theorem plug_append : ∀ (c c' : List (Frame α)) (t : BinaryTree α), plug (c ++ c') t = plug c' (plug c t)
  | [], _, _ => rfl
  | _ :: c, c', _ => plug_append c c' _

def before : List (Frame α) → List α
  | [] => []
  | f :: c => before c ++ match f.dir with
    | .left => []
    | .right => inorder f.sibling ++ [f.value]

def after : List (Frame α) → List α
  | [] => []
  | f :: c => (match f.dir with
    | .left => f.value :: inorder f.sibling
    | .right => []) ++ after c

theorem inorder_plug : ∀ (c : List (Frame α)) (t : BinaryTree α), inorder (plug c t) = before c ++
    (inorder t ++ after c)
  | [], t => by grind [plug, before, after]
  | ⟨d, a, s⟩ :: c, t => by
    rw [plug, inorder_plug c]
    cases d <;> simp [before, after, join, inorder]

def around : List (Frame α) → List α
  | [] => []
  | f :: c => f.value :: (inorder f.sibling ++ around c)

theorem inorder_join_perm (d : Dir) (a : α) (x y : BinaryTree α) :
    (inorder (join d a x y)).Perm (a :: (inorder x ++ inorder y)) := by
  cases d with
  | left => exact List.perm_middle
  | right => exact List.perm_middle.trans (List.perm_append_comm.cons a)

theorem inorder_plug_perm : ∀ (c : List (Frame α)) (t : BinaryTree α), (inorder (plug c t)).Perm (inorder t ++ around c)
  | [], t => by rw [plug, around, List.append_nil]
  | f :: c, t => by
    have hjoin := (inorder_join_perm f.dir f.value t f.sibling).append_right (around c)
    refine (inorder_plug_perm c _).trans (hjoin.trans ?_)
    rw [around, List.cons_append, List.append_assoc]
    exact List.perm_middle.symm

theorem around_append : ∀ c c' : List (Frame α), around (c ++ c') = around c ++ around c'
  | [], _ => rfl
  | f :: c, c' => by rw [List.cons_append, around, around, around_append, List.cons_append, List.append_assoc]

theorem nodup_join {d : Dir} {a : α} {x y : BinaryTree α} : (inorder (join d a x y)).Nodup ↔
    a ∉ inorder x ∧ a ∉ inorder y ∧ (inorder x).Nodup ∧ (inorder y).Nodup ∧ (inorder x).Disjoint (inorder y) := by
  grind [inorder_join_perm, List.nodup_append']

theorem nodup_single {d : Dir} {a b : α} {x y z : BinaryTree α} (h : (inorder (join d a (join d b x y) z)).Nodup) :
    a ≠ b ∧ (∀ s ∈ [x, y, z], a ∉ inorder s ∧ b ∉ inorder s) := by
  obtain ⟨ha, haz, h, -, hdisj⟩ := nodup_join.mp h
  obtain ⟨hbx, hby, -, -, -⟩ := nodup_join.mp h
  rw [mem_inorder_join, not_or, not_or] at ha
  obtain ⟨hab, hax, hay⟩ := ha
  have hbz : b ∉ inorder z := hdisj (mem_inorder_join.mpr (.inl rfl))
  simp [hab, hax, hay, haz, hbx, hby, hbz]

theorem nodup_double {d : Dir} {a b c : α} {x p q z : BinaryTree α}
    (h : (inorder (join d a (join d b x (join d c p q)) z)).Nodup) :
    a ≠ b ∧ a ≠ c ∧ b ≠ c ∧ (∀ s ∈ [x, p, q, z], a ∉ inorder s ∧ b ∉ inorder s ∧ c ∉ inorder s) := by
  obtain ⟨ha, haz, h, -, hdisj⟩ := nodup_join.mp h
  obtain ⟨hbx, hb, -, h, hdisj'⟩ := nodup_join.mp h
  obtain ⟨hcp, hcq, -, -, -⟩ := nodup_join.mp h
  simp only [mem_inorder_join, not_or] at ha hb
  obtain ⟨hab, hax, hac, hap, haq⟩ := ha
  obtain ⟨hbc, hbp, hbq⟩ := hb
  have hbz : b ∉ inorder z := hdisj (mem_inorder_join.mpr (.inl rfl))
  have hcz : c ∉ inorder z := hdisj (mem_inorder_join.mpr (.inr (.inr (mem_inorder_join.mpr (.inl rfl)))))
  have hcx : c ∉ inorder x := fun hc => hdisj' hc (mem_inorder_join.mpr (.inl rfl))
  grind

/-! ## Balance -/

def Balanced (bal : α → Int) : BinaryTree α → Prop
  | nil => True
  | node a l r => bal a = r.height - l.height ∧ -1 ≤ bal a ∧ bal a ≤ 1 ∧ Balanced bal l ∧ Balanced bal r

theorem balanced_join {bal : α → Int} {d : Dir} {a : α} {x y : BinaryTree α} : Balanced bal (join d a x y) ↔
    bal a = d.weight * (x.height - y.height) ∧ -1 ≤ bal a ∧ bal a ≤ 1 ∧ Balanced bal x ∧ Balanced bal y := by
  cases d with
  | left =>
    rw [join, Balanced, Dir.weight]
    grind
  | right => simp_all [join, Balanced, Dir.weight, and_comm]

theorem Balanced.congr {bal bal' : α → Int} : ∀ {t : BinaryTree α}, Balanced bal t → (∀ a ∈ inorder t, bal' a = bal a) →
    Balanced bal' t
  | nil, _, _ => trivial
  | node a l r, ⟨h, hlo, hhi, hl, hr⟩, he => by
    have ha := he a (List.mem_append_right _ List.mem_cons_self)
    refine ⟨ha.trans h, ha ▸ hlo, ha ▸ hhi, hl.congr fun b hb => he b (List.mem_append_left _ hb),
      hr.congr fun b hb => he b (List.mem_append_right _ (List.mem_cons_of_mem a hb))⟩

theorem Balanced.congr_of_ne {bal bal' : α → Int} {t : BinaryTree α} {a b : α} (h : Balanced bal t)
    (he : ∀ k, k ≠ a → k ≠ b → bal' k = bal k) (hout : a ∉ inorder t ∧ b ∉ inorder t) : Balanced bal' t :=
  h.congr fun k hk => he k (fun ha => hout.1 (ha ▸ hk)) fun hb => hout.2 (hb ▸ hk)

def plugHeight : List (Frame α) → Nat → Nat
  | [], n => n
  | f :: c, n => plugHeight c (max n f.sibling.height + 1)

theorem height_plug : ∀ (c : List (Frame α)) (t : BinaryTree α), (plug c t).height = plugHeight c t.height
  | [], _ => rfl
  | f :: c, t => by rw [plug, height_plug c, height_join, plugHeight]

theorem length_le_plugHeight : ∀ (c : List (Frame α)) (n : Nat), c.length + n ≤ plugHeight c n
  | [], n => Nat.le_of_eq (Nat.zero_add n)
  | f :: c, n => by
    have := length_le_plugHeight c (max n f.sibling.height + 1)
    rw [plugHeight, List.length_cons]
    omega

/-- The frames are balanced around a hole of height `n`. -/
def PathBalanced (bal : α → Int) : List (Frame α) → Nat → Prop
  | [], _ => True
  | f :: c, n => bal f.value = f.dir.weight * (n - f.sibling.height) ∧ -1 ≤ bal f.value ∧ bal f.value ≤ 1 ∧
    Balanced bal f.sibling ∧ PathBalanced bal c (max n f.sibling.height + 1)

theorem balanced_plug {bal : α → Int} : ∀ {c : List (Frame α)} {t : BinaryTree α},
    Balanced bal (plug c t) ↔ Balanced bal t ∧ PathBalanced bal c t.height
  | [], _ => (and_iff_left trivial).symm
  | f :: c, t => by
    rw [plug, balanced_plug, balanced_join, height_join, PathBalanced]
    tauto

theorem pathBalanced_append {bal : α → Int} : ∀ {c c' : List (Frame α)} {n : Nat},
    PathBalanced bal (c ++ c') n ↔ PathBalanced bal c n ∧ PathBalanced bal c' (plugHeight c n)
  | [], _, _ => (and_iff_right trivial).symm
  | f :: c, c', n => by
    rw [List.cons_append, PathBalanced, PathBalanced, pathBalanced_append, plugHeight]
    tauto

theorem PathBalanced.congr {bal bal' : α → Int} : ∀ {c : List (Frame α)} {n : Nat}, PathBalanced bal c n →
    (∀ a ∈ around c, bal' a = bal a) → PathBalanced bal' c n
  | [], _, _, _ => trivial
  | f :: c, n, ⟨h, hlo, hhi, hs, hc⟩, he => by
    obtain ⟨hf, he⟩ := List.forall_mem_cons.mp he
    obtain ⟨hsib, he⟩ := List.forall_mem_append.mp he
    exact ⟨hf.trans h, hf ▸ hlo, hf ▸ hhi, hs.congr hsib, hc.congr he⟩

theorem PathBalanced.grow {bal bal' : α → Int} : ∀ {c : List (Frame α)} {n : Nat}, PathBalanced bal c n →
    (∀ f ∈ c, bal f.value = 0) →
    (∀ f ∈ c, bal' f.value = f.dir.weight ∧ ∀ a ∈ inorder f.sibling, bal' a = bal a) →
    PathBalanced bal' c (n + 1) ∧ plugHeight c (n + 1) = plugHeight c n + 1
  | [], _, _, _, _ => ⟨trivial, rfl⟩
  | f :: c, n, ⟨h, _, _, hs, hc⟩, hzero, he => by
    obtain ⟨hf, hsib⟩ := he f List.mem_cons_self
    have hn : n = f.sibling.height := by
      rw [hzero f List.mem_cons_self] at h
      rcases f.dir.weight_cases with hw | hw <;> rw [hw] at h <;> omega
    have hmax : max (n + 1) f.sibling.height + 1 = (max n f.sibling.height + 1) + 1 := by omega
    obtain ⟨hgrow, hheight⟩ := hc.grow (fun g hg => hzero g (List.mem_cons_of_mem f hg))
      fun g hg => he g (List.mem_cons_of_mem f hg)
    rw [PathBalanced, plugHeight, plugHeight, hmax]
    refine ⟨⟨?_, ?_, ?_, hs.congr hsib, hgrow⟩, hheight⟩
    · rw [hf, hn]
      grind
    · rcases f.dir.weight_cases with hw | hw <;> rw [hf, hw] <;> decide
    · rcases f.dir.weight_cases with hw | hw <;> rw [hf, hw] <;> decide

section
variable {bal bal' : α → Int} {d : Dir} {a b c : α} {x y z p q : BinaryTree α}

theorem Balanced.single (hx : Balanced bal' x) (hy : Balanced bal' y) (hz : Balanced bal' z) (ha : bal' a = 0)
    (hb : bal' b = 0) (hxz : x.height = z.height + 1) (hyz : y.height = z.height) :
    Balanced bal' (join d b x (join d a y z)) ∧ (join d b x (join d a y z)).height = z.height + 2 := by
  have hinner : (join d a y z).height = z.height + 1 := by rw [height_join, hyz, Nat.max_self]
  refine ⟨balanced_join.mpr ⟨?_, by omega, by omega, hx, balanced_join.mpr ⟨?_, by omega, by omega, hy, hz⟩⟩, ?_⟩
  · simp_all
  · rw [ha, hyz, Int.sub_self, Int.mul_zero]
  · grind [height_join]

theorem Balanced.single_even (hx : Balanced bal' x) (hy : Balanced bal' y) (hz : Balanced bal' z)
    (ha : bal' a = d.weight) (hb : bal' b = -d.weight) (hxz : x.height = z.height + 1) (hyz : y.height = z.height + 1) :
    Balanced bal' (join d b x (join d a y z)) ∧ (join d b x (join d a y z)).height = z.height + 3 := by
  have hinner : (join d a y z).height = z.height + 2 := by
    rw [height_join, hyz]
    omega
  have hw := d.weight_cases
  refine ⟨balanced_join.mpr ⟨?_, by omega, by omega, hx, balanced_join.mpr ⟨?_, by omega, by omega, hy, hz⟩⟩, ?_⟩
  · rw [hb, hinner, hxz]
    rcases hw with hw | hw <;> rw [hw] <;> omega
  · rw [ha, hyz]
    rcases hw with hw | hw <;> rw [hw] <;> omega
  · rw [height_join, hinner, hxz]
    omega

theorem Balanced.double (hx : Balanced bal' x) (hpq : Balanced bal (join d c p q)) (hp : Balanced bal' p)
    (hq : Balanced bal' q) (hz : Balanced bal' z) (hxz : x.height = z.height)
    (hc : (join d c p q).height = z.height + 1) (ha : bal' a = if bal c = d.weight then -d.weight else 0)
    (hb : bal' b = if bal c = -d.weight then d.weight else 0) (hc' : bal' c = 0) :
    Balanced bal' (join d c (join d b x p) (join d a q z)) ∧
      (join d c (join d b x p) (join d a q z)).height = z.height + 2 := by
  obtain ⟨hbal, hlo, hhi, _, _⟩ := balanced_join.mp hpq
  rw [height_join] at hc
  have hcases : (bal c = 0 ∧ p.height = z.height ∧ q.height = z.height) ∨
      (bal c = d.weight ∧ p.height = z.height ∧ q.height + 1 = z.height) ∨
      (bal c = -d.weight ∧ p.height + 1 = z.height ∧ q.height = z.height) := by
    have hdiff : p.height ≤ q.height + 1 ∧ q.height ≤ p.height + 1 := by grind [Sonic.Dir.weight_cases]
    have hheights : (p.height = z.height ∧ q.height = z.height) ∨ (p.height = z.height ∧ q.height + 1 = z.height) ∨
        (p.height + 1 = z.height ∧ q.height = z.height) := by omega
    rcases hheights with ⟨hp, hq⟩ | ⟨hp, hq⟩ | ⟨hp, hq⟩
    · simp_all
    · refine .inr (.inl ⟨?_, hp, hq⟩)
      rw [hbal, show (p.height : Int) - q.height = 1 by omega, Int.mul_one]
    · refine .inr (.inr ⟨?_, hp, hq⟩)
      rw [hbal, show (p.height : Int) - q.height = -1 by omega, Int.mul_neg, Int.mul_one]
  have hleft : (join d b x p).height = z.height + 1 := by
    rw [height_join]
    omega
  have hright : (join d a q z).height = z.height + 1 := by
    rw [height_join]
    omega
  refine ⟨balanced_join.mpr ⟨?_, by omega, by omega, balanced_join.mpr ⟨?_, ?_, ?_, hx, hp⟩,
    balanced_join.mpr ⟨?_, ?_, ?_, hq, hz⟩⟩, ?_⟩
  · grind
  · grind
  · grind
  · grind
  · grind
  · grind
  · grind
  · grind [height_join]

end

end BalancedTree

end Sonic
