import Sonic.AvlRotate
import Sonic.AvlSearch

/-! # Deletion

The node of the item is unlinked: its left subtree takes its place, or the first node of its right
subtree does. From where the tree has become lower the balances are repaired upwards, until the
height has not changed. -/

namespace Sonic.Avl

open BinaryTree BalancedTree

section
variable {α : Type*} {compare : α → α → Int} {t t' : AvlTree α} {c : List (Frame Nat)} {d : Dir} {i m : Nat} {x : α}
variable {cur s : BinaryTree Nat}

theorem restored_setBalance {b : Int} (hrep : Rep t.link (t.link .root .left) (plug c (join d i cur s)))
    (hnd : (inorder (plug c (join d i cur s))).Nodup) (hcur : Balanced t.balance cur) (hs : Balanced t.balance s)
    (hb : b = d.weight * (cur.height - s.height)) (hlo : -1 ≤ b) (hhi : b ≤ 1) :
    Restored t (t.setBalance i b) c (join d i cur s) (max cur.height s.height + 1) := by
  obtain ⟨hicur, his, -, -, -⟩ := nodup_join.mp (around_nodup hnd).1
  have hkeep : ∀ {l : List Nat}, i ∉ l → ∀ k ∈ l, Function.update t.balance i b k = t.balance k :=
    fun hl k hk => Function.update_of_ne (show k ≠ i from fun he => hl (he ▸ hk)) _ _
  have hself : (t.setBalance i b).balance i = b := Function.update_self ..
  refine ⟨_, Reshaped.of_balance hrep fun k hk => ?_, balanced_join.mpr ⟨hself.trans hb, ?_, ?_, ?_, ?_⟩,
    height_join ..⟩
  · grind [mem_inorder_join]
  · grind
  · grind
  · exact hcur.congr (hkeep hicur)
  · exact hs.congr (hkeep his)

theorem removeAndBalance_spec {f : Frame Nat} (hrep : Rep t.link (t.link .root .left) (plug (f :: c) cur))
    (hnd : (inorder (plug (f :: c) cur)).Nodup) (hcur : Balanced t.balance cur)
    (hb : t.balance f.value = f.dir.weight * ((cur.height + 1 : Nat) - f.sibling.height)) (hlo : -1 ≤ t.balance f.value)
    (hhi : t.balance f.value ≤ 1) (hs : Balanced t.balance f.sibling) :
    ∃ tempNode done t₁ n, removeAndBalance t f.value f.dir = some (tempNode, done, t₁) ∧
      Restored t (tempNode.elim t₁ fun top => t₁.setLink (slot c).1 (slot c).2 (some top)) c
        (join f.dir f.value cur f.sibling) n ∧
      (if done then n else n + 1) = max (cur.height + 1) f.sibling.height + 1 := by
  have hw := f.dir.weight_cases
  rw [removeAndBalance]
  by_cases hlean : t.balance f.value = f.dir.weight
  · have hh : cur.height = f.sibling.height := by grind
    rw [if_pos hlean]
    refine ⟨none, false, _, _, rfl, restored_setBalance hrep hnd hcur hs ?_ (by decide) (by decide), ?_⟩
    · rw [hh, Int.sub_self, Int.mul_zero]
    · rw [hh, if_neg Bool.false_ne_true]
      omega
  · rw [if_neg hlean]
    by_cases heven : t.balance f.value = 0
    · have hh : f.sibling.height = cur.height + 1 := by grind
      rw [if_pos heven, Dir.weight_other]
      refine ⟨none, true, _, _, rfl, restored_setBalance hrep hnd hcur hs ?_ ?_ ?_, ?_⟩ <;> grind
    · -- the other side is deeper by two
      rw [if_neg heven]
      have haway : t.balance f.value = -f.dir.weight := by omega
      have hh : f.sibling.height = cur.height + 2 := by grind
      obtain ⟨j, u, v, hsib⟩ := exists_join f.dir.other (t := f.sibling) fun he => by simp_all
      rw [plug, ← join_other, hsib] at hrep hnd
      rw [hsib] at hs hh ⊢
      rw [← join_other]
      have hlink : t.link (.cell f.value) f.dir.other = some j :=
        (rep_join.mp (rep_join.mp (rep_plug.mp hrep).1).2.1).1
      obtain ⟨hbj, hjlo, hjhi, -, -⟩ := balanced_join.mp hs
      simp only [hlink]
      rw [Dir.weight_other] at hbj ⊢
      by_cases hj0 : t.balance j = 0
      · rw [if_pos hj0]
        refine ⟨some j, true, _, cur.height + 3, rfl, single_even_restores hrep hnd hs hcur ?_ hj0 hh ?_ ?_ rfl, ?_⟩
        · rw [haway, Dir.weight_other]
        · rw [singleLinks, Dir.other_other]
          rfl
        · rw [Dir.weight_other, Int.neg_neg]
          rfl
        · grind
      · rw [if_neg hj0]
        by_cases hjw : t.balance j = -f.dir.weight
        · rw [if_pos hjw]
          rw [← Dir.weight_other] at hjw
          refine ⟨some j, false, _, cur.height + 2, rfl, swapNodes_restores hrep hnd hs hcur hjw hh, ?_⟩
          grind
        · rw [if_neg hjw]
          have hjw' : t.balance j = -f.dir.other.weight := by
            rw [Dir.weight_other]
            omega
          obtain ⟨k, t₁, hrot, -, hrestored⟩ := rotateNodes_restores hrep hnd hs hcur hjw' hh
          refine ⟨some k, false, t₁, cur.height + 2, ?_, hrestored, ?_⟩
          · grind
          · grind

theorem rebalance_cons {f : Frame Nat} {tempNode : Option Nat} {done : Bool} {t₁ : AvlTree α}
    (h : removeAndBalance t f.value f.dir = some (tempNode, done, t₁)) : rebalance (slots (f :: c)) t =
      if done then some (tempNode.elim t₁ fun top => t₁.setLink (slot c).1 (slot c).2 (some top))
      else rebalance (slots c) (tempNode.elim t₁ fun top => t₁.setLink (slot c).1 (slot c).2 (some top)) := by
  cases c with
  | nil =>
    change (removeAndBalance t f.value f.dir).bind _ = _
    rw [h]
    rfl
  | cons g c =>
    change (removeAndBalance t f.value f.dir).bind _ = _
    rw [h]
    rfl

theorem rebalance_spec : ∀ {c : List (Frame Nat)} {cur : BinaryTree Nat} {t : AvlTree α},
    Rep t.link (t.link .root .left) (plug c cur) → (inorder (plug c cur)).Nodup → Balanced t.balance cur →
    PathBalanced t.balance c (cur.height + 1) →
    ∃ t' T', rebalance (slots c) t = some t' ∧ Reshaped t t' [] (plug c cur) T' ∧ Balanced t'.balance T'
  | [], cur, t, hrep, _, hcur, _ => ⟨t, cur, rfl, Reshaped.of_balance (c := []) hrep fun _ _ => rfl, hcur⟩
  | f :: c, cur, t, hrep, hnd, hcur, ⟨hb, hlo, hhi, hs, hc⟩ => by
    obtain ⟨tempNode, done, t₁, n, hstep, hrestored, hn⟩ := removeAndBalance_spec hrep hnd hcur hb hlo hhi hs
    rw [rebalance_cons hstep]
    cases done with
    | true =>
      obtain ⟨T', hT', hbal⟩ := hrestored.balanced hnd ((if_pos rfl).symm.trans hn ▸ hc)
      exact ⟨_, T', rfl, hT', hbal⟩
    | false =>
      obtain ⟨T', hr, hbal, rfl⟩ := hrestored
      have hnd' : (inorder (plug c T')).Nodup := by
        rw [inorder_plug_congr hr.inorder_eq]
        exact hnd
      rw [← hn, if_neg Bool.false_ne_true] at hc
      obtain ⟨t', T'', hloop, hr', hbal'⟩ := rebalance_spec hr.rep hnd' hbal
        (hc.congr fun k hk => hr.balance_eq k fun hk' => (around_nodup (c := c) hnd).2.2 k hk' hk)
      exact ⟨t', T'', hloop, hr.whole.trans hr', hbal'⟩

/-! ## Unlinking -/

section
variable {l r r' u : BinaryTree Nat} {k : Nat} {g : List (Frame Nat)} {link : Links}

structure Unlinked (t t' : AvlTree α) (T : BinaryTree Nat) (c : List (Frame Nat)) (cur : BinaryTree Nat) : Prop where
  rep : Rep t'.link (t'.link .root .left) (plug c cur)
  balanced : Balanced t'.balance cur
  path : PathBalanced t'.balance c (cur.height + 1)
  link_eq : ∀ k ∉ inorder T, ∀ d, t'.link (.cell k) d = t.link (.cell k) d
  rest : SameRest t t'

theorem not_mem_plug {T : BinaryTree Nat} (hk : k ∉ inorder (plug c T)) : k ∉ inorder T ∧ k ∉ around c := by
  rwa [(inorder_plug_perm c T).mem_iff, List.mem_append, not_or] at hk

theorem setBalance_eq_self {b : Int} (h : t.balance k = b) : t.setBalance k b = t := by
  rw [AvlTree.setBalance, ← h, Function.update_eq_self]

theorem unlink_left (maxDepth : Nat) (hrep : Rep t.link (t.link .root .left) (plug c (node m l nil)))
    (hnd : (inorder (plug c (node m l nil))).Nodup) (hbal : Balanced t.balance (plug c (node m l nil))) :
    ∃ t', unlink maxDepth t m (slots c) = some (slots c, t') ∧ Unlinked t t' (plug c (node m l nil)) c l := by
  obtain ⟨⟨-, hl, hr⟩, -⟩ := rep_plug.mp hrep
  obtain ⟨hbm, hpath⟩ := balanced_plug.mp hbal
  obtain ⟨hbm, hmlo, -, hbl, -⟩ := hbm
  obtain ⟨-, hndc, hout⟩ := around_nodup hnd
  have hheight : l.height ≤ 1 := by
    rw [BinaryTree.height] at hbm
    omega
  -- the balance that is cleared is zero already
  have hzero : (t.link (.cell m) .left).elim (t.setLink (slot c).1 (slot c).2 (t.link (.cell m) .left))
      (fun n => (t.setLink (slot c).1 (slot c).2 (t.link (.cell m) .left)).setBalance n 0) =
      t.setLink (slot c).1 (slot c).2 (t.link (.cell m) .left) := by
    cases l with
    | nil => rw [show t.link (.cell m) .left = none from hl]; rfl
    | node n x y =>
      obtain ⟨hbn, -, -, -, -⟩ := hbl
      have hn : t.balance n = 0 := by grind [BinaryTree.height]
      rw [hl.1]
      exact setBalance_eq_self hn
  refine ⟨t.setLink (slot c).1 (slot c).2 (t.link (.cell m) .left), ?_, ?_⟩
  · rw [unlink, head?_slots, Option.bind_some]
    simp only [show t.link (.cell m) .right = none from hr]
    rw [hzero]
  · refine ⟨hrep.replace_slot hndc (Keeps.refl _ _) hl fun k hk => hout k (List.mem_append_left _ hk), hbl, ?_,
      fun k hk e => ?_, rfl⟩
    · rwa [BinaryTree.height, BinaryTree.height, Nat.max_zero] at hpath
    · exact Links.set_of_ne (slot_of_not_mem (not_mem_plug hk).2).symm

theorem balanced_unlinked (hnd : (inorder (plug (g ++ ⟨.right, m, l⟩ :: c) (node k nil r'))).Nodup) {bal : Nat → Int}
    (hbal : Balanced bal (plug (g ++ ⟨.right, m, l⟩ :: c) (node k nil r'))) :
    Balanced (Function.update bal k (bal m)) r' ∧
      PathBalanced (Function.update bal k (bal m)) (g ++ ⟨.right, k, l⟩ :: c) (r'.height + 1) := by
  obtain ⟨⟨-, -, -, -, hr'⟩, hpath⟩ := balanced_plug.mp hbal
  obtain ⟨hndk, -, hout⟩ := around_nodup hnd
  have hk : k ∉ inorder r' := (nodup_join (d := .left).mp hndk).2.1
  have hkc : k ∉ around (g ++ ⟨.right, m, l⟩ :: c) := hout k List.mem_cons_self
  have hkeep : ∀ {v : List Nat}, k ∉ v → ∀ j ∈ v, Function.update bal k (bal m) j = bal j :=
    fun hv j hj => Function.update_of_ne (show j ≠ k from fun he => hv (he ▸ hj)) _ _
  refine ⟨hr'.congr (hkeep hk), pathBalanced_append.mpr ?_⟩
  rw [BinaryTree.height, BinaryTree.height, Nat.zero_max] at hpath
  obtain ⟨hg, hm, hlo, hhi, hl, hc⟩ := pathBalanced_append.mp hpath
  rw [around_append, List.mem_append, around, List.mem_cons, List.mem_append, not_or, not_or, not_or] at hkc
  obtain ⟨hkg, -, hkl, hkc⟩ := hkc
  have hself : Function.update bal k (bal m) k = bal m := Function.update_self ..
  refine ⟨hg.congr (hkeep hkg), hself.trans hm, ?_, ?_, hl.congr (hkeep hkl), hc.congr (hkeep hkc)⟩ <;> grind

theorem before_eq_nil : ∀ {g : List (Frame Nat)}, (∀ f ∈ g, f.dir = .left) → before g = []
  | [], _ => rfl
  | f :: g, h => by
    obtain ⟨hf, hg⟩ := List.forall_mem_cons.mp h
    rw [before, hf, before_eq_nil hg]
    rfl

theorem inorder_unlinked (hg : ∀ f ∈ g, f.dir = .left) : inorder (plug (g ++ ⟨.right, k, l⟩ :: c) r') =
    before c ++ (inorder l ++ (inorder (plug g (node k nil r')) ++ after c)) := by
  simp_all [before_eq_nil, plug_append, plug, inorder_plug, join, inorder]

theorem rep_substitute (hrep : Rep link (link .root .left) (plug c (node m l u))) (hnd : (around c).Nodup)
    (hk : k ∉ inorder (plug c (node m l u))) (hout : ∀ j ∈ inorder (node m l u), j ∉ around c) :
    Rep (Links.set (Links.set (Links.set link (.cell k) .left (link (.cell m) .left)) (.cell k) .right
      (link (.cell m) .right))
        (slot c).1 (slot c).2 (some k))
      (Links.set (Links.set (Links.set link (.cell k) .left (link (.cell m) .left)) (.cell k) .right
        (link (.cell m) .right))
        (slot c).1 (slot c).2 (some k) .root .left) (plug c (node k l u)) := by
  obtain ⟨hkT, hkc⟩ := not_mem_plug hk
  obtain ⟨⟨-, hl, hu⟩, -⟩ := rep_plug.mp hrep
  have hne : ∀ j ∈ inorder (node m l u), Addr.cell j ≠ .cell k := fun j hj he => hkT (Addr.cell.inj he ▸ hj)
  have hkeep : ∀ j ∈ inorder (node m l u), ∀ e, Links.set (Links.set link (.cell k) .left (link (.cell m) .left))
      (.cell k)
      .right (link (.cell m) .right) (.cell j) e = link (.cell j) e := fun j hj e => by grind [Links.set_of_ne]
  refine hrep.replace_slot hnd (((Keeps.refl _ _).set_cell hkc _ _).set_cell hkc _ _) ⟨rfl, ?_, ?_⟩ fun j hj => ?_
  · rw [Links.set_of_ne_dir (by decide), Links.set_self]
    exact hl.congr fun j hj => hkeep j (List.mem_append_left _ hj)
  · rw [Links.set_self]
    exact hu.congr fun j hj => hkeep j (List.mem_append_right _ (List.mem_cons_of_mem _ hj))
  · rcases (mem_inorder_join (d := .left)).mp hj with rfl | hj
    · exact hkc
    · exact hout j ((mem_inorder_join (d := .left)).mpr (.inr hj))

theorem unlink_right (maxDepth : Nat) (hrep : Rep t.link (t.link .root .left) (plug c (node m l (node k nil r'))))
    (hnd : (inorder (plug c (node m l (node k nil r')))).Nodup)
    (hbal : Balanced t.balance (plug c (node m l (node k nil r')))) :
    ∃ t', unlink maxDepth t m (slots c) = some (slots (⟨.right, k, l⟩ :: c), t') ∧
      Unlinked t t' (plug c (node m l (node k nil r'))) (⟨.right, k, l⟩ :: c) r' := by
  obtain ⟨⟨-, hl, hk, hnil, hr'⟩, -⟩ := rep_plug.mp hrep
  obtain ⟨hndT, hndc, hout⟩ := around_nodup hnd
  obtain ⟨-, -, -, hndk, hdisj⟩ := nodup_join (d := .left).mp hndT
  have hkT : k ∈ inorder (node m l (node k nil r')) := by simp [inorder]
  have hkl : k ∉ inorder l := fun h => hdisj h List.mem_cons_self
  have hkr : k ∉ inorder r' := (nodup_join (d := .left).mp hndk).2.1
  obtain ⟨hbr, hpath⟩ := balanced_unlinked (g := []) hnd hbal
  refine ⟨((t.setLink (.cell k) .left (t.link (.cell m) .left)).setBalance k (t.balance m)).setLink (slot c).1
    (slot c).2 (some k),
    ?_, ?_, hbr, hpath, fun j hj e => ?_, rfl⟩
  · rw [unlink, head?_slots, Option.bind_some]
    simp only [hk, show t.link (.cell k) .left = none from hnil]
    rfl
  · have hkeep : ∀ {s : BinaryTree Nat} {p : Option Nat}, Rep t.link p s → k ∉ inorder s →
        Rep (Links.set t.link (.cell k) .left (t.link (.cell m) .left)) p s := fun hs hks =>
      hs.congr fun j hj e => Links.set_of_ne fun he => hks (Addr.cell.inj he ▸ hj)
    have hnode : Rep (Links.set t.link (.cell k) .left (t.link (.cell m) .left)) (some k) (node k l r') := by
      refine ⟨rfl, ?_, ?_⟩ <;> simp_all [Links.set_of_ne_dir]
    refine hrep.replace_slot hndc ((Keeps.refl _ _).set_cell (hout k hkT) _ _) hnode fun j hj => hout j ?_
    grind [mem_inorder_join, inorder]
  · obtain ⟨hjT, hjc⟩ := not_mem_plug hj
    refine (Links.set_of_ne (slot_of_not_mem hjc).symm).trans (Links.set_of_ne fun he => hjT ?_)
    simp_all

theorem leftmost_spec : ∀ {A : BinaryTree Nat} {fuel : Nat} {f : Frame Nat} {g : List (Frame Nat)} {j : Nat},
    Rep t.link (some j) A → A.height ≤ fuel → (∀ h ∈ f :: g, h.dir = .left) →
    ∃ (f' : Frame Nat) (g' : List (Frame Nat)) (k : Nat) (r' : BinaryTree Nat),
      leftmost t fuel f.value j ((f :: g).map fun h => (.cell h.value, h.dir)) =
        some (f'.value, k, (f' :: g').map fun h => (.cell h.value, h.dir)) ∧
      plug (f' :: g') (node k nil r') = plug (f :: g) A ∧ ∀ h ∈ f' :: g', h.dir = .left
  | nil, _, _, _, _, h, _, _ => nomatch h
  | node i l r, fuel + 1, f, g, j, ⟨hj, hl, _⟩, hf, hleft => by
    cases hj
    cases hlink : t.link (.cell i) .left with
    | none =>
      rw [hlink] at hl
      cases hl.nil_iff.mp rfl
      grind [leftmost]
    | some j' =>
      rw [hlink] at hl
      have hlf : l.height ≤ fuel := by
        rw [BinaryTree.height] at hf
        omega
      obtain ⟨f', g', k, r', hloop, hplug, hleft'⟩ := leftmost_spec (f := ⟨.left, i, r⟩) (g := f :: g) hl hlf
        (List.forall_mem_cons.mpr ⟨rfl, hleft⟩)
      refine ⟨f', g', k, r', ?_, hplug, hleft'⟩
      rw [leftmost, hlink]
      exact hloop

def substituteLinks (link : Links) (m k temp : Nat) : Links :=
  let link := Links.set link (.cell k) .left (link (.cell m) .left)
  let link := Links.set link (.cell temp) .left (link (.cell k) .right)
  Links.set link (.cell k) .right (link (.cell m) .right)

theorem unlink_leftmost {maxDepth j tmp : Nat} {A v : BinaryTree Nat}
    (hrep : Rep t.link (t.link .root .left) (plug c (node m l (node tmp A v))))
    (hnd : (inorder (plug c (node m l (node tmp A v)))).Nodup)
    (hbal : Balanced t.balance (plug c (node m l (node tmp A v)))) (hA : t.link (.cell tmp) .left = some j)
    (hd : A.height ≤ maxDepth) :
    ∃ c' cur t', unlink maxDepth t m (slots c) = some (slots c', t') ∧
      inorder (plug c' cur) = before c ++ (inorder l ++ (inorder (node tmp A v) ++ after c)) ∧
      Unlinked t t' (plug c (node m l (node tmp A v))) c' cur := by
  obtain ⟨⟨-, hl, htmp, hArep, -⟩, -⟩ := rep_plug.mp hrep
  rw [hA] at hArep
  obtain ⟨f, g, k, r', hloop, hplug, hleft⟩ := leftmost_spec (f := ⟨.left, tmp, v⟩) (g := []) hArep hd
    (List.forall_mem_cons.mpr ⟨rfl, nofun⟩)
  change plug (f :: g) (node k nil r') = node tmp A v at hplug
  have hdir : f.dir = .left := hleft f List.mem_cons_self
  -- the tree, read from the first node of the right subtree
  have hT : plug c (node m l (node tmp A v)) = plug ((f :: g) ++ ⟨.right, m, l⟩ :: c) (node k nil r') := by
    rw [plug_append, plug, hplug]
    rfl
  rw [hT] at hrep hnd hbal ⊢
  obtain ⟨hbr, hpath⟩ := balanced_unlinked hnd hbal
  obtain ⟨hndk, hndc, hout⟩ := around_nodup hnd
  obtain ⟨⟨-, -, hr'⟩, -⟩ := rep_plug.mp hrep
  have hkc : k ∉ around ((f :: g) ++ ⟨.right, m, l⟩ :: c) := hout k List.mem_cons_self
  have hkr : k ∉ inorder r' := (nodup_join (d := .left).mp hndk).2.1
  have hfm : Addr.cell m ≠ .cell f.value := by
    rw [around_append] at hndc
    intro he
    refine (List.nodup_append'.mp hndc).2.2 (List.mem_cons_self (a := f.value)) ?_
    rw [← Addr.cell.inj he]
    exact List.mem_cons_self
  have hkm : Addr.cell m ≠ .cell k := by
    intro he
    rw [around_append] at hkc
    refine hkc (List.mem_append_right _ ?_)
    rw [← Addr.cell.inj he]
    exact List.mem_cons_self
  have hkf : Addr.cell k ≠ .cell f.value := fun he => hkc (by
    rw [Addr.cell.inj he]
    exact List.mem_cons_self)
  -- first the node is taken out of the right subtree
  have htaken := hrep.replace_slot hndc (Keeps.refl _ _) hr' fun j hj => hout j (List.mem_cons_of_mem _ hj)
  have hkout : k ∉ inorder (plug ((f :: g) ++ ⟨.right, m, l⟩ :: c) r') := fun h => by grind [inorder_plug_perm]
  have hnd' : (inorder (plug ((f :: g) ++ ⟨.right, m, l⟩ :: c) r')).Nodup :=
    (inorder_plug_perm _ _).nodup_iff.mpr (((inorder_plug_perm _ _).nodup_iff.mp hnd).of_cons)
  rw [show slot ((f :: g) ++ ⟨.right, m, l⟩ :: c) = (.cell f.value, .left) from Prod.ext rfl hdir] at htaken
  rw [plug_append] at htaken hkout hnd'
  obtain ⟨-, hndc', hout'⟩ := around_nodup (c := c) (T := node m l (plug (f :: g) r')) hnd'
  -- then it takes the place of the other one
  have hplaced := rep_substitute (l := l) (u := plug (f :: g) r') htaken hndc' hkout hout'
  have hlinks : substituteLinks t.link m k f.value = Links.set (Links.set (Links.set t.link (.cell f.value) .left
      (t.link (.cell k) .right)) (.cell k) .left (t.link (.cell m) .left)) (.cell k) .right
        (t.link (.cell m) .right) := by
    grind [Links.set_comm, substituteLinks, Links.set_of_ne_dir]
  rw [Links.set_of_ne hfm, Links.set_of_ne hfm, ← hlinks] at hplaced
  refine ⟨(f :: g) ++ ⟨.right, k, l⟩ :: c, r', { t with
    link := Links.set (substituteLinks t.link m k f.value) (slot c).1 (slot c).2 (some k)
    balance := Function.update t.balance k (t.balance m) }, ?_, ?_, ?_, hbr, hpath, fun j hj e => ?_, rfl⟩
  · rw [unlink, head?_slots, Option.bind_some]
    simp only [htmp, hA]
    rw [show [(Addr.cell tmp, Dir.left)] = [⟨.left, tmp, v⟩].map fun h : Frame Nat => (.cell h.value, h.dir) from rfl,
      hloop,
      slots_append]
    rfl
  · rw [inorder_unlinked hleft, hplug]
  · rw [plug_append]
    exact hplaced
  · obtain ⟨hjk, hjc⟩ := not_mem_plug hj
    have hjk : Addr.cell j ≠ .cell k := fun he => hjk (Addr.cell.inj he ▸ List.mem_cons_self)
    have hjf : Addr.cell j ≠ .cell f.value := fun he => hjc (Addr.cell.inj he ▸ List.mem_cons_self)
    have hjc' : j ∉ around c := fun h => hjc (by
      rw [around_append]
      exact List.mem_append_right _ (List.mem_cons_of_mem _ (List.mem_append_right _ h)))
    change Links.set (substituteLinks t.link m k f.value) _ _ _ _ _ = _
    rw [Links.set_of_ne (slot_of_not_mem hjc').symm, hlinks, Links.set_of_ne hjk, Links.set_of_ne hjk,
      Links.set_of_ne hjf]

theorem unlink_spec {maxDepth : Nat} (hrep : Rep t.link (t.link .root .left) (plug c (node m l r)))
    (hnd : (inorder (plug c (node m l r))).Nodup) (hbal : Balanced t.balance (plug c (node m l r)))
    (hd : r.height ≤ maxDepth) :
    ∃ c' cur t', unlink maxDepth t m (slots c) = some (slots c', t') ∧
      inorder (plug c' cur) = before c ++ (inorder l ++ (inorder r ++ after c)) ∧
        Unlinked t t' (plug c (node m l r)) c' cur := by
  cases r with
  | nil =>
    obtain ⟨t', hunlink, h⟩ := unlink_left maxDepth hrep hnd hbal
    exact ⟨c, l, t', hunlink, inorder_plug c l, h⟩
  | node tmp A v =>
    cases hA : t.link (.cell tmp) .left with
    | none =>
      obtain ⟨⟨-, -, -, hArep, -⟩, -⟩ := rep_plug.mp hrep
      cases hArep.nil_iff.mp hA
      obtain ⟨t', hunlink, h⟩ := unlink_right maxDepth hrep hnd hbal
      exact ⟨_, v, t', hunlink, inorder_unlinked (g := []) nofun, h⟩
    | some j =>
      rw [BinaryTree.height] at hd
      exact unlink_leftmost hrep hnd hbal hA (by omega)

end

theorem removeLoop_spec (ho : TotalOrder compare) :
    ∀ {fuel : Nat} {S : BinaryTree Nat} {c : List (Frame Nat)} {i : Nat},
    Rep t.link (some i) S → Sorted compare t.item (inorder S) → S.height ≤ fuel → Between compare t.item x c →
    (∃ c' m l r, removeLoop compare t x fuel i (slots c) = some (some (m, slots c')) ∧ plug c' (node m l r) = plug c S ∧
      compare x (t.item m) = 0) ∨
    (removeLoop compare t x fuel i (slots c) = some none ∧ ∃ c', plug c' nil = plug c S ∧ Between compare t.item x c')
  | 0, S, _, _, hrep, _, hf, _ => by
    obtain ⟨l, r, rfl⟩ := hrep.of_some
    simp_all
  | fuel + 1, S, c, i, hrep, hs, hf, hc => by
    have hside := side_spec compare x (t.item i)
    obtain ⟨l, r, rfl⟩ := hrep.of_some
    cases hd : side (avlCompareKey compare x (t.item i)) with
    | none => grind [AvlTree.item, removeLoop]
    | some d =>
      obtain ⟨k, u, v, hS⟩ := exists_join d (t := node i l r) nofun
      rw [hS] at hrep hs hf ⊢
      obtain ⟨hk, hu, -⟩ := rep_join.mp hrep
      cases hk
      have hbetween := hc.cons ho hs hd
      have huf : u.height ≤ fuel := by
        rw [height_join] at hf
        omega
      have hstep : removeLoop compare t x (fuel + 1) i (slots c) =
          (t.link (.cell i) d).elim (some none) fun child => removeLoop compare t x fuel child
            (slots (⟨d, i, v⟩ :: c)) := by
        cases hl : t.link (.cell i) d <;> grind [AvlTree.item, removeLoop, slots]
      rw [hstep]
      cases hl : t.link (.cell i) d with
      | none =>
        rw [hl] at hu
        cases hu.nil_iff.mp rfl
        exact .inr ⟨rfl, ⟨d, i, v⟩ :: c, rfl, hbetween⟩
      | some j =>
        rw [hl] at hu
        exact removeLoop_spec ho (c := ⟨d, i, v⟩ :: c) hu hs.child huf hbetween

theorem Between.ne {T : BinaryTree Nat} (hplug : plug c nil = T) (hc : Between compare t.item x c) :
    ∀ j ∈ inorder T, compare x (t.item j) ≠ 0 := by
  subst hplug
  intro j hj
  rw [inorder_plug, List.mem_append] at hj
  rcases hj with hj | hj
  · exact Int.ne_of_gt (hc.1 j hj)
  · exact Int.ne_of_lt (hc.2 j hj)

structure Removed [Inhabited α] (t t' : AvlTree α) (m : Nat) (T T' : BinaryTree Nat) : Prop where
  rep : Rep t'.link (t'.link .root .left) T'
  balanced : Balanced t'.balance T'
  link_eq : ∀ k ∉ inorder T, ∀ d, t'.link (.cell k) d = t.link (.cell k) d
  link_free : t'.link (.cell m) .right = t.currentTableHeap
  rest : SameRest (avlNewFreeDataNode { t with currentTableHeap := some m, count := t.count - 1 } (t.data m)) t'

theorem avlRemoveEntry_spec [Inhabited α] (ho : TotalOrder compare) {T : BinaryTree Nat} {maxDepth : Nat}
    (hrep : Rep t.link (t.link .root .left) T) (hnd : (inorder T).Nodup) (hbal : Balanced t.balance T)
    (hs : Sorted compare t.item (inorder T)) (hd : T.height < maxDepth) (x : α) :
    (∃ m smaller greater t' T', inorder T = smaller ++ m :: greater ∧ inorder T' = smaller ++ greater ∧
      compare x (t.item m) = 0 ∧ avlRemoveEntry compare maxDepth t x = some (some (t.data m), t') ∧
        Removed t t' m T T') ∨
    (avlRemoveEntry compare maxDepth t x = some (none, t) ∧ ∀ j ∈ inorder T, compare x (t.item j) ≠ 0) := by
  cases T with
  | nil => exact .inr ⟨by rw [avlRemoveEntry, hrep], nofun⟩
  | node i l₀ r₀ =>
    have hroot := hrep.1
    have hrep' : Rep t.link (some i) (node i l₀ r₀) := hroot ▸ hrep
    rcases removeLoop_spec (x := x) ho (c := []) hrep' hs (Nat.le_sub_one_of_lt hd) ⟨nofun, nofun⟩ with
      ⟨c, m, l, r, hfind, hplug, hcmp⟩ | ⟨hfind, c, hplug, hbetween⟩
    · rw [slots] at hfind
      rw [plug] at hplug
      rw [← hplug] at hrep hnd hbal hd ⊢
      have hr : r.height ≤ maxDepth := by
        rw [height_plug] at hd
        have hnode := length_le_plugHeight c (node m l r).height
        grind [BinaryTree.height]
      obtain ⟨c', cur, t₁, hunlink, horder, hu⟩ := unlink_spec hrep hnd hbal hr
      have hinorder : inorder (plug c (node m l r)) = (before c ++ inorder l) ++ m :: (inorder r ++ after c) := by
        grind [inorder_plug, inorder]
      have horder' : inorder (plug c' cur) = (before c ++ inorder l) ++ (inorder r ++ after c) := by simp_all
      rw [hinorder, List.nodup_middle, List.nodup_cons] at hnd
      have hm : m ∉ inorder (plug c' cur) := horder' ▸ hnd.1
      obtain ⟨hmcur, hmc⟩ := not_mem_plug hm
      have hclear : ∀ {v : List Nat}, m ∉ v → ∀ j ∈ v, (avlNewFreeNode t₁ m).balance j = t₁.balance j :=
        fun hv j hj => Function.update_of_ne (show j ≠ m from fun he => hv (he ▸ hj)) _ _
      have hlink : ∀ k, k ≠ m → ∀ e, (avlNewFreeNode t₁ m).link (.cell k) e = t₁.link (.cell k) e := fun k hk e => by
        have hne : Addr.cell k ≠ .cell m := fun he => hk (Addr.cell.inj he)
        exact (Links.set_of_ne hne).trans (Links.set_of_ne hne)
      have hrep₂ : Rep (avlNewFreeNode t₁ m).link ((avlNewFreeNode t₁ m).link .root .left) (plug c' cur) :=
        hu.rep.congr fun k hk => hlink k fun he => hm (he ▸ hk)
      obtain ⟨t₃, T', hrebalance, hreshaped, hbal'⟩ := rebalance_spec hrep₂ (horder' ▸ hnd.2)
        (hu.balanced.congr (hclear hmcur)) (hu.path.congr (hclear hmc))
      refine .inl ⟨m, _, _, avlNewFreeDataNode { t₃ with count := t₃.count - 1 } (t.data m), T', hinorder,
        hreshaped.inorder_eq.trans horder', hcmp, ?_, hreshaped.rep, hbal', fun k hk e => ?_, ?_, ?_⟩
      · rw [avlRemoveEntry, hroot]
        simp only [hfind, Option.bind_some, hunlink, hrebalance, Option.map_some]
      · have hkout : k ∉ inorder (plug c' cur) ∧ k ≠ m := by simp_all
        exact (hreshaped.link_eq k hkout.1 e).trans ((hlink k hkout.2 e).trans (hu.link_eq k hk e))
      · refine (hreshaped.link_eq m hm .right).trans (Links.set_self.trans ?_)
        exact hu.rest.fields.2.2.2.1
      · grind [hreshaped.rest, hu.rest, SameRest, avlNewFreeDataNode, avlNewFreeNode]
    · refine .inr ⟨?_, hbetween.ne hplug⟩
      grind [slots, avlRemoveEntry]

end

end Sonic.Avl
