import Sonic.AvlRep

/-! # Rotations of the tree

What `swapNodes` and `rotateNodes` do to a tree whose side `d` has become two levels deeper than the
other: the balances are right again, the search order is kept, and nothing else changes. -/

namespace Sonic.Avl
open Function

open BinaryTree BalancedTree

section
variable {α : Type*} {t t' t'' : AvlTree α} {c : List (Frame Nat)} {d : Dir} {i j k : Nat}
  {T T' T'' x y z : BinaryTree Nat}

def SameRest (t t' : AvlTree α) : Prop :=
  t' = { t with link := t'.link, balance := t'.balance, balanceNeeded := t'.balanceNeeded }

theorem SameRest.trans (h : SameRest t t') (h' : SameRest t' t'') : SameRest t t'' := by grind [SameRest]

theorem SameRest.fields (h : SameRest t t') : t'.data = t.data ∧ t'.items = t.items ∧ t'.next = t.next ∧
    t'.currentTableHeap = t.currentTableHeap ∧ t'.currentDataHeap = t.currentDataHeap ∧ t'.count = t.count := by
  grind [SameRest]

structure Reshaped (t t' : AvlTree α) (c : List (Frame Nat)) (T T' : BinaryTree Nat) : Prop where
  rep : Rep t'.link (t'.link .root .left) (plug c T')
  inorder_eq : inorder T' = inorder T
  balance_eq : ∀ i ∉ inorder T, t'.balance i = t.balance i
  link_eq : ∀ i ∉ inorder (plug c T), ∀ d, t'.link (.cell i) d = t.link (.cell i) d
  rest : SameRest t t'

theorem Reshaped.of_balance {bal : Nat → Int} (hrep : Rep t.link (t.link .root .left) (plug c T))
    (h : ∀ k ∉ inorder T, bal k = t.balance k) : Reshaped t { t with balance := bal } c T T :=
  ⟨hrep, rfl, h, fun _ _ _ => rfl, rfl⟩

theorem inorder_plug_congr (h : inorder T' = inorder T) (c : List (Frame Nat)) :
    inorder (plug c T') = inorder (plug c T) := by
  rw [inorder_plug, inorder_plug, h]

theorem Reshaped.whole (h : Reshaped t t' c T T') : Reshaped t t' [] (plug c T) (plug c T') := by
  refine ⟨h.rep, inorder_plug_congr h.inorder_eq c, fun i hi => h.balance_eq i fun hT => hi ?_, h.link_eq, h.rest⟩
  grind [inorder_plug_perm]

theorem Reshaped.trans (h : Reshaped t t' [] T T') (h' : Reshaped t' t'' [] T' T'') : Reshaped t t'' [] T T'' := by
  refine ⟨h'.rep, h'.inorder_eq.trans h.inorder_eq, fun i hi => ?_, fun i hi d => ?_, h.rest.trans h'.rest⟩
  · rw [h'.balance_eq i (h.inorder_eq ▸ hi), h.balance_eq i hi]
  · rw [h'.link_eq i (h.inorder_eq.symm ▸ hi) d, h.link_eq i hi d]

theorem around_nodup (hnd : (inorder (plug c T)).Nodup) :
    (inorder T).Nodup ∧ (around c).Nodup ∧ ∀ i ∈ inorder T, i ∉ around c := by
  grind [inorder_plug_perm]

def Restored (t t' : AvlTree α) (c : List (Frame Nat)) (T : BinaryTree Nat) (n : Nat) : Prop :=
  ∃ T', Reshaped t t' c T T' ∧ Balanced t'.balance T' ∧ T'.height = n

theorem Restored.balanced {n : Nat} (h : Restored t t' c T n) (hnd : (inorder (plug c T)).Nodup)
    (hc : PathBalanced t.balance c n) : ∃ T', Reshaped t t' [] (plug c T) T' ∧ Balanced t'.balance T' := by
  obtain ⟨T', hr, hbal, rfl⟩ := h
  refine ⟨plug c T', hr.whole, balanced_plug.mpr ⟨hbal, hc.congr fun i hi => hr.balance_eq i fun hT => ?_⟩⟩
  exact (around_nodup hnd).2.2 i hT hi


theorem reshaped_single (h : Rep t.link (t.link .root .left) (plug c (join d i (join d j x y) z)))
    (hnd : (inorder (plug c (join d i (join d j x y) z))).Nodup)
    (hlink : t'.link = Links.set (singleLinks t.link d i j) (slot c).1 (slot c).2 (some j))
    (hbal : ∀ k, k ≠ i → k ≠ j → t'.balance k = t.balance k) (hrest : SameRest t t') :
    Reshaped t t' c (join d i (join d j x y) z) (join d j x (join d i y z)) := by
  obtain ⟨hndT, hndc, hout⟩ := around_nodup hnd
  have hi : i ∈ inorder (join d i (join d j x y) z) := mem_inorder_join.mpr (.inl rfl)
  have hj : j ∈ inorder (join d i (join d j x y) z) :=
    mem_inorder_join.mpr (.inr (.inl (mem_inorder_join.mpr (.inl rfl))))
  have hkeep : Keeps t.link (singleLinks t.link d i j) c :=
    ((Keeps.refl _ _).set_cell (hout i hi) _ _).set_cell (hout j hj) _ _
  refine ⟨?_, inorder_single d i j x y z, fun k hk => ?_, fun k hk e => ?_, hrest⟩
  · rw [hlink]
    refine h.replace_slot hndc hkeep (((rep_plug.mp h).1).single hndT) fun k hk => hout k ?_
    rwa [inorder_single d i j x y z] at hk
  · grind
  · rw [(inorder_plug_perm c _).mem_iff, List.mem_append, not_or] at hk
    have hki : k ≠ i := fun he => hk.1 (he ▸ hi)
    have hkj : k ≠ j := fun he => hk.1 (he ▸ hj)
    rw [hlink, Links.set_of_ne (slot_of_not_mem hk.2).symm]
    simp [singleLinks, Links.set, hki, hkj]

theorem swapNodes_restores (h : Rep t.link (t.link .root .left) (plug c (join d i (join d j x y) z)))
    (hnd : (inorder (plug c (join d i (join d j x y) z))).Nodup) (hY : Balanced t.balance (join d j x y))
    (hz : Balanced t.balance z) (hj : t.balance j = d.weight) (hheight : (join d j x y).height = z.height + 2) :
    Restored t ((swapNodes t d i j).setLink (slot c).1 (slot c).2 (some j)) c (join d i (join d j x y) z)
      (z.height + 2) := by
  obtain ⟨hbal, -, -, hx, hy⟩ := balanced_join.mp hY
  obtain ⟨hij, hout⟩ := nodup_single (around_nodup hnd).1
  rw [height_join] at hheight
  have hheights : x.height = z.height + 1 ∧ y.height = z.height := by grind [Sonic.Dir.weight_cases]
  have hother : ∀ k, k ≠ i → k ≠ j → (swapNodes t d i j).balance k = t.balance k := fun k hki hkj =>
    (update_of_ne hkj _ _).trans (update_of_ne hki _ _)
  have hkeep : ∀ {s : BinaryTree Nat}, Balanced t.balance s → s ∈ [x, y, z] → Balanced (swapNodes t d i j).balance s :=
    fun hs hmem => hs.congr_of_ne hother (hout _ hmem)
  refine ⟨_, reshaped_single h hnd rfl hother rfl, ?_⟩
  refine Balanced.single (hkeep hx (by simp)) (hkeep hy (by simp)) (hkeep hz (by simp)) ?_ ?_ hheights.1 hheights.2
  · exact (update_of_ne hij _ _).trans (update_self ..)
  · exact update_self ..

theorem single_even_restores (h : Rep t.link (t.link .root .left) (plug c (join d i (join d j x y) z)))
    (hnd : (inorder (plug c (join d i (join d j x y) z))).Nodup) (hY : Balanced t.balance (join d j x y))
    (hz : Balanced t.balance z) (hi : t.balance i = d.weight) (hj : t.balance j = 0)
    (hheight : (join d j x y).height = z.height + 2)
    (hlink : t'.link = Links.set (singleLinks t.link d i j) (slot c).1 (slot c).2 (some j))
    (hbal : t'.balance = Function.update t.balance j (-d.weight)) (hrest : SameRest t t') :
    Restored t t' c (join d i (join d j x y) z) (z.height + 3) := by
  obtain ⟨hbalj, -, -, hx, hy⟩ := balanced_join.mp hY
  obtain ⟨hij, hout⟩ := nodup_single (around_nodup hnd).1
  rw [height_join] at hheight
  have hheights : x.height = z.height + 1 ∧ y.height = z.height + 1 := by grind [Sonic.Dir.weight_cases]
  have hother : ∀ k, k ≠ i → k ≠ j → t'.balance k = t.balance k := fun k _ hkj => by simp_all
  have hkeep : ∀ {s : BinaryTree Nat}, Balanced t.balance s → s ∈ [x, y, z] → Balanced t'.balance s :=
    fun hs hmem => hs.congr_of_ne hother (hout _ hmem)
  refine ⟨_, reshaped_single h hnd hlink hother hrest, ?_⟩
  refine Balanced.single_even (hkeep hx (by simp)) (hkeep hy (by simp))
    (hkeep hz (by simp)) ?_ ?_ hheights.1 hheights.2 <;> simp_all

theorem rotateBalances_spec (t : AvlTree α) (d : Dir) (hij : i ≠ j) (hik : i ≠ k) (hjk : j ≠ k) (hlo : -1 ≤ t.balance k)
    (hhi : t.balance k ≤ 1) : ∃ bal, rotateBalances t d.other i j k = { t with balance := bal } ∧
      bal i = (if t.balance k = d.weight then -d.weight else 0) ∧
        bal j = (if t.balance k = -d.weight then d.weight else 0) ∧
      bal k = 0 ∧ ∀ m, m ≠ i → m ≠ j → m ≠ k → bal m = t.balance m := by
  have hk : ((t.setBalance j 0).setBalance i 0).balance k = t.balance k := by simp_all [AvlTree.setBalance, Ne.symm]
  have hcases : t.balance k = -1 ∨ t.balance k = 0 ∨ t.balance k = 1 := by omega
  cases d <;> rcases hcases with h | h | h <;>
  · simp only [rotateBalances, Dir.other, hk, h]
    refine ⟨_, rfl, ?_, ?_, ?_, ?_⟩ <;>
      simp +contextual [AvlTree.setBalance, Function.update, Dir.weight, hij, hik, hjk, Ne.symm hij]

theorem rotateNodes_eq (h : t.link (.cell j) d.other = some k) :
    rotateNodes t d i j = some (k, rotateBalances { t with link := doubleLinks t.link d i j k } d.other i j k) := by
  rw [rotateNodes, h]
  rfl

theorem rotateNodes_restores (h : Rep t.link (t.link .root .left) (plug c (join d i (join d j x y) z)))
    (hnd : (inorder (plug c (join d i (join d j x y) z))).Nodup) (hY : Balanced t.balance (join d j x y))
    (hz : Balanced t.balance z) (hj : t.balance j = -d.weight) (hheight : (join d j x y).height = z.height + 2) :
    ∃ k t', rotateNodes t d i j = some (k, t') ∧
      (∀ a, (∀ m ∈ inorder (join d i (join d j x y) z), a ≠ .cell m) → ∀ e, t'.link a e = t.link a e) ∧
      Restored t (t'.setLink (slot c).1 (slot c).2 (some k)) c (join d i (join d j x y) z) (z.height + 2) := by
  obtain ⟨hbal, -, -, hx, hy⟩ := balanced_join.mp hY
  rw [height_join] at hheight
  have hheights : x.height = z.height ∧ y.height = z.height + 1 := by grind [Sonic.Dir.weight_cases]
  obtain ⟨k, u, v, rfl⟩ := exists_join d (t := y) fun he => by simp_all
  obtain ⟨-, hk, hk', hu, hv⟩ := balanced_join.mp hy
  obtain ⟨hndT, hndc, hout⟩ := around_nodup hnd
  obtain ⟨hij, hik, hjk, hparts⟩ := nodup_double hndT
  have hrep := (rep_plug.mp h).1
  have hlink : t.link (.cell j) d.other = some k :=
    (rep_join.mp (rep_join.mp (rep_join.mp hrep).2.1).2.2).1
  obtain ⟨bal, hbal', hbi, hbj, hbk, hbother⟩ :=
    rotateBalances_spec { t with link := doubleLinks t.link d i j k } d hij hik hjk hk hk'
  refine ⟨k, _, rotateNodes_eq hlink, ?_⟩
  rw [hbal']
  have hkeep : ∀ {s : BinaryTree Nat}, Balanced t.balance s → s ∈ [x, u, v, z] → Balanced bal s := by
    intro s hs hmem
    grind [Sonic.BalancedTree.Balanced.congr]
  have hi : i ∈ inorder (join d i (join d j x (join d k u v)) z) := mem_inorder_join.mpr (.inl rfl)
  have hjT : j ∈ inorder (join d i (join d j x (join d k u v)) z) := by simp [mem_inorder_join]
  have hkT : k ∈ inorder (join d i (join d j x (join d k u v)) z) := by simp [mem_inorder_join]
  have hkeepLinks : Keeps t.link (doubleLinks t.link d i j k) c :=
    ((((Keeps.refl _ _).set_cell (hout j hjT) _ _).set_cell (hout k hkT) _ _).set_cell (hout i hi) _ _).set_cell
    (hout k hkT) _ _
  refine ⟨fun a ha e => ?_, join d k (join d j x u) (join d i v z),
    ⟨?_, inorder_double d i j k x u v z, fun m hm => ?_, fun m hm e => ?_, rfl⟩,
    Balanced.double (hkeep hx (by simp)) hy (hkeep hu (by simp)) (hkeep hv (by simp)) (hkeep hz (by simp))
      hheights.1 hheights.2 hbi hbj hbk⟩
  · simp [doubleLinks, Links.set, ha i hi, ha j hjT, ha k hkT]
  · refine h.replace_slot hndc hkeepLinks (hrep.double hndT) fun m hm => hout m ?_
    rwa [inorder_double d i j k x u v z] at hm
  · exact hbother m (fun he => hm (he ▸ hi)) (fun he => hm (he ▸ hjT)) fun he => hm (he ▸ hkT)
  · rw [(inorder_plug_perm c _).mem_iff, List.mem_append, not_or] at hm
    have hmi : m ≠ i := fun he => hm.1 (he ▸ hi)
    have hmj : m ≠ j := fun he => hm.1 (he ▸ hjT)
    have hmk : m ≠ k := fun he => hm.1 (he ▸ hkT)
    refine (Links.set_of_ne (slot_of_not_mem hm.2).symm).trans ?_
    simp [doubleLinks, Links.set, hmi, hmj, hmk]

end

end Sonic.Avl
