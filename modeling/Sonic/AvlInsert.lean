import Mathlib.Data.List.Induction
import Sonic.AvlRotate
import Sonic.AvlSearch

/-! # Insertion

The walk to the place of a new item remembers the last node that is not even, and leaves at each
node the direction it took. Below that node everything is even, so there the new leaf tips each node
towards itself; at the node itself the tree is evened out, or rotated, and nothing above it changes. -/

namespace Sonic.Avl
open List Option Function

open BinaryTree BalancedTree

section
variable {α : Type*} {compare : α → α → Int} {t t' : AvlTree α} {c c₀ : List (Frame Nat)} {d : Dir} {i j n m : Nat}
variable {base : Addr} {x : α}

def Walk (t : AvlTree α) (c : List (Frame Nat)) (m : Nat) (base : Addr) : Prop :=
  ∃ (g : List (Frame Nat)) (f : Frame Nat) (c₀ : List (Frame Nat)), c = g ++ f :: c₀ ∧ f.value = m ∧
    (slot c₀).1 = base ∧
    (∀ f' ∈ g, t.balance f'.value = 0) ∧ (∀ f' ∈ g ++ [f], t.balanceNeeded f'.value = f'.dir) ∧
    (t.balance m ≠ 0 ∨ c₀ = [])

def AtNode (t : AvlTree α) (c : List (Frame Nat)) (m : Nat) (base : Addr) (i : Nat) : Prop :=
  (m = i ∧ base = (slot c).1 ∧ (t.balance i ≠ 0 ∨ c = [])) ∨ (Walk t c m base ∧ t.balance i = 0)

theorem mem_around_of_mem {f : Frame Nat} : ∀ {c : List (Frame Nat)}, f ∈ c → f.value ∈ around c
  | g :: c, h => by
    rcases List.mem_cons.mp h with rfl | h
    · exact mem_cons_self
    · exact mem_cons_of_mem _ (mem_append_right _ (mem_around_of_mem h))

theorem AtNode.walk (h : AtNode t c m base i) (hi : i ∉ around c) (v : BinaryTree Nat) :
    Walk (t.setBalanceNeeded i d) (⟨d, i, v⟩ :: c) m base := by
  have hself : (t.setBalanceNeeded i d).balanceNeeded i = d := update_self ..
  obtain ⟨rfl, rfl, hb⟩ | ⟨⟨g, f, c₀, rfl, hf, hbase, hzero, hneeded, hb⟩, hi0⟩ := h
  · refine ⟨[], ⟨d, m, v⟩, c, rfl, rfl, rfl, nofun, fun f' hf' => ?_, hb⟩
    grind
  · refine ⟨⟨d, i, v⟩ :: g, f, c₀, rfl, hf, hbase, List.forall_mem_cons.mpr ⟨hi0, hzero⟩, fun f' hf' => ?_, hb⟩
    rcases List.mem_cons.mp hf' with rfl | hf'
    · exact hself
    · have hmem : f' ∈ g ++ f :: c₀ := by
        rw [append_cons]
        exact mem_append_left _ hf'
      have hne : f'.value ≠ i := fun he => hi (he ▸ mem_around_of_mem hmem)
      exact (update_of_ne hne _ _).trans (hneeded f' hf')

theorem findLoop_leaf {fuel : Nat} (hd : side (avlCompareKey compare x (t.item i)) = some d)
    (hl : t.link (.cell i) d = none) : findLoop compare x (fuel + 1) t base m i =
      (avlNewNewNode (t.setBalanceNeeded i d)).map fun p =>
        (.added p.1 m base, p.2.setLink (.cell i) d (some p.1)) := by
  simp_all [AvlTree.item, findLoop, AvlTree.setBalanceNeeded]

theorem findLoop_down {fuel : Nat} (hd : side (avlCompareKey compare x (t.item i)) = some d)
    (hl : t.link (.cell i) d = some j) : findLoop compare x (fuel + 1) t base m i =
      if t.balance j ≠ 0 then findLoop compare x fuel (t.setBalanceNeeded i d) (.cell i) j j
      else findLoop compare x fuel (t.setBalanceNeeded i d) base m j := by
  rw [AvlTree.item] at hd
  simp only [findLoop, hd, AvlTree.setBalanceNeeded, hl]
  rfl

theorem findLoop_spec (ho : TotalOrder compare) :
    ∀ {fuel : Nat} {S : BinaryTree Nat} {c : List (Frame Nat)} {t : AvlTree α}
    {base : Addr} {m i : Nat}, Rep t.link (some i) S → Sorted compare t.item (inorder S) → S.height ≤ fuel →
    (inorder (plug c S)).Nodup → AtNode t c m base i → Between compare t.item x c →
    (∃ j needed, findLoop compare x fuel t base m i = some (.found j, { t with balanceNeeded := needed }) ∧
      j ∈ inorder S ∧ compare x (t.item j) = 0) ∨
    ∃ c' needed m' base', plug c' nil = plug c S ∧ Between compare t.item x c' ∧
      Walk { t with balanceNeeded := needed } c' m' base' ∧
      findLoop compare x fuel t base m i = (avlNewNewNode { t with balanceNeeded := needed }).map fun p =>
        (.added p.1 m' base', p.2.setLink (slot c').1 (slot c').2 (some p.1))
  | 0, S, _, _, _, _, _, hrep, _, hf, _, _, _ => by
    obtain ⟨l, r, rfl⟩ := hrep.of_some
    simp_all
  | fuel + 1, S, c, t, base, m, i, hrep, hs, hf, hnd, hat, hc => by
    have hside := side_spec compare x (t.item i)
    obtain ⟨l, r, rfl⟩ := hrep.of_some
    cases hd : side (avlCompareKey compare x (t.item i)) with
    | none =>
      rw [hd] at hside
      refine .inl ⟨i, t.balanceNeeded, ?_, mem_append_right _ mem_cons_self, hside⟩
      simp_all [AvlTree.item, findLoop]
    | some d =>
      obtain ⟨k, u, v, hS⟩ := exists_join d (t := node i l r) nofun
      rw [hS] at hrep hs hf hnd
      obtain ⟨hk, hu, -⟩ := rep_join.mp hrep
      cases hk
      have hiout := (around_nodup hnd).2.2 i (mem_inorder_join.mpr (.inl rfl))
      have hwalk := hat.walk (d := d) hiout v
      have hbetween := hc.cons ho hs hd
      have huf : u.height ≤ fuel := by
        rw [height_join] at hf
        omega
      rw [hS]
      cases hl : t.link (.cell i) d with
      | none =>
        rw [hl] at hu
        cases hu.nil_iff.mp rfl
        exact .inr ⟨⟨d, i, v⟩ :: c, _, m, base, rfl, hbetween, hwalk, findLoop_leaf hd hl⟩
      | some j =>
        rw [hl] at hu
        have hdown : ∀ {base' m'}, AtNode (t.setBalanceNeeded i d) (⟨d, i, v⟩ :: c) m' base' j → _ :=
          fun hat' => findLoop_spec ho (c := ⟨d, i, v⟩ :: c)
            (t := t.setBalanceNeeded i d) hu hs.child huf hnd hat' hbetween
        rw [findLoop_down hd hl]
        by_cases hb : t.balance j ≠ 0
        · rw [if_pos hb]
          exact (hdown (.inl ⟨rfl, rfl, .inl hb⟩)).imp_left fun ⟨k, needed, hfind, hk, hcmp⟩ =>
            ⟨k, needed, hfind, mem_inorder_join.mpr (.inr (.inl hk)), hcmp⟩
        · rw [if_neg hb]
          exact (hdown (.inr ⟨hwalk, not_not.mp hb⟩)).imp_left fun ⟨k, needed, hfind, hk, hcmp⟩ =>
            ⟨k, needed, hfind, mem_inorder_join.mpr (.inr (.inl hk)), hcmp⟩

/-! ## Balancing -/

theorem hole_append_concat {link : Links} (g : List (Frame Nat)) (f : Frame Nat) (h : CtxRep link (g ++ [f] ++ c)) :
    hole link c = some f.value := by
  rw [append_assoc] at h
  exact h.append.1

theorem balanceLoop_spec : ∀ {g : List (Frame Nat)} {fuel : Nat} {c : List (Frame Nat)} {t : AvlTree α},
    CtxRep t.link (g ++ c) → hole t.link (g ++ c) = some n → (∀ f ∈ g, t.balanceNeeded f.value = f.dir ∧ f.value ≠ n) →
    g.length < fuel → ∃ bal, balanceLoop n fuel t (hole t.link c) = some { t with balance := bal } ∧
      (∀ f ∈ g, bal f.value = f.dir.weight) ∧ ∀ k, (∀ f ∈ g, f.value ≠ k) → bal k = t.balance k := by
  intro g
  -- the loop runs from the outermost frame inwards
  induction g using List.reverseRecOn with
  | nil =>
    intro fuel c t _ hn _ hf
    obtain ⟨fuel, rfl⟩ := Nat.exists_eq_succ_of_ne_zero (Nat.ne_of_gt hf)
    rw [nil_append] at hn
    refine ⟨t.balance, ?_, nofun, fun _ _ => rfl⟩
    rw [balanceLoop, if_pos hn]
  | append_singleton g f ih =>
    intro fuel c t hctx hn hneeded hf
    obtain ⟨fuel, rfl⟩ := Nat.exists_eq_succ_of_ne_zero (Nat.ne_of_gt (Nat.zero_lt_of_lt hf))
    obtain ⟨hdir, hne⟩ := hneeded f (by simp)
    have hhole := hole_append_concat g f hctx
    rw [append_assoc] at hctx hn
    have hg : ∀ f' ∈ g, t.balanceNeeded f'.value = f'.dir ∧ f'.value ≠ n :=
      fun f' hf' => hneeded f' (mem_append_left _ hf')
    obtain ⟨bal, hloop, hset, hkeep⟩ := ih (t := t.setBalance f.value f.dir.weight) (c := f :: c) hctx hn hg
      (by simpa using hf)
    refine ⟨bal, ?_, fun f' hf' => ?_, fun k hk => ?_⟩
    · rw [hhole, balanceLoop, if_neg fun he => hne (Option.some.inj he), bind_some, hdir]
      exact hloop
    · by_cases hmem : f' ∈ g
      · exact hset f' hmem
      · have hf'f : f' = f := by simpa [hmem] using hf'
        subst hf'f
        -- the same node may not be met twice, and if it were its direction would be the same
        by_cases hval : ∃ f'' ∈ g, f''.value = f'.value
        · grind
        · rw [hkeep f'.value fun f'' hf'' hv => hval ⟨f'', hf'', hv⟩]
          exact update_self ..
    · rw [hkeep k fun f' hf' => hk f' (mem_append_left _ hf')]
      exact update_of_ne (Ne.symm (hk f (by simp))) _ _

theorem relink_eq (t' : AvlTree α) (top : Nat) (hctx : CtxRep t.link c) (hhole : hole t.link c = some i)
    (hi : i ∉ around c) (hsame : ∀ e, t'.link (slot c).1 e = t.link (slot c).1 e) :
    relink t' (slot c).1 i top = t'.setLink (slot c).1 (slot c).2 (some top) := by
  cases c with
  | nil => rw [relink, if_neg fun h => h.1 rfl]; rfl
  | cons f c =>
    cases hd : f.dir with
    | right =>
      have hright : t'.link (slot (f :: c)).1 .right = some i := by grind [hole, slot]
      grind [relink, slot]
    | left =>
      have hright : t'.link (slot (f :: c)).1 .right ≠ some i := by
        intro h
        have hsib := hctx.2.1
        rw [hd] at hsib
        rw [hsame] at h
        change t.link (.cell f.value) .right = some i at h
        rw [Dir.other, h] at hsib
        obtain ⟨l, r, he⟩ := hsib.of_some
        refine hi (mem_cons_of_mem _ (mem_append_left _ ?_))
        rw [he]
        exact mem_append_right _ mem_cons_self
      grind [relink, slot]

theorem tips_iff {b : Int} (hlo : -1 ≤ b) (hhi : b ≤ 1) (d : Dir) :
    ((d = .left ∧ b ≥ 0) ∨ (d = .right ∧ b ≤ 0)) ↔ b ≠ d.weight := by
  cases d with
  | left =>
    simp only [true_and, false_and, or_false, reduceCtorEq, Dir.weight]
    omega
  | right =>
    simp only [true_and, false_and, false_or, reduceCtorEq, Dir.weight]
    omega

section
variable {Y z : BinaryTree Nat} {h₀ : Nat}

theorem balanced_tip {bal : Nat → Int} (hnd : (inorder (plug c₀ (join d i Y z))).Nodup) (hY : Balanced bal Y)
    (hYh : Y.height = h₀ + 1) (hz : Balanced bal z) (hb : bal i = d.weight * (h₀ - z.height)) (hlo : -1 ≤ bal i)
    (hhi : bal i ≤ 1) (hc : PathBalanced bal c₀ (max h₀ z.height + 1)) (htop : bal i ≠ 0 ∨ c₀ = [])
    (hne : bal i ≠ d.weight) : Balanced (Function.update bal i (bal i + d.weight)) (plug c₀ (join d i Y z)) := by
  obtain ⟨hndT, -, hout⟩ := around_nodup hnd
  obtain ⟨hiY, hiz, -, -, -⟩ := nodup_join.mp hndT
  have hi := hout i (mem_inorder_join.mpr (.inl rfl))
  have hkeep : ∀ {l : List Nat}, i ∉ l → ∀ k ∈ l, Function.update bal i (bal i + d.weight) k = bal k :=
    fun hl k hk => update_of_ne (show k ≠ i from fun he => hl (he ▸ hk)) _ _
  have hw := d.weight_cases
  have hsum : bal i + d.weight = d.weight * (Y.height - z.height) := by grind
  have hsmall : -1 ≤ bal i + d.weight ∧ bal i + d.weight ≤ 1 := by
    rcases hw with hw | hw <;> rw [hw] at hne ⊢ <;> omega
  refine balanced_plug.mpr ⟨balanced_join.mpr ⟨?_, ?_, ?_, hY.congr (hkeep hiY), hz.congr (hkeep hiz)⟩, ?_⟩
  · grind
  · grind
  · grind
  · rcases htop with hne0 | rfl
    · grind [height_join, Sonic.BalancedTree.PathBalanced.congr]
    · trivial

theorem balance_rotates {j : Nat} {u v : BinaryTree Nat} {e : Dir} (he : e = d ∨ e = d.other)
    (hrep : Rep t.link (t.link .root .left) (plug c₀ (join d i (join e j u v) z)))
    (hnd : (inorder (plug c₀ (join d i (join e j u v) z))).Nodup) (hY : Balanced t.balance (join e j u v))
    (hj : t.balance j = e.weight) (hYh : (join e j u v).height = z.height + 2) (hz : Balanced t.balance z)
    (hc : PathBalanced t.balance c₀ (z.height + 2)) :
    ∃ t' T', ((t.link (.cell i) d).bind fun tempNode =>
      if t.balance tempNode = d.weight then
        some (relink (swapNodes t d i tempNode) (slot c₀).1 i tempNode)
      else (rotateNodes t d i tempNode).map fun p => relink p.2 (slot c₀).1 i p.1) = some t' ∧
      Reshaped t t' [] (plug c₀ (join d i (join e j u v) z)) T' ∧ Balanced t'.balance T' := by
  obtain ⟨hpart, hctx⟩ := rep_plug.mp hrep
  obtain ⟨hhole, hchild, -⟩ := rep_join.mp hpart
  obtain ⟨hlink, -, -⟩ := rep_join.mp hchild
  obtain ⟨-, -, hout⟩ := around_nodup hnd
  have hi := hout i (mem_inorder_join.mpr (.inl rfl))
  rw [hlink, bind_some]
  rcases he with rfl | rfl
  · have hrestored := swapNodes_restores hrep hnd hY hz hj hYh
    obtain ⟨T', hT', hbal⟩ := hrestored.balanced hnd hc
    have hj' := hout j (mem_inorder_join.mpr (.inr (.inl (mem_inorder_join.mpr (.inl rfl)))))
    rw [if_pos hj, relink_eq (swapNodes t e i j) j hctx hhole hi]
    · grind
    · intro e'
      exact (Links.set_of_ne (slot_of_not_mem hj')).trans (Links.set_of_ne (slot_of_not_mem hi))
  · rw [join_other] at hrep hnd hY hYh ⊢
    rw [Dir.weight_other] at hj
    rw [join_other] at hout
    obtain ⟨k, t₁, hrot, hsame, hrestored⟩ := rotateNodes_restores hrep hnd hY hz hj hYh
    obtain ⟨T', hT', hbal⟩ := hrestored.balanced hnd hc
    have hne : t.balance j ≠ d.weight := by
      rcases d.weight_cases with hw | hw <;> omega
    grind [relink_eq, slot_of_not_mem]

end

theorem mem_around_of_sibling {f : Frame Nat} {k : Nat} (hk : k ∈ inorder f.sibling) :
    ∀ {c : List (Frame Nat)}, f ∈ c → k ∈ around c
  | g :: c, h => by
    refine mem_cons_of_mem _ (List.mem_append.mpr ?_)
    rcases List.mem_cons.mp h with rfl | h
    · exact .inl hk
    · exact .inr (mem_around_of_sibling hk h)

theorem value_not_mem_sibling : ∀ {c : List (Frame Nat)}, (around c).Nodup → ∀ f ∈ c, ∀ f' ∈ c,
    f'.value ∉ inorder f.sibling
  | g :: c, hnd, f, hf, f', hf' => by
    obtain ⟨hg, hnd⟩ := List.nodup_cons.mp hnd
    obtain ⟨-, hndc, hdisj⟩ := nodup_append'.mp hnd
    rw [mem_append, not_or] at hg
    rcases List.mem_cons.mp hf with rfl | hfc
    · grind [mem_around_of_mem]
    · rcases List.mem_cons.mp hf' with rfl | hfc'
      · grind [mem_around_of_sibling]
      · exact value_not_mem_sibling hndc f hfc f' hfc'

theorem balanced_leaf {g : List (Frame Nat)} {bal bal' : Nat → Int} (hnd : (inorder (plug g (node n nil nil))).Nodup)
    (hg : PathBalanced bal g 0) (hn : bal n = 0) (hzero : ∀ f ∈ g, bal f.value = 0)
    (hset : ∀ f ∈ g, bal' f.value = f.dir.weight) (hkeep : ∀ k, (∀ f ∈ g, f.value ≠ k) → bal' k = bal k) :
    Balanced bal' (plug g (node n nil nil)) ∧ (plug g (node n nil nil)).height = plugHeight g 0 + 1 := by
  obtain ⟨-, hndg, hout⟩ := around_nodup hnd
  have hsib : ∀ f ∈ g, bal' f.value = f.dir.weight ∧ ∀ k ∈ inorder f.sibling, bal' k = bal k := fun f hf =>
    ⟨hset f hf, fun k hk => hkeep k fun f' hf' he => value_not_mem_sibling hndg f hf f' hf' (he ▸ hk)⟩
  have hn' : bal' n = 0 := by
    rw [hkeep n fun f hf he => hout n (List.mem_singleton.mpr rfl) (he ▸ mem_around_of_mem hf), hn]
  obtain ⟨hgrown, hheight⟩ := hg.grow hzero hsib
  refine ⟨balanced_plug.mpr ⟨?_, hgrown⟩, (height_plug g _).trans hheight⟩
  exact ⟨hn'.trans rfl, by omega, by omega, trivial, trivial⟩

theorem balance_spec {maxDepth : Nat} (hrep : Rep t.link (t.link .root .left) (plug c (node n nil nil)))
    (hnd : (inorder (plug c (node n nil nil))).Nodup) (hn : t.balance n = 0) (hc : PathBalanced t.balance c 0)
    (hwalk : Walk t c m base) (hdepth : c.length ≤ maxDepth) :
    ∃ t' T', balance maxDepth t n m base (t.balanceNeeded m) = some t' ∧
      Reshaped t t' [] (plug c (node n nil nil)) T' ∧ Balanced t'.balance T' := by
  obtain ⟨g, f, c₀, rfl, rfl, rfl, hzero, hneeded, htop⟩ := hwalk
  obtain ⟨hg, hb, hlo, hhi, hz, hc₀⟩ := pathBalanced_append.mp hc
  obtain ⟨hleaf, hctx⟩ := rep_plug.mp hrep
  have hnout := (around_nodup hnd).2.2 n (List.mem_singleton.mpr rfl)
  have hfuel : g.length < maxDepth := by grind
  obtain ⟨bal, hloop, hset, hkeep⟩ := balanceLoop_spec (n := n) hctx hleaf.1
    (fun f' hf' => ⟨hneeded f' (mem_append_left _ hf'),
      fun he => hnout (he ▸ mem_around_of_mem (mem_append_left _ hf'))⟩) hfuel
  rw [plug_append] at hrep hnd ⊢
  obtain ⟨hndY, -, hout⟩ := around_nodup hnd
  obtain ⟨hY, hYh⟩ := balanced_leaf hndY hg hn hzero hset hkeep
  have hvalue : ∀ f' ∈ g, f'.value ∈ inorder (plug g (node n nil nil)) := fun f' hf' =>
    (inorder_plug_perm g _).mem_iff.mpr (mem_append_right _ (mem_around_of_mem hf'))
  have hkeep' : ∀ k ∈ around (f :: c₀), bal k = t.balance k := fun k hk =>
    hkeep k fun f' hf' he => hout k (he ▸ hvalue f' hf') hk
  have hkeepf : bal f.value = t.balance f.value := hkeep' f.value mem_cons_self
  have hzbal : Balanced bal f.sibling :=
    hz.congr fun k hk => hkeep' k (mem_cons_of_mem _ (mem_append_left _ hk))
  have hc₀bal : PathBalanced bal c₀ (max (plugHeight g 0) f.sibling.height + 1) :=
    hc₀.congr fun k hk => hkeep' k (mem_cons_of_mem _ (mem_append_right _ hk))
  -- the loop itself leaves the links alone
  have hreshaped : Reshaped t { t with balance := bal } [] (plug (f :: c₀) (plug g (node n nil nil))) _ :=
    Reshaped.of_balance (c := []) hrep fun k hk => hkeep k fun f' hf' he => hk (he ▸
      (inorder_plug_perm _ _).mem_iff.mpr (mem_append_left _ (hvalue f' hf')))
  rw [balance, hneeded f (by simp)]
  change ∃ t' T', ((balanceLoop n maxDepth t (hole t.link (f :: c₀))).bind _) = some t' ∧ _
  rw [hloop, bind_some]
  rw [← hkeepf] at hb hlo hhi htop
  by_cases hlean : bal f.value ≠ f.dir.weight
  · rw [if_pos ((tips_iff hlo hhi f.dir).mpr hlean)]
    refine ⟨_, _, rfl, hreshaped.trans (Reshaped.of_balance (c := []) hrep fun k hk => ?_), ?_⟩
    · refine update_of_ne (fun he => hk ?_) _ _
      rw [he]
      exact (inorder_plug_perm _ _).mem_iff.mpr (mem_append_right _ mem_cons_self)
    · exact balanced_tip hnd hY hYh hzbal hb hlo hhi hc₀bal htop hlean
  · rw [if_neg fun h => hlean ((tips_iff hlo hhi f.dir).mp h)]
    rw [not_not] at hlean
    have hh : plugHeight g 0 = f.sibling.height + 1 := by
      rw [hlean] at hb
      rcases f.dir.weight_cases with hw | hw <;> rw [hw] at hb <;> omega
    -- there is a node between the leaf and the one that leans
    obtain rfl | ⟨g', f', rfl⟩ := eq_nil_or_concat' g
    · exact absurd hh (Nat.succ_ne_zero _).symm
    · rw [plug_append] at hrep hnd hY hYh hreshaped ⊢
      have hside : f'.dir = f.dir ∨ f'.dir = f.dir.other :=
        (em (f'.dir = f.dir)).imp_right Dir.eq_other_of_ne
      obtain ⟨t', T', ht', hT', hbal⟩ := balance_rotates (t := { t with balance := bal }) hside hrep hnd hY
        (hset f' (by simp))
        (hYh.trans (congrArg Nat.succ hh)) hzbal (by
          grind)
      exact ⟨t', T', ht', hreshaped.trans hT', hbal⟩

theorem Walk.congr (h : Walk t c m base) (hbal : ∀ k ∈ around c, t'.balance k = t.balance k)
    (hneeded : t'.balanceNeeded = t.balanceNeeded) : Walk t' c m base := by
  obtain ⟨g, f, c₀, rfl, rfl, hbase, hzero, hdir, htop⟩ := h
  refine ⟨g, f, c₀, rfl, rfl, hbase, fun f' hf' => ?_, fun f' hf' => ?_, ?_⟩ <;> simp_all [mem_around_of_mem]

def takeNode (t : AvlTree α) (n item : Nat) : AvlTree α :=
  { t with
    currentTableHeap := t.link (.cell n) .right
    data := Function.update t.data n item
    count := t.count + 1 }

def leafLinks (link : Links) (c : List (Frame Nat)) (n : Nat) : Links :=
  Links.set (Links.set (Links.set link (slot c).1 (slot c).2 (some n)) (.cell n) .left none) (.cell n) .right none

theorem rep_leafLinks {link : Links} (hrep : Rep link (link .root .left) (plug c nil))
    (hnd : (inorder (plug c nil)).Nodup)
    (hn : n ∉ around c) : Rep (leafLinks link c n) (leafLinks link c n .root .left) (plug c (node n nil nil)) := by
  have hslot := slot_of_not_mem hn
  refine hrep.replace (around_nodup hnd).2.1 ((((Keeps.refl _ _).set_slot _).set_cell hn _ _).set_cell hn _ _) ?_
  refine ⟨?_, ?_, ?_⟩
  · simp_all [hole, leafLinks, Links.set_of_ne]
  · rw [leafLinks, Links.set_of_ne_dir (by decide), Links.set_self]
    rfl
  · rw [leafLinks, Links.set_self]
    rfl

def withLeaf (t : AvlTree α) (c : List (Frame Nat)) (n item : Nat) : AvlTree α :=
  { takeNode t n item with link := leafLinks t.link c n, balance := Function.update t.balance n 0 }

theorem leafLinks_of_ne {link : Links} {k : Nat} (hk : k ∉ around c) (hkn : k ≠ n) (e : Dir) :
    leafLinks link c n (.cell k) e = link (.cell k) e := by
  have hne : Addr.cell k ≠ .cell n := fun he => hkn (Addr.cell.inj he)
  rw [leafLinks, Links.set_of_ne hne, Links.set_of_ne hne, Links.set_of_ne (slot_of_not_mem hk).symm]

structure Placed (t t' : AvlTree α) (n item : Nat) (smaller greater : List Nat) (T' : BinaryTree Nat) : Prop where
  rep : Rep t'.link (t'.link .root .left) T'
  inorder_eq : inorder T' = smaller ++ n :: greater
  balanced : Balanced t'.balance T'
  link_eq : ∀ k ∉ inorder T', ∀ d, t'.link (.cell k) d = t.link (.cell k) d
  rest : SameRest (takeNode t n item) t'

theorem avlFindEntry_spec (ho : TotalOrder compare) {T : BinaryTree Nat} {maxDepth : Nat}
    (hrep : Rep t.link (t.link .root .left) T) (hnd : (inorder T).Nodup) (hbal : Balanced t.balance T)
    (hs : Sorted compare t.item (inorder T)) (hd : T.height ≤ maxDepth) (item : Nat) :
    (∃ j needed, avlFindEntry compare maxDepth t item = some (t.data j, { t with balanceNeeded := needed }) ∧
      j ∈ inorder T ∧ compare (t.items item) (t.item j) = 0) ∨
    ∃ smaller greater, inorder T = smaller ++ greater ∧ (∀ j ∈ smaller, 0 < compare (t.items item) (t.item j)) ∧
      (∀ j ∈ greater, compare (t.items item) (t.item j) < 0) ∧ ∀ n, t.currentTableHeap = some n → n ∉ inorder T →
      ∃ t' T', avlFindEntry compare maxDepth t item = some (item, t') ∧ Placed t t' n item smaller greater T' := by
  cases T with
  | nil =>
    refine .inr ⟨[], [], rfl, nofun, nofun, fun n hn _ => ⟨withLeaf t [] n item, node n nil nil, ?_, ?_⟩⟩
    · rw [avlFindEntry, hrep, avlNewNewNode, hn]
      rfl
    · refine ⟨rep_leafLinks (c := []) hrep hnd nofun, rfl, ?_, fun k hk e => ?_, rfl⟩
      · exact ⟨update_self .., by simp [withLeaf], by simp [withLeaf], trivial, trivial⟩
      · exact leafLinks_of_ne (c := []) nofun (fun he => hk (List.mem_singleton.mpr he)) e
  | node i l r =>
    have hroot := hrep.1
    have hrep' : Rep t.link (some i) (node i l r) := hroot ▸ hrep
    rcases findLoop_spec (x := t.items item) ho (c := []) hrep' hs hd hnd (.inl ⟨rfl, rfl, .inr rfl⟩)
      ⟨nofun, nofun⟩ with
      ⟨j, needed, hfind, hj, hcmp⟩ | ⟨c, needed, m, base, hplug, hbetween, hwalk, hfind⟩
    · grind [avlFindEntry, slot]
    · rw [plug] at hplug
      rw [← hplug] at hrep hnd hbal hd ⊢
      refine .inr ⟨before c, after c, inorder_plug c nil, hbetween.1, hbetween.2, fun n hn hnT => ?_⟩
      have hnc : n ∉ around c := fun h => hnT ((inorder_plug_perm c nil).mem_iff.mpr h)
      have hperm := inorder_plug_perm c (node n nil nil)
      have hnd' : (inorder (plug c (node n nil nil))).Nodup :=
        hperm.nodup_iff.mpr (List.nodup_cons.mpr ⟨hnc, (around_nodup hnd).2.1⟩)
      have hnew : ∀ k ∈ around c, Function.update t.balance n 0 k = t.balance k :=
        fun k hk => update_of_ne (show k ≠ n from fun he => hnc (he ▸ hk)) _ _
      have hlength : c.length ≤ maxDepth := by grind [height_plug, length_le_plugHeight]
      obtain ⟨t', T', hbalance, hreshaped, hbal'⟩ := balance_spec
        (t := withLeaf { t with balanceNeeded := needed } c n item) (rep_leafLinks hrep hnd hnc) hnd' (update_self ..)
        ((balanced_plug.mp hbal).2.congr hnew) (hwalk.congr hnew rfl) hlength
      refine ⟨t', T', ?_, hreshaped.rep, ?_, hbal', fun k hk e => ?_, ?_⟩
      · rw [avlFindEntry, hroot]
        simp only [slot] at hfind
        simp only [hfind, avlNewNewNode, hn, map_some, bind_some]
        exact Option.map_eq_some_iff.mpr ⟨t', hbalance, rfl⟩
      · rw [hreshaped.inorder_eq]
        exact inorder_plug c _
      · rw [hreshaped.inorder_eq] at hk
        rw [hreshaped.link_eq k hk e]
        change k ∉ inorder (plug c (node n nil nil)) at hk
        rw [hperm.mem_iff, mem_append, not_or] at hk
        exact leafLinks_of_ne hk.2 (fun he => hk.1 (List.mem_singleton.mpr he)) e
      · grind [SameRest, takeNode, withLeaf, hreshaped.rest]

end

end Sonic.Avl
