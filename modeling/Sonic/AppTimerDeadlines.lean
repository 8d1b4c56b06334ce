import Mathlib.Data.List.Nodup
import Sonic.AppTimer

/-! # Timers meet their deadlines

While the time from one return of `appTimerProcess` to the next and the longest timeout are together
below half the range of the clock, all pending deadlines are within half that range, so that the
signed difference orders them; and a wrap of the clock shows as a time below `prevTime`. -/

namespace Sonic.AppTimer
open List Function

variable {h d timeOut : Nat} {node n : TimerNode} {s t : Sys} {blk : CtrlBlk}

/-! ## Lists and deadlines -/

def key (pend : Nat → Option Nat) (n : TimerNode) : Nat := (pend n.handle).getD 0

theorem key_update_ne {pend : Nat → Option Nat} (hn : n.handle ≠ h) (v : Option Nat) :
    key (Function.update pend h v) n = key pend n := by rw [key, key, update_of_ne hn]

theorem key_update_self (pend : Nat → Option Nat) (n : TimerNode) (d : Nat) :
    key (Function.update pend n.handle (some d)) n = d := by simp [key]

theorem appTimerCompare_eq {a b : TimerNode} {x y : Nat} (ha : a.expiryTime = x % 2 ^ 32)
    (hb : b.expiryTime = y % 2 ^ 32) (hxy : x < y + 2 ^ 31) (hyx : y < x + 2 ^ 31) :
    appTimerCompare a b = (x : Int) - y := by
  unfold appTimerCompare
  rw [ha, hb]
  dsimp only
  split <;> omega

structure Held (lo hi : Nat) (pend : Nat → Option Nat) (l : List TimerNode) : Prop where
  nodup : (l.map TimerNode.handle).Nodup
  mem : ∀ h, h ∈ l.map TimerNode.handle ↔ (pend h).isSome = true
  word : ∀ n ∈ l, n.expiryTime = key pend n % 2 ^ 32
  range : ∀ h d, pend h = some d → lo < d ∧ d ≤ hi

section
variable {lo hi : Nat} {pend : Nat → Option Nat} {l l' : List TimerNode}

theorem Held.pending (hl : Held lo hi pend l) (hn : n ∈ l) : pend n.handle = some (key pend n) := by
  obtain ⟨d, hd⟩ := Option.isSome_iff_exists.mp ((hl.mem n.handle).mp (List.mem_map_of_mem hn)) <;> simp_all [key]

theorem Held.perm (hl : Held lo hi pend l) (hp : l'.Perm l) : Held lo hi pend l' :=
  ⟨(hp.map _).nodup_iff.mpr hl.nodup, fun h => (hp.map _).mem_iff.trans (hl.mem h),
    fun n hn => hl.word n (hp.mem_iff.mp hn), hl.range⟩

theorem Held.ne_of_mem (hl : Held lo hi pend l) (hnone : pend h = none) (hn : n ∈ l) :
    n.handle ≠ h := by
  rintro rfl
  rw [hl.pending hn] at hnone
  cases hnone

theorem Held.cons (hl : Held lo hi pend l) (hnone : pend node.handle = none)
    (hw : node.expiryTime = d % 2 ^ 32) (hlo : lo < d) (hhi : d ≤ hi) :
    Held lo hi (Function.update pend node.handle (some d)) (node :: l) := by
  refine ⟨?_, fun h => ?_, fun n hn => ?_, fun h d' hd' => ?_⟩
  · simp_all [hl.mem, hl.nodup]
  · rw [map_cons, mem_cons, hl.mem]
    by_cases he : h = node.handle <;> simp_all
  · rcases List.mem_cons.mp hn with rfl | hn
    · rw [key_update_self, hw]
    · rw [key_update_ne (hl.ne_of_mem hnone hn), hl.word n hn]
  · by_cases he : h = node.handle
    · simp_all
    · rw [update_of_ne he] at hd'
      exact hl.range h d' hd'

theorem Held.erase (hl : Held lo hi pend l) (hsub : l'.Sublist l)
    (hmem : ∀ n, n ∈ l' ↔ n ∈ l ∧ n.handle ≠ h) : Held lo hi (Function.update pend h none) l' := by
  refine ⟨(hsub.map _).nodup hl.nodup, fun h' => ?_, fun n hn => ?_, fun h' d hd => ?_⟩
  · by_cases he : h' = h
    · simp_all
    · grind [hl.mem]
  · grind [key_update_ne, hl.word]
  · by_cases he : h' = h
    · grind
    · rw [update_of_ne he] at hd
      exact hl.range h' d hd

theorem Held.ascends (hl : Held lo hi pend l) (hclose : hi < lo + 2 ^ 31) (hn : node ∈ l)
    (hsub : ∀ m ∈ l', m ∈ l) : Sll.Ascends appTimerCompare (key pend) node l' := by
  intro m hm
  have hkm := hl.range _ _ (hl.pending (hsub m hm))
  have hkn := hl.range _ _ (hl.pending hn)
  have hc := appTimerCompare_eq (hl.word m (hsub m hm)) (hl.word node hn) (by omega) (by omega)
  omega

end

structure Lists (epoch lo hi : Nat) (pend : Nat → Option Nat) (tmr wrap : List TimerNode) : Prop
    extends Held lo hi pend (tmr ++ wrap) where
  tmrKey : ∀ n ∈ tmr, epoch ≤ key pend n ∧ key pend n < epoch + 2 ^ 32
  wrapKey : ∀ n ∈ wrap, epoch + 2 ^ 32 ≤ key pend n
  tmrSorted : tmr.Pairwise (key pend · ≤ key pend ·)
  wrapSorted : wrap.Pairwise (key pend · ≤ key pend ·)

section
variable {epoch lo hi : Nat} {pend : Nat → Option Nat} {tmr wrap tmr' wrap' : List TimerNode}

theorem pairwise_update {l : List TimerNode} (hne : ∀ n ∈ l, n.handle ≠ h) (v : Option Nat)
    (hl : l.Pairwise (key pend · ≤ key pend ·)) :
    l.Pairwise (key (Function.update pend h v) · ≤ key (Function.update pend h v) ·) := by
  grind [List.Pairwise.imp_of_mem, key_update_ne]

theorem Lists.erase (hl : Lists epoch lo hi pend tmr wrap) (ht : tmr'.Sublist tmr) (hw : wrap'.Sublist wrap)
    (hmem : ∀ n, n ∈ tmr' ++ wrap' ↔ n ∈ tmr ++ wrap ∧ n.handle ≠ h) :
    Lists epoch lo hi (Function.update pend h none) tmr' wrap' := by
  have htmr : ∀ n ∈ tmr', n.handle ≠ h := fun n hn => ((hmem n).mp (mem_append_left _ hn)).2
  have hwrap : ∀ n ∈ wrap', n.handle ≠ h := fun n hn => ((hmem n).mp (mem_append_right _ hn)).2
  refine ⟨hl.toHeld.erase (ht.append hw) hmem, fun n hn => ?_, fun n hn => ?_, ?_, ?_⟩
  · rw [key_update_ne (htmr n hn)]
    exact hl.tmrKey n (ht.subset hn)
  · rw [key_update_ne (hwrap n hn)]
    exact hl.wrapKey n (hw.subset hn)
  · exact pairwise_update htmr none (hl.tmrSorted.sublist ht)
  · exact pairwise_update hwrap none (hl.wrapSorted.sublist hw)

section
variable (hl : Lists epoch lo hi pend tmr wrap) (hclose : hi < lo + 2 ^ 31) {node : TimerNode} {d : Nat}
  (hnone : pend node.handle = none) (hw : node.expiryTime = d % 2 ^ 32) (hlo : lo < d) (hhi : d ≤ hi)
include hl hclose hnone hw hlo hhi

theorem Lists.addTmr (hge : epoch ≤ d) (hlt : d < epoch + 2 ^ 32) :
    Lists epoch lo hi (Function.update pend node.handle (some d)) (Sll.add appTimerCompare node tmr) wrap := by
  have hheld := (hl.toHeld.cons hnone hw hlo hhi).perm ((Sll.perm_add appTimerCompare node tmr).append_right wrap)
  have hne : ∀ n ∈ tmr ++ wrap, n.handle ≠ node.handle := fun n hn => hl.toHeld.ne_of_mem hnone hn
  have htmr : ∀ n ∈ tmr, n.handle ≠ node.handle := fun n hn => hne n (mem_append_left _ hn)
  have hwrap : ∀ n ∈ wrap, n.handle ≠ node.handle := fun n hn => hne n (mem_append_right _ hn)
  refine ⟨hheld, fun n hn => ?_, fun n hn => ?_, ?_, pairwise_update hwrap _ hl.wrapSorted⟩
  · rcases Sll.mem_add.mp hn with rfl | hn
    · rw [key_update_self]
      exact ⟨hge, hlt⟩
    · rw [key_update_ne (htmr n hn)]
      exact hl.tmrKey n hn
  · rw [key_update_ne (hwrap n hn)]
    exact hl.wrapKey n hn
  · exact Sll.pairwise_add (hheld.ascends hclose (mem_append_left _ (Sll.mem_add.mpr (.inl rfl)))
      fun m hm => mem_append_left _ (Sll.mem_add.mpr (.inr hm))) (pairwise_update htmr _ hl.tmrSorted)

theorem Lists.addWrap (hge : epoch + 2 ^ 32 ≤ d) :
    Lists epoch lo hi (Function.update pend node.handle (some d)) tmr (Sll.add appTimerCompare node wrap) := by
  have hheld := (hl.toHeld.cons hnone hw hlo hhi).perm
    (((Sll.perm_add appTimerCompare node wrap).append_left tmr).trans perm_middle)
  have hne : ∀ n ∈ tmr ++ wrap, n.handle ≠ node.handle := fun n hn => hl.toHeld.ne_of_mem hnone hn
  have htmr : ∀ n ∈ tmr, n.handle ≠ node.handle := fun n hn => hne n (mem_append_left _ hn)
  have hwrap : ∀ n ∈ wrap, n.handle ≠ node.handle := fun n hn => hne n (mem_append_right _ hn)
  refine ⟨hheld, fun n hn => ?_, fun n hn => ?_, pairwise_update htmr _ hl.tmrSorted, ?_⟩
  · rw [key_update_ne (htmr n hn)]
    exact hl.tmrKey n hn
  · rcases Sll.mem_add.mp hn with rfl | hn
    · rw [key_update_self]
      exact hge
    · rw [key_update_ne (hwrap n hn)]
      exact hl.wrapKey n hn
  · exact Sll.pairwise_add (hheld.ascends hclose (mem_append_right _ (Sll.mem_add.mpr (.inl rfl)))
      fun m hm => mem_append_right _ (Sll.mem_add.mpr (.inr hm))) (pairwise_update hwrap _ hl.wrapSorted)

end

theorem Lists.nextEpoch (hl : Lists epoch lo hi pend [] wrap) (hclose : hi < epoch + 2 ^ 32 + 2 ^ 32) :
    Lists (epoch + 2 ^ 32) lo hi pend wrap [] := by
  have hheld : Held lo hi pend (wrap ++ []) := hl.toHeld.perm (by simp_all)
  refine ⟨hheld, fun n hn => ⟨hl.wrapKey n hn, ?_⟩, fun n hn => absurd hn not_mem_nil, hl.wrapSorted, hl.tmrSorted⟩
  have hk := hl.range _ _ (hl.toHeld.pending hn)
  omega

theorem Lists.pop (hl : Lists epoch lo hi pend (node :: tmr) wrap) :
    Lists epoch lo hi (Function.update pend node.handle none) tmr wrap := by
  refine hl.erase (sublist_cons_self node tmr) (List.Sublist.refl _) fun n => ?_
  have hnd := hl.nodup
  grind

theorem Lists.later (hl : Lists epoch lo hi pend tmr wrap) {lo' hi' : Nat} (hlo : ∀ n ∈ tmr ++ wrap, lo' < key pend n)
    (hhi : hi ≤ hi') : Lists epoch lo' hi' pend tmr wrap := by
  refine ⟨⟨hl.nodup, hl.mem, hl.word, fun h d hd => ⟨?_, (hl.range h d hd).2.trans hhi⟩⟩, hl.tmrKey, hl.wrapKey,
    hl.tmrSorted, hl.wrapSorted⟩
  obtain ⟨n, hn, rfl⟩ := List.mem_map.mp ((hl.mem h).mpr (by rw [hd]; rfl))
  grind [key]

theorem Lists.takeNode {blk' : CtrlBlk} (hl : Lists epoch lo hi pend blk.tmrList blk.wrapTmrList) (ht : takeNode blk h = some (node, blk')) :
    node.handle = h ∧ blk'.type = blk.type ∧ blk'.prevTime = blk.prevTime ∧
      Lists epoch lo hi (Function.update pend h none) blk'.tmrList blk'.wrapTmrList := by
  have hnd := List.nodup_append.mp (map_append ▸ hl.nodup)
  -- the node is in one list, and then no node of the other has its handle
  have herase : ∀ {l : List TimerNode}, (l.map TimerNode.handle).Nodup → node ∈ l → node.handle = h →
      ∀ n, n ∈ l.eraseP (·.handle = h) ↔ n ∈ l ∧ n.handle ≠ h := by
    intro l hn hmem hh n
    rw [Sll.mem_eraseP_of_nodup hn hmem hh]
    refine and_congr_right fun hn' => not_congr ⟨fun he => he ▸ hh, fun he => ?_⟩
    grind [inj_on_of_nodup_map]
  unfold AppTimer.takeNode at ht
  split at ht
  · rename_i n l hr
    cases ht
    obtain ⟨hmem, hh, rfl⟩ := Sll.nodeRemove_eq_some hr
    have hh : node.handle = h := by simpa using hh
    refine ⟨hh, rfl, rfl, hl.erase eraseP_sublist (List.Sublist.refl _) fun n => ?_⟩
    rw [mem_append, mem_append, herase hnd.1 hmem hh, or_and_right]
    refine or_congr_right ⟨fun hn => ⟨hn, fun he => ?_⟩, And.left⟩
    grind [List.mem_map_of_mem]
  · rename_i hnone
    split at ht
    · rename_i n l hr
      cases ht
      obtain ⟨hmem, hh, rfl⟩ := Sll.nodeRemove_eq_some hr
      have hh : node.handle = h := by simpa using hh
      refine ⟨hh, rfl, rfl, hl.erase (List.Sublist.refl _) eraseP_sublist fun n => ?_⟩
      rw [mem_append, mem_append, herase hnd.2.1 hmem hh, or_and_right]
      refine or_congr_left ⟨fun hn => ⟨hn, fun he => ?_⟩, And.left⟩
      grind [Sll.nodeRemove_eq_none]
    · cases ht

theorem Lists.takeNode_isSome (hl : Lists epoch lo hi pend blk.tmrList blk.wrapTmrList)
    (hp : (pend h).isSome = true) : ∃ r, AppTimer.takeNode blk h = some r := by
  obtain ⟨n, hn, rfl⟩ := List.mem_map.mp ((hl.mem h).mpr hp)
  unfold AppTimer.takeNode
  split
  · exact ⟨_, rfl⟩
  · rename_i hnone
    split <;> grind [Sll.nodeRemove_eq_none]

end

/-! ## What happened so far -/

structure History (s : Sys) : Prop where
  fresh : ∀ h, (s.pending h).isSome = true → h < s.fresh
  expired : ∀ x ∈ s.expired, x.handle < s.fresh ∧ s.pending x.handle = none ∧ ∃ d, x.deadline = some d ∧ d ≤ x.time
  once : (s.expired.map Expiry.handle).Nodup
  deleted : ∀ h ∈ s.deleted, h < s.fresh ∧ s.pending h = none ∧ h ∉ s.expired.map Expiry.handle

theorem History.start (hs : History s) (hh : h = s.fresh ∨ (s.pending h).isSome = true)
    (hf : t.fresh = s.fresh + 1) (hp : t.pending = Function.update s.pending h (some d)) (he : t.expired = s.expired)
    (hd : t.deleted = s.deleted) : History t := by
  have hlt : h < t.fresh := by
    rcases hh with rfl | hh
    · omega
    · have := hs.fresh h hh
      omega
  -- a handle that expired or was deleted is another one
  have hne : ∀ {x}, x < s.fresh → s.pending x = none → x ≠ h := by grind
  refine ⟨fun x hx => ?_, fun x hx => ?_, by rw [he]; exact hs.once, fun x hx => ?_⟩
  · by_cases hxh : x = h
    · rwa [hxh]
    · rw [hp, update_of_ne hxh] at hx
      have := hs.fresh x hx
      omega
  · rw [he] at hx
    obtain ⟨h₁, h₂, h₃⟩ := hs.expired x hx
    rw [hp, update_of_ne (hne h₁ h₂)]
    grind
  · rw [hd] at hx
    obtain ⟨h₁, h₂, h₃⟩ := hs.deleted x hx
    rw [hp, update_of_ne (hne h₁ h₂), he]
    grind

theorem History.expire (hs : History s) (hd : s.pending node.handle = some d)
    (hle : d ≤ s.now) : History (s.expire node) := by
  have hnode : node.handle < s.fresh := hs.fresh _ (by rw [hd]; rfl)
  have hne : ∀ {x}, s.pending x = none → x ≠ node.handle := by grind
  have hold : ∀ x ∈ s.expired, x.handle < s.fresh ∧ Function.update s.pending node.handle none x.handle = none ∧
      ∃ d, x.deadline = some d ∧ d ≤ x.time := by
    intro x hx
    obtain ⟨h₁, h₂, h₃⟩ := hs.expired x hx
    grind
  refine ⟨fun x hx => ?_, fun x hx => ?_, ?_, fun x hx => ?_⟩
  · dsimp only [Sys.expire] at hx ⊢
    by_cases hxh : x = node.handle
    · rwa [hxh]
    · simp_all [hs.fresh]
  · dsimp only [Sys.expire] at hx ⊢
    grind
  · dsimp only [Sys.expire]
    split <;> simp_all [nodup_append_comm, hs.once, hs.expired]
  · obtain ⟨h₁, h₂, h₃⟩ := hs.deleted x hx
    dsimp only [Sys.expire]
    rw [update_of_ne (hne h₂)]
    refine ⟨h₁, h₂, ?_⟩
    split <;> simp_all

theorem History.delete (hs : History s) (hh : (s.pending h).isSome = true)
    (hf : t.fresh = s.fresh) (hp : t.pending = Function.update s.pending h none) (he : t.expired = s.expired)
    (hd : t.deleted = s.deleted ++ [h]) : History t := by
  have hne : ∀ {x}, s.pending x = none → x ≠ h := by grind
  refine ⟨fun x hx => ?_, fun x hx => ?_, by rw [he]; exact hs.once, fun x hx => ?_⟩
  · by_cases hxh : x = h <;> simp_all [hs.fresh]
  · rw [he] at hx
    obtain ⟨h₁, h₂, h₃⟩ := hs.expired x hx
    simp_all
  · rw [hd] at hx
    rw [hf, hp, he]
    rcases List.mem_append.mp hx with hx | hx
    · obtain ⟨h₁, h₂, h₃⟩ := hs.deleted x hx
      grind
    · simp_all [hs.fresh, hs.expired]

structure InvAt (timeOutMax gapMax epoch : Nat) (s : Sys) : Prop where
  lists : Lists epoch s.returned (s.returned + gapMax + timeOutMax) s.pending s.blk.tmrList s.blk.wrapTmrList
  history : History s
  whole : 2 ^ 32 ∣ epoch
  prev : s.blk.prevTime < 2 ^ 32
  late : s.returned ≤ epoch + s.blk.prevTime
  past : epoch + s.blk.prevTime ≤ s.now
  now : s.now ≤ s.returned + gapMax
  wrapped : s.phase = .wrapped → epoch + 2 ^ 32 ≤ s.now

section
variable {timeOutMax gapMax epoch : Nat} {s : Sys}

theorem InvAt.advance (hs : InvAt timeOutMax gapMax epoch s) {msec : Nat} (h : s.now + msec ≤ s.returned + gapMax) :
    InvAt timeOutMax gapMax epoch { s with now := s.now + msec } := by
  have hpast := hs.past
  refine ⟨hs.lists, ⟨hs.history.fresh, hs.history.expired, hs.history.once, hs.history.deleted⟩, hs.whole, hs.prev,
    hs.late, ?_, h, fun hw => ?_⟩
  · grind
  · have := hs.wrapped hw
    grind

theorem InvAt.replace (hs : InvAt timeOutMax gapMax epoch s)
    (hl : Lists epoch s.returned (s.returned + gapMax + timeOutMax) t.pending t.blk.tmrList t.blk.wrapTmrList)
    (hh : History t) (hp : t.blk.prevTime = s.blk.prevTime) (hn : t.now = s.now) (hr : t.returned = s.returned)
    (hw : t.phase = .wrapped → epoch + 2 ^ 32 ≤ s.now) : InvAt timeOutMax gapMax epoch t := by
  refine ⟨hr ▸ hl, hh, hs.whole, hp ▸ hs.prev, ?_, ?_, ?_, fun h => hn ▸ hw h⟩ <;> simp_all [hs.late, hs.past, hs.now]

end

theorem placeNode_prevTime (blk : CtrlBlk) (currTime : Nat) (node : TimerNode) :
    (placeNode blk currTime node).prevTime = blk.prevTime := by
  unfold placeNode
  split <;> rfl

theorem timeOut_pos (h : 1 ≤ timeOut) (g : Granularity) : 1 ≤ timeOut * g.msec :=
  Nat.mul_pos h (by cases g <;> decide)

section
variable {timeOutMax gapMax epoch : Nat} (hmax : timeOutMax + gapMax < 2 ^ 31) {s : Sys}
  (hs : InvAt timeOutMax gapMax epoch s)
include hmax hs

theorem placeNode_lists {pend : Nat → Option Nat}
    (hl : Lists epoch s.returned (s.returned + gapMax + timeOutMax) pend blk.tmrList blk.wrapTmrList)
    (hprev : blk.prevTime = s.blk.prevTime) (node : TimerNode) (hnone : pend node.handle = none) {msec : Nat}
    (hw : node.expiryTime = (s.currTime + msec) % 2 ^ 32) (hpos : 1 ≤ msec) (hle : msec ≤ timeOutMax) :
    Lists epoch s.returned (s.returned + gapMax + timeOutMax)
      (Function.update pend node.handle (some (s.now + msec)))
      (placeNode blk s.currTime node).tmrList (placeNode blk s.currTime node).wrapTmrList := by
  obtain ⟨k, hk⟩ := hs.whole
  have hnow := hs.now
  have hpast := hs.past
  have hlate := hs.late
  have hlt := hs.prev
  unfold Sys.currTime at hw ⊢
  have hword : node.expiryTime = (s.now + msec) % 2 ^ 32 := by rw [hw, Nat.mod_add_mod]
  unfold placeNode
  rw [hprev]
  split
  · rename_i h
    exact hl.addWrap (by omega) hnone hword (by omega) (by omega) (by omega)
  · rename_i h
    exact hl.addTmr (by omega) hnone hword (by omega) (by omega) (by omega) (by omega)

theorem InvAt.prevTime_le_iff : s.blk.prevTime ≤ s.currTime ↔ s.now < epoch + 2 ^ 32 := by
  obtain ⟨k, hk⟩ := hs.whole <;> grind [hs.now, hs.past, hs.late, Sys.currTime]

theorem InvAt.add (pFunc pParam : Option Nat)
    (hpos : 1 ≤ timeOut) (hle : timeOut * s.blk.type.msec ≤ timeOutMax) :
    InvAt timeOutMax gapMax epoch { s with
      blk := appTimerAddNode s.blk s.currTime s.fresh pFunc pParam timeOut
      fresh := s.fresh + 1
      pending := Function.update s.pending s.fresh (some (s.deadline timeOut)) } := by
  have hnone : s.pending s.fresh = none := by
    cases hp : s.pending s.fresh with
    | none => rfl
    | some d => exact absurd (hs.history.fresh s.fresh (by rw [hp]; rfl)) (lt_irrefl _)
  have hl := placeNode_lists hmax hs hs.lists rfl ⟨s.fresh, pFunc, pParam, expiryTime s.blk s.currTime timeOut⟩ hnone
    rfl (timeOut_pos hpos _) hle
  exact hs.replace hl (hs.history.start (.inl rfl) rfl rfl rfl rfl) (placeNode_prevTime _ _ _) rfl rfl hs.wrapped

theorem InvAt.update {timerHandle : Option Nat} (pFunc pParam : Option Nat) (hh : ∀ handle, timerHandle = some handle → (s.pending handle).isSome = true)
    (hpos : 1 ≤ timeOut) (hle : timeOut * s.blk.type.msec ≤ timeOutMax) {r : CtrlBlk × Nat}
    (hr : appTimerUpdate s.blk s.currTime s.fresh timerHandle pFunc pParam timeOut = r) :
    InvAt timeOutMax gapMax epoch { s with
      blk := r.1
      fresh := s.fresh + 1
      pending := Function.update s.pending r.2 (some (s.deadline timeOut)) } := by
  unfold appTimerUpdate at hr
  split at hr
  · subst hr
    exact hs.add hmax pFunc pParam hpos hle
  · rename_i node blk hn
    subst hr
    obtain ⟨handle, rfl, htake⟩ := Option.bind_eq_some_iff.mp hn
    obtain ⟨hnode, htype, hprev, hl⟩ := hs.lists.takeNode htake
    dsimp only
    rw [hnode]
    have hplace := placeNode_lists hmax hs hl hprev
      ⟨handle, pFunc.or node.expiryFn, pParam.or node.pParam, expiryTime s.blk s.currTime timeOut⟩
      (update_self _ _ _) rfl (timeOut_pos hpos _) hle
    rw [update_idem] at hplace
    exact hs.replace hplace (hs.history.start (.inr (hh handle rfl)) rfl rfl rfl rfl)
      ((placeNode_prevTime _ _ _).trans hprev) rfl rfl hs.wrapped

omit hmax in
theorem InvAt.delete {handle : Nat} (hh : (s.pending handle).isSome = true) :
    InvAt timeOutMax gapMax epoch { s with
      blk := appTimerDelete s.blk handle
      pending := Function.update s.pending handle none
      deleted := s.deleted ++ [handle] } := by
  obtain ⟨⟨node, blk⟩, htake⟩ := hs.lists.takeNode_isSome hh
  obtain ⟨-, -, hprev, hl⟩ := hs.lists.takeNode htake
  have hdel : appTimerDelete s.blk handle = blk := by
    rw [appTimerDelete, htake]
    rfl
  rw [hdel]
  exact hs.replace hl (hs.history.delete hh rfl rfl rfl rfl) hprev rfl rfl hs.wrapped

omit hmax in
theorem InvAt.pop {l : List TimerNode}
    (hl : s.blk.tmrList = node :: l) (hle : key s.pending node ≤ s.now) {phase : Phase} (hidle : phase ≠ .idle)
    (hw : phase = .wrapped → epoch + 2 ^ 32 ≤ s.now) (sampled : Nat) :
    InvAt timeOutMax gapMax epoch (s.turn sampled ({ s.blk with tmrList := l }, phase, some node)) := by
  have hlists := hs.lists
  rw [hl] at hlists
  have hpend := hlists.toHeld.pending (n := node) mem_cons_self
  have hh : History { s with
      blk := { s.blk with tmrList := l }
      phase := phase
      sampled := sampled
      returned := if phase = .idle then s.now else s.returned } :=
    ⟨hs.history.fresh, hs.history.expired, hs.history.once, hs.history.deleted⟩
  exact hs.replace hlists.pop (hh.expire hpend hle) rfl rfl (if_neg hidle) hw

theorem InvAt.processWrapped (hw : epoch + 2 ^ 32 ≤ s.now) (sampled : Nat) :
    ∃ epoch', InvAt timeOutMax gapMax epoch' (s.turn sampled (processWrapped s.blk)) := by
  unfold AppTimer.processWrapped
  split
  · rename_i node l hl
    have hkey := hs.lists.tmrKey node (by simp_all)
    exact ⟨epoch, hs.pop hl (by omega) (by decide) (fun _ => hw) sampled⟩
  · rename_i hl
    have hlists := hs.lists
    rw [hl] at hlists
    have hprev := hs.prev
    have hlate := hs.late
    refine ⟨epoch + 2 ^ 32, hlists.nextEpoch (by omega),
      ⟨hs.history.fresh, hs.history.expired, hs.history.once, hs.history.deleted⟩,
      Nat.dvd_add hs.whole (dvd_refl _), Nat.two_pow_pos 32, ?_, hw, hs.now, fun h => by cases h⟩
    show s.returned ≤ epoch + 2 ^ 32 + 0
    omega

omit hmax in
theorem InvAt.expiryTime_le_iff (hnow : s.now < epoch + 2 ^ 32)
    (hn : node ∈ s.blk.tmrList) : node.expiryTime ≤ s.currTime ↔ key s.pending node ≤ s.now := by
  obtain ⟨k, hk⟩ := hs.whole
  have hkey := hs.lists.tmrKey node hn
  have hpast := hs.past
  rw [hs.lists.word node (mem_append_left _ hn)]
  unfold Sys.currTime
  omega

theorem InvAt.return (hnow : s.now < epoch + 2 ^ 32)
    (hlater : ∀ n ∈ s.blk.tmrList, s.now < key s.pending n) :
    InvAt timeOutMax gapMax epoch (s.turn s.now ({ s.blk with prevTime := s.currTime }, .idle, none)) := by
  obtain ⟨k, hk⟩ := hs.whole
  have hpast := hs.past
  have hlate := hs.late
  have hcurr : epoch + s.currTime = s.now := by
    unfold Sys.currTime
    omega
  refine ⟨hs.lists.later (fun n hn => ?_) ?_,
    ⟨hs.history.fresh, hs.history.expired, hs.history.once, hs.history.deleted⟩, hs.whole,
    Nat.mod_lt _ (by decide), hcurr.ge, hcurr.le, ?_, fun h => by cases h⟩
  · rcases List.mem_append.mp hn with hn | hn
    · exact hlater n hn
    · have := hs.lists.wrapKey n hn
      show s.now < _
      omega
  · show _ ≤ s.now + gapMax + timeOutMax
    omega
  · show s.now ≤ s.now + gapMax
    omega

theorem InvAt.process : ∃ epoch', InvAt timeOutMax gapMax epoch' s.process := by
  unfold Sys.process
  split
  · rename_i hphase
    exact hs.processWrapped hmax (hs.wrapped hphase) s.sampled
  · unfold processLoop
    split
    · rename_i hprev
      have hnow := (hs.prevTime_le_iff hmax).mp hprev
      split
      · rename_i node l hl
        have hmem : node ∈ s.blk.tmrList := by simp_all
        have hiff := hs.expiryTime_le_iff hnow hmem
        split
        · rename_i hlt
          have hlists := hs.lists
          rw [hl] at hlists
          have hsorted := List.pairwise_cons.mp hlists.tmrSorted
          have hasc : Sll.Ascends appTimerCompare (key s.pending) node l :=
            hlists.toHeld.ascends (by omega) mem_cons_self
              fun m hm => mem_append_left _ (mem_cons_of_mem _ hm)
          rw [Sll.atStartPush_eq_cons hasc hsorted.1, ← hl]
          refine ⟨epoch, hs.return hmax hnow fun n hn => ?_⟩ <;> grind
        · rename_i hge
          exact ⟨epoch, hs.pop hl (hiff.mp (by omega)) (by decide) (fun h => by cases h) s.now⟩
      · rename_i hl
        exact ⟨epoch, hs.return hmax hnow fun n hn => by simp_all⟩
    · rename_i hprev
      refine hs.processWrapped hmax ?_ s.now <;> grind [prevTime_le_iff]

end

section
variable {timeOutMax gapMax : Nat} (hmax : timeOutMax + gapMax < 2 ^ 31)

theorem inv_new (type : Granularity) (start : Nat) : ∃ epoch, InvAt timeOutMax gapMax epoch (Sys.new type start) := by
  have hnone : ∀ {n : TimerNode}, n ∉ ([] : List TimerNode) := not_mem_nil
  refine ⟨2 ^ 32 * (start / 2 ^ 32), ⟨⟨nodup_nil, fun h => ?_, fun n hn => absurd hn hnone, fun h d hd => ?_⟩,
      fun n hn => absurd hn hnone, fun n hn => absurd hn hnone, List.Pairwise.nil, List.Pairwise.nil⟩,
    ⟨fun h hh => ?_, fun x hx => absurd hx not_mem_nil, nodup_nil, fun x hx => absurd hx not_mem_nil⟩,
    dvd_mul_right _ _, Nat.mod_lt _ (Nat.two_pow_pos 32), ?_, ?_, Nat.le_add_right _ _, fun h => by cases h⟩
  · exact ⟨fun hh => absurd hh not_mem_nil, fun hh => by cases hh⟩
  · cases hd
  · cases hh
  · exact (Nat.div_add_mod start (2 ^ 32)).ge
  · exact (Nat.div_add_mod start (2 ^ 32)).le

include hmax in
theorem inv_step (s : Sys) (e : Event) (s' : Sys) (hs : ∃ epoch, InvAt timeOutMax gapMax epoch s)
    (hok : callOk timeOutMax gapMax Sys.returned s e) (he : step s e = some s') :
    ∃ epoch, InvAt timeOutMax gapMax epoch s' := by
  obtain ⟨epoch, hs⟩ := hs
  cases e with
  | advance msec =>
    cases he
    exact ⟨epoch, hs.advance hok⟩
  | add pFunc pParam timeOut =>
    rw [step] at he
    split at he
    · grind
    · cases he
      exact ⟨epoch, hs.add hmax pFunc pParam hok.1 hok.2⟩
  | update timerHandle pFunc pParam timeOut =>
    cases he
    exact ⟨epoch, hs.update hmax pFunc pParam hok.1 hok.2.1 hok.2.2 rfl⟩
  | delete handle =>
    cases he
    exact ⟨epoch, hs.delete hok⟩
  | process =>
    cases he
    exact hs.process hmax

theorem step_total (s : Sys) (e : Event) : ∃ s', step s e = some s' := by
  cases e with
  | add pFunc pParam timeOut =>
    rw [step]
    split <;> exact ⟨_, rfl⟩
  | _ => exact ⟨_, rfl⟩

theorem returned_of_idle (h : s.process.phase = .idle) : s.process.returned = s.process.now := by
  have hturn : ∀ (sampled : Nat) (t : CtrlBlk × Phase × Option TimerNode), (s.turn sampled t).phase = .idle →
      (s.turn sampled t).returned = (s.turn sampled t).now := by
    rintro sampled ⟨blk, phase, node⟩ h
    cases node <;> exact if_pos h
  unfold Sys.process at h ⊢
  split at h
  · exact hturn _ _ h
  · grind

/-- No expiry function is run early, twice or after the deletion of its timer, and when the process returns every
pending deadline is still to come. -/
theorem deadlines_of_run (hmax : timeOutMax + gapMax < 2 ^ 31) (type : Granularity) (start : Nat) (events : List Event)
    (hok : Along step (callOk timeOutMax gapMax Sys.returned) (Sys.new type start) events) :
    ∃ s, run step (Sys.new type start) events = some s ∧
      (∀ x ∈ s.expired, ∃ d, x.deadline = some d ∧ d ≤ x.time) ∧ (s.expired.map Expiry.handle).Nodup ∧
      (∀ h ∈ s.deleted, h ∉ s.expired.map Expiry.handle) ∧
      ∀ s', step s .process = some s' → s'.phase = .idle → ∀ h d, s'.pending h = some d → s'.now < d := by
  obtain ⟨s, hr, epoch, hs⟩ := run_total step (fun s e _ _ => step_total s e) (inv_step hmax) (inv_new type start) hok
  refine ⟨s, hr, fun x hx => (hs.history.expired x hx).2.2, hs.history.once,
    fun h hh => (hs.history.deleted h hh).2.2, fun s' he hidle h d hd => ?_⟩
  cases he
  obtain ⟨epoch', hs'⟩ := hs.process hmax
  rw [← returned_of_idle hidle]
  exact (hs'.lists.range h d hd).1

def overWrap : List Event :=
  [.add (some 7) none 1, .add (some 8) none 2, .process, .advance 1200, .process, .process, .advance 900, .process,
    .process, .process]

theorem deadlines_over_wrap : ∃ s, run step (Sys.new .sec1 (2 ^ 32 - 1500)) overWrap = some s ∧
    ∀ x ∈ s.expired, ∃ d, x.deadline = some d ∧ d ≤ x.time := by
  obtain ⟨s, hr, h, -⟩ := @deadlines_of_run 2000 2000 (by decide) .sec1 (2 ^ 32 - 1500) overWrap (by decide +kernel)
  exact ⟨s, hr, h⟩

example : (run step (Sys.new .sec1 (2 ^ 32 - 1500)) overWrap).map
    (fun s => (s.expired.map Expiry.pFunc, s.blk.prevTime)) =
    some ([7, 8], 600) := by decide +kernel

def slowExpiry : List Event :=
  [.add (some 7) none 1, .add (some 7) none 1, .add (some 7) none 1, .advance 1, .process, .advance (2 ^ 30 - 1),
    .process,
    .advance (2 ^ 30), .add (some 7) none (2 ^ 29), .process]

theorem overdue_slow_expiry : ∃ s, run step (Sys.new .msec1 0) slowExpiry = some s ∧
    Along step (callOk (2 ^ 29) (2 ^ 30) Sys.sampled) (Sys.new .msec1 0) slowExpiry ∧
    s.phase = .idle ∧ ∃ d, s.pending 2 = some d ∧ d ≤ s.sampled :=
  ⟨_, (Option.some_get (by decide +kernel)).symm, by decide +kernel, by decide +kernel, 1, by decide +kernel,
    by decide +kernel⟩

end

end Sonic.AppTimer
