import Sonic.EventAlarms

/-! # The history of the event consumer

The history table and the queue of the history hold the same events, and the counters of events are
the numbers of its records. ACKNOWLEDGE and UNACKNOWLEDGE write into the history by the id of an
alarm, which may have been rolled over. -/

namespace Sonic.EventConsume
open List

open Str

section
variable {s s' mid : State} {evt : Notification} {now : Nat} {vec : List (Field × Str)} {sev : Str}

theorem push_perm (l : List (Nat × Nat)) (e : Nat × Nat) : (State.push l e).Perm (e :: l) := perm_orderedInsert _ e l

theorem popOldest_list (s : State) : s.popOldest.eventHistoryList = s.eventHistoryList.tail := by
  unfold State.popOldest
  split <;> simp [*]

theorem purgeExpired_length (now : Nat) : ∀ (l : List (Nat × Nat)) (s : State),
    (State.purgeExpired now l s).eventHistoryList.length ≤ s.eventHistoryList.length
  | [], _ => le_rfl
  | e :: l, s => by
    unfold State.purgeExpired
    split
    · refine (purgeExpired_length now l s.popOldest).trans ?_
      grind [popOldest_list]
    · exact le_rfl

theorem popOldest_iterate : ∀ (k : Nat) (s : State),
    (State.popOldest^[k] s).eventHistoryList = s.eventHistoryList.drop k
  | 0, _ => rfl
  | k + 1, s => by rw [Function.iterate_succ_apply, popOldest_iterate k, popOldest_list, drop_tail]

theorem purge_length (h : s.purgeEvents now = some s') : s'.eventHistoryList.length < s.count := by
  grind [State.purgeEvents, purgeExpired_length, popOldest_iterate]

end

/-! ## The table is the queue -/

def tracked (s : State) (key : Str) : Bool := s.eventHistoryList.any (ofNat ·.1 = key)

def acksTracked (s : State) : Event → Bool
  | .notify evt _ =>
    match s.alarmTable.get? evt.evSrc with
    | none => true
    | some raise =>
      if evt.evAct = (if isAck raise then unackStr else ackStr) then tracked s evt.evSrc else true
  | .reload _ _ => true

structure HistInv (n : Nat) (s : State) : Prop where
  nodup : (s.eventHistoryList.map Prod.fst).Nodup
  id_le : ∀ p ∈ s.eventHistoryList, p.1 ≤ n
  keys_nodup : (Dict.keys s.eventTable).Nodup
  keys : ∀ key, key ∈ Dict.keys s.eventTable ↔ ∃ p ∈ s.eventHistoryList, key = ofNat p.1

section
variable {n : Nat} {s s' mid : State} {evt : Notification} {now : Nat} {vec : List (Field × Str)} {sev : Str}

theorem HistInv.congr (h : HistInv n s) (ht : s'.eventTable = s.eventTable)
    (hl : s'.eventHistoryList = s.eventHistoryList) : HistInv n s' := by
  refine ⟨?_, ?_, ?_, ?_⟩ <;> simp_all [h.nodup, h.id_le, h.keys_nodup, h.keys]

theorem HistInv.popOldest (h : HistInv n s) : HistInv n s.popOldest := by
  unfold State.popOldest
  split
  · exact h
  · rename_i oldest rest hl
    have hn := h.nodup
    rw [hl, map_cons, nodup_cons] at hn
    refine ⟨hn.2, fun p hp => h.id_le p (hl ▸ mem_cons_of_mem _ hp), Dict.nodup_filter _ h.keys_nodup, fun key => ?_⟩
    grind [h.keys, ofNat_injective]

theorem HistInv.conclude (h : HistInv mid.seqId mid) (hend : mid.conclude evt vec now = some s') :
    HistInv s'.seqId s' ∧ s'.eventHistoryList.length ≤ s'.count := by
  obtain ⟨m, hm, rfl⟩ := conclude_cases hend
  have hs := purge_same hm
  have hm' : HistInv mid.seqId m := purge_inv hm (fun t (ht : HistInv mid.seqId t) => ht.popOldest)
    (h.congr rfl rfl)
  have hid : m.seqId = mid.seqId + 1 := hs.seqId
  have hcount : m.count = mid.count := hs.count
  have hroom := purge_length hm
  dsimp only at hroom
  have hperm := push_perm m.eventHistoryList (mid.seqId + 1, evt.publishEpochMs)
  have hmem : ∀ p, p ∈ State.push m.eventHistoryList (mid.seqId + 1, evt.publishEpochMs) ↔
      p = (mid.seqId + 1, evt.publishEpochMs) ∨ p ∈ m.eventHistoryList := fun p => by grind
  refine ⟨⟨?_, fun p hp => ?_, Dict.nodup_set _ _ hm'.keys_nodup, fun key => ?_⟩, ?_⟩
  · refine ((hperm.map Prod.fst).nodup_iff).mpr (List.nodup_cons.mpr ⟨fun hp => ?_, hm'.nodup⟩)
    obtain ⟨p, hp, he⟩ := List.mem_map.mp hp
    have := hm'.id_le p hp
    omega
  · rw [hid]
    rcases (hmem p).mp hp with rfl | hp
    · exact le_rfl
    · exact (hm'.id_le p hp).trans (Nat.le_succ _)
  · rw [setFields, Dict.mem_keys_set_iff, hm'.keys]
    constructor
    · rintro (rfl | ⟨p, hp, rfl⟩)
      · exact ⟨_, (hmem _).mpr (.inl rfl), rfl⟩
      · grind
    · grind
  · rw [hperm.length_eq]
    exact hcount ▸ hroom

theorem acks_tracked {raise : Rec} {ack : Bool} (hok : acksTracked s (.notify evt now) = true)
    (hg : s.alarmTable.get? evt.evSrc = some raise) (hflag : isAck raise = !ack)
    (ha : evt.evAct = if ack then ackStr else unackStr) : tracked s evt.evSrc = true := by grind [acksTracked]

theorem HistInv.act (h : HistInv n s) {vec' : List (Field × Str)}
    (hok : ∀ raise ack, s.alarmTable.get? evt.evSrc = some raise → isAck raise = !ack →
      evt.evAct = (if ack then ackStr else unackStr) → tracked s evt.evSrc = true)
    (hact : s.act evt sev vec = some (mid, vec')) : HistInv n mid := by
  rcases act_cases hact with ⟨rfl, -⟩ | ⟨hr, rfl, rfl⟩ | ⟨hc, rfl, hm⟩ | ⟨raise, ack, hg, -, hflag, ha, -, rfl⟩
  · exact h
  · exact h.congr rfl rfl
  · obtain ⟨seq, -, rfl⟩ := Option.map_eq_some_iff.mp hm
    exact h.congr rfl rfl
  · obtain ⟨p, hp, he⟩ := List.any_eq_true.mp (hok raise ack hg hflag ha)
    have hkey : evt.evSrc ∈ Dict.keys s.eventTable := (h.keys _).mpr ⟨p, hp, (of_decide_eq_true he).symm⟩
    refine ⟨h.nodup, h.id_le, Dict.nodup_set _ _ h.keys_nodup, fun key => Iff.trans ?_ (h.keys key)⟩
    refine Dict.mem_keys_set_iff.trans ⟨?_, .inr⟩
    grind

theorem HistInv.step {e : Event} (h : HistInv s.seqId s ∧ s.eventHistoryList.length ≤ s.count)
    (hok : acksTracked s e = true) (hs : step s e = some s') :
    HistInv s'.seqId s' ∧ s'.eventHistoryList.length ≤ s'.count := by
  cases e with
  | notify evt now =>
    rcases handle_cases hs with (rfl | rfl) | ⟨info, mid, vec, -, -, hact, hend⟩
    · exact h
    · exact ⟨h.1.congr rfl rfl, h.2⟩
    · have h' : HistInv s.seqId { s with flood := evt.flood } := h.1.congr rfl rfl
      have hmid := h'.act (fun _ _ => acks_tracked (s := s) hok) hact
      rw [← act_seqId hact] at hmid
      exact hmid.conclude hend
  | reload cfg now =>
    obtain ⟨m, hm, rfl⟩ := Option.map_eq_some_iff.mp hs
    have hsame := purge_same hm
    have hid : m.seqId = s.seqId := hsame.seqId
    have hm' : HistInv s.seqId m := purge_inv hm (fun t (ht : HistInv s.seqId t) => ht.popOldest) (h.1.congr rfl rfl)
    have hroom := purge_length hm
    grind [congr, hsame.count]

theorem start_history {cfg : Config} (hs : start cfg now = some s) :
    HistInv s.seqId s ∧ s.eventHistoryList.length ≤ s.count := by
  obtain ⟨m, hm, rfl⟩ := Option.map_eq_some_iff.mp hs
  have hsame := purge_same hm
  have hroom := purge_length hm
  have hm' : HistInv 0 m := purge_inv hm (fun t (ht : HistInv 0 t) => ht.popOldest)
    ⟨nodup_nil, nofun, nodup_nil, fun key => by simp [Dict.keys, State.historyEntries]⟩
  have hid : m.seqId = 0 := hsame.seqId
  grind [hsame.count, HistInv.congr]

/-- As long as the alarms that are acknowledged, or not any more, are in the history, the history table holds the
records of the queue and no others, and there is room for them. -/
theorem history_tracked {cfg : Config} {es : List Event} {s₀ : State} (hstart : start cfg now = some s₀)
    (hok : Along EventConsume.step (fun s e => acksTracked s e = true) s₀ es)
    (hrun : run EventConsume.step s₀ es = some s) :
    (Dict.keys s.eventTable).Perm (s.eventHistoryList.map (ofNat ·.1)) ∧ (Dict.keys s.eventTable).length ≤ s.count := by
  obtain ⟨h, hlen⟩ := run_inv EventConsume.step
    (fun s _ _ (hi : HistInv s.seqId s ∧ s.eventHistoryList.length ≤ s.count) ho he => HistInv.step hi ho he)
    (start_history hstart) hok hrun
  have hids : (s.eventHistoryList.map (ofNat ·.1)).Nodup := by
    have := h.nodup.map (f := ofNat) fun _ _ => ofNat_injective
    rwa [List.map_map] at this
  have hperm : (Dict.keys s.eventTable).Perm (s.eventHistoryList.map (ofNat ·.1)) :=
    (List.perm_ext_iff_of_nodup h.keys_nodup hids).mpr fun key => by
      rw [h.keys, List.mem_map]
      exact exists_congr fun p => and_congr_right fun _ => eq_comm
  refine ⟨hperm, ?_⟩
  rw [hperm.length_eq, List.length_map]
  exact hlen

end

def narrow : Config := ⟨30, 1, [("a", ⟨"CRITICAL", trueStr⟩)]⟩

theorem history_tracked_narrow : ∃ s₀ s, start narrow 0 = some s₀ ∧
    run step s₀ [.notify (alarmNote "RAISE" "a" "p" "x") 0, .notify (alarmNote "ACKNOWLEDGE" "a" "1" "x") 0,
      .reload profile 0] = some s ∧
    (Dict.keys s.eventTable).Perm (s.eventHistoryList.map (ofNat ·.1)) ∧ (Dict.keys s.eventTable).length ≤ s.count :=
  ⟨_, _, (Option.some_get (by decide +kernel)).symm, (Option.some_get (by decide +kernel)).symm,
    history_tracked (Option.some_get _).symm (by decide +kernel) (Option.some_get _).symm⟩

theorem acknowledged_after_rollover : ∃ s₀ s, start narrow 0 = some s₀ ∧
    run step s₀ [.notify (alarmNote "RAISE" "a" "p" "x") 0, .notify (alarmNote "RAISE" "a" "q" "x") 0,
      .notify (alarmNote "ACKNOWLEDGE" "a" "1" "x") 0] = some s ∧
    Dict.keys s.eventTable = ["1".toList, "3".toList] ∧ s.eventHistoryList.map (ofNat ·.1) = ["3".toList] :=
  ⟨_, _, (Option.some_get (by decide +kernel)).symm, (Option.some_get (by decide +kernel)).symm, by decide +kernel,
    by decide +kernel⟩

/-! ## Counters of events -/

def countsEvent : EventCounter → Rec → Bool
  | .events, _ => true
  | .raised, r => isRaise r
  | .cleared, r => isClear r
  | .acked, r => isAck r

def tallyEvents (c : EventCounter) (s : State) : Nat :=
  s.eventHistoryList.countP fun p => countsEvent c (s.eventRecord p.1)

def acksCounted (s : State) : Event → Bool
  | .notify evt _ =>
    match s.alarmTable.get? evt.evSrc with
    | none => true
    | some raise =>
      if isAck raise then evt.evAct ≠ unackStr || !tracked s evt.evSrc
      else evt.evAct ≠ ackStr || tracked s evt.evSrc
  | .reload _ _ => true

structure StatsInv (off : EventCounter → Int) (n m : Nat) (s : State) : Prop where
  nodup : (s.eventHistoryList.map Prod.fst).Nodup
  id_le : ∀ p ∈ s.eventHistoryList, p.1 ≤ n
  event_le : ∀ key ∈ Dict.keys s.eventTable, ∃ i ≤ n, key = ofNat i
  alarm_le : ∀ key ∈ Dict.keys s.alarmTable, ∃ i ≤ m, key = ofNat i
  agree : ∀ p ∈ s.eventHistoryList, ∀ r, s.alarmTable.get? (ofNat p.1) = some r → isAck r = isAck (s.eventRecord p.1)
  stats : ∀ c, s.eventStats c + off c = tallyEvents c s

theorem updateEventStatistics_eq (add : Bool) (r : Rec) (stats : EventCounter → Int) (c : EventCounter) :
    updateEventStatistics add (isRaise r) (isAck r) (isClear r) stats c =
      if countsEvent c r then if add then stats c + 1 else stats c - 1 else stats c := by cases c <;> rfl

section
variable {n m : Nat} {off : EventCounter → Int} {s s' mid : State} {evt : Notification} {now : Nat}
  {vec : List (Field × Str)} {sev : Str}

theorem eventRecord_erase {i j : Nat} (h : i ≠ j) (t : Dict Str Rec) :
    ((t.erase (ofNat i)).get? (ofNat j)).getD [] = (t.get? (ofNat j)).getD [] := by grind [ofNat_injective]

theorem StatsInv.popOldest (h : StatsInv off n m s) : StatsInv off n m s.popOldest := by
  unfold State.popOldest
  split
  · exact h
  · rename_i oldest rest hl
    have hn := h.nodup
    rw [hl, map_cons, nodup_cons] at hn
    have hmem : ∀ p ∈ rest, p ∈ s.eventHistoryList := fun p hp => hl ▸ mem_cons_of_mem _ hp
    have hrec : ∀ p ∈ rest, ((s.eventTable.erase (ofNat oldest.1)).get? (ofNat p.1)).getD [] = s.eventRecord p.1 :=
      fun p hp => eventRecord_erase (fun e => hn.1 (List.mem_map.mpr ⟨p, hp, e.symm⟩)) _
    refine ⟨hn.2, fun p hp => h.id_le p (hmem p hp), fun key hk => h.event_le key (Dict.mem_keys_erase.mp hk).1,
      h.alarm_le, fun p hp r hg => ?_, fun c => ?_⟩
    · rw [h.agree p (hmem p hp) r hg]
      exact congrArg isAck (hrec p hp).symm
    · have hstats := h.stats c
      rw [tallyEvents, hl, countP_cons] at hstats
      have hrest : rest.countP (fun p => countsEvent c
          (((s.eventTable.erase (ofNat oldest.1)).get? (ofNat p.1)).getD [])) =
          rest.countP fun p => countsEvent c (s.eventRecord p.1) :=
        countP_congr fun p hp => by rw [hrec p hp]
      refine Eq.trans ?_ (congrArg Nat.cast hrest.symm)
      have hbump : s.modifyEventStats oldest.1 c = _ := updateEventStatistics_eq false (s.eventRecord oldest.1) _ c
      grind

theorem countP_change {l : List (Nat × Nat)} {f g : Nat × Nat → Bool} {p : Nat × Nat} (hn : (l.map Prod.fst).Nodup)
    (hp : p ∈ l) (hfg : ∀ q ∈ l, q.1 ≠ p.1 → f q = g q) :
    (l.countP g : Int) = l.countP f + (if g p then 1 else 0) - (if f p then 1 else 0) := by
  induction l <;> grind [countP_congr]

def ackOff (evt : Notification) (c : EventCounter) : Int := if c = .acked ∧ evt.evAct = ackStr then 1 else 0

theorem StatsInv.congr (h : StatsInv off n m s) {m' : Nat} (hm : m ≤ m') (ht : s'.eventTable = s.eventTable)
    (ha : s'.alarmTable = s.alarmTable) (hl : s'.eventHistoryList = s.eventHistoryList)
    (hs : s'.eventStats = s.eventStats) : StatsInv off n m' s' := by
  have hrec : ∀ i, s'.eventRecord i = s.eventRecord i := fun i => by grind [State.eventRecord]
  refine ⟨?_, ?_, ?_, ?_, ?_, ?_⟩
  · rw [hl]; exact h.nodup
  · rw [hl]; exact h.id_le
  · rw [ht]; exact h.event_le
  · grind [h.alarm_le]
  · intro p hp r hg
    grind [h.agree]
  · grind [h.stats, tallyEvents]

theorem isAck_ack (r : Rec) (ack : Bool) (ts : Str) :
    isAck (r.update [(.acknowledged, ackText ack), (.acknowledgeTime, ts)]) = ack := by
  rw [isAck, ack_fields]
  cases ack
  · exact decide_eq_false fun e => trueStr_ne (Option.some.inj e).symm
  · exact decide_eq_true rfl

theorem ack_eventRecord (ack : Bool) (sev : Str) (i : Nat) :
    (s.updateAckInfo ack evt sev).eventRecord i =
      if evt.evSrc = ofNat i then
        (s.eventRecord i).update [(.acknowledged, ackText ack), (.acknowledgeTime, evt.evTimestamp)]
      else s.eventRecord i := by
  simp only [State.eventRecord, State.updateAckInfo, setFields, Dict.get?_set]
  split
  · rename_i he
    rw [he]
    rfl
  · rfl

theorem countsEvent_ack (r : Rec) (ts : Str) (c : EventCounter) :
    countsEvent c (r.update [(.acknowledged, ackText true), (.acknowledgeTime, ts)]) =
      if c = .acked then true else countsEvent c r := by
  cases c <;> simp_all [countsEvent, isRaise, ack_fields, isClear, isAck_ack]

theorem StatsInv.ack (h : StatsInv (fun _ => 0) n n s) {raise : Rec} {ack : Bool}
    (hg : s.alarmTable.get? evt.evSrc = some raise) (hflag : isAck raise = !ack)
    (ha : evt.evAct = if ack then ackStr else unackStr) (htr : tracked s evt.evSrc = ack) (sev : Str) :
    StatsInv (ackOff evt) n n (s.updateAckInfo ack evt sev) := by
  have hsrc := h.alarm_le _ (Dict.mem_keys_of_get? hg)
  refine ⟨h.nodup, h.id_le, fun key hk => ?_, fun key hk => ?_, fun p hp r hr => ?_, fun c => ?_⟩
  · rcases Dict.mem_keys_set hk with rfl | hk <;> simp_all [h.event_le]
  · rcases Dict.mem_keys_set hk with rfl | hk <;> simp_all [h.alarm_le]
  · rw [ack_table hg, Dict.get?_set] at hr
    rw [ack_eventRecord]
    split at hr
    · grind [isAck_ack]
    · rename_i he
      rw [if_neg he]
      exact h.agree p hp r hr
  · have hstats := h.stats c
    cases ack with
    | true =>
      obtain ⟨p, hp, he⟩ := List.any_eq_true.mp htr
      have he := of_decide_eq_true he
      -- The record of the RAISE is the only one that changes, and it was not acknowledged.
      have hold : isAck (s.eventRecord p.1) = false := (h.agree p hp raise (he ▸ hg)).symm.trans hflag
      have hchange := countP_change (f := fun q => countsEvent c (s.eventRecord q.1))
        (g := fun q => countsEvent c ((s.updateAckInfo true evt sev).eventRecord q.1)) h.nodup hp fun q _ hne => by
          rw [ack_eventRecord, if_neg fun e => hne (ofNat_injective (he.trans e)).symm]
      grind [ack_eventRecord, countsEvent_ack, tallyEvents, ackOff, countsEvent, State.updateAckInfo]
    | false =>
      have hne : ∀ p ∈ s.eventHistoryList, evt.evSrc ≠ ofNat p.1 := fun p hp e =>
        absurd htr (by grind [tracked])
      grind [tallyEvents, Sonic.EventConsume.State.updateAckInfo, countP_congr, ack_eventRecord, ackOff,
        unackStr_ne]

theorem StatsInv.act (h : StatsInv (fun _ => 0) s.seqId s.seqId s) {info : Option EventInfo}
    {vec' : List (Field × Str)}
    (hok : ∀ raise ack, s.alarmTable.get? evt.evSrc = some raise → isAck raise = !ack →
      evt.evAct = (if ack then ackStr else unackStr) → tracked s evt.evSrc = ack)
    (hact : s.act evt sev (s.vecOf evt info) = some (mid, vec')) :
    StatsInv (ackOff evt) s.seqId (s.seqId + 1) mid ∧
      ∀ r, mid.alarmTable.get? (ofNat (s.seqId + 1)) = some r → isAck r = isAck (Dict.update [] vec') := by
  have hfresh := fresh_id h.alarm_le
  have hnone : ∀ r, s.alarmTable.get? (ofNat (s.seqId + 1)) = some r → isAck r = isAck (Dict.update [] vec') :=
    fun r hr => by rw [hfresh] at hr; cases hr
  have hoff : evt.evAct ≠ ackStr → ackOff evt = fun _ => 0 := fun hne => funext fun c => if_neg fun e => hne e.2
  rcases act_cases hact with ⟨rfl, -, -, hne, -⟩ | ⟨hr, rfl, rfl⟩ | ⟨hc, rfl, hm⟩ |
    ⟨raise, ack, hg, -, hflag, ha, -, rfl⟩
  · rw [hoff hne]
    exact ⟨h.congr (Nat.le_succ _) rfl rfl rfl rfl, hnone⟩
  · rw [hoff (hr ▸ raiseStr_ne.2.2.1)]
    have htable := raise_table hfresh evt sev (s.vecOf evt info ++ [(.acknowledged, falseStr)])
    refine ⟨⟨h.nodup, h.id_le, h.event_le, fun key hk => ?_, fun p hp r hg => ?_, h.stats⟩, fun r hg => ?_⟩
    · rcases Dict.mem_keys_set hk with rfl | hk
      · grind
      · exact (h.alarm_le key hk).imp fun _ hi => ⟨hi.1.trans (Nat.le_succ _), hi.2⟩
    · rw [htable, Dict.get?_set_ne _ fun e => ?_] at hg
      · exact h.agree p hp r hg
      · have := h.id_le p hp
        have := ofNat_injective e
        omega
    · grind
  · rw [hoff (hc ▸ clearStr_ne.2.2.1)]
    obtain ⟨seq, -, rfl⟩ := Option.map_eq_some_iff.mp hm
    refine ⟨⟨h.nodup, h.id_le, h.event_le, fun key hk => ?_, fun p hp r hg => ?_, h.stats⟩, fun r hg => ?_⟩
    · exact (h.alarm_le key (Dict.mem_keys_erase.mp hk).1).imp fun _ hi => ⟨hi.1.trans (Nat.le_succ _), hi.2⟩
    · exact h.agree p hp r (Dict.get?_of_erase hg)
    · grind
  · have hack := h.ack hg hflag ha (hok raise ack hg hflag ha) ((raise.get? .severity).getD sev)
    refine ⟨hack.congr (Nat.le_succ _) rfl rfl rfl rfl, fun r hr => ?_⟩
    rw [fresh_id hack.alarm_le] at hr
    cases hr

theorem action_field {t : Str} (ht : t ≠ []) : evt.action.filter (· ≠ []) = some t ↔ evt.evAct = t := by
  unfold Notification.evAct
  cases evt.action with
  | none => simp_all
  | some a => grind

theorem new_record {info : Option EventInfo} {vec' : List (Field × Str)}
    (hact : s.act evt sev (s.vecOf evt info) = some (mid, vec')) :
    isRaise (Dict.update [] vec') = decide (evt.evAct = raiseStr) ∧
      isClear (Dict.update [] vec') = decide (evt.evAct = clearStr) ∧ isAck (Dict.update [] vec') = false := by
  obtain ⟨extra, rfl, hextra⟩ := act_vec hact
  have hrest : ∀ f ∈ (info.map fun i => (Field.severity, i.severity)).toList ++ ([(.id, ofNat (s.seqId + 1))] ++ extra),
      f.1 ≠ .action ∧ f ≠ (.acknowledged, trueStr) := by
    intro f hf
    rcases List.mem_append.mp hf with hf | hf
    · grind [Option.map_eq_some_iff]
    · rcases List.mem_cons.mp hf with rfl | hf
      · grind
      · rcases hextra f hf with he | he | rfl
        · grind
        · grind
        · simp [trueStr_ne, symm]
  rw [State.vecOf, append_assoc, append_assoc, Dict.update_append]
  have haction : ∀ t ≠ [], decide (((Dict.update [] evt.fetchFieldValues).update
      ((info.map fun i => (Field.severity, i.severity)).toList ++ ([(.id, ofNat (s.seqId + 1))] ++ extra))).get?
        .action =
        some t) = decide (evt.evAct = t) := fun t ht => by
    rw [Dict.get?_update_of_not_mem, get?_fetchFieldValues]
    · exact decide_eq_decide.mpr (action_field ht)
    · grind
  refine ⟨haction _ raiseStr_ne.1, haction _ clearStr_ne.1, decide_eq_false fun hg => ?_⟩
  rcases Dict.get?_update_cases hg with hg | hg
  · rw [get?_fetchFieldValues] at hg
    cases hg
  · grind

theorem StatsInv.conclude (h : StatsInv (ackOff evt) mid.seqId (mid.seqId + 1) mid)
    (hnew : ∀ r, mid.alarmTable.get? (ofNat (mid.seqId + 1)) = some r → isAck r = isAck (Dict.update [] vec))
    (hflags : isRaise (Dict.update [] vec) = decide (evt.evAct = raiseStr) ∧
      isClear (Dict.update [] vec) = decide (evt.evAct = clearStr) ∧ isAck (Dict.update [] vec) = false)
    (hend : mid.conclude evt vec now = some s') : StatsInv (fun _ => 0) s'.seqId s'.seqId s' := by
  obtain ⟨m, hm, rfl⟩ := conclude_cases hend
  have hs := purge_same hm
  have hm' : StatsInv (ackOff evt) mid.seqId (mid.seqId + 1) m :=
    purge_inv hm (fun t (ht : StatsInv (ackOff evt) mid.seqId (mid.seqId + 1) t) => ht.popOldest)
      (h.congr le_rfl rfl rfl rfl rfl)
  have hid : m.seqId = mid.seqId + 1 := hs.seqId
  have halarm : m.alarmTable = mid.alarmTable := hs.alarmTable
  have hfresh := fresh_id hm'.event_le
  have hperm := push_perm m.eventHistoryList (mid.seqId + 1, evt.publishEpochMs)
  have hset : setFields m.eventTable (ofNat (mid.seqId + 1)) vec =
      m.eventTable.set (ofNat (mid.seqId + 1)) (Dict.update [] vec) := by rw [setFields, hfresh, Option.getD_none]
  have hself : ((setFields m.eventTable (ofNat (mid.seqId + 1)) vec).get? (ofNat (mid.seqId + 1))).getD [] =
      Dict.update [] vec := by grind
  have hother : ∀ p ∈ m.eventHistoryList,
      ((setFields m.eventTable (ofNat (mid.seqId + 1)) vec).get? (ofNat p.1)).getD [] = m.eventRecord p.1 := by
    intro p hp
    rw [hset, Dict.get?_set_ne _ fun e => ?_]
    · rfl
    · have := hm'.id_le p hp
      have := ofNat_injective e
      omega
  refine ⟨?_, fun p hp => ?_, fun key hk => ?_, fun key hk => ?_, fun p hp r hg => ?_, fun c => ?_⟩
  · refine ((hperm.map Prod.fst).nodup_iff).mpr (List.nodup_cons.mpr ⟨fun hp => ?_, hm'.nodup⟩)
    obtain ⟨p, hp, he⟩ := List.mem_map.mp hp
    have := hm'.id_le p hp
    omega
  · rw [hid]
    rcases List.mem_cons.mp (hperm.mem_iff.mp hp) with rfl | hp
    · exact le_rfl
    · exact (hm'.id_le p hp).trans (Nat.le_succ _)
  · rw [hid]
    rcases Dict.mem_keys_set hk with rfl | hk
    · exact ⟨_, le_rfl, rfl⟩
    · exact (hm'.event_le key hk).imp fun _ hi => ⟨hi.1.trans (Nat.le_succ _), hi.2⟩
  · rw [hid]
    exact hm'.alarm_le key hk
  · rcases List.mem_cons.mp (hperm.mem_iff.mp hp) with rfl | hp
    · grind [State.eventRecord]
    · grind [State.eventRecord, hm'.agree]
  · have hstats := hm'.stats c
    have htally : (State.push m.eventHistoryList (mid.seqId + 1, evt.publishEpochMs)).countP (fun p =>
        countsEvent c (((setFields m.eventTable (ofNat (mid.seqId + 1)) vec).get? (ofNat p.1)).getD [])) =
        tallyEvents c m + if countsEvent c (Dict.update [] vec) then 1 else 0 := by
      rw [hperm.countP_eq, countP_cons, hself]
      exact congrArg (· + _) (countP_congr fun p hp => by rw [hother p hp])
    refine Eq.trans ?_ (congrArg Nat.cast htally.symm)
    obtain ⟨hr, hc, ha⟩ := hflags
    have hbump : updateEventStatistics true (evt.evAct = raiseStr) (evt.evAct = ackStr) (evt.evAct = clearStr)
        m.eventStats c = m.eventStats c + ackOff evt c + if countsEvent c (Dict.update [] vec) then 1 else 0 := by
      cases c with
      | events => simp [updateEventStatistics, countsEvent, ackOff]
      | raised => grind [updateEventStatistics, countsEvent, ackOff]
      | cleared => grind [updateEventStatistics, countsEvent, ackOff]
      | acked => by_cases he : evt.evAct = ackStr <;> simp [updateEventStatistics, countsEvent, ackOff, ha, he]
    refine (Int.add_zero _).trans (hbump.trans ?_)
    grind

theorem acks_counted {raise : Rec} {ack : Bool} (hok : acksCounted s (.notify evt now) = true)
    (hg : s.alarmTable.get? evt.evSrc = some raise) (hflag : isAck raise = !ack)
    (ha : evt.evAct = if ack then ackStr else unackStr) : tracked s evt.evSrc = ack := by grind [acksCounted]

theorem StatsInv.step {e : Event} (h : StatsInv (fun _ => 0) s.seqId s.seqId s) (hok : acksCounted s e = true)
    (hs : step s e = some s') : StatsInv (fun _ => 0) s'.seqId s'.seqId s' := by
  cases e with
  | notify evt now =>
    rcases handle_cases hs with (rfl | rfl) | ⟨info, mid, vec, -, -, hact, hend⟩
    · exact h
    · exact h.congr le_rfl rfl rfl rfl rfl
    · have h' : StatsInv (fun _ => 0) s.seqId s.seqId { s with flood := evt.flood } := h.congr le_rfl rfl rfl rfl rfl
      obtain ⟨hmid, hnew⟩ := StatsInv.act (s := { s with flood := evt.flood }) h'
        (fun _ _ => acks_counted (s := s) hok) hact
      have hid := act_seqId hact
      dsimp only at hid
      rw [← hid] at hmid hnew
      exact hmid.conclude hnew (new_record (s := { s with flood := evt.flood }) hact) hend
  | reload cfg now =>
    obtain ⟨m, hm, rfl⟩ := Option.map_eq_some_iff.mp hs
    have hid : m.seqId = s.seqId := (purge_same hm).seqId
    have hm' : StatsInv (fun _ => 0) s.seqId s.seqId m :=
      purge_inv hm (fun t (ht : StatsInv (fun _ => 0) s.seqId s.seqId t) => ht.popOldest)
        (h.congr le_rfl rfl rfl rfl rfl)
    exact hid ▸ hm'.congr le_rfl rfl rfl rfl rfl

theorem start_stats {cfg : Config} (hs : start cfg now = some s) : StatsInv (fun _ => 0) s.seqId s.seqId s := by
  obtain ⟨m, hm, rfl⟩ := Option.map_eq_some_iff.mp hs
  have hid : m.seqId = 0 := (purge_same hm).seqId
  have hm' : StatsInv (fun _ => 0) 0 0 m := purge_inv hm (fun t (ht : StatsInv (fun _ => 0) 0 0 t) => ht.popOldest)
    ⟨nodup_nil, nofun, nofun, nofun, nofun, fun c => rfl⟩
  grind [StatsInv.congr]

/-- As long as the alarms that are acknowledged are in the history and those that are so no more are not, each counter
of events is the number of the records of the history that it counts. -/
theorem event_counters {cfg : Config} {es : List Event} {s₀ : State} (hstart : start cfg now = some s₀)
    (hok : Along EventConsume.step (fun s e => acksCounted s e = true) s₀ es)
    (hrun : run EventConsume.step s₀ es = some s) (c : EventCounter) : s.eventStats c = tallyEvents c s := by
  have h := run_inv EventConsume.step
    (fun s _ _ (hi : StatsInv (fun _ => 0) s.seqId s.seqId s) ho he => hi.step ho he) (start_stats hstart) hok hrun
  exact (Int.add_zero _).symm.trans (h.stats c)

end

theorem event_counters_acknowledged : ∃ s₀ s, start profile 0 = some s₀ ∧
    run step s₀ [.notify (alarmNote "RAISE" "a" "p" "x") 0, .notify (alarmNote "ACKNOWLEDGE" "a" "1" "x") 0,
      .notify (alarmNote "CLEAR" "a" "p" "x") 0] = some s ∧ s.eventStats .acked = tallyEvents .acked s :=
  ⟨_, _, (Option.some_get (by decide +kernel)).symm, (Option.some_get (by decide +kernel)).symm,
    event_counters (Option.some_get _).symm (by decide +kernel) (Option.some_get _).symm .acked⟩

theorem unacknowledged_still_counted : ∃ s₀ s, start profile 0 = some s₀ ∧
    run step s₀ [.notify (alarmNote "RAISE" "a" "p" "x") 0, .notify (alarmNote "ACKNOWLEDGE" "a" "1" "x") 0,
      .notify (alarmNote "UNACKNOWLEDGE" "a" "1" "x") 0] = some s ∧
    s.eventStats .acked = 1 ∧ tallyEvents .acked s = 0 :=
  ⟨_, _, (Option.some_get (by decide +kernel)).symm, (Option.some_get (by decide +kernel)).symm, by decide +kernel,
    by decide +kernel⟩

end Sonic.EventConsume
