import Sonic.EventConsume

/-! # Alarms of the event consumer

The counters of alarms are the numbers of the records of the alarm table, and every alarm is cleared
by a CLEAR of its type and resource. Both rest on the lookup map, whose keys join the two texts by a
bar and whose entries are not replaced. -/

namespace Sonic.EventConsume

open Str

def ackText (ack : Bool) : Str := if ack then trueStr else falseStr

theorem ackText_inj {a b : Bool} (h : ackText a = ackText b) : a = b := by
  cases a <;> cases b
  · rfl
  · exact absurd h.symm trueStr_ne
  · exact absurd h trueStr_ne
  · rfl

structure IsAlarm (r : Rec) (sev : Str) (ack : Bool) : Prop where
  severity : r.get? .severity = some sev
  action : r.get? .action = some raiseStr
  acknowledged : r.get? .acknowledged = some (ackText ack)

theorem get?_fetchFieldValues (evt : Notification) (f : Field) :
    (Dict.update [] evt.fetchFieldValues).get? f =
      match f with
      | .timeCreated => some evt.evTimestamp
      | .action => evt.action.filter (· ≠ [])
      | .resource => evt.resource
      | .text => evt.text
      | .typeId => evt.typeId
      | _ => none := by
  unfold Notification.fetchFieldValues
  grind [Dict.update, Dict.get?_update_option]

theorem raise_fields (s : State) (info : EventInfo) {evt : Notification} (hact : evt.evAct = raiseStr) :
    IsAlarm (Dict.update [] (s.vecOf evt (some info) ++ [(.acknowledged, falseStr)])) info.severity false ∧
    (Dict.update [] (s.vecOf evt (some info) ++ [(.acknowledged, falseStr)])).get? .typeId = evt.typeId ∧
    (Dict.update [] (s.vecOf evt (some info) ++ [(.acknowledged, falseStr)])).get? .resource = evt.resource := by
  have hfilter : evt.action.filter (· ≠ []) = some raiseStr := by
    unfold Notification.evAct at hact
    cases ha : evt.action with
    | none => grind [raiseStr_ne]
    | some a => grind [raiseStr_ne]
  have hread : ∀ f, (Dict.update [] (s.vecOf evt (some info) ++ [(.acknowledged, falseStr)])).get? f =
      if Field.acknowledged = f then some falseStr else if Field.id = f then some (ofNat (s.seqId + 1))
      else if Field.severity = f then some info.severity else (Dict.update [] evt.fetchFieldValues).get? f := by
    grind [State.vecOf, Dict.get?_update_concat]
  simp only [get?_fetchFieldValues] at hread
  exact ⟨⟨hread .severity, (hread .action).trans hfilter, hread .acknowledged⟩, hread .typeId, hread .resource⟩

theorem ack_fields (r : Rec) (ack : Bool) (ts : Str) (f : Field) :
    (r.update [(.acknowledged, ackText ack), (.acknowledgeTime, ts)]).get? f =
      if Field.acknowledgeTime = f then some ts else if Field.acknowledged = f then some (ackText ack) else r.get? f :=
  (Dict.get?_update_concat r [(.acknowledged, ackText ack)] .acknowledgeTime ts f).trans
    (congrArg _ (Dict.get?_set _ _ _ _))

theorem IsAlarm.ack {r : Rec} {sev : Str} {ack : Bool} (h : IsAlarm r sev ack) (ack' : Bool) (ts : Str) :
    IsAlarm (r.update [(.acknowledged, ackText ack'), (.acknowledgeTime, ts)]) sev ack' :=
  ⟨(ack_fields r ack' ts _).trans h.severity, (ack_fields r ack' ts _).trans h.action, ack_fields r ack' ts _⟩

theorem IsAlarm.isAck_eq {r : Rec} {sev : Str} {ack : Bool} (h : IsAlarm r sev ack) : isAck r = ack := by
  rw [isAck, h.acknowledged]
  cases ack
  · exact decide_eq_false fun e => trueStr_ne (Option.some.inj e).symm
  · exact decide_eq_true rfl

/-! ## Counters -/

def counts : AlarmCounter → Rec → Bool
  | .alarms, r => r.get? .acknowledged = some falseStr
  | .acknowledged, r => r.get? .acknowledged = some trueStr
  | c, r => r.get? .acknowledged = some falseStr ∧ (r.get? .severity).map lower = some c.name

def tally (c : AlarmCounter) (alarmTable : Dict Str Rec) : Nat := alarmTable.countP (counts c ·.2)

def weight (sev : Str) (ack : Bool) : AlarmCounter → Int
  | .alarms => if ack then 0 else 1
  | .acknowledged => if ack then 1 else 0
  | c => if !ack ∧ lower sev = c.name then 1 else 0

theorem IsAlarm.counts {r : Rec} {sev : Str} {ack : Bool} (h : IsAlarm r sev ack) (c : AlarmCounter) :
    (if counts c r then 1 else 0) = weight sev ack c := by
  have hf : ackText ack = falseStr ↔ ack = false := ⟨fun e => ackText_inj (b := false) e, fun e => by rw [e]; rfl⟩
  have ht : ackText ack = trueStr ↔ ack = true := ⟨fun e => ackText_inj (b := true) e, fun e => by rw [e]; rfl⟩
  cases c <;> cases ack <;>
    simp [EventConsume.counts, weight, h.acknowledged, h.severity, hf, ht]

theorem updateAlarmStatistics_eq {sev : Str} (hsev : lower sev ≠ AlarmCounter.acknowledged.name) (act : Str)
    (stats : AlarmCounter → Int) (c : AlarmCounter) :
    updateAlarmStatistics sev act stats c = stats c +
      if act = raiseStr then weight sev false c
      else if act = unackStr then weight sev false c - weight sev true c
      else if act = ackStr then weight sev true c - weight sev false c
      else - weight sev false c := by
  have hra := raiseStr_ne.2.2.1
  have hru := raiseStr_ne.2.2.2
  have hau := ackStr_ne.2.2.2
  unfold updateAlarmStatistics
  cases c <;> simp only [weight, reduceCtorEq, if_true, if_false, Bool.not_false, Bool.not_true, true_and, false_and,
    Bool.false_eq_true] <;> grind

def clearsOwn (s : State) : Event → Bool
  | .notify evt _ =>
    match s.staticEventTable.get? evt.evId with
    | none => true
    | some info =>
      if evt.evAct = raiseStr then lower info.severity ≠ AlarmCounter.acknowledged.name
      else if evt.evAct = clearStr then
        match (s.calLookupMap.get? (almkey evt.evId evt.evSrc)).bind (s.alarmTable.get? <| ofNat ·) with
        | none => true
        | some r => isAck r || (r.get? .severity).map lower = some (lower info.severity)
      else true
  | .reload _ _ => true

structure AlarmInv (n : Nat) (s : State) : Prop where
  nodup : (Dict.keys s.alarmTable).Nodup
  id_le : ∀ key ∈ Dict.keys s.alarmTable, ∃ i ≤ n, key = ofNat i
  alarm : ∀ key r, s.alarmTable.get? key = some r →
    ∃ sev ack, IsAlarm r sev ack ∧ lower sev ≠ AlarmCounter.acknowledged.name
  lookup : ∀ k i, s.calLookupMap.get? k = some i → ofNat i ∈ Dict.keys s.alarmTable
  lookup_inj : ∀ k k' i, s.calLookupMap.get? k = some i → s.calLookupMap.get? k' = some i → k = k'
  stats : ∀ c, s.alarmStats c = tally c s.alarmTable

section
variable {n : Nat} {s s' mid : State} {evt : Notification} {now : Nat} {vec : List (Field × Str)} {sev : Str}

theorem AlarmInv.congr (h : AlarmInv n s) (ht : s'.alarmTable = s.alarmTable) (hc : s'.alarmStats = s.alarmStats)
    (hm : s'.calLookupMap = s.calLookupMap) : AlarmInv n s' := by
  refine ⟨?_, ?_, ?_, ?_, ?_, ?_⟩
  · rw [ht]; exact h.nodup
  · rw [ht]; exact h.id_le
  · rw [ht]; exact h.alarm
  · rw [ht, hm]; exact h.lookup
  · rw [hm]; exact h.lookup_inj
  · rw [ht, hc]; exact h.stats

theorem fresh_id {t : Dict Str Rec} (h : ∀ key ∈ Dict.keys t, ∃ i ≤ n, key = ofNat i) :
    t.get? (ofNat (n + 1)) = none := by
  grind [Dict.get?_eq_none_iff, ofNat_injective]

theorem raise_table (hfresh : s.alarmTable.get? (ofNat (s.seqId + 1)) = none) (evt : Notification) (sev : Str)
    (vec : List (Field × Str)) :
    (s.raiseAlarm evt sev vec).alarmTable = s.alarmTable.set (ofNat (s.seqId + 1)) (Dict.update [] vec) := by
  grind [State.raiseAlarm, setFields]

theorem raise_lookup {vec : List (Field × Str)} {k : Str} {i : Nat}
    (h : (s.raiseAlarm evt sev vec).calLookupMap.get? k = some i) :
    s.calLookupMap.get? k = some i ∨ k = almkey evt.evId evt.evSrc ∧ i = s.seqId + 1 ∧
      s.calLookupMap.get? k = none := by
  grind [State.raiseAlarm]

theorem AlarmInv.lookup_le (h : AlarmInv n s) {k : Str} {i : Nat} (hk : s.calLookupMap.get? k = some i) : i ≤ n := by
  obtain ⟨j, hj, he⟩ := h.id_le _ (h.lookup k i hk)
  rwa [ofNat_injective he]

theorem AlarmInv.raise (h : AlarmInv s.seqId s) {info : EventInfo} (hact : evt.evAct = raiseStr)
    (hsev : lower info.severity ≠ AlarmCounter.acknowledged.name) :
    AlarmInv (s.seqId + 1)
      (s.raiseAlarm evt info.severity (s.vecOf evt (some info) ++ [(.acknowledged, falseStr)])) := by
  have hr := (raise_fields s info hact).1
  have hfresh := fresh_id h.id_le
  have htable := raise_table hfresh evt info.severity
    (s.vecOf evt (some info) ++ [(.acknowledged, falseStr)])
  refine ⟨Dict.nodup_set _ _ h.nodup, fun key hk => ?_, fun key r hg => ?_, fun k i hk => ?_,
    fun k k' i hk hk' => ?_, fun c => ?_⟩
  · grind [h.id_le]
  · grind [h.alarm]
  · refine Dict.mem_keys_set_iff.mpr ?_
    rcases raise_lookup hk with hk | ⟨-, rfl, -⟩ <;> grind [h.lookup]
  · rcases raise_lookup hk with hk | ⟨rfl, rfl, -⟩
    · rcases raise_lookup hk' with hk' | ⟨-, rfl, -⟩
      · exact h.lookup_inj k k' i hk hk'
      · exact absurd (h.lookup_le hk) (by omega)
    · rcases raise_lookup hk' with hk' | ⟨rfl, -, -⟩
      · exact absurd (h.lookup_le hk') (by omega)
      · rfl
  · have hstats : updateAlarmStatistics info.severity evt.evAct s.alarmStats c =
        s.alarmStats c + weight info.severity false c := by rw [hact, updateAlarmStatistics_eq hsev, if_pos rfl]
    refine hstats.trans ?_
    rw [htable, tally, Dict.countP_set _ _ _ h.nodup, hfresh, hr.counts, h.stats]
    simp [tally]

theorem AlarmInv.clear (h : AlarmInv n s) (hact : evt.evAct = clearStr) (hc : s.clearAlarm evt sev = some mid)
    (hsev : ∀ seq r, s.calLookupMap.get? (almkey evt.evId evt.evSrc) = some seq →
      s.alarmTable.get? (ofNat seq) = some r → isAck r = true ∨ (r.get? .severity).map lower = some (lower sev)) :
    AlarmInv n mid := by
  obtain ⟨seq, hseq, rfl⟩ := Option.map_eq_some_iff.mp hc
  obtain ⟨r, hg⟩ : ∃ r, s.alarmTable.get? (ofNat seq) = some r :=
    Option.ne_none_iff_exists'.mp fun hn => Dict.get?_eq_none_iff.mp hn (h.lookup _ _ hseq)
  obtain ⟨rsev, ack, hr, hname⟩ := h.alarm _ r hg
  have hstats : ∀ c, (if isAck r then clearAckAlarmStatistic s.alarmStats
      else updateAlarmStatistics sev evt.evAct s.alarmStats) c = s.alarmStats c - weight rsev ack c := by
    intro c
    rw [hr.isAck_eq]
    cases ack with
    | true => cases c <;> simp [clearAckAlarmStatistic, weight]
    | false =>
      -- The alarm is not acknowledged, so the CLEAR has its severity.
      have hsame : lower rsev = lower sev := by grind [Sonic.EventConsume.IsAlarm.isAck_eq, hr.severity]
      simp_all [weight, updateAlarmStatistics_eq, clearStr_ne, Int.sub_eq_add_neg]
  refine ⟨Dict.nodup_filter _ h.nodup, fun key hk => h.id_le key (Dict.mem_keys_erase.mp hk).1, fun key r' hg' => ?_,
    fun k i hk => ?_, fun k k' i hk hk' => ?_, fun c => ?_⟩
  · grind [h.alarm]
  · refine Dict.mem_keys_erase.mpr ⟨h.lookup k i (Dict.get?_of_erase hk), fun he => ?_⟩
    -- Another entry of the same alarm would be the one that is erased.
    grind [h.lookup_inj, ofNat_injective]
  · grind [h.lookup_inj]
  · have hcount : (tally c (s.alarmTable.erase (ofNat seq)) : Int) = tally c s.alarmTable - weight rsev ack c := by
      rw [tally, Dict.countP_erase _ _ h.nodup, hg, Option.any_some, hr.counts]
      rfl
    grind [h.stats]

theorem ack_table {raise : Rec} (hg : s.alarmTable.get? evt.evSrc = some raise) (ack : Bool) (sev : Str) :
    (s.updateAckInfo ack evt sev).alarmTable = s.alarmTable.set evt.evSrc
      (raise.update [(.acknowledged, ackText ack), (.acknowledgeTime, evt.evTimestamp)]) := by
  grind [State.updateAckInfo, setFields, ackText]

theorem AlarmInv.ack (h : AlarmInv n s) {raise : Rec} {ack : Bool} (hg : s.alarmTable.get? evt.evSrc = some raise)
    (hflag : isAck raise = !ack) (hact : evt.evAct = if ack then ackStr else unackStr) :
    AlarmInv n (s.updateAckInfo ack evt ((raise.get? .severity).getD sev)) := by
  obtain ⟨rsev, old, hr, hname⟩ := h.alarm _ raise hg
  have hold : old = !ack := hr.isAck_eq.symm.trans hflag
  have htable := ack_table hg ack rsev
  rw [hr.severity, Option.getD_some]
  refine ⟨Dict.nodup_set _ _ h.nodup, fun key hk => h.id_le key ?_, fun key r hg' => ?_,
    fun k i hk => Dict.mem_keys_set_iff.mpr (.inr (h.lookup k i hk)), h.lookup_inj, fun c => ?_⟩
  · grind [Dict.mem_keys_of_get?]
  · rw [htable, Dict.get?_set] at hg'
    split at hg'
    · cases hg'
      exact ⟨_, _, hr.ack ack _, hname⟩
    · exact h.alarm key r hg'
  · have hstats : updateAlarmStatistics rsev evt.evAct s.alarmStats c =
        s.alarmStats c + (weight rsev ack c - weight rsev old c) := by
      grind [updateAlarmStatistics_eq, ackStr_ne, unackStr_ne]
    refine hstats.trans ?_
    rw [htable, tally, Dict.countP_set _ _ _ h.nodup, hg, Option.any_some, hr.counts, (hr.ack ack _).counts, h.stats,
      tally]
    omega

theorem AlarmInv.mono (h : AlarmInv n s) {m : Nat} (hm : n ≤ m) : AlarmInv m s :=
  { h with id_le := fun key hk => (h.id_le key hk).imp fun _ hi => ⟨hi.1.trans hm, hi.2⟩ }

theorem static_info {table : Dict Str EventInfo} {id act : Str} {info : Option EventInfo}
    (h : staticInfoExists table id act = some info) (ha : act ≠ ackStr) (hu : act ≠ unackStr) :
    ∃ i, info = some i ∧ table.get? id = some i ∧ i.enable ≠ falseStr := by grind [staticInfoExists]

theorem AlarmInv.notify (h : AlarmInv s.seqId s) (hok : clearsOwn s (.notify evt now) = true)
    (hs : s.handleNotification evt now = some s') : AlarmInv s'.seqId s' := by
  have h' : AlarmInv s.seqId { s with flood := evt.flood } := h.congr rfl rfl rfl
  rcases handle_cases hs with (rfl | rfl) | ⟨info, mid, vec, -, hinfo, hact, hend⟩
  · exact h
  · exact h'
  · have hmid : AlarmInv (s.seqId + 1) mid := by
      rcases act_cases hact with ⟨rfl, -⟩ | ⟨hr, rfl, rfl⟩ | ⟨hc, rfl, hm⟩ | ⟨raise, ack, hg, -, hflag, ha, -, rfl⟩
      · exact h'.mono (Nat.le_succ _)
      · obtain ⟨info, rfl, hg, -⟩ := static_info hinfo (hr ▸ raiseStr_ne.2.2.1) (hr ▸ raiseStr_ne.2.2.2)
        simp only [clearsOwn, hg, hr, if_true, decide_eq_true_eq] at hok
        exact AlarmInv.raise (s := { s with flood := evt.flood }) h' hr hok
      · obtain ⟨info, rfl, hg, -⟩ := static_info hinfo (hc ▸ clearStr_ne.2.2.1) (hc ▸ clearStr_ne.2.2.2)
        simp only [clearsOwn, hg, hc, if_neg clearStr_ne.2.1, if_true] at hok
        refine (h'.clear hc hm fun seq r hseq hr => ?_).mono (Nat.le_succ _)
        simp_all
      · exact (h'.ack hg hflag ha).mono (Nat.le_succ _)
    have hsame := conclude_same hend
    rw [hsame.seqId, act_seqId hact]
    exact hmid.congr hsame.alarmTable hsame.alarmStats hsame.calLookupMap

theorem AlarmInv.step {e : Event} (h : AlarmInv s.seqId s) (hok : clearsOwn s e = true) (hs : step s e = some s') :
    AlarmInv s'.seqId s' := by
  cases e with
  | notify evt now => exact h.notify hok hs
  | reload cfg now =>
    obtain ⟨m, hm, rfl⟩ := Option.map_eq_some_iff.mp hs
    have hsame := purge_same hm
    have hid : m.seqId = s.seqId := hsame.seqId
    exact hid ▸ h.congr hsame.alarmTable hsame.alarmStats hsame.calLookupMap

theorem start_alarms {cfg : Config} (hs : start cfg now = some s) : AlarmInv s.seqId s := by
  obtain ⟨m, hm, rfl⟩ := Option.map_eq_some_iff.mp hs
  have hsame := purge_same hm
  have ht : m.alarmTable = [] := hsame.alarmTable
  have hc : m.alarmStats = fun _ => 0 := hsame.alarmStats
  have hl : m.calLookupMap = [] := hsame.calLookupMap
  refine ⟨?_, ?_, ?_, ?_, ?_, ?_⟩ <;> simp [ht, hc, hl, Dict.keys, tally]

/-- As long as every CLEAR has the severity of the alarm that it finds, each counter is the number of the records that
it counts. -/
theorem alarm_counters {cfg : Config} {es : List Event} {s₀ : State} (hstart : start cfg now = some s₀)
    (hok : Along EventConsume.step (fun s e => clearsOwn s e = true) s₀ es)
    (hrun : run EventConsume.step s₀ es = some s)
    (c : AlarmCounter) : s.alarmStats c = tally c s.alarmTable ∧ 0 ≤ s.alarmStats c := by
  have h : AlarmInv s.seqId s := run_inv EventConsume.step
    (fun s _ _ (hi : AlarmInv s.seqId s) ho he => hi.step ho he) (start_alarms hstart) hok hrun
  refine ⟨h.stats c, ?_⟩
  rw [h.stats c]
  exact Int.natCast_nonneg _

end

def profile : Config :=
  ⟨30, 200, [("a", ⟨"CRITICAL", trueStr⟩), ("a|b", ⟨"MINOR", trueStr⟩)]⟩

def alarmNote (action typeId resource text : String) : Notification :=
  ⟨0, some action.toList, some resource.toList, some text.toList, some typeId.toList⟩

theorem alarm_counters_two : ∃ s₀ s, start profile 0 = some s₀ ∧
    run step s₀ [.notify (alarmNote "RAISE" "a" "p" "x") 0, .notify (alarmNote "RAISE" "a" "q" "x") 0,
      .notify (alarmNote "ACKNOWLEDGE" "a" "1" "x") 0, .notify (alarmNote "CLEAR" "a" "p" "x") 0] = some s ∧
    s.alarmStats .critical = tally .critical s.alarmTable ∧ 0 ≤ s.alarmStats .critical :=
  ⟨_, _, (Option.some_get (by decide +kernel)).symm, (Option.some_get (by decide +kernel)).symm,
    alarm_counters (Option.some_get _).symm (by decide +kernel) (Option.some_get _).symm .critical⟩

theorem clear_of_other_alarm : ∃ s₀ s, start profile 0 = some s₀ ∧
    run step s₀ [.notify (alarmNote "RAISE" "a" "b|c" "x") 0, .notify (alarmNote "CLEAR" "a|b" "c" "x") 0] = some s ∧
    s.alarmTable = [] ∧ s.alarmStats .critical = 1 ∧ s.alarmStats .minor = -1 :=
  ⟨_, _, (Option.some_get (by decide +kernel)).symm, (Option.some_get (by decide +kernel)).symm, by decide +kernel,
    by decide +kernel, by decide +kernel⟩

/-! ## Every alarm can be cleared -/

def typeOf (r : Rec) : Str := (r.get? .typeId).getD []
def resourceOf (r : Rec) : Str := (r.get? .resource).getD []

def raisesOnce (s : State) : Life → Bool
  | .notify evt _ => evt.evAct ≠ raiseStr || s.flood = evt.flood ||
      (staticInfoExists s.staticEventTable evt.evId evt.evAct).isNone ||
      (s.calLookupMap.get? (almkey evt.evId evt.evSrc)).isNone
  | .restart _ _ => s.alarmTable.isEmpty

structure ClearInv (n : Nat) (s : State) : Prop where
  id_le : ∀ key ∈ Dict.keys s.alarmTable, ∃ i ≤ n, key = ofNat i
  entry : ∀ key r, s.alarmTable.get? key = some r →
    ∃ i, key = ofNat i ∧ s.calLookupMap.get? (almkey (typeOf r) (resourceOf r)) = some i
  target : ∀ k i, s.calLookupMap.get? k = some i →
    ∃ r, s.alarmTable.get? (ofNat i) = some r ∧ almkey (typeOf r) (resourceOf r) = k
  enabled : ∀ key r, s.alarmTable.get? key = some r →
    ∃ info, s.staticEventTable.get? (typeOf r) = some info ∧ info.enable ≠ falseStr
  count : s.count ≠ 0

section
variable {n : Nat} {s s' mid : State} {evt : Notification} {now : Nat} {vec : List (Field × Str)} {sev : Str}

theorem ClearInv.congr (h : ClearInv n s) (ht : s'.alarmTable = s.alarmTable) (hm : s'.calLookupMap = s.calLookupMap)
    (hp : s'.staticEventTable = s.staticEventTable) (hc : s'.count = s.count) : ClearInv n s' := by
  refine ⟨?_, ?_, ?_, ?_, ?_⟩ <;> grind [h.id_le, h.entry, h.target, h.enabled, h.count]

theorem ClearInv.mono (h : ClearInv n s) {m : Nat} (hm : n ≤ m) : ClearInv m s :=
  { h with id_le := fun key hk => (h.id_le key hk).imp fun _ hi => ⟨hi.1.trans hm, hi.2⟩ }

theorem ClearInv.raise (h : ClearInv s.seqId s) {info : EventInfo} (hact : evt.evAct = raiseStr)
    (hinfo : s.staticEventTable.get? evt.evId = some info) (hen : info.enable ≠ falseStr)
    (hnone : s.calLookupMap.get? (almkey evt.evId evt.evSrc) = none) :
    ClearInv (s.seqId + 1)
      (s.raiseAlarm evt info.severity (s.vecOf evt (some info) ++ [(.acknowledged, falseStr)])) := by
  obtain ⟨-, hid, hsrc⟩ := raise_fields s info hact
  have hfresh := fresh_id h.id_le
  have htable := raise_table hfresh evt info.severity
    (s.vecOf evt (some info) ++ [(.acknowledged, falseStr)])
  generalize Dict.update [] (s.vecOf evt (some info) ++ [(.acknowledged, falseStr)]) = new at hid hsrc htable
  have htype : typeOf new = evt.evId := by rw [typeOf, hid]; rfl
  have hres : resourceOf new = evt.evSrc := by rw [resourceOf, hsrc]; rfl
  have hmap : (s.raiseAlarm evt info.severity (s.vecOf evt (some info) ++ [(.acknowledged, falseStr)])).calLookupMap =
      s.calLookupMap.set (almkey evt.evId evt.evSrc) (s.seqId + 1) := if_pos hnone
  refine ⟨fun key hk => ?_, fun key r hg => ?_, fun k i hk => ?_, fun key r hg => ?_, h.count⟩
  · grind [h.id_le]
  · grind [h.entry]
  · grind [h.target]
  · rw [htable, Dict.get?_set] at hg
    split at hg
    · cases hg
      exact ⟨info, by rw [htype]; exact hinfo, hen⟩
    · exact h.enabled key r hg

theorem ClearInv.clear (h : ClearInv n s) (hc : s.clearAlarm evt sev = some mid) : ClearInv n mid := by
  obtain ⟨seq, hseq, rfl⟩ := Option.map_eq_some_iff.mp hc
  refine ⟨fun key hk => h.id_le key (Dict.mem_keys_erase.mp hk).1, fun key r hg => ?_,
    fun k i hk => ?_,
    fun key r hg => h.enabled key r (Dict.get?_of_erase hg), h.count⟩ <;> grind [h.entry,
    h.target]

theorem ClearInv.ack (h : ClearInv n s) {raise : Rec} {ack : Bool} (hg : s.alarmTable.get? evt.evSrc = some raise) :
    ClearInv n (s.updateAckInfo ack evt sev) := by
  have htable := ack_table hg ack sev
  have hsame : ∀ key r, (s.updateAckInfo ack evt sev).alarmTable.get? key = some r →
      ∃ r', s.alarmTable.get? key = some r' ∧ typeOf r = typeOf r' ∧ resourceOf r = resourceOf r' := by
    grind [typeOf, ack_fields, resourceOf]
  refine ⟨fun key hk => ?_, fun key r hr => ?_, fun k i hk => ?_, fun key r hr => ?_, h.count⟩
  · grind [h.id_le, Dict.mem_keys_of_get?]
  · obtain ⟨r', hr', ht, hs⟩ := hsame key r hr
    rw [ht, hs]
    exact h.entry key r' hr'
  · obtain ⟨r, hr, he⟩ := h.target k i hk
    grind
  · obtain ⟨r', hr', ht, -⟩ := hsame key r hr
    rw [ht]
    exact h.enabled key r' hr'

theorem ClearInv.notify (h : ClearInv s.seqId s) (hok : raisesOnce s (.notify evt now) = true)
    (hs : s.handleNotification evt now = some s') : ClearInv s'.seqId s' := by
  have h' : ClearInv s.seqId { s with flood := evt.flood } := h.congr rfl rfl rfl rfl
  rcases handle_cases hs with (rfl | rfl) | ⟨info, mid, vec, hflood, hinfo, hact, hend⟩
  · exact h
  · exact h'
  · have hmid : ClearInv (s.seqId + 1) mid := by
      rcases act_cases hact with ⟨rfl, -⟩ | ⟨hr, rfl, rfl⟩ | ⟨hc, rfl, hm⟩ | ⟨raise, ack, hg, -, hflag, ha, -, rfl⟩
      · exact h'.mono (Nat.le_succ _)
      · obtain ⟨info, rfl, hg, hen⟩ := static_info hinfo (hr ▸ raiseStr_ne.2.2.1) (hr ▸ raiseStr_ne.2.2.2)
        have hnone : s.calLookupMap.get? (almkey evt.evId evt.evSrc) = none := by simp_all [raisesOnce]
        exact ClearInv.raise (s := { s with flood := evt.flood }) h' hr hg hen hnone
      · exact (h'.clear hm).mono (Nat.le_succ _)
      · exact (h'.ack hg).mono (Nat.le_succ _)
    have hsame := conclude_same hend
    rw [hsame.seqId, act_seqId hact]
    exact hmid.congr hsame.alarmTable hsame.calLookupMap hsame.staticEventTable hsame.count

theorem purge_count (h : s.purgeEvents now = some s') : s.count ≠ 0 := by grind [State.purgeEvents]

theorem construct_clear {cfg : Config} (ht : s.alarmTable = []) (hs : s.construct cfg now = some s') :
    ClearInv s'.seqId s' := by
  obtain ⟨m, hm, rfl⟩ := Option.map_eq_some_iff.mp hs
  have hsame := purge_same hm
  have hcount := purge_count hm
  have ht' : m.alarmTable = [] := hsame.alarmTable.trans ht
  have hl : m.calLookupMap = [] := hsame.calLookupMap
  refine ⟨?_, ?_, ?_, ?_, hsame.count ▸ hcount⟩ <;> simp [ht', hl, Dict.keys]

theorem ClearInv.live {e : Life} (h : ClearInv s.seqId s) (hok : raisesOnce s e = true) (hs : live s e = some s') :
    ClearInv s'.seqId s' := by
  cases e with
  | notify evt now => exact h.notify hok hs
  | restart cfg now => exact construct_clear (List.isEmpty_iff.mp hok) hs

theorem ClearInv.cleared (h : ClearInv n s) {key : Str} {r : Rec} (hg : s.alarmTable.get? key = some r) (now : Nat) :
    ∃ s', s.handleNotification ⟨0, some clearStr, some (resourceOf r), some ('x' :: s.flood.msg), some (typeOf r)⟩ now =
        some s' ∧ s'.alarmTable = s.alarmTable.erase key := by
  obtain ⟨seq, rfl, hseq⟩ := h.entry key r hg
  obtain ⟨info, hinfo, hen⟩ := h.enabled _ r hg
  have hflood : s.flood ≠ ⟨resourceOf r, clearStr, typeOf r, 'x' :: s.flood.msg⟩ := fun e =>
    absurd (congrArg (·.msg.length) e) (by simp)
  have hstatic : staticInfoExists s.staticEventTable (typeOf r) clearStr = some (some info) := by
    grind [staticInfoExists]
  generalize hc : (⟨0, some clearStr, some (resourceOf r), some ('x' :: s.flood.msg),
    some (typeOf r)⟩ : Notification) = c
  have hid : c.evId = typeOf r := hc ▸ rfl
  have hsrc : c.evSrc = resourceOf r := hc ▸ rfl
  have hact : c.evAct = clearStr := hc ▸ rfl
  have hfl : c.flood = ⟨resourceOf r, clearStr, typeOf r, 'x' :: s.flood.msg⟩ := hc ▸ rfl
  obtain ⟨mid, hmid, hcount, htable⟩ : ∃ mid, State.clearAlarm { s with flood := c.flood } c info.severity = some mid ∧
      mid.count = s.count ∧ mid.alarmTable = s.alarmTable.erase (ofNat seq) := by grind [State.clearAlarm]
  obtain ⟨s', hs'⟩ := conclude_some (hcount ▸ h.count) c (s.vecOf c (some info)) now
  refine ⟨s', ?_, (conclude_same hs').alarmTable.trans htable⟩
  grind [handle_of_act, State.act, clearStr_ne]

/-- As long as every RAISE finds no entry of its alarm and every new process no alarms, each alarm is the target of the
entry of its type and resource, and CLEAR notifications remove all alarms of a type and resource. -/
theorem alarms_clear {cfg : Config} {es : List Life} {s₀ : State} (hstart : start cfg now = some s₀)
    (hok : Along EventConsume.live (fun s e => raisesOnce s e = true) s₀ es)
    (hrun : run EventConsume.live s₀ es = some s) :
    (∀ key r, s.alarmTable.get? key = some r →
      ∃ i, key = ofNat i ∧ s.calLookupMap.get? (almkey (typeOf r) (resourceOf r)) = some i) ∧
    ∀ (t res : Str) (now : Nat), ∃ cs : List Notification,
      (∀ c ∈ cs, c.evId = t ∧ c.evSrc = res ∧ c.evAct = clearStr) ∧
      ∃ s', run EventConsume.live s (cs.map (.notify · now)) = some s' ∧
        ∀ key r, s'.alarmTable.get? key = some r → ¬ (typeOf r = t ∧ resourceOf r = res) := by
  have h : ClearInv s.seqId s := run_inv EventConsume.live
    (fun s _ _ (hi : ClearInv s.seqId s) ho he => hi.live ho he) (construct_clear rfl hstart) hok hrun
  refine ⟨h.entry, fun t res now => ?_⟩
  by_cases hex : ∃ key r, s.alarmTable.get? key = some r ∧ typeOf r = t ∧ resourceOf r = res
  · obtain ⟨key, r, hg, rfl, rfl⟩ := hex
    obtain ⟨s', hs', ht⟩ := h.cleared hg now
    have hlive : EventConsume.live s (.notify _ now) = some s' := hs'
    refine ⟨[_], fun c hc => ?_, s', run_cons EventConsume.live hlive [], fun key' r' hg' hr' => ?_⟩
    · rw [List.mem_singleton.mp hc]
      exact ⟨rfl, rfl, rfl⟩
    · rw [ht] at hg'
      obtain ⟨i, rfl, hi⟩ := h.entry _ r' (Dict.get?_of_erase hg')
      obtain ⟨j, rfl, hj⟩ := h.entry _ r hg
      rw [hr'.1, hr'.2, hj] at hi
      cases hi
      rw [Dict.get?_erase_self] at hg'
      cases hg'
  · exact ⟨[], nofun, s, rfl, fun key r hg hr => hex ⟨key, r, hg, hr⟩⟩

end

theorem alarms_clear_again : ∃ s₀ s, start profile 0 = some s₀ ∧
    run live s₀ [.notify (alarmNote "RAISE" "a" "p" "x") 0, .notify (alarmNote "CLEAR" "a" "p" "x") 0,
      .restart profile 0,
      .notify (alarmNote "RAISE" "a" "p" "x") 0, .notify (alarmNote "RAISE" "a" "q" "x") 0] = some s ∧
    ∀ key r, s.alarmTable.get? key = some r →
      ∃ i, key = ofNat i ∧ s.calLookupMap.get? (almkey (typeOf r) (resourceOf r)) = some i :=
  ⟨_, _, (Option.some_get (by decide +kernel)).symm, (Option.some_get (by decide +kernel)).symm,
    (alarms_clear (Option.some_get _).symm (by decide +kernel) (Option.some_get _).symm).1⟩

theorem raised_twice : ∃ s₀ s, start profile 0 = some s₀ ∧
    run live s₀ [.notify (alarmNote "RAISE" "a" "p" "x") 0, .notify (alarmNote "RAISE" "a" "p" "y") 0,
      .notify (alarmNote "CLEAR" "a" "p" "x") 0] = some s ∧
    (s.alarmTable.get? "2".toList).map (fun r => (typeOf r, resourceOf r)) = some ("a".toList, "p".toList) ∧
    s.calLookupMap = [] :=
  ⟨_, _, (Option.some_get (by decide +kernel)).symm, (Option.some_get (by decide +kernel)).symm, by decide +kernel,
    by decide +kernel⟩

end Sonic.EventConsume
