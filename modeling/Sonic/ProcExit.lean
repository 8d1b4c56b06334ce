import Sonic.Dict
import Sonic.Run
import Sonic.Text
import Mathlib.Algebra.Order.Floor.Semiring
import Mathlib.Data.Rat.Floor
import Mathlib.Tactic.Linarith
import Mathlib.Tactic.NormNum

/-! # Alerts about critical processes

The main loop of `proc_exit_listener`. It reads supervisor's events, keeps the critical processes
that are down, and writes an alert about each of them once a minute. The clock is read twice in a
turn: by the handler of an event, and before the alerts are written. -/

namespace Sonic.ProcExit

def alertingInterval : ℚ := 60

structure Info where
  lastAlerted : ℚ
  deadMinutes : ℕ
  deriving DecidableEq

inductive Status where
  | notRunning
  | stuck
  deriving DecidableEq

structure Alert where
  time : ℚ
  process : Str
  status : Status
  minutes : ℕ
  deriving DecidableEq

structure Config where
  criticalProcessList : List Str
  criticalGroupList : List Str
  watchProcessList : List Str
  heartbeatAlertInterval : Str → ℚ

structure St where
  processUnderAlerting : Dict Str Info
  processHeartBeatInfo : Dict Str ℚ
  log : List Alert

def St.init : St := ⟨[], [], []⟩

inductive Event where
  | exited (expected : ℤ) (processName groupName : Str)
  | running (processName : Str)
  | stdout (processName : Str)
  | fatal (processName groupName : Str)
  | unknown

inductive Input where
  | timeout
  | eof
  | noLen
  | event (clock : ℚ) (autoRestart : Option Str) (event : Event)

structure Turn where
  input : Input
  currentTime : ℚ

section
variable (cfg : Config)

def Config.critical (processName groupName : Str) : Prop :=
  processName ∈ cfg.criticalProcessList ∨ groupName ∈ cfg.criticalGroupList

instance (processName groupName : Str) : Decidable (cfg.critical processName groupName) :=
  inferInstanceAs (Decidable (_ ∨ _))

def processDown (clock : ℚ) (autoRestart : Option Str) (s : St) (processName : Str) : Option St :=
  if autoRestart = some "enabled".toList then none
  else some { s with processUnderAlerting := s.processUnderAlerting.set processName ⟨clock, 0⟩ }

def handle (clock : ℚ) (autoRestart : Option Str) (s : St) : Event → Option St
  | .exited expected processName groupName =>
    if cfg.critical processName groupName ∧ expected = 0 then processDown clock autoRestart s processName else some s
  | .running processName => some { s with processUnderAlerting := s.processUnderAlerting.erase processName }
  | .stdout processName =>
    if processName ∈ cfg.watchProcessList then
      some { s with processHeartBeatInfo := s.processHeartBeatInfo.set processName clock }
    else some s
  | .fatal processName groupName =>
    if cfg.critical processName groupName then processDown clock autoRestart s processName else some s
  | .unknown => some s

def Info.check (now : ℚ) (i : Info) : Info :=
  if alertingInterval ≤ now - i.lastAlerted then ⟨now, i.deadMinutes + ⌊(now - i.lastAlerted) / 60⌋₊⟩ else i

def Info.alert (now : ℚ) (processName : Str) (i : Info) : Option Alert :=
  if alertingInterval ≤ now - i.lastAlerted then some
    ⟨now, processName, .notRunning, (i.check now).deadMinutes⟩ else none

def heartbeatAlert (now : ℚ) (process : Str) (lastHeartBeat : ℚ) : Option Alert :=
  if 0 < cfg.heartbeatAlertInterval process ∧ cfg.heartbeatAlertInterval process ≤ now - lastHeartBeat then
    some ⟨now, process, .stuck, ⌊(now - lastHeartBeat) / 60⌋₊⟩
  else none

def alerting (now : ℚ) (s : St) : St :=
  { s with
    processUnderAlerting := s.processUnderAlerting.map fun p => (p.1, p.2.check now)
    log := s.log ++ s.processUnderAlerting.filterMap (fun p => p.2.alert now p.1) ++
      s.processHeartBeatInfo.filterMap fun p => heartbeatAlert cfg now p.1 p.2 }

def turn (s : St) (t : Turn) : Option St :=
  match t.input with
  | .eof => none
  | .noLen => some s
  | .timeout => some (alerting cfg t.currentTime s)
  | .event clock autoRestart event => (handle cfg clock autoRestart s event).map (alerting cfg t.currentTime)

end

def alertsOf (process : Str) (log : List Alert) : List Alert :=
  log.filter fun a => a.process = process ∧ a.status = .notRunning

def alerts (process : Str) : Info → List ℚ → List Alert
  | _, [] => []
  | i, now :: times => (i.alert now process).toList ++ alerts process (i.check now) times

def due : ℚ → List ℚ → List ℚ
  | _, [] => []
  | last, now :: times => if alertingInterval ≤ now - last then now :: due now times else due last times

def parts : ℚ → List ℚ → ℚ
  | _, [] => 0
  | last, now :: times => Int.fract ((now - last) / 60) + parts now times

theorem alerts_times (process : Str) : ∀ (times : List ℚ) (i : Info),
    (alerts process i times).map Alert.time = due i.lastAlerted times
  | [], _ => rfl
  | now :: times, i => by
    rw [alerts, due, List.map_append, alerts_times process times, Info.alert, Info.check]
    by_cases h : alertingInterval ≤ now - i.lastAlerted <;> grind

theorem parts_nonneg : ∀ (times : List ℚ) (last : ℚ), 0 ≤ parts last times
  | [], _ => le_rfl
  | now :: times, _ => add_nonneg (Int.fract_nonneg _) (parts_nonneg times now)

theorem minutes_right_iff {t₀ last lost : ℚ} {minutes : ℕ} (h : (last - t₀) / 60 = minutes + lost) (hlost : 0 ≤ lost) :
    minutes = ⌊(last - t₀) / 60⌋₊ ↔ lost < 1 := by simp_all [add_comm, Nat.floor_add_natCast]

theorem alerts_right_iff (process : Str) {t₀ : ℚ} : ∀ (times : List ℚ) {i : Info} {lost : ℚ},
    (i.lastAlerted - t₀) / 60 = i.deadMinutes + lost → 0 ≤ lost → lost < 1 →
      ((∀ a ∈ alerts process i times, a.minutes = ⌊(a.time - t₀) / 60⌋₊) ↔
        lost + parts i.lastAlerted (due i.lastAlerted times) < 1)
  | [], i, lost, _, _, hlt => by
    refine ⟨fun _ => ?_, fun _ => nofun⟩
    rw [due, parts, add_zero]
    exact hlt
  | now :: times, i, lost, hi, hlost, hlt => by
    rw [alerts, due]
    by_cases h : alertingInterval ≤ now - i.lastAlerted
    · have hgap : (0 : ℚ) ≤ (now - i.lastAlerted) / 60 := by grind [alertingInterval]
      have hcheck : i.check now = ⟨now, i.deadMinutes + ⌊(now - i.lastAlerted) / 60⌋₊⟩ := if_pos h
      have hfract : (now - i.lastAlerted) / 60 = ⌊(now - i.lastAlerted) / 60⌋₊ + Int.fract
          ((now - i.lastAlerted) / 60) := by
        rw [natCast_floor_eq_intCast_floor hgap, Int.floor_add_fract]
      have hnew : (now - t₀) / 60 = ((i.deadMinutes + ⌊(now - i.lastAlerted) / 60⌋₊ : ℕ) : ℚ) +
          (lost + Int.fract ((now - i.lastAlerted) / 60)) := by
        have hsum : (now - t₀) / 60 = (i.lastAlerted - t₀) / 60 + (now - i.lastAlerted) / 60 := by ring
        grind
      have hnonneg := add_nonneg hlost (Int.fract_nonneg ((now - i.lastAlerted) / 60))
      rw [Info.alert, if_pos h, if_pos h, hcheck, parts, Option.toList_some, List.singleton_append,
        List.forall_mem_cons,
        ← add_assoc, minutes_right_iff hnew hnonneg]
      constructor
      · rintro ⟨hhead, htail⟩
        exact (alerts_right_iff process times hnew hnonneg hhead).mp htail
      · intro hall
        have hhead : lost + Int.fract ((now - i.lastAlerted) / 60) < 1 := by grind [parts_nonneg]
        exact ⟨hhead, (alerts_right_iff process times hnew hnonneg hhead).mpr hall⟩
    · have hcheck : i.check now = i := if_neg h
      rw [Info.alert, if_neg h, if_neg h, hcheck]
      exact alerts_right_iff process times hi hlost hlt

/-! ## The entry of a process in the loop -/

/-- The process that an event is about. A FATAL event of a process that is not critical is ignored. -/
def Event.process (cfg : Config) : Event → Option Str
  | .exited _ processName _ => some processName
  | .running processName => some processName
  | .fatal processName groupName => if cfg.critical processName groupName then some processName else none
  | .stdout _ => none
  | .unknown => none

def Turn.checkTime (t : Turn) : Option ℚ :=
  match t.input with
  | .noLen => none
  | _ => some t.currentTime

/-- The turn reads no RUNNING or EXITED event of the process, and no FATAL event of it that the handler takes. -/
def Quiet (cfg : Config) (process : Str) (t : Turn) : Prop :=
  match t.input with
  | .event _ _ e => e.process cfg ≠ some process
  | _ => True

section
variable {cfg : Config} {s s' : St} {process : Str} {i : Info} {now : ℚ}

theorem alertsOf_filterMap : ∀ {d : Dict Str Info}, d.keys.Nodup →
    alertsOf process (d.filterMap fun p => p.2.alert now p.1) = ((d.get? process).bind (·.alert now process)).toList
  | [], _ => rfl
  | (k, j) :: d, h => by
    have hd := List.nodup_cons.mp h
    have ih := alertsOf_filterMap (d := d) hd.2
    rw [List.filterMap_cons, Dict.get?_cons]
    by_cases hk : process = k
    · subst hk
      have hrest : alertsOf process (d.filterMap fun p => p.2.alert now p.1) = [] := by
        rw [ih, Dict.get?_eq_none_iff.mpr hd.1]
        rfl
      dsimp only
      rw [if_pos rfl, Option.bind_some, Info.alert]
      by_cases hdue : alertingInterval ≤ now - j.lastAlerted
      · rw [if_pos hdue, Option.toList_some]
        show List.filter _ (_ :: _) = _
        rw [List.filter_cons_of_pos (by simp)]
        exact congrArg _ hrest
      · grind
    · dsimp only
      rw [if_neg (Ne.symm hk), ← ih, Info.alert]
      by_cases hdue : alertingInterval ≤ now - j.lastAlerted
      · rw [if_pos hdue]
        show List.filter _ (_ :: _) = _
        rw [List.filter_cons_of_neg (by simp [Ne.symm hk])]
        rfl
      · rw [if_neg hdue]

theorem alertsOf_heartbeat (d : Dict Str ℚ) :
    alertsOf process (d.filterMap fun p => heartbeatAlert cfg now p.1 p.2) = [] := by
  refine List.filter_eq_nil_iff.mpr fun a ha => ?_
  grind [heartbeatAlert]

theorem alerting_entry (cfg : Config) (now : ℚ) (hn : s.processUnderAlerting.keys.Nodup) 
    (hi : s.processUnderAlerting.get? process = some i) :
    (alerting cfg now s).processUnderAlerting.get? process = some (i.check now) ∧
      alertsOf process (alerting cfg now s).log = alertsOf process s.log ++ (i.alert now process).toList := by
  constructor
  · show Dict.get? (s.processUnderAlerting.map fun p => (p.1, p.2.check now)) process = _
    rw [Dict.get?_map fun _ j => Info.check now j, hi]
    rfl
  · show List.filter _ (s.log ++ _ ++ _) = _
    rw [List.filter_append, List.filter_append]
    show alertsOf process s.log ++ alertsOf process _ ++ alertsOf process _ = _
    simp_all [alertsOf_filterMap, alertsOf_heartbeat]

theorem alerting_nodup (hn : s.processUnderAlerting.keys.Nodup) :
    (alerting cfg now s).processUnderAlerting.keys.Nodup := by
  show (Dict.keys (s.processUnderAlerting.map _)).Nodup
  rw [Dict.keys, List.map_map]
  exact hn

theorem handle_frame {clock : ℚ} {autoRestart : Option Str} {e : Event} (h : handle cfg clock autoRestart s e = some s')
    (hn : s.processUnderAlerting.keys.Nodup) : s'.processUnderAlerting.keys.Nodup ∧ s'.log = s.log ∧
      ∀ p, e.process cfg ≠ some p → s'.processUnderAlerting.get? p = s.processUnderAlerting.get? p := by
  have hdown : ∀ {name s'}, processDown clock autoRestart s name = some s' → s'.processUnderAlerting.keys.Nodup ∧
      s'.log = s.log ∧ ∀ p, some name ≠ some p → s'.processUnderAlerting.get? p = s.processUnderAlerting.get? p := by
    intro name s' hs
    rw [processDown] at hs
    split at hs
    · cases hs
    · grind [Dict.nodup_set]
  have hsame : some s = some s' → s'.processUnderAlerting.keys.Nodup ∧ s'.log = s.log ∧
      ∀ p, e.process cfg ≠ some p → s'.processUnderAlerting.get? p = s.processUnderAlerting.get? p := by grind
  cases e with
  | exited expected name group =>
    rw [handle] at h
    split at h
    · exact hdown h
    · exact hsame h
  | running name =>
    cases h
    exact ⟨Dict.nodup_filter _ hn, rfl, fun p hp => Dict.get?_erase_ne (fun he => hp (congrArg some he)) _⟩
  | stdout name => grind [handle]
  | fatal name group =>
    rw [handle] at h
    split at h
    · rename_i hcritical
      rw [Event.process, if_pos hcritical]
      exact hdown h
    · exact hsame h
  | unknown => exact hsame h

theorem turn_nodup {t : Turn} (h : turn cfg s t = some s') (hn : s.processUnderAlerting.keys.Nodup) :
    s'.processUnderAlerting.keys.Nodup := by
  rw [turn] at h
  split at h
  · cases h
  · cases h
    exact hn
  · cases h
    exact alerting_nodup hn
  · obtain ⟨u, hu, rfl⟩ := Option.map_eq_some_iff.mp h
    exact alerting_nodup (handle_frame hu hn).1

theorem turn_quiet {t : Turn} (h : turn cfg s t = some s') (hq : Quiet cfg process t)
    (hn : s.processUnderAlerting.keys.Nodup)
    (hi : s.processUnderAlerting.get? process = some i) (times : List ℚ) : ∃ j,
      s'.processUnderAlerting.get? process = some j ∧ alertsOf process s'.log ++ alerts process j times =
        alertsOf process s.log ++ alerts process i (t.checkTime.toList ++ times) := by
  obtain ⟨input, now⟩ := t
  have hcheck : ∀ {u : St}, u.processUnderAlerting.keys.Nodup → u.processUnderAlerting.get? process = some i →
      u.log = s.log →
      ∃ j, (alerting cfg now u).processUnderAlerting.get? process = some j ∧
        alertsOf process (alerting cfg now u).log ++ alerts process j times =
          alertsOf process s.log ++ alerts process i (now :: times) := by grind [alerting_entry, alerts]
  cases input with
  | eof => cases h
  | noLen =>
    cases h
    exact ⟨i, hi, rfl⟩
  | timeout =>
    cases h
    exact hcheck hn hi rfl
  | event clock autoRestart e =>
    obtain ⟨u, hu, rfl⟩ := Option.map_eq_some_iff.mp h
    obtain ⟨hnu, hlog, hget⟩ := handle_frame hu hn
    exact hcheck hnu ((hget process hq).trans hi) hlog

theorem run_nodup : ∀ {turns : List Turn} {s : St}, run (turn cfg) s turns = some s' →
    s.processUnderAlerting.keys.Nodup →
    s'.processUnderAlerting.keys.Nodup
  | [], _, hr, hn => by
    cases hr
    exact hn
  | _ :: _, _, hr, hn => by
    obtain ⟨u, hu, hr⟩ := run_cons_some _ hr
    exact run_nodup hr (turn_nodup hu hn)

theorem run_quiet : ∀ {turns : List Turn} {s : St} {i : Info}, run (turn cfg) s turns = some s' →
    (∀ t ∈ turns, Quiet cfg process t) → s.processUnderAlerting.keys.Nodup → s.processUnderAlerting.get? process =
      some i →
      alertsOf process s'.log = alertsOf process s.log ++ alerts process i (turns.filterMap Turn.checkTime)
  | [], s, i, hr, _, _, _ => by
    cases hr
    exact (List.append_nil _).symm
  | t :: turns, s, i, hr, hq, hn, hi => by
    obtain ⟨u, hu, hr⟩ := run_cons_some _ hr
    obtain ⟨j, hj, halerts⟩ := turn_quiet hu (hq t List.mem_cons_self) hn hi (turns.filterMap Turn.checkTime)
    rw [run_quiet hr (fun v hv => hq v (List.mem_cons_of_mem _ hv)) (turn_nodup hu hn) hj, halerts, List.filterMap_cons]
    grind

end

/-- A critical process exits at `t₀` and is neither reported running nor down again. Its alerts come at the first check a
minute after `t₀`, and then at the first one a minute after the last alert. All of them tell the minutes since `t₀`
exactly if the parts of a minute by which these times are apart make up less than one. -/
theorem deadMinutes_iff {cfg : Config} {before after : List Turn} {s s' : St} {process group : Str} {t₀ now : ℚ}
    {autoRestart : Option Str} (hcritical : cfg.critical process group) (hauto : autoRestart ≠ some "enabled".toList)
    (hbefore : run (turn cfg) St.init before = some s)
    (hafter : run (turn cfg) s (⟨.event t₀ autoRestart (.exited 0 process group), now⟩ :: after) = some s')
    (hquiet : ∀ t ∈ after, Quiet cfg process t) : ∃ new, alertsOf process s'.log = alertsOf process s.log ++ new ∧
      new.map Alert.time = due t₀ (now :: after.filterMap Turn.checkTime) ∧
      ((∀ a ∈ new, a.minutes = ⌊(a.time - t₀) / 60⌋₊) ↔
        parts t₀ (due t₀ (now :: after.filterMap Turn.checkTime)) < 1) := by
  have hn : s.processUnderAlerting.keys.Nodup := run_nodup hbefore List.nodup_nil
  obtain ⟨u, hu, hr⟩ := run_cons_some _ hafter
  have hnu := turn_nodup hu hn
  obtain ⟨v, hv, rfl⟩ := Option.map_eq_some_iff.mp hu
  obtain ⟨hnv, hlog, -⟩ := handle_frame hv hn
  have hdown : v.processUnderAlerting.get? process = some ⟨t₀, 0⟩ := by
    rw [handle, if_pos ⟨hcritical, rfl⟩, processDown, if_neg hauto] at hv
    cases hv
    exact Dict.get?_set_self _ _ _
  -- the turn of the exit ends with a check of the new entry
  obtain ⟨hentry, halerts⟩ := alerting_entry cfg now hnv hdown
  refine ⟨alerts process ⟨t₀, 0⟩ (now :: after.filterMap Turn.checkTime), ?_, alerts_times process _ _, ?_⟩
  · rw [run_quiet hr hquiet hnu hentry, halerts, hlog, alerts, List.append_assoc]
  · have hzero : (t₀ - t₀) / 60 = ((0 : ℕ) : ℚ) + 0 := by simp
    have hiff := alerts_right_iff process (now :: after.filterMap Turn.checkTime)
      (i := ⟨t₀, 0⟩) hzero le_rfl zero_lt_one
    rwa [zero_add] at hiff

def oneProcess : Config := ⟨["orchagent".toList], [], [], fun _ => 0⟩

def exitThen (times : List ℚ) : List Turn :=
  ⟨.event 0 none (.exited 0 "orchagent".toList "orchagent".toList), 0⟩ :: times.map fun now => ⟨.timeout, now⟩

theorem deadMinutes_two_alerts : ∃ s new, run (turn oneProcess) .init (exitThen [59, 60, 100, 121]) = some s ∧
    alertsOf "orchagent".toList s.log = new ∧ new.map Alert.time = [60, 121] ∧
      ∀ a ∈ new, a.minutes = ⌊(a.time - 0) / 60⌋₊ := by
  obtain ⟨new, hnew, htimes, hiff⟩ := @deadMinutes_iff oneProcess [] (exitThen [59, 60, 100, 121]).tail .init _
    "orchagent".toList "orchagent".toList 0 0 none (.inl (by decide)) nofun rfl rfl
    (List.forall_mem_map.mpr fun _ _ => trivial)
  exact ⟨_, new, rfl, hnew, htimes.trans (by decide +kernel), hiff.mpr (by decide +kernel)⟩

theorem deadMinutes_wrong : ∃ s, run (turn oneProcess) .init (exitThen [119, 238]) = some s ∧
    ¬∀ a ∈ alertsOf "orchagent".toList s.log, a.minutes = ⌊(a.time - 0) / 60⌋₊ := by
  refine ⟨_, rfl, ?_⟩
  decide +kernel

end Sonic.ProcExit
