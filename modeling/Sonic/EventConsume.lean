import Mathlib
import Sonic.Dict
import Sonic.Run
import Sonic.Text

/-! # The event consumer of eventd

Every notification that is neither repeated nor unknown goes to the history of events, from which
the oldest records are rolled over by number and by age. A RAISE opens an alarm, a CLEAR looks it up
by its type and resource and closes it, and ACKNOWLEDGE and UNACKNOWLEDGE name it by its sequence
id. Two records of counters are kept along with the tables. -/

namespace Sonic.EventConsume

open Str

inductive Field where
  | timeCreated
  | typeId
  | text
  | resource
  | action
  | severity
  | id
  | acknowledged
  | acknowledgeTime
  deriving DecidableEq

abbrev Rec := Dict Field Str

def raiseStr : Str := "RAISE"
def clearStr : Str := "CLEAR"
def ackStr : Str := "ACKNOWLEDGE"
def unackStr : Str := "UNACKNOWLEDGE"
def informationalStr : Str := "INFORMATIONAL"
def trueStr : Str := "true"
def falseStr : Str := "false"

structure EventInfo where
  severity : Str
  enable : Str

structure Config where
  maxDays : Nat
  maxRecords : Nat
  events : Dict Str EventInfo

inductive AlarmCounter where
  | critical
  | major
  | minor
  | warning
  | alarms
  | acknowledged
  deriving DecidableEq

def AlarmCounter.name : AlarmCounter → Str
  | .critical => "critical"
  | .major => "major"
  | .minor => "minor"
  | .warning => "warning"
  | .alarms => "alarms"
  | .acknowledged => "acknowledged"

inductive EventCounter where
  | events
  | raised
  | cleared
  | acked
  deriving DecidableEq

structure Notification where
  publishEpochMs : Nat
  action : Option Str
  resource : Option Str
  text : Option Str
  typeId : Option Str

structure Flood where
  resource : Str
  action : Str
  id : Str
  msg : Str
  deriving DecidableEq

structure State where
  eventTable : Dict Str Rec
  alarmTable : Dict Str Rec
  eventStats : EventCounter → Int
  alarmStats : AlarmCounter → Int
  calLookupMap : Dict Str Nat
  staticEventTable : Dict Str EventInfo
  seqId : Nat
  purgeSeconds : Nat
  count : Nat
  /-- The queue of sequence ids and times, the smallest first. -/
  eventHistoryList : List (Nat × Nat)
  flood : Flood

/-! ## Notifications -/

namespace Notification

def evId (evt : Notification) : Str := evt.typeId.getD []
def evMsg (evt : Notification) : Str := evt.text.getD []
def evSrc (evt : Notification) : Str := evt.resource.getD []
def evAct (evt : Notification) : Str := evt.action.getD []
def evTimestamp (evt : Notification) : Str := ofNat evt.publishEpochMs

def fetchFieldValues (evt : Notification) : List (Field × Str) :=
  [(.timeCreated, evt.evTimestamp)] ++ ((evt.action.filter (· ≠ [])).map ((.action, ·))).toList ++
    (evt.resource.map ((.resource, ·))).toList ++ (evt.text.map ((.text, ·))).toList ++
    (evt.typeId.map ((.typeId, ·))).toList

def flood (evt : Notification) : Flood := ⟨evt.evSrc, evt.evAct, evt.evId, evt.evMsg⟩

end Notification

def almkey (evId evSrc : Str) : Str := if evSrc = [] then evId else evId ++ "|" ++ evSrc

def staticInfoExists (staticEventTable : Dict Str EventInfo) (evId evAct : Str) : Option (Option EventInfo) :=
  match staticEventTable.get? evId with
  | some info => if info.enable = falseStr then none else some (some info)
  | none => if evAct ≠ ackStr ∧ evAct ≠ unackStr then none else some none

def setFields (t : Dict Str Rec) (key : Str) (vec : List (Field × Str)) : Dict Str Rec :=
  t.set key (((t.get? key).getD []).update vec)

def updateAlarmStatistics (evSev evAct : Str) (stats : AlarmCounter → Int) (c : AlarmCounter) : Int :=
  let more := evAct = raiseStr ∨ evAct = unackStr
  if c = .alarms then if more then stats c + 1 else stats c - 1
  else if c.name = lower evSev then if more then stats c + 1 else stats c - 1
  else if c = .acknowledged then
    if evAct = ackStr then stats c + 1 else if evAct = unackStr then stats c - 1 else stats c
  else stats c

def clearAckAlarmStatistic (stats : AlarmCounter → Int) (c : AlarmCounter) : Int :=
  if c = .acknowledged then stats c - 1 else stats c

def updateEventStatistics (isAdd isRaise isAck isClear : Bool) (stats : EventCounter → Int) (c : EventCounter) : Int :=
  let counted := match c with
    | .events => true
    | .raised => isRaise
    | .cleared => isClear
    | .acked => isAck
  if counted then if isAdd then stats c + 1 else stats c - 1 else stats c

def isRaise (r : Rec) : Bool := r.get? .action = some raiseStr
def isClear (r : Rec) : Bool := r.get? .action = some clearStr
def isAck (r : Rec) : Bool := r.get? .acknowledged = some trueStr

namespace State

def eventRecord (s : State) (seq : Nat) : Rec := (s.eventTable.get? (ofNat seq)).getD []

def modifyEventStats (s : State) (seq : Nat) : EventCounter → Int :=
  let r := s.eventRecord seq
  updateEventStatistics false (isRaise r) (isAck r) (isClear r) s.eventStats

def popOldest (s : State) : State :=
  match s.eventHistoryList with
  | [] => s
  | oldest :: rest =>
    { s with
      eventStats := s.modifyEventStats oldest.1
      eventTable := s.eventTable.erase (ofNat oldest.1)
      eventHistoryList := rest }

def expired (s : State) (now : Nat) (entry : Nat × Nat) : Bool :=
  (s.purgeSeconds : Int) < ((now : Int) - (entry.2 / 1000000000 : Nat)) % 2 ^ 64

def purgeExpired (now : Nat) : List (Nat × Nat) → State → State
  | [], s => s
  | oldest :: rest, s => if s.expired now oldest then purgeExpired now rest s.popOldest else s

def purgeEvents (s : State) (now : Nat) : Option State :=
  if s.count = 0 then none
  else
    let s := popOldest^[s.eventHistoryList.length + 1 - s.count] s
    some (purgeExpired now s.eventHistoryList s)

def push (l : List (Nat × Nat)) (entry : Nat × Nat) : List (Nat × Nat) :=
  l.orderedInsert (fun a b => a.1 < b.1 ∨ a.1 = b.1 ∧ a.2 ≤ b.2) entry

def updateEvents (s : State) (seq ts : Nat) (vec : List (Field × Str)) (now : Nat) : Option State :=
  (s.purgeEvents now).map fun s =>
    { s with eventTable := setFields s.eventTable (ofNat seq) vec, eventHistoryList := push s.eventHistoryList (seq, ts) }

def raiseAlarm (s : State) (evt : Notification) (evSev : Str) (vec : List (Field × Str)) : State :=
  let key := almkey evt.evId evt.evSrc
  { s with
    calLookupMap := if s.calLookupMap.get? key = none then s.calLookupMap.set key (s.seqId + 1) else s.calLookupMap
    alarmTable := setFields s.alarmTable (ofNat (s.seqId + 1)) vec
    alarmStats := updateAlarmStatistics evSev evt.evAct s.alarmStats }

def clearAlarm (s : State) (evt : Notification) (evSev : Str) : Option State :=
  let key := almkey evt.evId evt.evSrc
  (s.calLookupMap.get? key).map fun seq =>
    { s with
      calLookupMap := s.calLookupMap.erase key
      alarmTable := s.alarmTable.erase (ofNat seq)
      alarmStats :=
        if isAck ((s.alarmTable.get? (ofNat seq)).getD []) then clearAckAlarmStatistic s.alarmStats
        else updateAlarmStatistics evSev evt.evAct s.alarmStats }

def updateAckInfo (s : State) (isAck : Bool) (evt : Notification) (evSev : Str) : State :=
  let ackVec := [(.acknowledged, if isAck then trueStr else falseStr), (.acknowledgeTime, evt.evTimestamp)]
  { s with
    alarmStats := updateAlarmStatistics evSev evt.evAct s.alarmStats
    alarmTable := setFields s.alarmTable evt.evSrc ackVec
    eventTable := setFields s.eventTable evt.evSrc ackVec }

def ackAlarm (s : State) (evt : Notification) (evSev : Str) : Option State :=
  (s.alarmTable.get? evt.evSrc).bind fun raise =>
    let evSev := (raise.get? .severity).getD evSev
    if evt.evAct = ackStr then
      if isAck raise then none
      else if isRaise raise then some (s.updateAckInfo true evt evSev)
      else none
    else if evt.evAct = unackStr then
      if isAck raise then some (s.updateAckInfo false evt evSev) else none
    else some s

def fetchRaiseInfo (s : State) (evSrc : Str) : List (Field × Str) :=
  ((s.alarmTable.get? evSrc).getD []).filter fun f => f.1 = .typeId ∨ f.1 = .severity

def act (s : State) (evt : Notification) (evSev : Str) (vec : List (Field × Str)) :
    Option (State × List (Field × Str)) :=
  if evt.evAct = [] then some (s, vec)
  else if evt.evAct = raiseStr then
    let vec := vec ++ [(.acknowledged, falseStr)]
    some (s.raiseAlarm evt evSev vec, vec)
  else if evt.evAct = clearStr then (s.clearAlarm evt evSev).map (·, vec)
  else (s.ackAlarm evt evSev).map (·, vec ++ s.fetchRaiseInfo evt.evSrc)

def conclude (s : State) (evt : Notification) (vec : List (Field × Str)) (now : Nat) : Option State :=
  (updateEvents { s with seqId := s.seqId + 1 } (s.seqId + 1) evt.publishEpochMs vec now).map fun s =>
    { s with
      eventStats := updateEventStatistics true (evt.evAct = raiseStr) (evt.evAct = ackStr) (evt.evAct = clearStr)
        s.eventStats }

def vecOf (s : State) (evt : Notification) (info : Option EventInfo) : List (Field × Str) :=
  evt.fetchFieldValues ++ (info.map fun i => (.severity, i.severity)).toList ++ [(.id, ofNat (s.seqId + 1))]

def handleNotification (s : State) (evt : Notification) (now : Nat) : Option State :=
  if s.flood = evt.flood then some s
  else
    let s := { s with flood := evt.flood }
    match staticInfoExists s.staticEventTable evt.evId evt.evAct with
    | none => some s
    | some info =>
      match s.act evt (info.elim informationalStr (·.severity)) (s.vecOf evt info) with
      | none => some s
      | some (s, vec) => s.conclude evt vec now

/-! ## Configuration and start -/

def readConfigAndPurge (s : State) (cfg : Config) (now : Nat) : Option State :=
  purgeEvents { s with count := cfg.maxRecords, purgeSeconds := cfg.maxDays * 86400 } now

def readEventdConfig (s : State) (cfg : Config) (now : Nat) : Option State :=
  (s.readConfigAndPurge cfg now).map fun s => { s with staticEventTable := cfg.events }

def strtoull (s : Str) : Nat := decimal (s.takeWhile Char.isDigit)

def historyEntries (eventTable : Dict Str Rec) : List (Nat × Nat) :=
  eventTable.filterMap fun p => (p.2.get? .timeCreated).map fun ts => (strtoull p.1, strtoull ts)

def construct (s : State) (cfg : Config) (now : Nat) : Option State :=
  let entries := historyEntries s.eventTable
  readEventdConfig
    { s with
      calLookupMap := []
      staticEventTable := []
      seqId := entries.foldl (fun m e => max m e.1) 0
      eventHistoryList := entries.foldl push []
      flood := ⟨[], [], [], []⟩ } cfg now

end State

def start (cfg : Config) (now : Nat) : Option State :=
  State.construct ⟨[], [], fun _ => 0, fun _ => 0, [], [], 0, 0, 0, [], ⟨[], [], [], []⟩⟩ cfg now

inductive Event where
  | notify (evt : Notification) (now : Nat)
  | reload (cfg : Config) (now : Nat)

def step (s : State) : Event → Option State
  | .notify evt now => s.handleNotification evt now
  | .reload cfg now => s.readEventdConfig cfg now

inductive Life where
  | notify (evt : Notification) (now : Nat)
  | restart (cfg : Config) (now : Nat)

def live (s : State) : Life → Option State
  | .notify evt now => s.handleNotification evt now
  | .restart cfg now => s.construct cfg now

/-! ## What a handler can do -/

section
variable {s s' mid : State} {evt : Notification} {now : Nat} {vec vec' : List (Field × Str)}

theorem handle_cases (h : s.handleNotification evt now = some s') :
    (s' = s ∨ s' = { s with flood := evt.flood }) ∨
    ∃ info mid vec, s.flood ≠ evt.flood ∧ staticInfoExists s.staticEventTable evt.evId evt.evAct = some info ∧
      State.act { s with flood := evt.flood } evt (info.elim informationalStr (·.severity)) (s.vecOf evt info) =
        some (mid, vec) ∧
      mid.conclude evt vec now = some s' := by
  unfold State.handleNotification at h
  split at h
  · grind
  · rename_i hfl
    dsimp only at h
    split at h
    · grind
    · rename_i info hinfo
      split at h
      · grind
      · rename_i mid vec hact
        exact .inr ⟨info, mid, vec, hfl, hinfo, hact, h⟩

theorem handle_of_act {info : Option EventInfo} (hflood : s.flood ≠ evt.flood)
    (hinfo : staticInfoExists s.staticEventTable evt.evId evt.evAct = some info)
    (hact : State.act { s with flood := evt.flood } evt (info.elim informationalStr (·.severity)) (s.vecOf evt info) =
      some (mid, vec)) :
    s.handleNotification evt now = mid.conclude evt vec now := by
  grind [State.handleNotification, State.vecOf, State.vecOf]

theorem raiseStr_ne : raiseStr ≠ [] ∧ raiseStr ≠ clearStr ∧ raiseStr ≠ ackStr ∧ raiseStr ≠ unackStr := by
  decide +kernel

theorem clearStr_ne : clearStr ≠ [] ∧ clearStr ≠ raiseStr ∧ clearStr ≠ ackStr ∧ clearStr ≠ unackStr := by
  decide +kernel

theorem ackStr_ne : ackStr ≠ [] ∧ ackStr ≠ raiseStr ∧ ackStr ≠ clearStr ∧ ackStr ≠ unackStr := by decide +kernel

theorem unackStr_ne : unackStr ≠ [] ∧ unackStr ≠ raiseStr ∧ unackStr ≠ clearStr ∧ unackStr ≠ ackStr := by
  decide +kernel

theorem trueStr_ne : trueStr ≠ falseStr := by decide +kernel

theorem act_cases {sev : Str} (h : s.act evt sev vec = some (mid, vec')) :
    (mid = s ∧ evt.evAct ≠ raiseStr ∧ evt.evAct ≠ clearStr ∧ evt.evAct ≠ ackStr ∧ evt.evAct ≠ unackStr) ∨
    (evt.evAct = raiseStr ∧ vec' = vec ++ [(.acknowledged, falseStr)] ∧ mid = s.raiseAlarm evt sev vec') ∨
    (evt.evAct = clearStr ∧ vec' = vec ∧ s.clearAlarm evt sev = some mid) ∨
    ∃ raise ack, s.alarmTable.get? evt.evSrc = some raise ∧ vec' = vec ++ s.fetchRaiseInfo evt.evSrc ∧
      isAck raise = !ack ∧ evt.evAct = (if ack then ackStr else unackStr) ∧ (ack = true → isRaise raise = true) ∧
      mid = s.updateAckInfo ack evt ((raise.get? .severity).getD sev) := by
  unfold State.act at h
  split at h
  · simp_all [raiseStr_ne, clearStr_ne, ackStr_ne, unackStr_ne]
  · split at h
    · grind
    · split at h
      · grind [Option.map_eq_some_iff]
      · rename_i hr hc
        obtain ⟨m, hm, he⟩ := Option.map_eq_some_iff.mp h
        cases he
        obtain ⟨raise, hg, hm⟩ := Option.bind_eq_some_iff.mp hm <;> grind

theorem act_seqId {sev : Str} (h : s.act evt sev vec = some (mid, vec')) : mid.seqId = s.seqId := by
  rcases act_cases h with ⟨rfl, -⟩ | ⟨-, -, rfl⟩ | ⟨-, -, hm⟩ | ⟨_, _, -, -, -, -, -, rfl⟩
  · rfl
  · rfl
  · obtain ⟨seq, -, rfl⟩ := Option.map_eq_some_iff.mp hm
    rfl
  · rfl

theorem act_vec {sev : Str} (h : s.act evt sev vec = some (mid, vec')) :
    ∃ extra, vec' = vec ++ extra ∧ ∀ f ∈ extra, f.1 = .typeId ∨ f.1 = .severity ∨ f = (.acknowledged, falseStr) := by
  have hraise : ∀ f ∈ s.fetchRaiseInfo evt.evSrc, f.1 = .typeId ∨ f.1 = .severity ∨ f = (.acknowledged, falseStr) :=
    fun f hf => (of_decide_eq_true (List.mem_filter.mp hf).2).imp_right Or.inl
  unfold State.act at h
  split at h
  · cases h
    exact ⟨[], (List.append_nil _).symm, nofun⟩
  · split at h
    · grind
    · split at h
      · obtain ⟨m, -, he⟩ := Option.map_eq_some_iff.mp h
        cases he
        exact ⟨[], (List.append_nil _).symm, nofun⟩
      · grind [Option.map_eq_some_iff]

structure SameAlarms (s s' : State) : Prop where
  alarmTable : s'.alarmTable = s.alarmTable
  alarmStats : s'.alarmStats = s.alarmStats
  calLookupMap : s'.calLookupMap = s.calLookupMap
  staticEventTable : s'.staticEventTable = s.staticEventTable
  seqId : s'.seqId = s.seqId
  count : s'.count = s.count
  flood : s'.flood = s.flood

theorem SameAlarms.refl (s : State) : SameAlarms s s := ⟨rfl, rfl, rfl, rfl, rfl, rfl, rfl⟩

theorem SameAlarms.trans {s₁ s₂ s₃ : State} (h : SameAlarms s₁ s₂) (h' : SameAlarms s₂ s₃) : SameAlarms s₁ s₃ :=
  ⟨h'.1.trans h.1, h'.2.trans h.2, h'.3.trans h.3, h'.4.trans h.4, h'.5.trans h.5, h'.6.trans h.6, h'.7.trans h.7⟩

theorem purge_inv {Inv : State → Prop} (h : s.purgeEvents now = some s') (hpop : ∀ s, Inv s → Inv s.popOldest)
    (hi : Inv s) : Inv s' := by
  have hloop : ∀ (l : List (Nat × Nat)) {s : State}, Inv s → Inv (State.purgeExpired now l s) := by
    intro l
    induction l <;> grind [State.purgeExpired]
  unfold State.purgeEvents at h
  split at h
  · cases h
  · cases h
    exact hloop _ (Function.Iterate.rec Inv hi hpop _)

theorem popOldest_same (s : State) : SameAlarms s s.popOldest := by
  unfold State.popOldest
  split
  · exact SameAlarms.refl s
  · exact ⟨rfl, rfl, rfl, rfl, rfl, rfl, rfl⟩

theorem purge_same (h : s.purgeEvents now = some s') : SameAlarms s s' :=
  purge_inv h (fun s₁ h₁ => h₁.trans (popOldest_same s₁)) (SameAlarms.refl s)

theorem conclude_cases (h : s.conclude evt vec now = some s') :
    ∃ m, State.purgeEvents { s with seqId := s.seqId + 1 } now = some m ∧
      s' = { m with
        eventTable := setFields m.eventTable (ofNat (s.seqId + 1)) vec
        eventHistoryList := State.push m.eventHistoryList (s.seqId + 1, evt.publishEpochMs)
        eventStats := updateEventStatistics true (evt.evAct = raiseStr) (evt.evAct = ackStr) (evt.evAct = clearStr)
          m.eventStats } := by
  unfold State.conclude State.updateEvents at h
  rw [Option.map_map] at h
  grind [Option.map_eq_some_iff]

theorem conclude_same (h : s.conclude evt vec now = some s') : SameAlarms { s with seqId := s.seqId + 1 } s' := by
  obtain ⟨m, hm, rfl⟩ := conclude_cases h
  have hs := purge_same hm
  exact ⟨hs.1, hs.2, hs.3, hs.4, hs.5, hs.6, hs.7⟩

theorem conclude_some (h : s.count ≠ 0) (evt : Notification) (vec : List (Field × Str)) (now : Nat) :
    ∃ s', s.conclude evt vec now = some s' := by
  unfold State.conclude State.updateEvents State.purgeEvents
  rw [if_neg h]
  exact ⟨_, rfl⟩

end

end Sonic.EventConsume
