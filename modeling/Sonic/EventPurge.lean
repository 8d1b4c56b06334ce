import Sonic.EventHistory

/-! # The purge of the history

The two loops of `purge_events` one after the other, and the file their bounds come from. Every turn
takes one event from the queue, so both loops end. The first one takes the top of an empty queue if
there is room for no record at all, and the second one takes an event whose time is still to come
for a very old one, as the difference of the times has no sign. -/

namespace Sonic.EventConsume
open List

open Str

/-! ## The bounds -/

def ehtMaxElems : Nat := 40000

def ehtMaxDays : Nat := 30

/-- `toUnsigned` is the conversion of a value of `nlohmann::json` to `uint32_t`, `none` where it raises. -/
def readMember {Json : Type} (toUnsigned : Json → Option (Fin (2 ^ 32))) (conf : Nat × Nat) (member : Str × Json) :
    Option (Nat × Nat) :=
  (if member.1 = "max-days" then (toUnsigned member.2).map Fin.val else some conf.1).bind fun days =>
    (if member.1 = "max-records" then (toUnsigned member.2).map Fin.val else some conf.2).map fun count => (days, count)

def parseConfig {Json : Type} (toUnsigned : Json → Option (Fin (2 ^ 32))) (file : Option (Dict Str Json)) :
    Option (Nat × Nat) :=
  (file.getD []).foldlM (readMember toUnsigned) (ehtMaxDays, ehtMaxElems)

namespace State

def rollover : List (Nat × Nat) → Nat → State → Option State
  | [], size, s => if s.count ≤ size then none else some s
  | _ :: rest, size, s =>
    if s.count ≤ size then rollover rest ((size + 2 ^ 32 - 1) % 2 ^ 32) s.popOldest else some s

def rolledOver (s : State) : Option State := rollover s.eventHistoryList (s.eventHistoryList.length % 2 ^ 32) s

def agedOut (s : State) (clock : Nat) : State := purgeExpired (clock / 1000000000) s.eventHistoryList s

end State

section
variable {s s' : State} {clock now : Nat}

theorem rollover_none (hc : s.count = 0) : ∀ (l : List (Nat × Nat)) (size : Nat), State.rollover l size s = none := by
  intro l
  induction l generalizing s with
  | nil => simp_all [State.rollover]
  | cons e l ih =>
    intro size
    rw [State.rollover, hc, if_pos (Nat.zero_le size)]
    exact ih ((popOldest_same s).count.trans hc) _

theorem rollover_eq (hc : 0 < s.count) : ∀ (l : List (Nat × Nat)) (size : Nat), size ≤ l.length → size < 2 ^ 32 →
    State.rollover l size s = some (State.popOldest^[size + 1 - s.count] s) := by
  intro l
  induction l generalizing s with
  | nil =>
    intro size hl _
    have hz : size = 0 := Nat.le_zero.mp hl
    rw [State.rollover, if_neg (by omega), show size + 1 - s.count = 0 by omega]
    rfl
  | cons e l ih =>
    intro size hl hsize
    rw [State.rollover]
    split
    · rename_i hge
      have hcount : s.popOldest.count = s.count := (popOldest_same s).count
      have hpred : (size + 2 ^ 32 - 1) % 2 ^ 32 = size - 1 := by omega
      rw [length_cons] at hl
      rw [hpred, ih (hcount ▸ hc) (size - 1) (by omega) (by omega), hcount,
        show size + 1 - s.count = (size - 1 + 1 - s.count) + 1 by omega, Function.iterate_succ_apply]
    · rename_i hlt
      rw [show size + 1 - s.count = 0 by omega]
      rfl

theorem rolledOver_eq (hc : 0 < s.count) :
    s.rolledOver = some (State.popOldest^[s.eventHistoryList.length % 2 ^ 32 + 1 - s.count] s) :=
  rollover_eq hc _ _ (Nat.mod_le _ _) (Nat.mod_lt _ (by decide))

theorem popOldest_purgeSeconds (s : State) : s.popOldest.purgeSeconds = s.purgeSeconds := by
  unfold State.popOldest
  split <;> rfl

theorem purgeExpired_list : ∀ (l : List (Nat × Nat)) (s : State), s.eventHistoryList = l →
    (State.purgeExpired now l s).eventHistoryList = l.dropWhile (s.expired now)
  | [], _, hl => hl
  | e :: l, s, hl => by
    have hpop : s.popOldest.expired now = s.expired now := by grind [State.expired, popOldest_purgeSeconds]
    rw [State.purgeExpired, dropWhile_cons]
    split
    · rw [purgeExpired_list l s.popOldest (by rw [popOldest_list, hl]; rfl), hpop]
    · exact hl

def outdated (s : State) (clock : Nat) (e : Nat × Nat) : Bool :=
  e.2 / 1000000000 + s.purgeSeconds < clock / 1000000000

theorem expired_iff {e : Nat × Nat} (hp : s.purgeSeconds < 2 ^ 63) (he : e.2 < 2 ^ 64) (hclock : clock < 2 ^ 64) :
    s.expired (clock / 1000000000) e = (outdated s clock e || decide (clock / 1000000000 < e.2 / 1000000000)) := by
  rw [Bool.eq_iff_iff]
  simp only [State.expired, outdated, decide_eq_true_eq, Bool.or_eq_true]
  omega

theorem outdated_of_expired {e : Nat × Nat} (h : s.expired (clock / 1000000000) e = true)
    (hage : e.2 + s.purgeSeconds * 1000000000 ≤ clock) (hp : s.purgeSeconds < 2 ^ 63) (he : e.2 < 2 ^ 64)
    (hclock : clock < 2 ^ 64) : outdated s clock e = true := by
  rw [expired_iff hp he hclock, Bool.or_eq_true, decide_eq_true_eq] at h
  grind

theorem age_of_outdated {e : Nat × Nat} (h : outdated s clock e = true) :
    e.2 + s.purgeSeconds * 1000000000 ≤ clock := by
  simp only [outdated, decide_eq_true_eq] at h
  omega

theorem takeWhile_or_iff {α : Type} {p q r : α → Bool} : ∀ {l : List α}, (∀ e ∈ l, r e = (p e || q e)) →
    ((∀ e ∈ l.takeWhile r, p e = true) ↔ ∀ e, l.find? (fun e => !p e) = some e → q e = false)
  | [], _ => by simp
  | a :: l, hr => by
    have ih := takeWhile_or_iff fun e he => hr e (mem_cons_of_mem a he)
    grind [takeWhile_cons]

/-- The purge ends without a look at the top of an empty queue, and every event that its second loop takes from the
queue was created at least the bound before now. -/
def PurgesOld (s : State) (clock : Nat) : Prop :=
  ∃ m aged, s.rolledOver = some m ∧ m.eventHistoryList = aged ++ (m.agedOut clock).eventHistoryList ∧
    ∀ e ∈ aged, e.2 + s.purgeSeconds * 1000000000 ≤ clock

def latest (count : Nat) (l : List (Nat × Nat)) : List (Nat × Nat) := l.drop (l.length % 2 ^ 32 + 1 - count)

theorem purgesOld_iff (hq : ∀ e ∈ s.eventHistoryList, e.2 < 2 ^ 64) (hclock : clock < 2 ^ 64)
    (hp : s.purgeSeconds < 2 ^ 63) :
    PurgesOld s clock ↔ 0 < s.count ∧ ∀ e, (latest s.count s.eventHistoryList).find? (fun e => !outdated s clock e) =
      some e → e.2 / 1000000000 ≤ clock / 1000000000 := by
  by_cases hc : s.count = 0
  · constructor
    · rintro ⟨m, _, hm, _⟩
      grind [State.rolledOver, rollover_none]
    · intro h
      omega
  have hm := rolledOver_eq (Nat.pos_of_ne_zero hc)
  set m := State.popOldest^[s.eventHistoryList.length % 2 ^ 32 + 1 - s.count] s with hmdef
  have hlist : m.eventHistoryList = latest s.count s.eventHistoryList := popOldest_iterate _ _
  have hsec : m.purgeSeconds = s.purgeSeconds :=
    Function.Iterate.rec (fun t : State => t.purgeSeconds = s.purgeSeconds) rfl
      (fun t ht => (popOldest_purgeSeconds t).trans ht) _
  have hexp : m.expired (clock / 1000000000) = s.expired (clock / 1000000000) := by
    funext e
    rw [State.expired, hsec, State.expired]
  have hleft : (m.agedOut clock).eventHistoryList =
      (latest s.count s.eventHistoryList).dropWhile (s.expired (clock / 1000000000)) := by
    rw [State.agedOut, purgeExpired_list _ m rfl, hexp, hlist]
  have hmem : ∀ e ∈ latest s.count s.eventHistoryList, e.2 < 2 ^ 64 := fun e he => hq e (mem_of_mem_drop he)
  -- the second loop takes the leading run of events that it finds expired
  have hcut : ∀ aged, m.eventHistoryList = aged ++ (m.agedOut clock).eventHistoryList ↔
      aged = (latest s.count s.eventHistoryList).takeWhile (s.expired (clock / 1000000000)) := by
    grind [append_cancel_right, takeWhile_append_dropWhile]
  have hrun := takeWhile_or_iff fun e he => expired_iff (s := s) hp (hmem e he) hclock
  simp only [decide_eq_false_iff_not, not_lt] at hrun
  constructor
  · rintro ⟨m', aged, hm', haged, hold⟩
    rw [hm] at hm'
    cases hm'
    rw [hcut] at haged
    subst haged
    refine ⟨Nat.pos_of_ne_zero hc, hrun.mp fun e he => ?_⟩
    exact outdated_of_expired (mem_takeWhile_imp he) (hold e he) hp (hmem e (takeWhile_subset _ he)) hclock
  · rintro ⟨_, hfirst⟩
    exact ⟨m, _, hm, (hcut _).mpr rfl, fun e he => age_of_outdated (hrun.mpr hfirst e he)⟩

end

theorem parseConfig_lt {Json : Type} {toUnsigned : Json → Option (Fin (2 ^ 32))} {file : Option (Dict Str Json)}
    {days count : Nat} (h : parseConfig toUnsigned file = some (days, count)) : days < 2 ^ 32 := by
  refine foldlM_inv (fun p : Nat × Nat => p.1 < 2 ^ 32) ?_ (by decide) h
  intro conf member conf' _ hlt hstep
  obtain ⟨days', hd, hstep⟩ := Option.bind_eq_some_iff.mp hstep
  obtain ⟨count', _, rfl⟩ := Option.map_eq_some_iff.mp hstep
  split at hd
  · obtain ⟨n, -, rfl⟩ := Option.map_eq_some_iff.mp hd
    exact n.isLt
  · cases hd
    exact hlt

def configured (s : State) (days count : Nat) : State := { s with count := count, purgeSeconds := days * 86400 }

/-- A purge ends, and takes only old events for their age, exactly if there is room for a record and the first of the
latest events that is not outdated is not one of the future. -/
theorem purge_purgesOld_iff {Json : Type} {toUnsigned : Json → Option (Fin (2 ^ 32))} {file : Option (Dict Str Json)}
    {days count : Nat} (s : State) (clock : Nat) (hcfg : parseConfig toUnsigned file = some (days, count))
    (hq : ∀ e ∈ s.eventHistoryList, e.2 < 2 ^ 64) (hclock : clock < 2 ^ 64) :
    PurgesOld (configured s days count) clock ↔
      0 < count ∧ ∀ e, (latest count s.eventHistoryList).find?
          (fun e => clock / 1000000000 ≤ e.2 / 1000000000 + days * 86400) = some e →
        e.2 / 1000000000 ≤ clock / 1000000000 := by
  have hdays := parseConfig_lt hcfg
  have hsec : (configured s days count).purgeSeconds = days * 86400 := rfl
  rw [purgesOld_iff (s := configured s days count) hq hclock (by omega)]
  have hout : (fun e => !outdated (configured s days count) clock e) =
      fun e : Nat × Nat => decide (clock / 1000000000 ≤ e.2 / 1000000000 + days * 86400) := by
    funext e
    rw [outdated, hsec, ← decide_not, decide_eq_decide, not_lt]
  rw [hout]
  rfl

def history (times : List Nat) : State :=
  ⟨[], [], fun _ => 0, fun _ => 0, [], [], times.length, 0, 0, times.mapIdx fun i ts => (i + 1, ts), ⟨[], [], [], []⟩⟩

theorem purge_purgesOld_days :
    parseConfig some (some [("max-days", 1), ("max-records", 4)]) = some (1, 4) ∧
      PurgesOld (configured (history [0, 86400000000000, 150000000000000, 300000000000000]) 1 4) 200000000000000 := by
  have hcfg : parseConfig some (some [("max-days", 1), ("max-records", 4)]) = some (1, 4) := by
    decide +kernel
  exact ⟨hcfg, (purge_purgesOld_iff _ _ hcfg (by decide) (by decide)).mpr (by decide)⟩

theorem purge_unsafe :
    (parseConfig some (some [("max-records", 0)]) = some (30, 0) ∧
      ¬ PurgesOld (configured (history []) 30 0) 200000000000000) ∧
    (@parseConfig (Fin (2 ^ 32)) some none = some (30, 40000) ∧
      ¬ PurgesOld (configured (history [260000000000000]) 30 40000) 200000000000000) := by
  refine ⟨⟨by decide +kernel, ?_⟩, rfl, ?_⟩
  · rw [purgesOld_iff (by decide) (by decide) (by decide)]
    decide
  · rw [purgesOld_iff (by decide) (by decide) (by decide)]
    decide

end Sonic.EventConsume
