import Sonic.Dict
import Sonic.Text

/-! # The event cache of eventd

While nobody listens, a capture service keeps the events it sees: all of them up to a limit, then
the last one of each publisher. When it is stopped the cache goes to the main loop, which hands it
out in answers to EVENT_CACHE_READ. -/

namespace Sonic.EventCache

def readSetSize : Nat := 100

abbrev LastEvents := Dict Str Str

/-! ## The capture service -/

inductive Ctrl where
  | needInit
  | initCapture
  | startCapture
  | stopCapture
  deriving DecidableEq

inductive CapState where
  | init
  | active
  | last
  deriving DecidableEq

structure Capture where
  ctrl : Ctrl
  events : List Str
  lastEvents : LastEvents
  lastEventsInit : Bool
  preExistId : Dict Str Nat
  capState : CapState
  initCnt : Int
  totalOverflow : Nat
  totalMissedCache : Nat

def Capture.new : Capture := ⟨.needInit, [], [], false, [], .init, 0, 0, 0⟩

def mapSet (m : LastEvents) (key value : Str) : LastEvents :=
  match m with
  | [] => [(key, value)]
  | (k, v) :: m =>
    if key = k then (key, value) :: m
    else if key < k then (key, value) :: (k, v) :: m
    else (k, v) :: mapSet m key value

section
variable (decode : Str → Option (Str × Nat)) (maxPublishersCount : Nat)

def Capture.initCaptureCache (c : Capture) (lst : List Str) : Capture :=
  lst.foldl (fun c evt => match decode evt with
    | some (rid, seq) => { c with preExistId := c.preExistId.set rid seq, events := c.events ++ [evt] }
    | none => c) c

def Capture.start (c : Capture) (lst : List Str) : Capture :=
  let reserved := (List.range maxPublishersCount).foldl (fun m i => mapSet m (Str.ofNat i) []) c.lastEvents
  let c := { c with lastEvents := reserved }.initCaptureCache decode lst
  { c with ctrl := .startCapture, initCnt := c.events.length }

def Capture.receive (cacheMax : Nat) (c : Capture) (rid : Str) (seq : Nat) (evt : Str) : Capture :=
  match c.capState with
  | .init =>
    let c := { c with initCnt := c.initCnt - 1 }
    let c := match c.preExistId.get? rid with
      | some known =>
        { c with
          events := if seq ≤ known then c.events else c.events ++ [evt]
          preExistId := if known ≤ seq then c.preExistId.erase rid else c.preExistId }
      | none => { c with events := c.events ++ [evt] }
    if c.preExistId.isEmpty ∨ c.initCnt ≤ 0 then { c with preExistId := [], capState := .active } else c
  | .active =>
    let c := { c with events := c.events ++ [evt] }
    if cacheMax ≤ c.events.length then { c with capState := .last, lastEvents := [], lastEventsInit := true } else c
  | .last =>
    let c := { c with totalOverflow := c.totalOverflow + 1, lastEvents := mapSet c.lastEvents rid evt }
    if c.lastEvents.length < c.totalOverflow then { c with totalMissedCache := c.totalMissedCache + 1 } else c

def Capture.readCache (c : Capture) : List Str × LastEvents :=
  (c.events, if c.lastEventsInit then c.lastEvents else [])

structure Service where
  capture : Option Capture
  skipCaching : Bool
  fifoEvents : List Str
  lastEvents : LastEvents

inductive Request where
  | cacheInit
  | cacheStart (lst : List Str)
  | cacheStop
  | cacheRead

def Service.read (s : Service) : Service × List Str :=
  let s := if s.fifoEvents.isEmpty then { s with fifoEvents := s.lastEvents.map Prod.snd, lastEvents := [] } else s
  let sz := if s.fifoEvents.length < readSetSize then s.fifoEvents.length else readSetSize
  if sz ≠ 0 then
    let moved := s.fifoEvents.map fun _ => []
    ({ s with fifoEvents := if sz = s.fifoEvents.length then [] else moved.drop sz }, s.fifoEvents)
  else (s, [])

def Service.respond (s : Service) : Request → Service × Int × List Str
  | .cacheInit =>
    ({ s with capture := some { Capture.new with ctrl := .initCapture }, fifoEvents := [], lastEvents := [] }, 0, [])
  | .cacheStart lst =>
    match s.capture with
    | some c => if c.ctrl = .initCapture then ({ s with capture := some (c.start decode maxPublishersCount lst) }, 0,
        []) else (s, -1, [])
    | none => (s, -1, [])
  | .cacheStop =>
    match s.capture with
    | some c =>
      if c.ctrl = .startCapture then
        ({ s with capture := none, fifoEvents := c.readCache.1, lastEvents := c.readCache.2 }, 0, [])
      else ({ s with capture := none }, -1, [])
    | none => (s, -1, [])
  | .cacheRead =>
    if s.skipCaching ∨ s.capture.isSome then (s, -1, [])
    else (s.read.1, 0, s.read.2)

def Service.reads (s : Service) : Nat → Option (List (List Str))
  | 0 => none
  | n + 1 =>
    let (s', _, chunk) := s.respond decode maxPublishersCount .cacheRead
    if chunk.isEmpty then some [] else (s'.reads n).map (chunk :: ·)

end

/-! ## What the answers hold -/

def Service.stopped (fifoEvents : List Str) (lastEvents : LastEvents) : Service := ⟨none, false, fifoEvents, lastEvents⟩

section
variable {decode : Str → Option (Str × Nat)} {maxPublishersCount : Nat}

theorem reads_succ (fifo : List Str) (last : LastEvents) (n : Nat) :
    (Service.stopped fifo last).reads decode maxPublishersCount (n + 1) =
      if (Service.stopped fifo last).read.2.isEmpty then some []
      else ((Service.stopped fifo last).read.1.reads decode maxPublishersCount n).map
        ((Service.stopped fifo last).read.2 :: ·) := rfl

theorem read_fifo {fifo : List Str} (last : LastEvents) (h : fifo ≠ []) (hs : fifo.length ≤ readSetSize) :
    (Service.stopped fifo last).read = (Service.stopped [] last, fifo) := by
  have he : fifo.isEmpty = false := by simpa using h
  have hl : fifo.length ≠ 0 := by simpa using h
  have hsz : (if fifo.length < readSetSize then fifo.length else readSetSize) = fifo.length := by split <;> omega
  simp only [Service.read, Service.stopped, he, Bool.false_eq_true, if_false, hsz, if_true, ne_eq, hl,
    not_false_eq_true]

theorem read_fifo_events {fifo : List Str} (last : LastEvents) (h : fifo ≠ []) :
    (Service.stopped fifo last).read.2 = fifo := by
  have he : fifo.isEmpty = false := by simpa using h
  have hl : 0 < fifo.length := List.length_pos_iff.mpr h
  have hsz : (if fifo.length < readSetSize then fifo.length else readSetSize) ≠ 0 := by
    unfold readSetSize
    split <;> omega
  simp_all [Service.read, Service.stopped]

theorem read_last (last : LastEvents) :
    (Service.stopped [] last).read = (Service.stopped (last.map Prod.snd) []).read := by
  cases last with
  | nil => rfl
  | cons p last => rfl

theorem reads_cons {fifo : List Str} (last : LastEvents) (h : fifo ≠ []) {n : Nat} {chunks : List (List Str)}
    (hr : (Service.stopped fifo last).reads decode maxPublishersCount n = some chunks) :
    ∃ m rest, chunks = fifo :: rest ∧
      (Service.stopped fifo last).read.1.reads decode maxPublishersCount m = some rest := by
  cases n with
  | zero => cases hr
  | succ n =>
    rw [reads_succ, read_fifo_events last h, if_neg (by simpa using h)] at hr
    grind [Option.map_eq_some_iff]

theorem reads_last (last : LastEvents) (n : Nat) : (Service.stopped [] last).reads decode maxPublishersCount n =
    (Service.stopped (last.map Prod.snd) []).reads decode maxPublishersCount n := by
  cases n with
  | zero => rfl
  | succ n => rw [reads_succ, reads_succ, read_last]

variable (decode maxPublishersCount) in
theorem reads_short {fifo : List Str} (hs : fifo.length ≤ readSetSize) :
    ∃ rest, (Service.stopped fifo []).reads decode maxPublishersCount 2 = some rest ∧
      (∀ c ∈ rest, c.length ≤ readSetSize) ∧ rest.flatten = fifo := by
  by_cases h : fifo = []
  · subst h
    exact ⟨[], rfl, by simp, rfl⟩
  · refine ⟨[fifo], ?_, by simpa using hs, by simp⟩
    rw [reads_succ, read_fifo [] h hs, if_neg (by simpa using h)]
    rfl

theorem reads_deliver_iff (fifo : List Str) (last : LastEvents) :
    (∃ n chunks, (Service.stopped fifo last).reads decode maxPublishersCount n = some chunks ∧
      (∀ c ∈ chunks, c.length ≤ readSetSize) ∧ chunks.flatten = fifo ++ last.map Prod.snd) ↔
    fifo.length ≤ readSetSize ∧ last.length ≤ readSetSize := by
  constructor
  · rintro ⟨n, chunks, hr, hsz, -⟩
    have hfifo : fifo.length ≤ readSetSize := by
      by_cases h : fifo = []
      · rw [h]; exact Nat.zero_le _
      · obtain ⟨m, rest, rfl, -⟩ := reads_cons last h hr
        exact hsz fifo (by simp)
    -- the answer after the list, or the first one, holds the last events
    have hlast : ∀ {m : Nat} {rest : List (List Str)},
        (Service.stopped [] last).reads decode maxPublishersCount m = some rest →
        (∀ c ∈ rest, c.length ≤ readSetSize) → last.length ≤ readSetSize := by
      intro m rest hm hrest
      by_cases h : last = []
      · rw [h]; exact Nat.zero_le _
      · rw [reads_last] at hm
        obtain ⟨m', rest', rfl, -⟩ := reads_cons [] (by simpa using h) hm
        simpa using hrest _ List.mem_cons_self
    refine ⟨hfifo, ?_⟩
    by_cases h : fifo = []
    · subst h
      exact hlast hr hsz
    · obtain ⟨m, rest, rfl, hm⟩ := reads_cons last h hr
      rw [read_fifo last h hfifo] at hm
      exact hlast hm fun c hc => hsz c (List.mem_cons_of_mem _ hc)
  · rintro ⟨hfifo, hlast⟩
    have hlast' : (last.map Prod.snd).length ≤ readSetSize := by simpa using hlast
    obtain ⟨rest, hrest, hchunk, hflat⟩ := reads_short decode maxPublishersCount hlast'
    rw [← reads_last] at hrest
    by_cases h : fifo = []
    · subst h
      exact ⟨2, rest, hrest, hchunk, hflat⟩
    · refine ⟨3, fifo :: rest, ?_, ?_, ?_⟩
      · rw [reads_succ, read_fifo last h hfifo, if_neg (by simpa using h), hrest]
        rfl
      · intro c hc
        rcases List.mem_cons.mp hc with rfl | hc
        · exact hfifo
        · exact hchunk c hc
      · rw [List.flatten_cons, hflat]

theorem reads_blank : (Service.stopped ((List.range 101).map Str.ofNat) []).reads (fun _ => none) 0 3 =
      some [(List.range 101).map Str.ofNat, [[]]] ∧
    ¬ ∃ n chunks, (Service.stopped ((List.range 101).map Str.ofNat) []).reads (fun _ => none) 0 n = some chunks ∧
      (∀ c ∈ chunks, c.length ≤ readSetSize) ∧
      chunks.flatten = (List.range 101).map Str.ofNat ++ ([] : LastEvents).map Prod.snd := by
  refine ⟨by decide +kernel, ?_⟩
  rintro ⟨n, chunks, hr, hsz, -⟩
  obtain ⟨m, rest, rfl, -⟩ := reads_cons [] (by decide +kernel) hr
  exact absurd (hsz _ List.mem_cons_self) (by decide +kernel)

end

end Sonic.EventCache
