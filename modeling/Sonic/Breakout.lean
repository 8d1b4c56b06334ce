import Mathlib
import Sonic.Dict
import Sonic.Run
import Sonic.Text

/-! # Port breakout

`BreakoutCfg` reads a breakout mode such as `2x25G(2)+1x50G(2)` and deals the lanes of a port out to
its child ports, component by component. Functions answer `none` where the source raises. -/

namespace Sonic.Breakout
open List

open Str

/-! ## Breakout modes -/

structure BreakoutModeEntry where
  numPorts : Nat
  defaultSpeed : Int
  supportedSpeed : List Int
  numAssignedLanes : Nat

def BreakoutModeEntry.eq (e f : BreakoutModeEntry) : Bool :=
  e.numPorts = f.numPorts && e.supportedSpeed.all (· ∈ f.supportedSpeed) && f.supportedSpeed.all
    (· ∈ e.supportedSpeed) &&
    e.numAssignedLanes = f.numAssignedLanes

def sameEntries : List BreakoutModeEntry → List BreakoutModeEntry → Bool
  | [], [] => true
  | e :: es, f :: fs => e.eq f && sameEntries es fs
  | _, _ => false

def speedToInt (speed : Str) : Option Int :=
  if endsWith ['G'] speed then (int (speed.filter (· ≠ 'G'))).map (· * 1000) else int speed

def number (s : Str) : Option (Str × Str) :=
  let d := (s.take 6).takeWhile Char.isDigit
  if d = [] then none else some (d, s.drop d.length)

def speedItems (prev : Char) : Str → Bool
  | [] => true
  | c :: s => (c.isDigit || c = 'G' && prev.isDigit || c = ',' && (prev.isDigit || prev = 'G')) && speedItems c s

structure Group where
  numPorts : Str
  defaultSpeed : Str
  supportedSpeed : Str
  numAssignedLanes : Str

def supportedGroup (s : Str) : Str × Str :=
  match s with
  | '[' :: t =>
    let items := t.takeWhile (· ≠ ']')
    if items.length < t.length ∧ speedItems '[' items then ('[' :: items ++ [']'], t.drop (items.length + 1)) else ([],
      s)
  | _ => ([], s)

def lanesGroup (s : Str) : Str :=
  match s with
  | '(' :: t =>
    match number t with
    | some (d, ')' :: _) => '(' :: d ++ [')']
    | _ => []
  | _ => []

def brkoutMatch (s : Str) : Option Group :=
  match number s with
  | some (numPorts, 'x' :: s) =>
    (number s).map fun (d, s) =>
      let g := if s.head? = some 'G' then ['G'] else []
      let (supportedSpeed, s) := supportedGroup (s.drop g.length)
      ⟨numPorts, d ++ g, supportedSpeed, lanesGroup s⟩
  | _ => none

def parseSupportedSpeed (speed : Str) : Option (List Int) :=
  if speed = [] then some []
  else (split ',' ((speed.drop 1).dropLast)).mapM fun s => speedToInt (strip s)

def reGroupToEntry (lanes : List Str) (group : Group) : Option BreakoutModeEntry := do
  let defaultSpeed ← speedToInt group.defaultSpeed
  let supportedSpeed ← parseSupportedSpeed group.supportedSpeed
  return {
    numPorts := decimal group.numPorts
    defaultSpeed
    supportedSpeed := defaultSpeed :: supportedSpeed
    numAssignedLanes :=
      if group.numAssignedLanes = [] then lanes.length else decimal ((group.numAssignedLanes.drop 1).dropLast) }

def strToEntries (lanes : List Str) (bmode : Str) : Option (List BreakoutModeEntry) := do
  let groups ← (split '+' bmode).mapM brkoutMatch
  groups.mapM (reGroupToEntry lanes)

/-! ## Child ports -/

def portStr : Str := "Ethernet"

structure Properties where
  lanes : Str
  index : Str
  breakoutModes : Dict Str (List Str)

structure BreakoutCfg where
  interfaceBaseId : Int
  lanes : List Str
  indexes : List Str
  breakoutModeEntry : List BreakoutModeEntry
  breakoutCapabilities : List Str

def findCapabilities (lanes : List Str) (entries : List BreakoutModeEntry) :
    List (Str × List Str) → Option (Option (List Str))
  | [] => some none
  | m :: modes => do
    if sameEntries entries (← strToEntries lanes m.1) then return some m.2
    findCapabilities lanes entries modes

def BreakoutCfg.init (name bmode : Str) (properties : Properties) : Option BreakoutCfg := do
  let interfaceBaseId ← int (remove portStr name)
  let lanes := split ',' properties.lanes
  let entries ← strToEntries lanes bmode
  let capabilities ← findCapabilities lanes entries properties.breakoutModes
  match capabilities with
  | some (a :: aliases) => some ⟨interfaceBaseId, lanes, split ',' properties.index, entries, a :: aliases⟩
  | _ => none

structure PortConfig where
  portAlias : Str
  lanes : Str
  speed : Str
  index : Str
  subport : Str
  fec : Option Str

structure Dealt where
  ports : Dict Str PortConfig
  laneId : Nat
  aliasId : Nat

section
variable (cfg : BreakoutCfg) (asicType : Option Str)

def lanesPerPort (e : BreakoutModeEntry) : Nat := e.numAssignedLanes / e.numPorts

def totalNumPorts : Nat := (cfg.breakoutModeEntry.map BreakoutModeEntry.numPorts).sum

def childPort (e : BreakoutModeEntry) (laneId aliasId : Nat) : Option (Str × PortConfig) := do
  let portAlias ← cfg.breakoutCapabilities[aliasId]?
  let index ← cfg.indexes[laneId]?
  if lanesPerPort e = 0 then none
  else some (portStr ++ ofInt (cfg.interfaceBaseId + laneId), {
    portAlias
    lanes := join [','] ((cfg.lanes.drop laneId).take (lanesPerPort e))
    speed := ofInt e.defaultSpeed
    index
    subport := if totalNumPorts cfg = 1 then "0" else ofNat (aliasId + 1)
    fec := if e.defaultSpeed / lanesPerPort e ≥ 50000 ∧ asicType ≠ some "mellanox" then some "rs" else none })

def dealPort (e : BreakoutModeEntry) (s : Dealt) : Option Dealt :=
  (childPort cfg asicType e s.laneId s.aliasId).map fun p =>
    ⟨s.ports.set p.1 p.2, s.laneId + lanesPerPort e, s.aliasId + 1⟩

def dealEntry (s : Dealt) (e : BreakoutModeEntry) : Option Dealt :=
  if e.numPorts = 0 then none
  else (List.range e.numPorts).foldlM (fun s _ => dealPort cfg asicType e s) s

def getConfig : Option (Dict Str PortConfig) :=
  if cfg.lanes.length < (cfg.breakoutModeEntry.map BreakoutModeEntry.numAssignedLanes).sum then none
  else (cfg.breakoutModeEntry.foldlM (dealEntry cfg asicType) ⟨[], 0, 0⟩).map Dealt.ports

end

/-! ## What a breakout mode says -/

/-- A number of one to six digits. -/
def Number (d : Str) : Prop := d ≠ [] ∧ d.length ≤ 6 ∧ ∀ c ∈ d, c.isDigit = true

/-- Speeds one after the other, each with an optional `G` and an optional comma. -/
inductive SpeedItems : Str → Prop
  | nil : SpeedItems []
  | item {d g c rest : Str} : Number d → g = [] ∨ g = ['G'] → c = [] ∨ c = [','] → SpeedItems rest →
    SpeedItems (d ++ g ++ c ++ rest)

/-- The tail of a component has the lanes in round brackets, after an optional list of speeds in square brackets. -/
def HasLanes (tail l : Str) : Prop :=
  Number l ∧ ∃ speeds rest, tail = speeds ++ '(' :: l ++ ')' :: rest ∧
    (speeds = [] ∨ ∃ items, SpeedItems items ∧ speeds = '[' :: items ++ [']'])

/-- A component `NxS[...](L)` of a mode is for `N` ports on `L` lanes, or on all lanes of the port if it has no `(L)`. -/
def Component (total : Nat) (text : Str) (e : BreakoutModeEntry) : Prop :=
  ∃ n s g tail, text = n ++ 'x' :: (s ++ g ++ tail) ∧ Number n ∧ Number s ∧
    (s.length = 6 ∨ ∀ c ∈ (g ++ tail).head?, c.isDigit = false) ∧ (g = ['G'] ∨ g = [] ∧ tail.head? ≠ some 'G') ∧
    e.numPorts = decimal n ∧
    ((∃ l, HasLanes tail l ∧ e.numAssignedLanes = decimal l) ∨ (∀ l, ¬ HasLanes tail l) ∧ e.numAssignedLanes = total)

section
variable {s rest d items : Str} {c : Char}

theorem number_append (hd : Number d) (hrest : d.length = 6 ∨ ∀ c ∈ rest.head?, c.isDigit = false) :
    number (d ++ rest) = some (d, rest) := by
  have htake : ((d ++ rest).take 6).takeWhile Char.isDigit = d := by
    rw [take_append, take_of_length_le hd.2.1, takeWhile_append_of_pos hd.2.2]
    rcases hrest with h6 | hrest
    · simp [h6]
    · cases rest with
      | nil => simp
      | cons c rest =>
        have hc : c.isDigit = false := hrest c rfl
        cases h : 6 - d.length <;> simp [hc]
  rw [number, htake, if_neg hd.1, drop_left]

theorem number_eq_some (h : number s = some (d, rest)) :
    s = d ++ rest ∧ Number d ∧ (d.length = 6 ∨ ∀ c ∈ rest.head?, c.isDigit = false) := by
  simp only [number] at h
  split at h
  · cases h
  rename_i hne
  simp only [Option.some.injEq, Prod.mk.injEq] at h
  obtain ⟨hd, hrest⟩ := h
  rw [hd] at hne hrest
  have hpre : d <+: s := hd ▸ ( takeWhile_prefix _).trans ( take_prefix 6 s)
  obtain ⟨r, rfl⟩ := hpre
  rw [drop_left] at hrest
  subst hrest
  have hlen : d.length ≤ 6 := by
    have := ( takeWhile_prefix (l := (d ++ r).take 6) Char.isDigit).length_le
    rw [hd, length_take] at this
    omega
  refine ⟨rfl, ⟨hne, hlen, fun c hc => ?_⟩, ?_⟩
  · rw [← hd] at hc
    exact mem_takeWhile_imp hc
  · by_cases h6 : d.length = 6
    · exact .inl h6
    · refine .inr fun c hc => ?_
      obtain ⟨r', rfl⟩ : ∃ r', r = c :: r' := by
        cases r with
        | nil => cases hc
        | cons c' r' => exact ⟨r', by rw [Option.some.inj hc]⟩
      -- a digit here would be one more of the number
      by_contra hdig
      have hall : ∀ x ∈ d, x.isDigit = true := fun x hx => by
        rw [← hd] at hx
        exact mem_takeWhile_imp hx
      rw [take_append, take_of_length_le hlen, takeWhile_append_of_pos hall] at hd
      obtain ⟨k, hk⟩ : ∃ k, 6 - d.length = k + 1 := ⟨5 - d.length, by omega⟩
      rw [hk, take_succ_cons, takeWhile_cons_of_pos (by simpa using hdig)] at hd
      simp at hd

theorem SpeedItems.digit (hc : c.isDigit = true) (h : SpeedItems s) : SpeedItems (c :: s) :=
  .item (d := [c]) ⟨nofun, by simp, by simpa using hc⟩ (.inl rfl) (.inl rfl) h

theorem speedItems_of_true : ∀ s : Str,
    (∀ c : Char, c.isDigit = true → speedItems c s = true → SpeedItems (c :: s)) ∧
    (∀ c : Char, c.isDigit = true → speedItems 'G' s = true → SpeedItems (c :: 'G' :: s)) ∧
    ∀ c : Char, c.isDigit = false → c ≠ 'G' → speedItems c s = true → SpeedItems s
  | [] => by
    refine ⟨fun c hc _ => .digit hc .nil, fun c hc _ => ?_, fun c _ _ _ => .nil⟩
    exact .item (d := [c]) (g := ['G']) ⟨nofun, by simp, by simpa using hc⟩ (.inr rfl) (.inl rfl) .nil
  | x :: s => by
    obtain ⟨ih₁, ih₂, ih₃⟩ := speedItems_of_true s
    have hcomma : (',' : Char).isDigit = false := rfl
    have hnumber {c : Char} (hc : c.isDigit = true) : Number [c] := ⟨nofun, by simp, by simpa using hc⟩
    refine ⟨fun c hc h => ?_, fun c hc h => ?_, fun c hc hG h => ?_⟩
    · rw [speedItems, Bool.and_eq_true] at h
      obtain ⟨hx, h⟩ := h
      by_cases hd : x.isDigit = true
      · exact .digit hc (ih₁ x hd h)
      · by_cases hxG : x = 'G'
        · subst hxG
          exact ih₂ c hc h
        · have hx' : x = ',' := by simp_all
          subst hx'
          exact .item (d := [c]) (c := [',']) (hnumber hc) (.inl rfl) (.inr rfl) (ih₃ ',' hcomma (by decide) h)
    · rw [speedItems, Bool.and_eq_true] at h
      obtain ⟨hx, h⟩ := h
      by_cases hd : x.isDigit = true
      · exact .item (d := [c]) (g := ['G']) (hnumber hc) (.inr rfl) (.inl rfl) (ih₁ x hd h)
      · have hx' : x = ',' := by simp_all
        subst hx'
        exact .item (d := [c]) (g := ['G']) (c := [',']) (hnumber hc) (.inr rfl) (.inr rfl)
          (ih₃ ',' hcomma (by decide) h)
    · rw [speedItems, Bool.and_eq_true] at h
      obtain ⟨hx, h⟩ := h
      have hd : x.isDigit = true := by simp_all
      exact ih₁ x hd h

theorem speedItems_append {d : Str} (hd : ∀ c ∈ d, c.isDigit = true) (hne : d ≠ []) (p : Char) (rest : Str) :
    ∃ q : Char, q.isDigit = true ∧ speedItems p (d ++ rest) = speedItems q rest := by
  induction d generalizing p with
  | nil => exact absurd rfl hne
  | cons c d ih =>
    have hc := hd c mem_cons_self
    have hstep : speedItems p (c :: d ++ rest) = speedItems c (d ++ rest) := by rw [cons_append, speedItems, hc]; rfl
    rw [hstep]
    by_cases hn : d = []
    · subst hn
      exact ⟨c, hc, rfl⟩
    · exact ih (fun x hx => hd x (mem_cons_of_mem _ hx)) hn c

theorem SpeedItems.true (h : SpeedItems s) : ∀ p : Char, speedItems p s = true := by
  induction h with
  | nil => exact fun _ => rfl
  | @item d g c rest hd hg hc _ ih =>
    intro p
    obtain ⟨q, hq, he⟩ := speedItems_append hd.2.2 hd.1 p (g ++ c ++ rest)
    rw [append_assoc, append_assoc, ← append_assoc g, he]
    rcases hg with rfl | rfl <;> rcases hc with rfl | rfl <;> simp [speedItems, hq, ih]

theorem SpeedItems.not_mem (h : SpeedItems s) : ']' ∉ s := by
  induction h with
  | nil => exact not_mem_nil
  | @item d g c rest hd hg hc _ ih =>
    have hnd : ']' ∉ d := fun hmem => absurd (hd.2.2 _ hmem) (by decide)
    rcases hg with rfl | rfl <;> rcases hc with rfl | rfl <;> simp [hnd, ih]

theorem drop_after {u t : Str} (h : u ++ c :: rest = t) : t.drop (u.length + 1) = rest := by
  subst h
  simp

theorem hasLanes_iff {tail l : Str} :
    HasLanes tail l ↔ lanesGroup (supportedGroup tail).2 = '(' :: l ++ [')'] := by
  have hlanes {r l : Str} : lanesGroup r = '(' :: l ++ [')'] ↔ Number l ∧ ∃ rest, r = '(' :: l ++ ')' :: rest := by
    constructor
    · intro h
      unfold lanesGroup at h
      split at h
      · rename_i t
        split at h
        · rename_i d rest hn
          have hd : d = l := by simpa using h
          subst hd
          obtain ⟨rfl, hnum, -⟩ := number_eq_some hn
          exact ⟨hnum, rest, rfl⟩
        · cases h
      · cases h
    · rintro ⟨hl, rest, rfl⟩
      have hn : number (l ++ ')' :: rest) = some (l, ')' :: rest) :=
        number_append hl (.inr fun c hc => by cases hc; rfl)
      show (match number (l ++ ')' :: rest) with | some (d, ')' :: _) => '(' :: d ++ [')'] | _ => []) = _
      rw [hn]
      rfl
  rw [hlanes, HasLanes]
  refine and_congr_right fun hl => ?_
  constructor
  · rintro ⟨speeds, rest, rfl, rfl | ⟨items, hitems, rfl⟩⟩
    · exact ⟨rest, rfl⟩
    · refine ⟨rest, ?_⟩
      have htake : (items ++ (']' :: ('(' :: l ++ ')' :: rest))).takeWhile (· ≠ ']') = items := by
        rw [takeWhile_append_of_pos fun c hc => by simpa using fun he : c = ']' => hitems.not_mem (he ▸ hc)]
        simp
      have hcond : ((items ++ (']' :: ('(' :: l ++ ')' :: rest))).takeWhile (· ≠ ']')).length <
          (items ++ (']' :: ('(' :: l ++ ')' :: rest))).length ∧ speedItems '['
            ((items ++ (']' :: ('(' :: l ++ ')' :: rest))).takeWhile (· ≠ ']')) = true := by
        rw [htake]
        exact ⟨by simp, hitems.true _⟩
      have htail : '[' :: items ++ [']'] ++ '(' :: l ++ ')' :: rest =
          '[' :: (items ++ (']' :: ('(' :: l ++ ')' :: rest))) := by simp
      rw [htail]
      show (if _ then _ else _ : Str × Str).2 = _
      rw [if_pos hcond, htake]
      simp
  · rintro ⟨rest, h⟩
    unfold supportedGroup at h
    split at h
    · rename_i t
      dsimp only at h
      split at h
      · rename_i hcond
        refine ⟨'[' :: t.takeWhile (· ≠ ']') ++ [']'], rest, ?_, .inr ⟨_, ?_, rfl⟩⟩
        · have hdrop : t = t.takeWhile (· ≠ ']') ++ ']' :: t.drop ((t.takeWhile (· ≠ ']')).length + 1) := by
            have hsplit := takeWhile_append_dropWhile (p := (· ≠ ']')) (l := t)
            cases hd : t.dropWhile (· ≠ ']') with
            | nil =>
              rw [hd, append_nil] at hsplit
              rw [hsplit] at hcond
              exact absurd hcond.1 (Nat.lt_irrefl _)
            | cons x xs =>
              have hx : x = ']' := by
                have := head?_dropWhile_not (· ≠ ']') t
                rw [hd] at this
                simpa using this
              subst hx
              rw [hd] at hsplit
              rw [drop_after hsplit, hsplit]
          dsimp only at h
          rw [h] at hdrop
          conv_lhs => rw [hdrop]
          simp
        · exact (speedItems_of_true _).2.2 '[' rfl (by decide) hcond.2
      · exact ⟨[], rest, h, .inl rfl⟩
    · exact ⟨[], rest, h, .inl rfl⟩

theorem lanes_component (tail : Str) (total : Nat) :
    (∃ l, HasLanes tail l ∧ (if lanesGroup (supportedGroup tail).2 = [] then total
        else decimal (((lanesGroup (supportedGroup tail).2).drop 1).dropLast)) = decimal l) ∨
      (∀ l, ¬ HasLanes tail l) ∧ (if lanesGroup (supportedGroup tail).2 = [] then total
        else decimal (((lanesGroup (supportedGroup tail).2).drop 1).dropLast)) = total := by
  by_cases hl : lanesGroup (supportedGroup tail).2 = []
  · refine .inr ⟨fun l h => ?_, if_pos hl⟩
    rw [hasLanes_iff, hl] at h
    cases h
  · obtain ⟨l, hl'⟩ : ∃ l, lanesGroup (supportedGroup tail).2 = '(' :: l ++ [')'] := by
      unfold lanesGroup at hl ⊢
      split at hl
      · split at hl
        · exact ⟨_, rfl⟩
        · exact absurd rfl hl
      · exact absurd rfl hl
    refine .inl ⟨l, hasLanes_iff.mpr hl', ?_⟩
    rw [if_neg hl, hl']
    simp

theorem brkoutMatch_component {lanes : List Str} {g : Group} {e : BreakoutModeEntry} (hg : brkoutMatch s = some g)
    (he : reGroupToEntry lanes g = some e) : Component lanes.length s e := by
  unfold brkoutMatch at hg
  split at hg
  · rename_i n s' hn
    obtain ⟨⟨d, r⟩, hd, rfl⟩ := Option.map_eq_some_iff.mp hg
    obtain ⟨rfl, hnum, -⟩ := number_eq_some hn
    obtain ⟨rfl, hspeed, hgreedy⟩ := number_eq_some hd
    obtain ⟨speed, -, he⟩ := Option.bind_eq_some_iff.mp he
    obtain ⟨supported, -, he⟩ := Option.bind_eq_some_iff.mp he
    cases he
    have hr : r = (if r.head? = some 'G' then ['G'] else []) ++
        r.drop (if r.head? = some 'G' then ['G'] else [] : Str).length := by
      cases r with
      | nil => rfl
      | cons c r => by_cases hc : c = 'G' <;> simp [hc]
    refine ⟨n, d, if r.head? = some 'G' then ['G'] else [], _, by rw [append_assoc, ← hr], hnum, hspeed,
      by rwa [← hr], ?_, rfl, ?_⟩
    · split
      · exact .inl rfl
      · rename_i hc
        exact .inr ⟨rfl, hc⟩
    · exact lanes_component _ _
  · cases hg

theorem strToEntries_components {lanes : List Str} {bmode : Str} {entries : List BreakoutModeEntry}
    (h : strToEntries lanes bmode = some entries) :
    Forall₂ (Component lanes.length) (split '+' bmode) entries := by
  obtain ⟨groups, hgroups, hmap⟩ := Option.bind_eq_some_iff.mp h
  have hread := mapM_some hgroups
  have hentries := mapM_some hmap
  clear hgroups hmap h
  generalize split '+' bmode = texts at hread ⊢
  induction hread generalizing entries with
  | nil =>
    cases hentries
    exact .nil
  | cons hg _ ih =>
    cases hentries with
    | cons he hes => exact .cons (brkoutMatch_component hg he) (ih hes)

end

/-! ## What the children get -/

def slots (entries : List BreakoutModeEntry) : List BreakoutModeEntry :=
  entries.flatMap fun e => List.replicate e.numPorts e

def firstLane (entries : List BreakoutModeEntry) (i : Nat) : Nat := (((slots entries).take i).map lanesPerPort).sum

def PortConfig.laneList (p : PortConfig) : List Str := split ',' p.lanes

structure Partitions (cfg : BreakoutCfg) (ports : Dict Str PortConfig) : Prop where
  names : ports.keys.Nodup
  count : ports.length = (cfg.breakoutModeEntry.map BreakoutModeEntry.numPorts).sum
  /-- Each child has its share of the lanes of its component. -/
  share : ports.map (fun p => p.2.laneList.length) = (slots cfg.breakoutModeEntry).map lanesPerPort
  positive : ∀ e ∈ cfg.breakoutModeEntry, 0 < lanesPerPort e
  /-- The lanes of the children one after the other are the first lanes of the parent. -/
  blocks : (ports.map fun p => p.2.laneList).flatten <+: cfg.lanes
  name : ∀ i (h : i < ports.length), ports[i].1 = portStr ++ ofInt
    (cfg.interfaceBaseId + firstLane cfg.breakoutModeEntry i)
  index : ∀ i (h : i < ports.length), cfg.indexes[firstLane cfg.breakoutModeEntry i]? = some ports[i].2.index
  aliases : ports.map (fun p => p.2.portAlias) <+: cfg.breakoutCapabilities

section
variable {cfg : BreakoutCfg} {asicType : Option Str}

theorem childPort_spec {e : BreakoutModeEntry} {laneId aliasId : Nat} {p : Str × PortConfig}
    (h : childPort cfg asicType e laneId aliasId = some p) : 0 < lanesPerPort e ∧
      p.1 = portStr ++ ofInt (cfg.interfaceBaseId + laneId) ∧
      p.2.lanes = join [','] ((cfg.lanes.drop laneId).take (lanesPerPort e)) ∧ cfg.indexes[laneId]? = some p.2.index ∧
      cfg.breakoutCapabilities[aliasId]? = some p.2.portAlias := by
  obtain ⟨a, ha, h⟩ := Option.bind_eq_some_iff.mp h
  obtain ⟨index, hindex, h⟩ := Option.bind_eq_some_iff.mp h
  split at h
  · cases h
  · rename_i hzero
    cases h
    exact ⟨Nat.pos_of_ne_zero hzero, rfl, rfl, hindex, ha⟩

inductive Children (cfg : BreakoutCfg) : List BreakoutModeEntry → Nat → Nat → List (Str × PortConfig) → Prop
  | nil {laneId aliasId : Nat} : Children cfg [] laneId aliasId []
  | cons {e : BreakoutModeEntry} {es : List BreakoutModeEntry} {laneId aliasId : Nat} {p : Str × PortConfig}
      {ps : List (Str × PortConfig)} {asicType : Option Str} : childPort cfg asicType e laneId aliasId = some p →
    Children cfg es (laneId + lanesPerPort e) (aliasId + 1) ps → Children cfg (e :: es) laneId aliasId (p :: ps)

def Before (cfg : BreakoutCfg) (s : Dealt) : Prop :=
  ∀ k ∈ s.ports.keys, ∃ j < s.laneId, k = portStr ++ ofInt (cfg.interfaceBaseId + j)

theorem dealPort_spec {e : BreakoutModeEntry} {s t : Dealt} (hb : Before cfg s)
    (h : dealPort cfg asicType e s = some t) :
    ∃ p, childPort cfg asicType e s.laneId s.aliasId = some p ∧
      t = ⟨s.ports ++ [p], s.laneId + lanesPerPort e, s.aliasId + 1⟩ ∧ Before cfg t := by
  obtain ⟨p, hp, rfl⟩ := Option.map_eq_some_iff.mp h
  obtain ⟨hpos, hname, -⟩ := childPort_spec hp
  have hnew : p.1 ∉ s.ports.keys := fun hmem => by
    obtain ⟨j, hj, he⟩ := hb _ hmem
    grind [ofInt_injective, append_cancel_left]
  rw [Dict.set_of_not_mem hnew]
  refine ⟨p, hp, rfl, fun k hk => ?_⟩
  rw [Dict.keys, map_append, mem_append] at hk
  rcases hk with hk | hk
  · obtain ⟨j, hj, he⟩ := hb k hk
    grind
  · grind

theorem dealPorts_spec {e : BreakoutModeEntry} : ∀ {is : List Nat} {s t : Dealt}, Before cfg s →
    is.foldlM (fun s _ => dealPort cfg asicType e s) s = some t →
    ∃ ps, Children cfg (List.replicate is.length e) s.laneId s.aliasId ps ∧
      t = ⟨s.ports ++ ps, s.laneId + is.length * lanesPerPort e, s.aliasId + is.length⟩ ∧ Before cfg t
  | [], s, t, hb, h => by
    cases h
    exact ⟨[], .nil, by simp, hb⟩
  | _ :: is, s, t, hb, h => by
    rw [foldlM_cons] at h
    obtain ⟨u, hu, h⟩ := Option.bind_eq_some_iff.mp h
    obtain ⟨p, hp, rfl, hbu⟩ := dealPort_spec hb hu
    obtain ⟨ps, hps, rfl, hbt⟩ := dealPorts_spec hbu h
    refine ⟨p :: ps, .cons hp hps, ?_, hbt⟩
    simp only [append_assoc, singleton_append, length_cons, Dealt.mk.injEq, true_and]
    grind

theorem Children.append {es fs : List BreakoutModeEntry} {ps qs : List (Str × PortConfig)} {laneId aliasId : Nat}
    (h : Children cfg es laneId aliasId ps)
    (h' : Children cfg fs (laneId + (es.map lanesPerPort).sum) (aliasId + es.length) qs) :
    Children cfg (es ++ fs) laneId aliasId (ps ++ qs) := by
  induction h with
  | nil => simpa using h'
  | cons hp _ ih =>
    refine .cons hp (ih ?_)
    grind

theorem dealEntries_spec : ∀ {es : List BreakoutModeEntry} {s t : Dealt}, Before cfg s →
    es.foldlM (dealEntry cfg asicType) s = some t →
    ∃ ps, Children cfg (slots es) s.laneId s.aliasId ps ∧ t.ports = s.ports ++ ps ∧ Before cfg t ∧
      ∀ e ∈ es, e.numPorts ≠ 0
  | [], s, t, hb, h => by
    cases h
    exact ⟨[], .nil, by simp, hb, nofun⟩
  | e :: es, s, t, hb, h => by
    rw [foldlM_cons] at h
    obtain ⟨u, hu, h⟩ := Option.bind_eq_some_iff.mp h
    unfold dealEntry at hu
    split at hu
    · cases hu
    · rename_i hne
      obtain ⟨ps, hps, rfl, hbu⟩ := dealPorts_spec hb hu
      obtain ⟨qs, hqs, ht, hbt, hall⟩ := dealEntries_spec hbu h
      simp_all [slots, Children.append]

/-! ## Blocks of lanes -/

variable {es : List BreakoutModeEntry} {ps : List (Str × PortConfig)} {laneId aliasId : Nat}

theorem laneList_child {e : BreakoutModeEntry} {p : Str × PortConfig} (hcomma : ∀ l ∈ cfg.lanes, ',' ∉ l)
    (h : childPort cfg asicType e laneId aliasId = some p) (hfit : laneId + lanesPerPort e ≤ cfg.lanes.length) :
    p.2.laneList = (cfg.lanes.drop laneId).take (lanesPerPort e) := by
  obtain ⟨hpos, -, hlanes, -⟩ := childPort_spec h
  grind [PortConfig.laneList, split_join, length_take]

section
variable (h : Children cfg es laneId aliasId ps)
include h

theorem Children.positive : ∀ e ∈ es, 0 < lanesPerPort e := by
  induction h with
  | nil => nofun
  | cons hp _ ih => exact List.forall_mem_cons.mpr ⟨(childPort_spec hp).1, ih⟩

theorem Children.length : ps.length = es.length := by
  induction h <;> simp_all

theorem Children.lanes (hcomma : ∀ l ∈ cfg.lanes, ',' ∉ l)
    (hfit : laneId + (es.map lanesPerPort).sum ≤ cfg.lanes.length) :
    ps.map (fun p => p.2.laneList.length) = es.map lanesPerPort ∧
      (ps.map fun p => p.2.laneList).flatten = (cfg.lanes.drop laneId).take (es.map lanesPerPort).sum := by
  induction h <;> grind [laneList_child, drop_drop]

theorem Children.at : ∀ i (hi : i < ps.length),
    ps[i].1 = portStr ++ ofInt (cfg.interfaceBaseId + (laneId + ((es.take i).map lanesPerPort).sum : Nat)) ∧
      cfg.indexes[laneId + ((es.take i).map lanesPerPort).sum]? = some ps[i].2.index := by
  induction h with
  | nil => simp_all
  | @cons e es laneId aliasId p ps asicType hp _ ih =>
    obtain ⟨-, hname, -, hindex, -⟩ := childPort_spec hp
    intro i hi
    cases i <;> grind

theorem Children.names : (ps.map Prod.fst).Nodup ∧
    ∀ k ∈ ps.map Prod.fst, ∃ j, laneId ≤ j ∧ k = portStr ++ ofInt (cfg.interfaceBaseId + (j : Nat)) := by
  induction h with
  | nil => simp_all
  | @cons e es laneId aliasId p ps asicType hp _ ih =>
    obtain ⟨hpos, hname, -⟩ := childPort_spec hp
    obtain ⟨hnodup, hlater⟩ := ih
    rw [map_cons, nodup_cons]
    refine ⟨⟨fun hmem => ?_, hnodup⟩, List.forall_mem_cons.mpr ⟨⟨laneId, Nat.le_refl _, hname⟩, fun k hk => ?_⟩⟩
    · grind [ofInt_injective, append_cancel_left]
    · grind

theorem Children.aliases :
    ps.map (fun p => p.2.portAlias) <+: cfg.breakoutCapabilities.drop aliasId := by
  induction h with
  | nil => exact nil_prefix
  | cons hp _ ih =>
    obtain ⟨-, -, -, -, halias⟩ := childPort_spec hp
    grind [drop_eq_getElem_cons]

end

theorem slots_lanes : ∀ es : List BreakoutModeEntry,
    ((slots es).map lanesPerPort).sum ≤ (es.map BreakoutModeEntry.numAssignedLanes).sum
  | [] => Nat.le_refl 0
  | e :: es => by
    rw [slots, flatMap_cons, ← slots, map_append, sum_append, map_cons, sum_cons,
      map_replicate, sum_replicate_nat]
    have hshare : e.numPorts * lanesPerPort e ≤ e.numAssignedLanes := Nat.mul_div_le _ _
    have hrest := slots_lanes es
    omega

theorem slots_length (es : List BreakoutModeEntry) : (slots es).length = (es.map BreakoutModeEntry.numPorts).sum := by
  simp [slots, length_flatMap]

end

theorem findCapabilities_spec {lanes : List Str} {entries : List BreakoutModeEntry} {aliases : List Str} :
    ∀ {modes : List (Str × List Str)}, findCapabilities lanes entries modes = some (some aliases) →
      ∃ m ∈ modes, m.2 = aliases ∧ ∃ fs, strToEntries lanes m.1 = some fs ∧ sameEntries entries fs = true
  | [], h => by cases h
  | m :: modes, h => by
    rw [findCapabilities] at h
    obtain ⟨fs, hfs, h⟩ := Option.bind_eq_some_iff.mp h
    split at h
    · grind
    · obtain ⟨m', hm', hrest⟩ := findCapabilities_spec h
      grind

/-- What a breakout configuration is made of. -/
structure Describes (name bmode : Str) (properties : Properties) (cfg : BreakoutCfg) : Prop where
  baseId : int (remove portStr name) = some cfg.interfaceBaseId
  lanes : cfg.lanes = split ',' properties.lanes
  indexes : cfg.indexes = split ',' properties.index
  /-- The components of the mode, between the plus signs, say how many ports and lanes there are. -/
  entries : Forall₂ (Component cfg.lanes.length) (split '+' bmode) cfg.breakoutModeEntry
  /-- The aliases are those of a mode of the table with the same components and speeds. -/
  capabilities : ∃ m ∈ properties.breakoutModes, m.2 = cfg.breakoutCapabilities ∧
    ∃ fs, Forall₂ (Component cfg.lanes.length) (split '+' m.1) fs ∧ sameEntries cfg.breakoutModeEntry fs = true

theorem init_describes {name bmode : Str} {properties : Properties} {cfg : BreakoutCfg}
    (h : BreakoutCfg.init name bmode properties = some cfg) : Describes name bmode properties cfg := by
  obtain ⟨base, hbase, h⟩ := Option.bind_eq_some_iff.mp h
  obtain ⟨entries, hentries, h⟩ := Option.bind_eq_some_iff.mp h
  obtain ⟨capabilities, hcap, h⟩ := Option.bind_eq_some_iff.mp h
  split at h
  · cases h
    obtain ⟨m, hm, haliases, fs, hfs, hsame⟩ := findCapabilities_spec hcap
    exact ⟨hbase, rfl, rfl, strToEntries_components hentries, m, hm, haliases, fs, strToEntries_components hfs, hsame⟩
  · cases h

def fourLanes : Properties :=
  ⟨"1,2,3,4", "7,7,8,8", [("1x100G[40G]", ["Eth1"]),
    ("2x25G(2)+1x50G(2)", ["Eth1/1", "Eth1/2", "Eth1/3"])]⟩

end Sonic.Breakout
