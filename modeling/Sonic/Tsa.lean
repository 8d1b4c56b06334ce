import Sonic.Dict
import Sonic.Run
import Sonic.Text

/-! # Traffic shift away on a chassis line card

`DeviceGlobalCfgMgr` follows the line card's own `tsa_enabled` in CONFIG_DB and `ChassisAppDbMgr`
the one of the supervisor in CHASSIS_APP_DB. Both push the isolate or the unisolate template; each
holds its push back while the other side is thought to isolate the device. The messages of a table
come in order; the handler of the line card also reads CHASSIS_APP_DB directly. -/

namespace Sonic.Tsa

open Str

abbrev Row := Dict Str Str

inductive Template where
  | isolate
  | unisolate
  deriving DecidableEq

structure St where
  directory : Option Str
  lcTsa : Str
  pushed : Template

def init : St := ⟨some "false", "", .unisolate⟩

def isolateUnisolateDevice (s : St) (tsaStatus : Str) : St :=
  if tsaStatus ∉ ["true".toList, "false".toList] then s
  else { s with pushed := if tsaStatus = "true".toList then .isolate else .unisolate }

def getChassisTsaStatus (chassisDb : Option Str) : Str := chassisDb.getD "false"

def isUpdateRequired (s : St) (state : Str) : Bool :=
  match s.directory with
  | some v => state ≠ v
  | none => true

def put (s : St) (state : Str) : St := { s with directory := some state, lcTsa := state }

def configureTsa (s : St) (chassisDb : Option Str) (data : Option Row) : St :=
  let state := (data.bind (·.get? "tsa_enabled")).getD "false"
  let chassisTsa := getChassisTsaStatus chassisDb
  let requiresUpdate := isUpdateRequired s state
  let s := if state ∈ ["true".toList, "false".toList] ∧ s.directory.isSome then put s state else s
  if requiresUpdate ∧ chassisTsa = "false".toList then isolateUnisolateDevice s state else s

def lcHandler (s : St) (chassisDb : Option Str) (data : Option Row) : St :=
  if data = some [] then s else configureTsa s chassisDb data

def chassisSetHandler (s : St) (data : Row) : St :=
  match data.get? "tsa_enabled" with
  | some v => if s.lcTsa = "false".toList then isolateUnisolateDevice s v else s
  | none => s

/-! ## Databases and messages -/

structure Sys where
  st : St
  configDb : Option Str
  chassisDb : Option Str
  lcEvents : List (Option Row)
  chassisEvents : List Row

def sysInit : Sys := ⟨init, none, none, [], []⟩

inductive Ev where
  | lcSet (tsa : Bool) (others : Row)
  | lcDel
  | chassisSet (tsa : Bool) (others : Row)
  | lcDeliver
  | chassisDeliver

def text (b : Bool) : Str := if b then "true" else "false"

def row (b : Bool) (others : Row) : Row := others.set "tsa_enabled" (text b)

def step (y : Sys) : Ev → Option Sys
  | .lcSet b others =>
    some { y with configDb := some (text b), lcEvents := y.lcEvents ++ [some (row b others)] }
  | .lcDel => some { y with configDb := none, lcEvents := y.lcEvents ++ [none] }
  | .chassisSet b others =>
    some { y with chassisDb := some (text b), chassisEvents := y.chassisEvents ++ [row b others] }
  | .lcDeliver =>
    match y.lcEvents with
    | [] => some y
    | data :: rest => some { y with st := lcHandler y.st y.chassisDb data, lcEvents := rest }
  | .chassisDeliver =>
    match y.chassisEvents with
    | [] => some y
    | data :: rest => some { y with st := chassisSetHandler y.st data, chassisEvents := rest }

/-- With every message delivered the device is isolated exactly when the line
card or the chassis asks for it. -/
def Agrees (y : Sys) : Prop :=
  y.lcEvents = [] → y.chassisEvents = [] →
    (y.st.pushed = .isolate ↔ y.configDb = some "true".toList ∨ y.chassisDb = some "true".toList)

def lcState (data : Option Row) : Str := (data.bind (·.get? "tsa_enabled")).getD "false"

structure Inv (y : Sys) : Prop where
  value : ∃ b, y.st.directory = some (text b)
  cache : y.st.lcTsa = [] ∧ y.st.directory = some "false".toList ∧ y.st.pushed = .unisolate ∨
    y.st.directory = some y.st.lcTsa
  lcQueue : ∀ data ∈ y.lcEvents, ∃ b, lcState data = text b ∧ data ≠ some []
  lcLast : (y.lcEvents.getLast?.map lcState).getD (y.st.directory.getD []) = y.configDb.getD "false"
  chassisValue : ∀ v, y.chassisDb = some v → ∃ b, v = text b
  chassisQueue : ∀ data ∈ y.chassisEvents, ∃ b, data.get? "tsa_enabled" = some (text b)
  chassisLast : ∀ data, y.chassisEvents.getLast? = some data → y.chassisDb = data.get? "tsa_enabled"
  lcIsolates : y.st.directory = some "true".toList → y.st.pushed = .isolate
  chassisDecides : y.st.directory = some "false".toList → y.chassisEvents = [] →
    (y.st.pushed = .isolate ↔ y.chassisDb = some "true".toList)

/-- A chassis that isolates is not heard before the first message of the line
card, and a line card that isolates is not handled between a write of the
chassis and its message. -/
def tsaOk (y : Sys) : Ev → Prop
  | .lcDeliver => ∀ data ∈ y.lcEvents.head?, lcState data = "true".toList → y.st.directory = some "false".toList →
      y.chassisDb = some "true".toList → y.st.pushed = .isolate
  | .chassisDeliver => ∀ data ∈ y.chassisEvents.head?, y.st.lcTsa = [] → data.get? "tsa_enabled" ≠ some "true".toList
  | _ => True

instance (y : Sys) : ∀ e, Decidable (tsaOk y e)
  | .lcDeliver => inferInstanceAs (Decidable (∀ data ∈ y.lcEvents.head?, _ → _ → _ → _))
  | .chassisDeliver => inferInstanceAs (Decidable (∀ data ∈ y.chassisEvents.head?, _ → _))
  | .lcSet _ _ | .lcDel | .chassisSet _ _ => isTrue trivial

def template (b : Bool) : Template := if b then .isolate else .unisolate

theorem text_inj {a b : Bool} : text a = text b ↔ a = b := by cases a <;> cases b <;> decide

theorem text_mem (b : Bool) : text b ∈ ["true".toList, "false".toList] := by cases b <;> decide

theorem isolate_text (s : St) (b : Bool) : isolateUnisolateDevice s (text b) = { s with pushed := template b } := by
  unfold isolateUnisolateDevice
  rw [if_neg (not_not.mpr (text_mem b))]
  cases b <;> rfl

theorem lcHandler_text {s : St} {d b : Bool} {data : Option Row} (chassisDb : Option Str)
    (hd : s.directory = some (text d)) (hb : lcState data = text b) (hne : data ≠ some []) :
    lcHandler s chassisDb data = ⟨some (text b), text b,
      if b ≠ d ∧ getChassisTsaStatus chassisDb = "false".toList then template b else s.pushed⟩ := by
  have hs : (data.bind (·.get? "tsa_enabled")).getD "false" = text b := hb
  have hreq : isUpdateRequired s (text b) = decide (b ≠ d) := by simp only [isUpdateRequired, hd, ne_eq, text_inj]
  simp only [lcHandler, if_neg hne, configureTsa, hs, hreq, hd, Option.isSome_some, and_true, text_mem, if_true,
    decide_eq_true_eq]
  split
  · rw [isolate_text]; rfl
  · rfl

theorem chassisSet_text {s : St} {b : Bool} {data : Row} (hb : data.get? "tsa_enabled" = some (text b)) :
    chassisSetHandler s data = if s.lcTsa = "false".toList then { s with pushed := template b } else s := by
  simp only [chassisSetHandler, hb, isolate_text]

/-! ## Steps -/

theorem Inv.lcPush {y : Sys} (h : Inv y) {data : Option Row} {db : Option Str}
    (hv : ∃ b, lcState data = text b ∧ data ≠ some []) (hdb : lcState data = db.getD "false") :
    Inv { y with configDb := db, lcEvents := y.lcEvents ++ [data] } where
  value := h.value
  cache := h.cache
  lcQueue := by grind [h.lcQueue]
  lcLast := by simpa using hdb
  chassisValue := h.chassisValue
  chassisQueue := h.chassisQueue
  chassisLast := h.chassisLast
  lcIsolates := h.lcIsolates
  chassisDecides := h.chassisDecides

theorem Inv.chassisPush {y : Sys} (h : Inv y) (b : Bool) (others : Row) :
    Inv { y with chassisDb := some (text b), chassisEvents := y.chassisEvents ++ [row b others] } where
  value := h.value
  cache := h.cache
  lcQueue := h.lcQueue
  lcLast := h.lcLast
  chassisValue := fun v hv => ⟨b, (Option.some.inj hv).symm⟩
  chassisQueue := by
    intro m hm
    rcases List.mem_append.mp hm with hm | hm
    · exact h.chassisQueue m hm
    · rw [List.mem_singleton.mp hm]; exact ⟨b, Dict.get?_set_self _ _ _⟩
  chassisLast := by
    intro m hm
    simp only [List.getLast?_append, List.getLast?_singleton, Option.some_or, Option.some.injEq] at hm
    rw [← hm]; exact (Dict.get?_set_self _ _ _).symm
  lcIsolates := h.lcIsolates
  chassisDecides := fun _ hn => by simp at hn

theorem Inv.chassis_true {y : Sys} (h : Inv y) (hne : getChassisTsaStatus y.chassisDb ≠ "false".toList) :
    y.chassisDb = some "true".toList := by
  unfold getChassisTsaStatus at hne
  cases hc : y.chassisDb with
  | none => simp_all
  | some v =>
    obtain ⟨b, rfl⟩ := h.chassisValue v hc
    cases b with
    | false => rw [hc] at hne; exact (hne rfl).elim
    | true => rfl

theorem chassis_false {db : Option Str} (h : getChassisTsaStatus db = "false".toList) : db ≠ some "true".toList := by
  rintro rfl; revert h; decide

theorem Inv.lcPop {y : Sys} (h : Inv y) {data : Option Row} {rest : List (Option Row)} (he : y.lcEvents = data :: rest)
    (hok : lcState data = "true".toList → y.st.directory = some "false".toList →
      y.chassisDb = some "true".toList → y.st.pushed = .isolate) :
    Inv { y with st := lcHandler y.st y.chassisDb data, lcEvents := rest } := by
  obtain ⟨d, hd⟩ := h.value
  obtain ⟨b, hb, hne⟩ := h.lcQueue data (by simp_all)
  rw [lcHandler_text y.chassisDb hd hb hne]
  refine ⟨⟨b, rfl⟩, Or.inr rfl, fun m hm => h.lcQueue m (by simp_all), ?_,
    h.chassisValue, h.chassisQueue, h.chassisLast, fun ht => ?_, fun hf hn => ?_⟩
  · grind [h.lcLast]
  · have hbt : b = true := text_inj.mp (Option.some.inj ht)
    subst hbt
    simp only
    split
    · rfl
    · rename_i hc
      cases d with
      | true => exact h.lcIsolates hd
      | false => exact hok hb hd (h.chassis_true fun hf => hc ⟨by decide, hf⟩)
  · have hbf : b = false := text_inj.mp (Option.some.inj hf)
    subst hbf
    simp only
    split
    · rename_i hc
      exact ⟨fun hp => (by cases hp), fun hp => (chassis_false hc.2 hp).elim⟩
    · rename_i hc
      cases d with
      | true =>
        have hch := h.chassis_true fun hf => hc ⟨by decide, hf⟩
        exact ⟨fun _ => hch, fun _ => h.lcIsolates hd⟩
      | false => exact h.chassisDecides hd hn

theorem Inv.chassisPop {y : Sys} (h : Inv y) {data : Row} {rest : List Row} (he : y.chassisEvents = data :: rest)
    (hok : y.st.lcTsa = [] → data.get? "tsa_enabled" ≠ some "true".toList) :
    Inv { y with st := chassisSetHandler y.st data, chassisEvents := rest } := by
  obtain ⟨b, hb⟩ := h.chassisQueue data (by simp_all)
  have hqueue : ∀ m ∈ rest, ∃ b, m.get? "tsa_enabled" = some (text b) :=
    fun m hm => h.chassisQueue m (by simp_all)
  have hlast : ∀ m, rest.getLast? = some m → y.chassisDb = m.get? "tsa_enabled" := by grind [h.chassisLast]
  -- the last message delivered is what the database holds
  have hdb : rest = [] → y.chassisDb = some (text b) := by grind [h.chassisLast]
  have htrue : some (text b) = some "true".toList ↔ b = true := by cases b <;> decide
  rw [chassisSet_text hb]
  split
  · rename_i hlc
    have hd : y.st.directory = some "false".toList := by
      rcases h.cache with ⟨hnil, _⟩ | hd <;> simp_all
    refine ⟨h.value, Or.inr (by rw [hd, hlc]), h.lcQueue, h.lcLast, h.chassisValue, hqueue, hlast,
      fun ht => ?_,
      fun _ hn => ?_⟩ <;> simp_all [template]
  · rename_i hlc
    refine ⟨h.value, h.cache, h.lcQueue, h.lcLast, h.chassisValue, hqueue, hlast, h.lcIsolates,
      fun hd hn => ?_⟩ <;> grind [h.cache]

theorem Inv.step {y y' : Sys} {e : Ev} (h : Inv y) (hok : tsaOk y e) (hs : step y e = some y') : Inv y' := by
  cases e with
  | lcSet b others =>
    cases hs
    have hrow : lcState (some (row b others)) = text b := by simp [lcState, row]
    exact h.lcPush ⟨b, hrow, fun hn => Dict.set_ne_nil _ _ _ (Option.some.inj hn)⟩ hrow
  | lcDel => cases hs; exact h.lcPush ⟨false, rfl, fun hn => by cases hn⟩ rfl
  | chassisSet b others => cases hs; exact h.chassisPush b others
  | lcDeliver =>
    unfold Tsa.step at hs
    cases he : y.lcEvents with
    | nil => simp_all
    | cons data rest =>
      rw [he] at hs; cases hs
      exact h.lcPop he (hok data (by rw [he]; rfl))
  | chassisDeliver =>
    unfold Tsa.step at hs
    cases he : y.chassisEvents with
    | nil => simp_all
    | cons data rest =>
      rw [he] at hs; cases hs
      exact h.chassisPop he (hok data (by rw [he]; rfl))

theorem Inv.init : Inv sysInit where
  value := ⟨false, rfl⟩
  cache := Or.inl ⟨rfl, rfl, rfl⟩
  lcQueue := fun _ hm => (List.not_mem_nil hm).elim
  lcLast := rfl
  chassisValue := fun _ hv => by cases hv
  chassisQueue := fun _ hm => (List.not_mem_nil hm).elim
  chassisLast := fun _ hm => by cases hm
  lcIsolates := by decide
  chassisDecides := by decide

theorem Inv.agrees {y : Sys} (h : Inv y) : Agrees y := by
  intro hl hc
  obtain ⟨d, hd⟩ := h.value
  have hlast := h.lcLast
  rw [hl, hd] at hlast
  have hconf : y.configDb = some "true".toList ↔ d = true := by
    cases hcfg : y.configDb with
    | none => rw [hcfg] at hlast; cases d <;> simp_all [text]
    | some v =>
      rw [hcfg] at hlast
      have hv : text d = v := hlast
      rw [← hv]; cases d <;> decide
  rw [hconf]
  cases d with
  | true => grind [h.lcIsolates]
  | false => rw [h.chassisDecides hd hc]; simp

/-- **TSA agreement.** In every run whose deliveries meet `tsaOk`, the device
is isolated in the end exactly when one side asks for it. -/
theorem agrees_of_run {es : List Ev} {y : Sys} (hok : Along Tsa.step tsaOk sysInit es)
    (hr : run Tsa.step sysInit es = some y) : Agrees y :=
  (run_inv Tsa.step (fun _ _ _ => Inv.step) Inv.init hok hr).agrees

theorem agrees_chassis_then_lc : ∃ y, run Tsa.step sysInit
    [.lcSet false [], .lcDeliver, .chassisSet true [], .chassisDeliver, .lcSet true [], .chassisSet false [],
      .lcDeliver, .lcDel, .chassisDeliver, .lcDeliver] = some y ∧ Agrees y :=
  ⟨_, (Option.some_get (by decide)).symm, agrees_of_run (by decide) (Option.some_get _).symm⟩

theorem not_agrees_overlap : ∃ y, run Tsa.step sysInit
    [.lcSet false [], .lcDeliver, .lcSet true [], .chassisSet true [], .lcDeliver, .chassisDeliver] = some y ∧
    ¬ Agrees y := by
  refine ⟨_, (Option.some_get (by decide)).symm, fun h => ?_⟩
  have := (h (by decide) (by decide)).mpr (by decide)
  revert this
  decide

end Sonic.Tsa
