import Mathlib.Data.List.Dedup
import Sonic.DhcpDbMonitor

/-! # dhcprelayd and the dhcp_server feature

dhcprelayd keeps a flag that says whether the dhcp_server feature is enabled. It turns the flag over
when the checker of the FEATURE table reports a change, and enables and disables the other checkers
as the flag and the tables of CONFIG_DB require. -/

namespace Sonic.Dhcp.Relayd

open Str

def vlanCheckers : List Checker := [.vlanTable, .vlanIntfTable]

inductive Stop where
  | enableGuard
  | disableGuard
  | other
  deriving DecidableEq

structure Daemon where
  dhcpServerFeatureEnabled : Bool
  enabledCheckers : List Checker
  enabled : List Checker
  enabledDhcpInterfaces : List Str
  smartSwitch : Bool

structure World where
  dhcpServerIpv4 : Dict Str (Dict Str Str)
  vlan : List Str
  midPlaneBridge : Option Str
  checkRes : Checker → Bool
  processesOk : Bool

def enable (enabled : List Checker) (c : Checker) : Except Stop (List Checker) :=
  if c ∈ enabled then .error .enableGuard else .ok (c :: enabled)

def disable (enabled : List Checker) (c : Checker) : Except Stop (List Checker) :=
  if c ∈ enabled then .ok (enabled.filter (· ≠ c)) else .error .disableGuard

def Daemon.enableCheckers (d : Daemon) (checkers : List Checker) : Except Stop Daemon := do
  let new := checkers.dedup.filter (· ∉ d.enabledCheckers)
  let enabled ← new.foldlM enable d.enabled
  return { d with enabled := enabled, enabledCheckers := d.enabledCheckers ++ new }

def Daemon.disableCheckers (d : Daemon) (checkers : List Checker) : Except Stop Daemon := do
  let new := checkers.dedup.filter (· ∈ d.enabledCheckers)
  let enabled ← new.foldlM disable d.enabled
  return { d with enabled := enabled, enabledCheckers := d.enabledCheckers.filter (· ∉ new) }

/-! ## Batches -/

def isDhcpServerEnabled (feature : Dict Str (Dict Str Str)) : Bool :=
  (((feature.get? "dhcp_server").getD []).get? "state").getD "disabled" = "enabled"

def Daemon.start (feature : Dict Str (Dict Str Str)) (smartSwitch processesOk : Bool) : Except Stop Daemon :=
  let enabled := isDhcpServerEnabled feature
  if enabled && !processesOk then .error .other
  else do
    let checkers := if enabled then [Checker.dhcpServerFeatureState, Checker.dhcpServerTableIntfEnablement]
      else [Checker.dhcpServerFeatureState]
    return ⟨enabled, checkers, ← checkers.foldlM enable [], [], smartSwitch⟩

def checkersFor (w : World) (smartSwitch : Bool) (dhcpInterface : Str) : List Checker :=
  if dhcpInterface ∈ w.vlan then vlanCheckers
  else if some dhcpInterface = w.midPlaneBridge ∧ smartSwitch then [.midPlaneTable] else []

def Daemon.refreshCheckers (d : Daemon) (w : World) : Except Stop Daemon := do
  let toBeEnabled := w.dhcpServerIpv4.flatMap fun p => checkersFor w d.smartSwitch p.1
  let d ← d.enableCheckers (toBeEnabled.filter (· ∉ d.enabledCheckers))
  d.disableCheckers (d.enabledCheckers.filter fun c =>
    c ∉ toBeEnabled ∧ c ≠ Checker.dhcpServerFeatureState ∧ c ≠ Checker.dhcpServerTableIntfEnablement)

def Daemon.refreshDhcrelay (d : Daemon) (w : World) : Except Stop Daemon :=
  if w.dhcpServerIpv4.any fun p => (p.2.get? "state".toList).isNone then .error .other
  else do
    let enabledRows := w.dhcpServerIpv4.filter fun p => p.2.get? "state".toList = some "enabled".toList
    let d ← { d with enabledDhcpInterfaces := Dict.keys enabledRows }.refreshCheckers w
    if w.processesOk then return d else throw .other

def Daemon.result (d : Daemon) (w : World) (c : Checker) : Bool := c ∈ d.enabled && w.checkRes c

def Daemon.turn (d : Daemon) (w : World) : Except Stop Daemon :=
  if d.dhcpServerFeatureEnabled then do
    let d ← d.enableCheckers [.dhcpServerTableIntfEnablement]
    if w.processesOk then d.refreshDhcrelay w else throw .other
  else do
    let toBeDisabled := .dhcpServerTableIntfEnablement :: vlanCheckers ++ if d.smartSwitch then [.midPlaneTable] else []
    let d ← d.disableCheckers (d.enabledCheckers.filter (· ∈ toBeDisabled))
    if w.processesOk then return d else throw .other

def Daemon.stay (d : Daemon) (w : World) : Except Stop Daemon :=
  if d.dhcpServerFeatureEnabled then
    if d.result w .vlanIntfTable || d.result w .midPlaneTable then d.refreshDhcrelay w
    else if d.result w .vlanTable || d.result w .dhcpServerTableIntfEnablement then d.refreshDhcrelay w
    else return d
  else if w.processesOk then return d else throw .other

def Daemon.proceed (d : Daemon) (b : List Event × World) : Except Stop Daemon :=
  let changed := checkUpdateEvent ⟨some d.enabledDhcpInterfaces, none, none, some d.dhcpServerFeatureEnabled⟩ b.1
    .dhcpServerFeatureState
  if .dhcpServerFeatureState ∈ d.enabled ∧ changed = some true then
    { d with dhcpServerFeatureEnabled := !d.dhcpServerFeatureEnabled }.turn b.2
  else d.stay b.2

def Daemon.wait (d : Daemon) (batches : List (List Event × World)) : Except Stop Daemon :=
  batches.foldlM Daemon.proceed d

/-! ## The guards are not reached -/

def Ends (P : Daemon → Prop) : Except Stop Daemon → Prop
  | .ok d => P d
  | .error s => s = .other

theorem Ends.bind {P Q : Daemon → Prop} {x : Except Stop Daemon} {f : Daemon → Except Stop Daemon} (h : Ends P x)
    (hf : ∀ d, P d → Ends Q (f d)) : Ends Q (x >>= f) := by
  cases x with
  | ok d => exact hf d h
  | error s => exact h

theorem Ends.imp {P Q : Daemon → Prop} {x : Except Stop Daemon} (h : Ends P x) (hPQ : ∀ d, P d → Q d) : Ends Q x := by
  cases x with
  | ok d => exact hPQ d h
  | error s => exact h

structure InStep (d : Daemon) : Prop where
  same : ∀ c, c ∈ d.enabledCheckers ↔ c ∈ d.enabled
  feature : .dhcpServerFeatureState ∈ d.enabled

theorem enable_all : ∀ {cs : List Checker} {enabled : List Checker}, cs.Nodup → (∀ c ∈ cs, c ∉ enabled) →
    ∃ enabled', cs.foldlM enable enabled = .ok enabled' ∧ ∀ c, c ∈ enabled' ↔ c ∈ cs ∨ c ∈ enabled
  | [], enabled, _, _ => ⟨enabled, rfl, by simp⟩
  | x :: cs, enabled, hn, hx => by
    obtain ⟨hxn, hn⟩ := List.nodup_cons.mp hn
    obtain ⟨enabled', h, hmem⟩ := @enable_all cs (x :: enabled) hn fun c hc he => by grind
    refine ⟨enabled', ?_, fun c => ?_⟩
    · rw [List.foldlM_cons, enable, if_neg (hx x List.mem_cons_self)]
      exact h
    · grind

theorem disable_all : ∀ {cs : List Checker} {enabled : List Checker}, cs.Nodup → (∀ c ∈ cs, c ∈ enabled) →
    ∃ enabled', cs.foldlM disable enabled = .ok enabled' ∧ ∀ c, c ∈ enabled' ↔ c ∈ enabled ∧ c ∉ cs
  | [], enabled, _, _ => ⟨enabled, rfl, by simp⟩
  | x :: cs, enabled, hn, hx => by
    obtain ⟨hxn, hn⟩ := List.nodup_cons.mp hn
    obtain ⟨enabled', h, hmem⟩ := @disable_all cs (enabled.filter (· ≠ x)) hn fun c hc => by grind
    refine ⟨enabled', ?_, fun c => ?_⟩
    · rw [List.foldlM_cons, disable, if_pos (hx x List.mem_cons_self)]
      exact h
    · simp_all [and_assoc]

theorem enableCheckers_inStep {d : Daemon} (h : InStep d) (cs : List Checker) :
    Ends (fun d' => InStep d' ∧ d'.dhcpServerFeatureEnabled = d.dhcpServerFeatureEnabled) (d.enableCheckers cs) := by
  obtain ⟨enabled, he, hmem⟩ := @enable_all (cs.dedup.filter (· ∉ d.enabledCheckers)) d.enabled
    ((List.nodup_dedup cs).filter _) fun c hc hin =>
      absurd ((h.same c).mpr hin) (of_decide_eq_true (List.mem_filter.mp hc).2)
  rw [Daemon.enableCheckers, he]
  refine ⟨⟨fun c => ?_, (hmem _).mpr (.inr h.feature)⟩, rfl⟩
  rw [hmem, List.mem_append, h.same, or_comm]

theorem disableCheckers_inStep {d : Daemon} (h : InStep d) {cs : List Checker} (hcs : .dhcpServerFeatureState ∉ cs) :
    Ends (fun d' => InStep d' ∧ d'.dhcpServerFeatureEnabled = d.dhcpServerFeatureEnabled) (d.disableCheckers cs) := by
  obtain ⟨enabled, he, hmem⟩ := @disable_all (cs.dedup.filter (· ∈ d.enabledCheckers)) d.enabled
    ((List.nodup_dedup cs).filter _) fun c hc => (h.same c).mp (of_decide_eq_true (List.mem_filter.mp hc).2)
  rw [Daemon.disableCheckers, he]
  refine ⟨⟨fun c => ?_, (hmem _).mpr ⟨h.feature, fun hc => hcs ?_⟩⟩, rfl⟩ <;> simp_all [h.same]

theorem refreshCheckers_inStep {d : Daemon} (h : InStep d) (w : World) :
    Ends (fun d' => InStep d' ∧ d'.dhcpServerFeatureEnabled = d.dhcpServerFeatureEnabled) (d.refreshCheckers w) :=
  Ends.bind (enableCheckers_inStep h _) fun _ ⟨h1, hf1⟩ =>
    (disableCheckers_inStep h1 (by simp)).imp fun _ ⟨h2, hf2⟩ => ⟨h2, hf2.trans hf1⟩

theorem refreshDhcrelay_inStep {d : Daemon} (h : InStep d) (w : World) :
    Ends (fun d' => InStep d' ∧ d'.dhcpServerFeatureEnabled = d.dhcpServerFeatureEnabled) (d.refreshDhcrelay w) := by
  unfold Daemon.refreshDhcrelay
  split
  · exact rfl
  · refine Ends.bind (refreshCheckers_inStep ?_ w) fun d1 h1 => ?_
    · exact ⟨h.same, h.feature⟩
    · split
      · exact h1
      · rfl

theorem turn_inStep {d : Daemon} (h : InStep d) (w : World) :
    Ends (fun d' => InStep d' ∧ d'.dhcpServerFeatureEnabled = d.dhcpServerFeatureEnabled) (d.turn w) := by
  unfold Daemon.turn
  split
  · refine Ends.bind (enableCheckers_inStep h _) fun d1 ⟨h1, hf1⟩ => ?_
    split
    · grind [refreshDhcrelay_inStep]
    · rfl
  · refine Ends.bind (disableCheckers_inStep h ?_) fun d1 ⟨h1, hf1⟩ => ?_
    · rw [List.mem_filter]
      rintro ⟨-, hc⟩
      cases hs : d.smartSwitch <;> rw [hs] at hc <;> exact absurd hc (by decide)
    · split
      · exact ⟨h1, hf1⟩
      · rfl

theorem stay_inStep {d : Daemon} (h : InStep d) (w : World) :
    Ends (fun d' => InStep d' ∧ d'.dhcpServerFeatureEnabled = d.dhcpServerFeatureEnabled) (d.stay w) := by
  have hr := refreshDhcrelay_inStep h w
  unfold Daemon.stay
  split
  · split
    · exact hr
    · split
      · exact hr
      · exact ⟨h, rfl⟩
  · split
    · exact ⟨h, rfl⟩
    · rfl

theorem proceed_inStep {d : Daemon} (h : InStep d) (b : List Event × World) :
    Ends (fun d' => InStep d' ∧ d'.dhcpServerFeatureEnabled =
      (d.dhcpServerFeatureEnabled ^^ b.1.any (·.featureState d.dhcpServerFeatureEnabled))) (d.proceed b) := by
  unfold Daemon.proceed
  have hscan : checkUpdateEvent ⟨some d.enabledDhcpInterfaces, none, none, some d.dhcpServerFeatureEnabled⟩ b.1
      .dhcpServerFeatureState = some (b.1.any (·.featureState d.dhcpServerFeatureEnabled)) := scan_some b.1
  rw [hscan]
  cases hany : b.1.any (·.featureState d.dhcpServerFeatureEnabled) with
  | true =>
    simp only [h.feature, and_self, if_true]
    refine Ends.imp (turn_inStep ?_ b.2) fun d' hd => ⟨hd.1, ?_⟩
    · exact ⟨h.same, h.feature⟩
    · rw [hd.2, Bool.xor_true]
  | false => simp_all [stay_inStep]

/-! ## The flag follows the feature -/

def leavesEnabled (e : Event) : Bool :=
  match e.op with
  | .del => false
  | .set entry => entry.find? (·.1 = "state".toList) = some ("state".toList, "enabled".toList)

def ofFeature (events : List Event) : List Event := events.filter (·.key = "dhcp_server")

def enabledAfter (cur : Bool) (events : List Event) : Bool :=
  match (ofFeature events).getLast? with
  | none => cur
  | some e => leavesEnabled e

def clear (e : Event) : Bool :=
  match e.op with
  | .del => true
  | .set entry => entry.find? (·.1 = "state".toList) = some ("state".toList, "enabled".toList) ∨
      entry.find? (·.1 = "state".toList) = some ("state".toList, "disabled".toList)

def oneWay (cur : Bool) (events : List Event) : Bool :=
  (ofFeature events).all clear && ((ofFeature events).all (leavesEnabled · = cur) || enabledAfter cur events ≠ cur)

def Steady : Bool → List (List Event × World) → Prop
  | _, [] => True
  | cur, b :: batches => oneWay cur b.1 = true ∧ Steady (enabledAfter cur b.1) batches

instance decidableSteady : ∀ (cur : Bool) (batches : List (List Event × World)), Decidable (Steady cur batches)
  | _, [] => isTrue trivial
  | cur, b :: batches => @instDecidableAnd _ _ _ (decidableSteady (enabledAfter cur b.1) batches)

theorem featureState_iff {e : Event} (hk : e.key = "dhcp_server".toList) (hc : clear e = true) (cur : Bool) :
    e.featureState cur = true ↔ leavesEnabled e ≠ cur := by
  unfold Event.featureState leavesEnabled
  unfold clear at hc
  rw [if_neg (not_not.mpr hk)]
  cases hop : e.op with
  | del => cases cur <;> simp
  | set entry =>
    rw [hop] at hc
    rcases of_decide_eq_true hc with hf | hf
    · simp only [hf]
      cases cur <;> simp
    · simp only [hf]
      cases cur <;> simp

theorem any_featureState (events : List Event) (cur : Bool) :
    events.any (·.featureState cur) = (ofFeature events).any (·.featureState cur) := by
  rw [ofFeature, List.any_filter]
  congr 1
  funext e
  by_cases hk : e.key = "dhcp_server"
  · simp_all
  · simp_all [Event.featureState]

theorem oneWay_flag {cur : Bool} {events : List Event} (h : oneWay cur events = true) :
    (cur ^^ events.any (·.featureState cur)) = enabledAfter cur events := by
  simp only [oneWay, Bool.and_eq_true, Bool.or_eq_true, List.all_eq_true, decide_eq_true_eq] at h
  obtain ⟨hclear, hway⟩ := h
  have hint : ∀ e ∈ ofFeature events, e.featureState cur = true ↔ leavesEnabled e ≠ cur := fun e he =>
    featureState_iff (of_decide_eq_true (List.mem_filter.mp he).2) (hclear e he) cur
  rw [any_featureState]
  rcases hway with hall | hne
  · have hnone : (ofFeature events).any (·.featureState cur) = false :=
      List.any_eq_false.mpr fun e he hf => (hint e he).mp hf (hall e he)
    rw [hnone, Bool.xor_false, enabledAfter]
    cases hl : (ofFeature events).getLast? with
    | none => rfl
    | some e => grind
  · have hsome : (ofFeature events).any (·.featureState cur) = true := by
      rw [enabledAfter] at hne
      cases hl : (ofFeature events).getLast? with
      | none => simp_all
      | some e => grind
    grind

theorem start_inStep (feature : Dict Str (Dict Str Str)) (smartSwitch processesOk : Bool) :
    Ends (fun d => InStep d ∧ d.dhcpServerFeatureEnabled = isDhcpServerEnabled feature)
      (Daemon.start feature smartSwitch processesOk) := by
  unfold Daemon.start
  dsimp only
  cases isDhcpServerEnabled feature with
  | false =>
    refine ⟨⟨fun c => ?_, by simp⟩, rfl⟩
    rfl
  | true =>
    split
    · rfl
    · refine ⟨⟨fun c => ?_, by simp⟩, rfl⟩
      simp [or_comm]

theorem wait_inStep : ∀ {batches : List (List Event × World)} {d : Daemon}, InStep d → Ends InStep (d.wait batches)
  | [], _, h => h
  | b :: _, _, h => Ends.bind (proceed_inStep h b) fun _ h' => wait_inStep h'.1

theorem enabledAfter_append (cur : Bool) (first rest : List Event) :
    enabledAfter cur (first ++ rest) = enabledAfter (enabledAfter cur first) rest := by
  simp only [enabledAfter, ofFeature, List.filter_append, List.getLast?_append]
  cases (rest.filter (·.key = "dhcp_server".toList)).getLast? <;> rfl

theorem wait_steady : ∀ {batches : List (List Event × World)} {d : Daemon}, InStep d →
    Steady d.dhcpServerFeatureEnabled batches →
    Ends (fun d' => d'.dhcpServerFeatureEnabled = enabledAfter d.dhcpServerFeatureEnabled (batches.flatMap (·.1)))
      (d.wait batches)
  | [], _, _, _ => rfl
  | b :: batches, d, h, hs => by
    refine Ends.bind (proceed_inStep h b) fun d' ⟨h', hflag⟩ => ?_
    rw [oneWay_flag hs.1] at hflag
    refine (wait_steady h' (hflag ▸ hs.2)).imp fun d'' hd => ?_
    grind [enabledAfter_append]

theorem run_ends (feature : Dict Str (Dict Str Str)) (smartSwitch processesOk : Bool)
    (batches : List (List Event × World)) :
    Ends (fun d => Steady (isDhcpServerEnabled feature) batches →
        d.dhcpServerFeatureEnabled = enabledAfter (isDhcpServerEnabled feature) (batches.flatMap (·.1)))
      (Daemon.start feature smartSwitch processesOk >>= (·.wait batches)) := by
  refine Ends.bind (start_inStep feature smartSwitch processesOk) fun d ⟨h, hflag⟩ => ?_
  rw [← hflag]
  by_cases hs : Steady d.dhcpServerFeatureEnabled batches
  · grind [wait_steady]
  · exact (wait_inStep h).imp fun d' _ hs' => absurd hs' hs

/-- No run ends at a guard, and after every run the flag says what the last event of the feature left, as long as no
batch leaves the state of the feature and comes back to it. -/
theorem feature_tracked (feature : Dict Str (Dict Str Str)) (smartSwitch processesOk : Bool)
    (batches : List (List Event × World)) (res : Except Stop Daemon)
    (hrun : (Daemon.start feature smartSwitch processesOk >>= (·.wait batches)) = res) :
    res ≠ .error .enableGuard ∧ res ≠ .error .disableGuard ∧
      (Steady (isDhcpServerEnabled feature) batches → ∀ d, res = .ok d →
        d.dhcpServerFeatureEnabled = enabledAfter (isDhcpServerEnabled feature) (batches.flatMap (·.1))) := by
  have hends := run_ends feature smartSwitch processesOk batches
  rw [hrun] at hends
  cases res with
  | ok d =>
    refine ⟨nofun, nofun, fun hs d' hd => ?_⟩
    cases hd
    exact hends hs
  | error stop =>
    cases hends
    exact ⟨nofun, nofun, fun _ _ hd => nomatch hd⟩

def quiet : World := ⟨[], [], none, fun _ => false, true⟩

def stateSet (state : String) : Event := ⟨"dhcp_server", .set [("state", state.toList)]⟩

/-- The feature goes on, off and on again, with an event that repeats its state. -/
def onOffOn : List (List Event × World) :=
  [([stateSet "enabled"], quiet), ([stateSet "disabled", stateSet "disabled"], quiet), ([], quiet),
    ([stateSet "enabled"], quiet)]

theorem feature_tracked_on : ((Daemon.start [] false true >>= (·.wait onOffOn)).toOption.map
    (·.dhcpServerFeatureEnabled)) = some true := by
  have hok : (Daemon.start [] false true >>= (·.wait onOffOn)).isOk = true := by decide +kernel
  cases hrun : Daemon.start [] false true >>= (·.wait onOffOn) with
  | ok d =>
    have hd := (feature_tracked [] false true _ _ hrun).2.2 (by decide +kernel) d rfl
    exact congrArg some (hd.trans (by decide +kernel))
  | error stop =>
    rw [hrun] at hok
    exact nomatch hok

theorem feature_left_behind :
    ((Daemon.start [] false true >>= (·.wait [([stateSet "enabled", stateSet "disabled"], quiet)])).toOption.map
      (·.dhcpServerFeatureEnabled)) = some true ∧
    enabledAfter (isDhcpServerEnabled []) [stateSet "enabled", stateSet "disabled"] = false := by
  decide +kernel

end Sonic.Dhcp.Relayd
