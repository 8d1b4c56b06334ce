import Sonic.DhcpReads

/-! # Changes that dhcpservd has to see

dhcpservd generates its configuration again when one of the checkers that the last `generate`
subscribed to reports an event. A batch of changes for which no checker does so leaves the object for
the template as it is if it keeps to what the checkers watch, and, the mid plane of a smart switch
apart, only then. -/

namespace Sonic.Dhcp

open Str Ipaddress

variable {c : Change} {r' : Generated}

/-! ## Changes -/

def Val.raw : Val → Str
  | text s => s
  | list l => join "," l

structure Change where
  table : TableName
  key : Str
  entry : Option Entry

namespace Change

def event (c : Change) : Event where
  key := c.key
  op := match c.entry with
    | some e => .set (e.map fun f => (f.1, f.2.raw))
    | none => .del

def onTable (c : Change) (t : Table) : Table :=
  match c.entry with
  | some e => t.set c.key e
  | none => t.erase c.key

end Change

namespace ConfigDb

def change (db : ConfigDb) (c : Change) : ConfigDb where
  table t := if t = c.table then c.onTable (db.table t) else db.table t
  nodup t := by
    split
    · unfold Change.onTable
      split
      · exact Dict.nodup_set _ _ (db.nodup t)
      · exact Dict.nodup_filter _ (db.nodup t)
    · exact db.nodup t

def changes (db : ConfigDb) (cs : List Change) : ConfigDb := cs.foldl change db

end ConfigDb

def servdCheckers : List (Checker × TableName) :=
  [(.dhcpServerTableCfgChange, .dhcpServerIpv4), (.dhcpPortTable, .dhcpServerIpv4Port),
    (.dhcpOptionTable, .dhcpServerIpv4CustomizedOptions), (.dhcpRangeTable, .dhcpServerIpv4Range), (.vlanTable, .vlan),
    (.vlanIntfTable, .vlanInterface), (.vlanMemberTable, .vlanMember), (.dpusTable, .dpus),
    (.midPlaneTable, .midPlaneBridge)]

def eventsOf (cs : List Change) (t : TableName) : List Event := (cs.filter (·.table = t)).map Change.event

def checkDbUpdate (snapshot : DbSnapshot) (enabledCheckers : List Checker) (cs : List Change) : Option Bool :=
  servdCheckers.anyM fun (checker, t) =>
    if checker ∈ enabledCheckers then checkUpdateEvent snapshot (eventsOf cs t) checker else some false

def Generated.snapshot (r : Generated) : DbSnapshot :=
  ⟨some r.enabledDhcpInterfaces, some r.usedRanges, some r.usedOptions, none⟩

section
variable {db : ConfigDb} {cs : List Change} {t : TableName}

theorem filter_changes {q : Str → Bool} : ∀ {cs : List Change} (db : ConfigDb),
    (∀ c ∈ cs, c.table = t → q c.key = false) →
    ((db.changes cs).table t).filter (fun p => q p.1) = (db.table t).filter fun p => q p.1
  | [], _, _ => rfl
  | c :: cs, db, h => by
    have ih := filter_changes (db.change c) fun c' hc' => h c' (List.mem_cons_of_mem _ hc')
    refine ih.trans ?_
    change (if t = c.table then c.onTable (db.table t) else db.table t).filter _ = _
    split
    · rename_i ht
      have hk := h c List.mem_cons_self ht.symm
      unfold Change.onTable
      split
      · exact Dict.filter_set hk _ _
      · exact Dict.filter_erase hk _
    · rfl

theorem get?_changes {k : Str} (h : ∀ c ∈ cs, c.table = t → c.key ≠ k) :
    ((db.changes cs).table t).get? k = (db.table t).get? k := by
  have hread := fun d : Table => Dict.get?_filter_key (q := fun x => decide (x = k)) (decide_eq_true rfl) d
  have hfilter := filter_changes (t := t) (q := fun x => decide (x = k)) db fun c hc ht => decide_eq_false (h c hc ht)
  grind

theorem mem_changes {p : Str × Entry} : ∀ {cs : List Change} {db : ConfigDb}, p ∈ (db.changes cs).table t →
    p ∈ db.table t ∨ ∃ c ∈ cs, c.table = t ∧ c.key = p.1 ∧ c.entry = some p.2
  | [], _, h => .inl h
  | c :: cs, db, h => by
    rcases mem_changes (show p ∈ ((db.change c).changes cs).table t from h) with h | ⟨c', hc', h⟩
    · change p ∈ (if t = c.table then c.onTable (db.table t) else db.table t) at h
      split at h
      · rename_i ht
        unfold Change.onTable at h
        split at h
        · rename_i e he
          rcases Dict.mem_set h with h | rfl <;> simp_all
        · exact .inl (List.mem_filter.mp h).1
      · exact .inl h
    · grind

theorem filterMap_changes {γ : Type*} {f : Str × Entry → Option γ}
    (h : ∀ c ∈ cs, c.table = t → ∀ e, (c.key, e) ∈ db.table t ∨ (c.key, e) ∈ (db.changes cs).table t →
      f (c.key, e) = none) :
    ((db.changes cs).table t).filterMap f = (db.table t).filterMap f := by
  let q : Str → Bool := fun k => !cs.any fun c => c.table = t ∧ c.key = k
  have hfilter : ∀ db' : ConfigDb, (∀ p ∈ db'.table t, q p.1 = false → f p = none) →
      (db'.table t).filterMap f = ((db'.table t).filter fun p => q p.1).filterMap f := by
    intro db' hf
    rw [List.filterMap_filter]
    refine List.filterMap_congr fun p hp => ?_
    split
    · rfl
    · simp_all
  have hnone : ∀ p : Str × Entry, p ∈ db.table t ∨ p ∈ (db.changes cs).table t → q p.1 = false → f p = none := by
    grind
  rw [hfilter _ fun p hp => hnone p (.inr hp), hfilter _ fun p hp => hnone p (.inl hp),
    filter_changes db fun c hc ht => ?_]
  simpa [q] using ⟨c, hc, ht, rfl⟩

end

/-! ## Batches that no checker reports -/

theorem anyM_eq_true {α : Type*} {f : α → Option Bool} :
    ∀ {l : List α}, l.anyM f = some true → ∃ a ∈ l, f a = some true
  | [], h => by cases h
  | a :: l, h => by
    rw [List.anyM_cons, Option.bind_eq_bind] at h
    obtain ⟨b, hb, h⟩ := Option.bind_eq_some_iff.mp h
    cases b with
    | true => exact ⟨a, List.mem_cons_self, hb⟩
    | false =>
      obtain ⟨a', ha, h⟩ := anyM_eq_true h
      exact ⟨a', List.mem_cons_of_mem _ ha, h⟩

theorem anyM_eq_false {α : Type*} {f : α → Option Bool} :
    ∀ {l : List α}, l.anyM f = some false → ∀ a ∈ l, f a = some false
  | [], _ => nofun
  | a :: l, h => by
    rw [List.anyM_cons, Option.bind_eq_bind] at h
    obtain ⟨b, hb, h⟩ := Option.bind_eq_some_iff.mp h
    cases b with
    | true => cases h
    | false => exact List.forall_mem_cons.mpr ⟨hb, anyM_eq_false h⟩

theorem mem_eventsOf {cs : List Change} (h : c ∈ cs) : c.event ∈ eventsOf cs c.table :=
  List.mem_map.mpr ⟨c, List.mem_filter.mpr ⟨h, decide_eq_true rfl⟩, rfl⟩

/-- The mid plane gives the interface the same address and the same members. -/
def SameMidPlane (db db' : ConfigDb) (name : Str) : Prop :=
  midAddress db' name = midAddress db name ∧ ∀ key, interfaceOf key = name →
    (key ∈ dpuMembers db' ↔ key ∈ dpuMembers db)

/-- What no checker watches stays as it is, or it is not rendered. DEVICE_METADATA has no checker, the checker of the
options looks at the used ones only although all customized ones are rendered, and the one of the mid plane looks at the
new bridge only. -/
structure Unwatched (g : Generator) (db db' : ConfigDb) : Prop where
  options : customized g db' = customized g db
  metadata : hostname db' = hostname db ∧ isSmartSwitch db' = isSmartSwitch db ∨ Idle g db
  midPlane : ∀ row ∈ active db, isPortMode row.2 = true →
    SameMidPlane db db' row.1 ∨ offers g db' row.1 = offers g db row.1

/-- On a smart switch an interface for which the mid plane changes has nothing to offer after it: VLAN_INTERFACE has no
address of a bridge. -/
def BridgeOnly (g : Generator) (db db' : ConfigDb) : Prop :=
  isSmartSwitch db = true → isSmartSwitch db' = true → ∀ row ∈ active db, isPortMode row.2 = true →
    SameMidPlane db db' row.1 ∨ offers g db' row.1 = []

/-- An enabled checker reports an event of its table. -/
def Noticed (r : Generated) (cs : List Change) : Prop :=
  ∃ x ∈ servdCheckers, x.1 ∈ r.subscribeTable ∧ checkUpdateEvent r.snapshot (eventsOf cs x.2) x.1 = some true

section
variable {g : Generator} {db : ConfigDb} {cs : List Change} {r : Generated}

theorem SameMidPlane.of_not_smart {db' : ConfigDb} (h : isSmartSwitch db = false) (h' : isSmartSwitch db' = false)
    (name : Str) : SameMidPlane db db' name := by
  refine ⟨?_, fun key _ => ?_⟩
  · rw [midAddress, midAddress, midPlane_of_not_smart h, midPlane_of_not_smart h']
  · rw [dpuMembers, dpuMembers, h, h']
    rfl

theorem Noticed.of_reported (h : checkDbUpdate r.snapshot r.subscribeTable cs = some true) : Noticed r cs := by
  obtain ⟨x, hx, h⟩ := anyM_eq_true h
  dsimp only at h
  split at h
  · exact ⟨x, hx, by assumption, h⟩
  · cases h

theorem Noticed.not_silent (h : Noticed r cs) : checkDbUpdate r.snapshot r.subscribeTable cs ≠ some false := by
  intro hcheck
  obtain ⟨x, hx, hen, htrue⟩ := h
  have hfalse := anyM_eq_false hcheck x hx
  dsimp only at hfalse
  rw [if_pos hen, htrue] at hfalse
  cases hfalse

theorem silent {snapshot : DbSnapshot} {enabledCheckers : List Checker} (checker : Checker) (t : TableName) {π : Type}
    {p : π} (processCheck : Event → π → Option Bool) (hcheck : checkDbUpdate snapshot enabledCheckers cs = some false)
    (hmem : (checker, t) ∈ servdCheckers) (hen : checker ∈ enabledCheckers)
    (hscan : checkUpdateEvent snapshot (eventsOf cs t) checker = scan (some p) processCheck (eventsOf cs t)) :
    ∀ c ∈ cs, c.table = t → processCheck c.event p = some false := by
  have hfalse := anyM_eq_false hcheck _ hmem
  dsimp only at hfalse
  rw [if_pos hen, hscan] at hfalse
  intro c hc ht
  exact anyM_eq_false hfalse c.event (ht ▸ mem_eventsOf hc)

theorem cfgChange_silent {on : List Str} (h : c.event.cfgChange on = false) :
    c.key ∉ on ∧ ∀ e, c.entry = some e → isEnabled e = false := by
  unfold Event.cfgChange at h
  split at h
  · cases h
  · rename_i hk
    refine ⟨hk, fun e he => Bool.eq_false_iff.mpr fun hen => ?_⟩
    have hstate := Dict.get?_eq_some_mem (of_decide_eq_true hen)
    simp only [Change.event, he] at h
    refine absurd ?_ (Bool.eq_false_iff.mp h)
    exact List.any_eq_true.mpr ⟨_, List.mem_map.mpr ⟨_, hstate, rfl⟩, decide_eq_true ⟨rfl, rfl⟩⟩

theorem ipVersion4_of_network {ip : Str} {n : Net} (h : ipNetworkLoose ip = some n) (hv : n.version = .v4) :
    ipVersion4 ((split '/' ip).headD []) = some true := by
  unfold ipNetworkLoose at h
  obtain ⟨⟨addr, mask⟩, hs, h⟩ := Option.bind_eq_some_iff.mp h
  have haddr : (split '/' ip).headD [] = addr := by
    unfold splitOptionalNetmask at hs
    split at hs
    · grind
    · grind
    · cases hs
  rw [haddr, ipVersion4]
  cases hv4 : ipv4Address addr with
  | some v => rfl
  | none =>
    simp only [hv4] at h
    obtain ⟨v, -, h⟩ := Option.bind_eq_some_iff.mp h
    obtain ⟨p, -, rfl⟩ := Option.map_eq_some_iff.mp h
    cases hv

theorem vlanIntf_silent {on : List Str} (h : c.event.vlanIntf on = some false) {name : Str}
    (hn : name ∈ on) :
    ipOf name c.key = none := by
  rw [Option.eq_none_iff_forall_ne_some]
  intro i hi
  obtain ⟨hs, hnet, hv⟩ := ipOf_some hi
  unfold Event.vlanIntf Event.interface at h
  simp only [Change.event, hs] at h
  rw [List.headD_cons, if_pos hn] at h
  exact absurd ((ipVersion4_of_network hnet hv).symm.trans h) (by simp)

section
variable (h : generate g db = some r) (hcheck : checkDbUpdate r.snapshot r.subscribeTable cs = some false)
include h hcheck

theorem active_unchanged : active (db.changes cs) = active db := by
  have hsilent := silent .dhcpServerTableCfgChange .dhcpServerIpv4 (fun e p => some (e.cfgChange p)) hcheck (by decide)
    (subscribeTable_cfgChange h) rfl
  rw [active, active, ← List.filterMap_eq_filter]
  refine filterMap_changes fun c hc ht e hmem => ?_
  obtain ⟨hk, -⟩ := cfgChange_silent (Option.some.inj (hsilent c hc ht))
  have hold : ∀ e, (c.key, e) ∈ db.table .dhcpServerIpv4 → isEnabled e = false := fun e he =>
    Bool.eq_false_iff.mpr fun hen => hk (enabledDhcpInterfaces_eq h ▸ List.mem_map.mpr ⟨_, mem_active.mpr ⟨he, hen⟩,
      rfl⟩)
  have hnone : isEnabled e = false := by grind [mem_changes, cfgChange_silent]
  simp [Option.guard, hnone]

theorem options_unchanged {row : Str × Entry} (hrow : row ∈ active db) (hpm : isPortMode row.2 = true) :
    ∀ k ∈ r.usedOptions, ((db.changes cs).table .dhcpServerIpv4CustomizedOptions).get? k =
      (db.table .dhcpServerIpv4CustomizedOptions).get? k := by
  have hoption := silent .dhcpOptionTable .dhcpServerIpv4CustomizedOptions (fun e p => some (e.ofKey p)) hcheck
    (by decide)
    (subscribeTable_portMode h hrow hpm (by decide)) rfl
  intro k hk
  refine get?_changes fun c hc ht he => ?_
  rw [← he] at hk
  exact of_decide_eq_false (Option.some.inj (hoption c hc ht)) hk

theorem agreeOn_unchanged {row : Str × Entry} (hrow : row ∈ active db) (hpm : isPortMode row.2 = true)
    (hmid : SameMidPlane db (db.changes cs) row.1) : AgreeOn [row.1] r.usedRanges r.usedOptions db (db.changes cs) := by
  have hon : ∀ name ∈ [row.1], name ∈ r.enabledDhcpInterfaces := by
    intro name hn
    rw [enabledDhcpInterfaces_eq h, List.mem_singleton.mp hn]
    exact List.mem_map_of_mem hrow
  have hen : ∀ {checker}, checker ∈ portModeChecker → checker ∈ r.subscribeTable := fun hc =>
    subscribeTable_portMode h hrow hpm hc
  have hport := silent .dhcpPortTable .dhcpServerIpv4Port (fun e p => some (e.ofInterface p)) hcheck (by decide)
    (hen (by decide)) rfl
  have hmember := silent .vlanMemberTable .vlanMember (fun e p => some (e.ofInterface p)) hcheck (by decide)
    (hen (by decide)) rfl
  have hintf := silent .vlanIntfTable .vlanInterface Event.vlanIntf hcheck (by decide) (hen (by decide)) rfl
  have hrange := silent .dhcpRangeTable .dhcpServerIpv4Range (fun e p => some (e.ofKey p)) hcheck (by decide)
    (hen (by decide)) rfl
  -- An interface or a key of the summary is not one of an event.
  have hiface : ∀ {c : Change} {on : List Str}, some (c.event.ofInterface on) = some false → interfaceOf c.key ∉ on :=
    fun hc => of_decide_eq_false (Option.some.inj hc)
  have hkey : ∀ {c : Change} {used : List Str}, some (c.event.ofKey used) = some false → c.key ∉ used :=
    fun hc => of_decide_eq_false (Option.some.inj hc)
  constructor
  · intro name hn
    refine filter_changes (q := fun key => decide (interfaceOf key = name)) db fun c hc ht => ?_
    grind
  · intro key hk
    have hget : ((db.changes cs).table .vlanMember).get? key = (db.table .vlanMember).get? key :=
      get?_changes fun c hc ht he => hiface (hmember c hc ht) (he ▸ hon _ hk)
    rw [← not_iff_not, ← Dict.get?_eq_none_iff, ← Dict.get?_eq_none_iff, hget]
  · grind [Dict.keys, filterMap_changes, vlanIntf_silent]
  · intro name hn
    rw [List.mem_singleton.mp hn]
    exact hmid.1
  · exact fun key hk => hmid.2 key (List.mem_singleton.mp hk)
  · grind [get?_changes]
  · exact options_unchanged h hcheck hrow hpm

end

theorem offers_unchanged (h : generate g db = some r) (h' : generate g (db.changes cs) = some r')
    (hcheck : checkDbUpdate r.snapshot r.subscribeTable cs = some false) {row : Str × Entry} (hrow : row ∈ active db)
    (hpm : isPortMode row.2 = true) (hmid : SameMidPlane db (db.changes cs) row.1) :
    offers g (db.changes cs) row.1 = offers g db row.1 :=
  (agreeOn_unchanged h hcheck hrow hpm hmid).offers h h' (List.mem_singleton.mpr rfl)

/-! ## Batches that leave the object -/

theorem flatMap_same {α γ : Type*} {f f' : α → List γ} : ∀ {l : List α}, (∀ a ∈ l, f' a = f a ∨ f' a = []) →
    (l.flatMap f').length ≤ (l.flatMap f).length ∧
      ((l.flatMap f').length = (l.flatMap f).length → ∀ a ∈ l, f' a = f a)
  | [], _ => ⟨Nat.le_refl _, fun _ a ha => by cases ha⟩
  | a :: l, h => by
    obtain ⟨hle, ih⟩ := flatMap_same fun b hb => h b (List.mem_cons_of_mem _ hb)
    rw [List.flatMap_cons, List.flatMap_cons, List.length_append, List.length_append]
    rcases h a List.mem_cons_self with ha | ha
    · rw [ha]
      exact ⟨by omega, fun hlen => List.forall_mem_cons.mpr ⟨ha, ih (by omega)⟩⟩
    · rw [ha, List.length_nil]
      refine ⟨by omega, fun hlen => List.forall_mem_cons.mpr ⟨?_, ih (by omega)⟩⟩
      have hnil : (f a).length = 0 := by omega
      rw [ha, List.eq_nil_of_length_eq_zero hnil]

section
variable {db' : ConfigDb} {host host' : Str} {smart smart' : Bool} {options options' : Dict Str CustomizedOption}
  {portIps portIps' : Dict Str IfacePorts} {blocks blocks' : List Block}
  (hb : (db.table .dhcpServerIpv4).mapM (rowBlock host smart options portIps) = some blocks)
include hb

theorem length_subnets : (blocks.flatMap (·.subnets)).length = ((active db).flatMap (rowIps portIps)).length := by
  have hids := congrArg List.length (subnetIds hb)
  rw [List.length_map, List.length_map, servedAddresses_active] at hids
  rw [hids, servedAddresses, List.length_flatMap, List.length_flatMap]
  simp only [List.length_map]

/-- The subnets of the mid plane have another id than those of the VLANs. -/
theorem subnets_eq_nil (hb' : (db'.table .dhcpServerIpv4).mapM (rowBlock host' smart' options' portIps') = some blocks')
    (hsmart : smart' ≠ smart) (hsame : blocks'.flatMap (·.subnets) = blocks.flatMap (·.subnets)) :
    blocks.flatMap (·.subnets) = [] := by
  refine List.eq_nil_iff_forall_not_mem.mpr fun s hs => hsmart ?_
  have hid := subnetIds hb ▸ List.mem_map_of_mem hs
  have hid' := subnetIds hb' ▸ List.mem_map_of_mem (hsame ▸ hs)
  obtain ⟨x, -, hx⟩ := List.mem_map.mp hid
  obtain ⟨x', -, hx'⟩ := List.mem_map.mp hid'
  have he := hx'.trans hx.symm
  unfold subnetId at he
  cases smart <;> cases smart' <;> simp at he ⊢

end

theorem Unwatched.of_same {db' : ConfigDb} (h : generate g db = some r) (h' : generate g db' = some r')
    (hactive : active db' = active db)
    (hoffers : isSmartSwitch db' = isSmartSwitch db → ∀ row ∈ active db, isPortMode row.2 = true →
      offers g db' row.1 = offers g db row.1 ∨ offers g db' row.1 = [])
    (hsame : r'.renderObj = r.renderObj) : Unwatched g db db' := by
  obtain ⟨host, st, portIps, options, blocks, hh, hst, hp, ho, hb, rfl⟩ := generate_some h
  obtain ⟨host', st', portIps', options', blocks', hh', hst', hp', ho', hb', rfl⟩ := generate_some h'
  have hsubnets : blocks'.flatMap (·.subnets) = blocks.flatMap (·.subnets) := congrArg RenderObj.subnets hsame
  have hlen : ((active db).flatMap (rowIps portIps')).length = ((active db).flatMap (rowIps portIps)).length := by
    rw [← length_subnets hb, ← hsubnets, length_subnets hb', hactive]
  have hidle : isSmartSwitch db' ≠ isSmartSwitch db → (active db).flatMap (rowIps portIps) = [] := by
    intro hsmart
    rw [← List.length_eq_zero_iff, ← length_subnets hb, subnets_eq_nil hb hb' hsmart hsubnets]
    rfl
  -- No offer is lost, as the subnets are as many as before; with another subtype there are none.
  have hips : ∀ row ∈ active db, rowIps portIps' row = rowIps portIps row := by
    by_cases hsmart : isSmartSwitch db' = isSmartSwitch db
    · refine (flatMap_same fun row hrow => ?_).2 hlen
      rw [rowIps_eq hst hp, rowIps_eq hst' hp']
      split
      · exact hoffers hsmart row hrow (by assumption)
      · exact .inl rfl
    · have hnil := hidle hsmart
      rw [hnil, List.length_nil, List.length_eq_zero_iff] at hlen
      intro row hrow
      rw [List.flatMap_eq_nil_iff.mp hnil row hrow, List.flatMap_eq_nil_iff.mp hlen row hrow]
  refine ⟨?_, or_iff_not_imp_right.mpr fun hserves => ?_, fun row hrow hpm => .inr ?_⟩
  · rw [← filter_customized ho, ← filter_customized ho']
    exact congrArg RenderObj.customizedOptions hsame
  · obtain ⟨row, hrow, hpm, hne⟩ : ∃ row ∈ active db, isPortMode row.2 = true ∧ offers g db row.1 ≠ [] := by
      unfold Idle at hserves
      push Not at hserves
      exact hserves
    have hrowIps : rowIps portIps row = offers g db row.1 := (rowIps_eq hst hp row).trans (if_pos hpm)
    constructor
    · -- The client classes of the two are named in the same order.
      have hports : servedPorts portIps' (active db) = servedPorts portIps (active db) :=
        List.flatMap_congr fun row hrow => by rw [hips row hrow]
      have hnames := congrArg (fun o => o.clientClasses.map (·.name)) hsame
      dsimp only at hnames
      rw [classNames hst hp hb, classNames hst' hp' hb', servedPorts_active, servedPorts_active, hactive, hports]
        at hnames
      obtain ⟨p, hpm'⟩ := List.exists_mem_of_ne_nil _ (hrowIps ▸ hne)
      obtain ⟨q, hq⟩ := List.exists_mem_of_ne_nil _ ((rowIps_held hst hp (mem_active.mp hrow).1).ports_nodup p hpm').2
      have hmem : (row.1, p.1, q.1) ∈ servedPorts portIps (active db) :=
        List.mem_flatMap.mpr ⟨row, hrow, List.mem_flatMap.mpr ⟨p, hpm', List.mem_map.mpr ⟨q, hq, rfl⟩⟩⟩
      have hname := List.map_inj_left.mp hnames _ hmem
      rw [hh, hh', List.append_cancel_right hname]
    · by_contra hsmart
      exact hne (hrowIps ▸ List.flatMap_eq_nil_iff.mp (hidle hsmart) row hrow)
  · have he := hips row hrow
    rwa [rowIps_eq hst hp, rowIps_eq hst' hp', if_pos hpm, if_pos hpm] at he

end

def portChange : Change :=
  ⟨.dhcpServerIpv4Port, "Vlan1000|Ethernet0", some [("ips", .list ["10.0.0.9"])]⟩

theorem unwatched_portChange : Unwatched plainGenerator oneAddress (oneAddress.changes [portChange]) where
  options := by decide +kernel
  metadata := .inl (by decide +kernel)
  midPlane row _ _ := .inl (.of_not_smart (by decide +kernel) (by decide +kernel) row.1)

def missed (g : Generator) (db : ConfigDb) (cs : List Change) : Bool :=
  match generate g db, generate g (db.changes cs) with
  | some r, some r' => r'.renderObj ≠ r.renderObj ∧ checkDbUpdate r.snapshot r.subscribeTable cs = some false
  | _, _ => false

def hostnameChange : Change :=
  ⟨.deviceMetadata, "localhost", some [("hostname", .text "leaf")]⟩

def optionChange : Change :=
  ⟨.dhcpServerIpv4CustomizedOptions, "option223",
    some [("id", .text "223"), ("type", .text "string"), ("value", .text "a")]⟩

def bridgeChange (bridge : Str) : Change :=
  ⟨.midPlaneBridge, "GLOBAL",
    some [("bridge", .text bridge), ("ip_prefix", .text "169.254.200.254/24")]⟩

def smartSwitch : ConfigDb := oneAddress.changes
  [⟨.deviceMetadata, "localhost",
      some [("hostname", .text "sonic"), ("subtype", .text "SmartSwitch")]⟩,
    bridgeChange "bridge-midplane",
    ⟨.dpus, "dpu0", some [("midplane_interface", .text "dpu0")]⟩,
    ⟨.dhcpServerIpv4, "bridge-midplane",
      some [("state", .text "enabled"), ("mode", .text "PORT")]⟩,
    ⟨.dhcpServerIpv4Port, "bridge-midplane|dpu0", some [("ips", .list ["169.254.200.1"])]⟩]

end Sonic.Dhcp
