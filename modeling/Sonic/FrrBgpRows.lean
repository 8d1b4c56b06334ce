import Sonic.FrrBgp

/-! # What the row cache says of FRR

Every attribute value in the cache is present in FRR, as long as a command that takes a part of the
configuration away finds no row of that part in the cache other than those the daemon drops. -/

namespace Sonic.FrrBgp

open Frrcfgd

def RowId.kind : RowId → Nat
  | .globals _ => 0
  | .peer g _ _ => if g then 2 else 1
  | .af g _ _ _ => if g then 4 else 3

def tables : List Str :=
  ["BGP_GLOBALS", "BGP_NEIGHBOR", "BGP_PEER_GROUP", "BGP_NEIGHBOR_AF",
    "BGP_PEER_GROUP_AF"]

theorem nodup_tables : tables.Nodup := by decide +kernel

theorem RowId.getElem?_kind : ∀ id : RowId, tables[id.kind]? = some id.table
  | .globals _ => rfl
  | .peer false _ _ => rfl
  | .peer true _ _ => rfl
  | .af false _ _ _ => rfl
  | .af true _ _ _ => rfl

theorem RowId.kind_inj {id id' : RowId} (h : id.table = id'.table) : id.kind = id'.kind := by
  grind [getElem?_kind, List.getElem?_inj, nodup_tables]

theorem RowId.key_inj {id id' : RowId} (ht : id.table = id'.table) (hk : id.key = id'.key) : id = id' := by
  have hname : ∀ {a b : Name} {x y : Str}, a.1 ++ '|' :: x = b.1 ++ '|' :: y → a = b ∧ x = y := by
    grind [Str.append_sep_inj]
  have hkind := RowId.kind_inj ht
  cases id with
  | globals vrf =>
    cases id' with
    | globals vrf' => rw [Subtype.ext hk]
    | peer g' _ _ | af g' _ _ _ => cases g' <;> cases hkind
  | peer g vrf nbr =>
    cases id' with
    | peer g' vrf' nbr' =>
      obtain ⟨rfl, hn⟩ := hname hk
      obtain rfl := Subtype.ext hn
      cases g <;> cases g' <;> first | rfl | cases hkind
    | globals _ => cases g <;> cases hkind
    | af g' _ _ _ => cases g <;> cases g' <;> cases hkind
  | af g vrf nbr t =>
    cases id' with
    | af g' vrf' nbr' t' =>
      obtain ⟨rfl, htail⟩ := hname hk
      obtain ⟨rfl, hn⟩ := hname htail
      obtain rfl := Subtype.ext hn
      cases g <;> cases g' <;> first | rfl | cases hkind
    | globals _ => cases g <;> cases hkind
    | peer g' _ _ => cases g <;> cases g' <;> cases hkind

def cachedRow (cache : Cache) (id : RowId) : Row := rowOf cache id.table id.key

theorem cachedRow_update (cache : Cache) (id : RowId) (data : OpData) (id' : RowId) :
    cachedRow (updateCacheData cache id.table id.key data) id' =
      if id = id' then updateRow (cachedRow cache id) data else cachedRow cache id' := by
  rw [cachedRow, rowOf_updateCacheData]
  by_cases h : id = id'
  · rw [if_pos h, if_pos (by rw [h])]
    rfl
  · rw [if_neg h, if_neg]
    · rfl
    · grind [RowId.key_inj]

/-! ## Values in FRR -/

def RowId.node : RowId → Node
  | .globals _ => .globals
  | .peer _ _ nbr => .peer nbr
  | .af _ _ nbr afType => .af nbr (Str.lower afType.1)

def RowId.isGlobals : RowId → Bool
  | .globals _ => true
  | .peer _ _ _ => false
  | .af _ _ _ _ => false

def Instance.value (i : Instance) (id : RowId) (k : Str) : Option Str :=
  if id.isGlobals ∧ k = localAsn then some i.asn else (i.row id.node).get? k

def Frr.value (frr : Frr) (id : RowId) (k : Str) : Option Str := (frr.get? id.vrf).bind fun i => i.value id k

theorem Instance.row_set (i : Instance) (node : Node) (row : Row) (m : Node) :
    ({ i with rows := i.rows.set node row } : Instance).row m = if node = m then row else i.row m := by
  grind [Instance.row]

section
variable {i : Instance} {id : RowId} {k : Str}

theorem Instance.value_create (name : Name) : (i.config (.create name)).value id k = i.value id k := by
  grind [config, row, row, Instance.value]

theorem Instance.value_noNeighbor {name : Name} (h : id.node.under name = false) :
    (i.config (.noNeighbor name)).value id k = i.value id k := by
  have hrow : (i.config (.noNeighbor name)).row id.node = i.row id.node := by
    unfold Instance.row Instance.config
    dsimp only
    rw [Dict.get?_filter_key (q := fun n : Node => !n.under name) (by rw [h]; rfl)]
  rw [Instance.value, hrow]
  rfl

theorem Instance.value_set_ne {node : Node} {attr v : Str} (h : ¬(id.node = node ∧ k = attr)) :
    (i.config (.set node attr v)).value id k = i.value id k := by
  have hrow : ((i.config (.set node attr v)).row id.node).get? k = (i.row id.node).get? k := by
    grind [Instance.config, Instance.row_set]
  rw [Instance.value, hrow]
  rfl

theorem Instance.value_unset_ne {node : Node} {attr : Str} (h : ¬(id.node = node ∧ k = attr)) :
    (i.config (.unset node attr)).value id k = i.value id k := by grind [config, row, row, Instance.value]

theorem Instance.value_set_self {v : Str} (h : ¬(id.isGlobals ∧ k = localAsn)) :
    (i.config (.set id.node k v)).value id k = some v := by grind [Instance.value, Instance.config, Instance.row_set]

end

theorem Frr.exec_router {frr frr' : Frr} {vrf : Name} {asn : Str} {c : Config}
    (h : frr.exec (.router vrf asn c) = some frr') :
    ∃ i : Instance, i.asn = asn ∧ (∀ i', frr.get? vrf = some i' → i' = i) ∧ frr' = frr.set vrf (i.config c) := by
  unfold Frr.exec at h
  dsimp only at h
  cases hi : frr.get? vrf with
  | some i =>
    rw [hi] at h
    dsimp only at h
    split at h
    · simp_all
    · cases h
  | none => grind

theorem Frr.exec_noRouter {frr frr' : Frr} {vrf : Name} {asn : Str}
    (h : frr.exec (.noRouter vrf asn) = some frr') : frr' = frr.erase vrf := by
  unfold Frr.exec at h
  dsimp only at h
  split at h
  · split at h
    · simp_all
    · cases h
  · cases h

def Keeps (frr frr' : Frr) (lost : RowId → Str → Prop) : Prop :=
  ∀ id k v, ¬lost id k → frr.value id k = some v → frr'.value id k = some v

theorem Keeps.exec {frr frr' : Frr} {vrf : Name} {asn : Str} {c : Config} {lost : RowId → Str → Prop}
    (h : frr.exec (.router vrf asn c) = some frr')
    (hc : ∀ (i : Instance) id k, id.vrf = vrf → ¬lost id k → (i.config c).value id k = i.value id k) :
    Keeps frr frr' lost := by
  obtain ⟨i, -, hi, rfl⟩ := Frr.exec_router h
  intro id k v hl hv
  grind [Frr.value, Option.bind_eq_some_iff]

theorem value_of_exec {frr frr' : Frr} {id : RowId} {asn : Str} {c : Config}
    (h : frr.exec (.router id.vrf asn c) = some frr') {k v : Str}
    (hc : ∀ i : Instance, i.asn = asn → (i.config c).value id k = some v) : frr'.value id k = some v := by
  grind [Frr.exec_router, Frr.value]

theorem runCommand_cases (env : Env) (d : Daemon) (c : Command) :
    (∃ d', runCommand env d c = (false, d') ∧ d'.frr = d.frr) ∨
      ∃ d', runCommand env d c = (true, d') ∧ d.frr.exec c = some d'.frr := by
  unfold runCommand
  cases h : (if env.accepts d.count then d.frr.exec c else none) with
  | none => simp_all
  | some frr => grind

end Sonic.FrrBgp
