import Sonic.Dict
import Sonic.Ipaddress
import Sonic.Run

/-! # The index of local addresses

Each `InterfaceMgr` copies the rows of one interface table into the shared directory and keeps,
under `LOCAL`, an index from interface and host address to a row. The network of a key is read by
netaddr, which is a parameter here. -/

namespace Sonic.Intf
open Function

open Str

abbrev Data := Dict Str Str

abbrev Directory := Dict Str (Dict Str Data)

def getSlotName (db table : Str) : Str := db ++ "__" ++ table

def put (d : Directory) (db table key : Str) (value : Data) : Directory :=
  d.set (getSlotName db table) (((d.get? (getSlotName db table)).getD []).set key value)

def remove (d : Directory) (db table key : Str) : Directory :=
  match d.get? (getSlotName db table) with
  | some values => d.set (getSlotName db table) (values.erase key)
  | none => d

def getSlot (d : Directory) (db table : Str) : Dict Str Data := (d.get? (getSlotName db table)).getD []

section
variable {d : Directory} {db table db' table' key key' : Str}

theorem mem_put {value : Data} : key' ∈ (getSlot (put d db table key value) db' table').keys ↔
    (getSlotName db' table' = getSlotName db table ∧ key' = key) ∨ key' ∈ (getSlot d db' table').keys := by
  by_cases hslot : getSlotName db' table' = getSlotName db table <;> simp_all [getSlot, put, Dict.mem_keys_set_iff,
    Dict.get?_set_ne, Ne.symm]

theorem mem_remove : key' ∈ (getSlot (remove d db table key) db' table').keys ↔
    key' ∈ (getSlot d db' table').keys ∧ ¬(getSlotName db' table' = getSlotName db table ∧ key' = key) := by
  by_cases hslot : getSlotName db' table' = getSlotName db table
  · rw [getSlot, getSlot, remove, hslot, eq_self, true_and]
    grind [Dict.keys]
  · rw [getSlot, getSlot, remove, eq_false hslot, false_and, not_false_eq_true, and_true]
    cases d.get? (getSlotName db table) <;> simp_all [Dict.get?_set_ne, Ne.symm]

end

/-! ## The managers -/

inductive Table where
  | intf
  | loopback
  | vlan
  | lag
  | voqInband
  | vlanSub
  deriving DecidableEq

def Table.name : Table → Str
  | intf => "INTERFACE"
  | loopback => "LOOPBACK_INTERFACE"
  | vlan => "VLAN_INTERFACE"
  | lag => "PORTCHANNEL_INTERFACE"
  | voqInband => "VOQ_INBAND_INTERFACE"
  | vlanSub => "VLAN_SUB_INTERFACE"

def configDb : Str := "CONFIG_DB"
def localDb : Str := "LOCAL"
def localAddresses : Str := "local_addresses"
def interfaces : Str := "interfaces"

structure Network where
  ip : Str
  prefixlen : Nat

inductive Event where
  | set (table : Table) (key : Str) (data : Data)
  | del (table : Table) (key : Str)

section
variable (net : Str → Option Network)

def setHandler (d : Directory) (table : Table) (key : Str) (data : Data) : Directory :=
  match splitOnce ['|'] key with
  | none => put (put d configDb table.name key data) localDb interfaces key data
  | some (interfaceName, networkStr) =>
    match net networkStr with
    | none => d
    | some network =>
      let data := (data.set "interface" interfaceName).set "prefixlen" network.prefixlen.repr.toList
      let d := put d localDb localAddresses (interfaceName ++ '|' :: network.ip) data
      put (put d configDb table.name key data) localDb interfaces key data

def delHandler (d : Directory) (table : Table) (key : Str) : Directory :=
  match splitOnce ['|'] key with
  | none => remove (remove d configDb table.name key) localDb interfaces key
  | some (interface, networkStr) =>
    match net networkStr with
    | none => d
    | some network =>
      let d := remove d localDb localAddresses (interface ++ '|' :: network.ip)
      remove (remove d configDb table.name key) localDb interfaces key

def step (d : Directory) : Event → Option Directory
  | .set table key data => some (setHandler net d table key data)
  | .del table key => some (delHandler net d table key)

def hostAddress (key : Str) : Option (Str × Str) :=
  (splitOnce ['|'] key).bind fun p => (net p.2).map fun network => (p.1, network.ip)

def indexKey (key : Str) : Option Str := (hostAddress net key).map fun p => p.1 ++ '|' :: p.2

end

/-! ## What is configured -/

def Event.place : Event → Table × Str
  | .set table key _ => (table, key)
  | .del table key => (table, key)

def Event.isSet : Event → Bool
  | .set .. => true
  | .del .. => false

def configured (es : List Event) : Table × Str → Bool :=
  es.foldl (fun c e => Function.update c e.place e.isSet) fun _ => false

theorem configured_concat (es : List Event) (e : Event) :
    configured (es ++ [e]) = Function.update (configured es) e.place e.isSet := by
  rw [configured, List.foldl_append]
  rfl

section
variable (net : Str → Option Network)

/-- The index has exactly the host addresses of the configured keys. -/
def Indexed (done : List Event) (d : Directory) : Prop :=
  ∀ k, k ∈ (getSlot d localDb localAddresses).keys ↔ ∃ p, configured done p = true ∧ indexKey net p.2 = some k

def Stored (done : List Event) (d : Directory) : Prop :=
  ∀ p : Table × Str, (indexKey net p.2).isSome → (p.2 ∈ (getSlot d configDb p.1.name).keys ↔ configured done p = true)

/-- A DEL is of a key that shares its interface and host address with no other key in the tables. -/
def Alone (d : Directory) : Event → Prop
  | .set .. => True
  | .del table key => ∀ k, indexKey net key = some k → ∀ p : Table × Str,
      p.2 ∈ (getSlot d configDb p.1.name).keys → indexKey net p.2 = some k → p = (table, key)

end

section
variable {net : Str → Option Network} {d : Directory} {table : Table} {key : Str}

theorem slot_ne_local (t : Table) (name : Str) : getSlotName configDb t.name ≠ getSlotName localDb name := by
  intro h
  exact absurd (List.cons_eq_cons.mp h).1 (by decide)

theorem slot_injective {t t' : Table} : getSlotName configDb t'.name = getSlotName configDb t.name ↔ t' = t := by
  refine ⟨fun h => ?_, fun h => by rw [h]⟩
  have hname : t'.name = t.name := List.append_cancel_left h
  revert hname
  cases t <;> cases t' <;> decide

theorem handlers_cases (net : Str → Option Network) (key : Str) :
    (indexKey net key = none ∧ ∀ d table data, setHandler net d table key data = d ∧ delHandler net d table key = d) ∨
    (indexKey net key = none ∧ ∀ d table data,
      setHandler net d table key data = put (put d configDb table.name key data) localDb interfaces key data ∧
      delHandler net d table key = remove (remove d configDb table.name key) localDb interfaces key) ∨
    ∃ k, indexKey net key = some k ∧ ∀ d table data, (∃ row, setHandler net d table key data =
        put (put (put d localDb localAddresses k row) configDb table.name key row) localDb interfaces key row) ∧
      delHandler net d table key =
        remove (remove (remove d localDb localAddresses k) configDb table.name key) localDb interfaces key := by
  simp only [indexKey, hostAddress, setHandler, delHandler]
  cases splitOnce ['|'] key with
  | none => grind
  | some p =>
    dsimp only [Option.bind_some]
    cases net p.2 with
    | none => grind
    | some network => exact .inr (.inr ⟨_, rfl, fun _ _ _ => ⟨⟨_, rfl⟩, rfl⟩⟩)

theorem mem_index_set {data : Data} {k : Str} :
    k ∈ (getSlot (setHandler net d table key data) localDb localAddresses).keys ↔
      indexKey net key = some k ∨ k ∈ (getSlot d localDb localAddresses).keys := by
  have hinterfaces : getSlotName localDb localAddresses ≠ getSlotName localDb interfaces := by decide
  have htable := Ne.symm (slot_ne_local table localAddresses)
  rcases handlers_cases net key with ⟨hkey, h⟩ | ⟨hkey, h⟩ | ⟨k', hkey, h⟩
  · simp_all
  · grind [mem_put]
  · obtain ⟨row, hrow⟩ := (h d table data).1
    rw [hkey, hrow]
    simp [mem_put, hinterfaces, htable, eq_comm]

theorem mem_index_del {k : Str} : k ∈ (getSlot (delHandler net d table key) localDb localAddresses).keys ↔
    k ∈ (getSlot d localDb localAddresses).keys ∧ indexKey net key ≠ some k := by
  have hinterfaces : getSlotName localDb localAddresses ≠ getSlotName localDb interfaces := by decide
  have htable := Ne.symm (slot_ne_local table localAddresses)
  rcases handlers_cases net key with ⟨hkey, h⟩ | ⟨hkey, h⟩ | ⟨k', hkey, h⟩
  · rw [hkey, (h d table []).2]
    simp
  · rw [hkey, (h d table []).2]
    simp [mem_remove, hinterfaces, htable]
  · rw [hkey, (h d table []).2]
    simp [mem_remove, hinterfaces, htable, eq_comm]

theorem mem_table_set {data : Data} {p : Table × Str} (hp : (indexKey net p.2).isSome) :
    p.2 ∈ (getSlot (setHandler net d table key data) configDb p.1.name).keys ↔
      p = (table, key) ∨ p.2 ∈ (getSlot d configDb p.1.name).keys := by
  have hpair : p = (table, key) ↔ p.1 = table ∧ p.2 = key := Prod.ext_iff
  have hlocal : ∀ name, getSlotName configDb p.1.name ≠ getSlotName localDb name := slot_ne_local p.1
  rcases handlers_cases net key with ⟨hkey, h⟩ | ⟨hkey, h⟩ | ⟨k', hkey, h⟩
  · grind
  · grind [mem_put]
  · obtain ⟨row, hrow⟩ := (h d table data).1
    grind [mem_put, slot_injective]

theorem mem_table_del {p : Table × Str} (hp : (indexKey net p.2).isSome) :
    p.2 ∈ (getSlot (delHandler net d table key) configDb p.1.name).keys ↔
      p.2 ∈ (getSlot d configDb p.1.name).keys ∧ p ≠ (table, key) := by
  have hpair : p = (table, key) ↔ p.1 = table ∧ p.2 = key := Prod.ext_iff
  have hlocal : ∀ name, getSlotName configDb p.1.name ≠ getSlotName localDb name := slot_ne_local p.1
  rcases handlers_cases net key with ⟨hkey, h⟩ | ⟨hkey, h⟩ | ⟨k', hkey, h⟩
  · have hne : p.2 ≠ key := fun he => by simp_all
    rw [(h d table []).2, Ne, hpair]
    simp [hne]
  · rw [(h d table []).2, Ne, hpair]
    simp [mem_remove, hlocal, slot_injective]
  · rw [(h d table []).2, Ne, hpair]
    simp [mem_remove, hlocal, slot_injective]

/-! ## Runs -/

theorem Stored.step {done : List Event} {e : Event} {d' : Directory} (h : Stored net done d)
    (hs : step net d e = some d') :
    Stored net (done ++ [e]) d' := by
  intro p hp
  rw [configured_concat]
  cases e with
  | set table key data =>
    cases hs
    rw [mem_table_set hp, h p hp]
    by_cases he : p = (table, key) <;> simp_all [Event.place, Event.isSet]
  | del table key =>
    cases hs
    rw [mem_table_del hp, h p hp]
    by_cases he : p = (table, key) <;> simp_all [Event.place, Event.isSet]

theorem Indexed.set {done : List Event} (h : Indexed net done d) (table : Table) (key : Str) (data : Data) :
    Indexed net (done ++ [.set table key data]) (setHandler net d table key data) := by
  intro k
  rw [mem_index_set, h k, configured_concat]
  constructor
  · rintro (hk | ⟨p, hp, hk⟩)
    · exact ⟨(table, key), update_self .., hk⟩
    · refine ⟨p, ?_, hk⟩
      by_cases he : p = (table, key)
      · rw [he]
        exact update_self ..
      · rwa [update_of_ne (show p ≠ (Event.set table key data).place from he)]
  · rintro ⟨p, hp, hk⟩
    by_cases he : p = (table, key)
    · grind
    · rw [update_of_ne (show p ≠ (Event.set table key data).place from he)] at hp
      grind

theorem indexed_del_iff {done : List Event} (hst : Stored net done d) (h : Indexed net done d) :
    Indexed net (done ++ [.del table key]) (delHandler net d table key) ↔ Alone net d (.del table key) := by
  have hconf : ∀ p, configured (done ++ [.del table key]) p = true ↔ configured done p = true ∧ p ≠ (table, key) := by
    intro p
    rw [configured_concat]
    by_cases he : p = (table, key) <;> simp_all [Event.place, Event.isSet]
  constructor
  · intro h' k hkey p hp hk
    by_contra hne
    have hconfp : configured done p = true := (hst p (by rw [hk]; rfl)).mp hp
    have hmem := (h' k).mpr ⟨p, (hconf p).mpr ⟨hconfp, hne⟩, hk⟩
    exact (mem_index_del.mp hmem).2 hkey
  · intro halone k
    rw [mem_index_del, h k]
    constructor
    · grind
    · rintro ⟨p, hp, hk⟩
      obtain ⟨hp, hne⟩ := (hconf p).mp hp
      refine ⟨⟨p, hp, hk⟩, fun hkey => hne ?_⟩
      exact halone k hkey p ((hst p (by rw [hk]; rfl)).mpr hp) hk

end

section
variable (net : Str → Option Network)

theorem indexed_step {done : List Event} {e : Event} {d d' : Directory} (h : Stored net done d ∧ Indexed net done d)
    (hs : step net d e = some d') : Stored net (done ++ [e]) d' ∧ Indexed net (done ++ [e]) d' ↔ Alone net d e := by
  rw [and_iff_right (h.1.step hs)]
  cases e with
  | set table key data =>
    cases hs
    exact iff_of_true (h.2.set table key data) trivial
  | del table key =>
    cases hs
    exact indexed_del_iff h.1 h.2

theorem step_total (d : Directory) (e : Event) : ∃ d', step net d e = some d' := by
  cases e with
  | set => exact ⟨_, rfl⟩
  | del => exact ⟨_, rfl⟩

theorem stored_nil : Stored net [] [] := fun p _ => by simp [getSlot, Dict.keys, configured]

theorem indexed_nil : Indexed net [] [] := fun k => by simp [getSlot, Dict.keys, configured]

theorem stored_run {es : List Event} {d : Directory} (h : run (step net) [] es = some d) : Stored net es d := by
  have hstep : ∀ done e rest s, done ++ e :: rest = es → Stored net done s →
      ∃ s', step net s e = some s' ∧ Stored net (done ++ [e]) s' := by
    intro done e rest s _ hst
    obtain ⟨s', hs⟩ := step_total net s e
    exact ⟨s', hs, hst.step hs⟩
  obtain ⟨t, ht, hst⟩ := run_done (step net) hstep (List.nil_append es) (stored_nil net)
  simp_all

/-- The index is right after each event exactly if no DEL is of a key that shares its interface and host address with
another configured one. -/
theorem indexed_iff_alone (es : List Event) :
    (∀ now later d, now ++ later = es → run (step net) [] now = some d → Indexed net now d) ↔
      Along (step net) (Alone net) [] es := by
  have hstep : ∀ done e d d', Stored net done d ∧ Indexed net done d → step net d e = some d' →
      (Stored net (done ++ [e]) d' ∧ Indexed net (done ++ [e]) d' ↔ Alone net d e) := fun _ _ _ _ => indexed_step net
  rw [← along_iff_inv (step net) (step_total net) hstep ⟨stored_nil net, indexed_nil net⟩]
  constructor
  · intro h now later d he hr
    exact ⟨stored_run net hr, h now later d he hr⟩
  · intro h now later d he hr
    exact (h now later d he hr).2

end

def dottedNetwork (s : Str) : Option Network :=
  match split '/' s with
  | [ip, len] => if (Ipaddress.ipv4Address ip).isSome then some ⟨ip, decimal len⟩ else none
  | _ => none

def twoLengths : List Event :=
  [.set .intf "Ethernet0|10.0.0.1/24" [], .set .intf "Ethernet0|10.0.0.1/32" [],
    .del .intf "Ethernet0|10.0.0.1/24"]

theorem not_indexed_two_lengths :
    ¬∀ now later d, now ++ later = twoLengths → run (step dottedNetwork) [] now = some d →
      Indexed dottedNetwork now d := by
  intro h
  have hindex := (h twoLengths [] _ (List.append_nil _) rfl "Ethernet0|10.0.0.1").mpr
    ⟨(.intf, "Ethernet0|10.0.0.1/32"), by decide +kernel, by decide +kernel⟩
  revert hindex
  decide +kernel

end Sonic.Intf
