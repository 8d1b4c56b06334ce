import Sonic.Dict
import Sonic.Ipaddress
import Sonic.Text

/-! # The event checkers of the DHCP daemons

A checker subscribes to a table of CONFIG_DB and tells from the events on it, and from a summary of
what its daemon made of the database before, whether the daemon has to look at the database again.
Functions answer `none` where the source raises. -/

namespace Sonic.Dhcp

open Str

inductive Op where
  | set (entry : List (Str × Str))
  | del

structure Event where
  key : Str
  op : Op

inductive Checker where
  | dhcpServerTableCfgChange
  | dhcpServerTableIntfEnablement
  | dhcpPortTable
  | dhcpRangeTable
  | dhcpOptionTable
  | vlanTable
  | vlanIntfTable
  | vlanMemberTable
  | midPlaneTable
  | dpusTable
  | dhcpServerFeatureState
  deriving DecidableEq

structure DbSnapshot where
  enabledDhcpInterfaces : Option (List Str)
  usedRange : Option (List Str)
  usedOptions : Option (List Str)
  dhcpServerFeatureEnabled : Option Bool

def ipVersion4 (s : Str) : Option Bool :=
  match Ipaddress.ipv4Address s with
  | some _ => some true
  | none => (Ipaddress.ipv6Address s).map fun _ => false

/-! ## One event -/

namespace Event

def cfgChange (e : Event) (enabledDhcpInterfaces : List Str) : Bool :=
  if e.key ∈ enabledDhcpInterfaces then true
  else match e.op with
    | .set entry => entry.any fun f => f.1 = "state" ∧ f.2 = "enabled"
    | .del => false

def intfEnablement (e : Event) (enabledDhcpInterfaces : List Str) : Bool :=
  match e.op with
  | .set entry => entry.any fun f => f.1 = "state" ∧
      (e.key ∈ enabledDhcpInterfaces ∧ f.2 = "disabled" ∨
        e.key ∉ enabledDhcpInterfaces ∧ f.2 = "enabled")
  | .del => e.key ∈ enabledDhcpInterfaces

def interface (e : Event) : Str := (split '|' e.key).headD []

def ofInterface (e : Event) (enabledDhcpInterfaces : List Str) : Bool := e.interface ∈ enabledDhcpInterfaces

def ofKey (e : Event) (used : List Str) : Bool := e.key ∈ used

def vlanIntf (e : Event) (enabledDhcpInterfaces : List Str) : Option Bool :=
  if e.interface ∈ enabledDhcpInterfaces then
    match (split '|' e.key).tail with
    | [] => some false
    | ip :: _ => ipVersion4 ((split '/' ip).headD [])
  else some false

def midPlane (e : Event) (enabledDhcpInterfaces : List Str) : Bool :=
  match e.op with
  | .del => true
  | .set entry => entry.any fun f => f.1 = "bridge" ∧ f.2 ∈ enabledDhcpInterfaces

def featureState (e : Event) (dhcpServerFeatureEnabled : Bool) : Bool :=
  if e.key ≠ "dhcp_server".toList then false
  else match e.op with
    | .del => dhcpServerFeatureEnabled
    | .set entry => match entry.find? (·.1 = "state".toList) with
      | some f => f.2 = "enabled".toList && !dhcpServerFeatureEnabled ||
          f.2 = "disabled".toList && dhcpServerFeatureEnabled
      | none => false

end Event

def scan {π : Type} (param : Option π) (processCheck : Event → π → Option Bool) (events : List Event) : Option Bool :=
  match param with
  | none => some true
  | some p => events.anyM fun e => processCheck e p

def checkUpdateEvent (snapshot : DbSnapshot) (events : List Event) : Checker → Option Bool
  | .dhcpServerTableCfgChange => scan snapshot.enabledDhcpInterfaces (fun e p => some (e.cfgChange p)) events
  | .dhcpServerTableIntfEnablement => scan snapshot.enabledDhcpInterfaces (fun e p => some (e.intfEnablement p)) events
  | .dhcpPortTable => scan snapshot.enabledDhcpInterfaces (fun e p => some (e.ofInterface p)) events
  | .dhcpRangeTable => scan snapshot.usedRange (fun e p => some (e.ofKey p)) events
  | .dhcpOptionTable => scan snapshot.usedOptions (fun e p => some (e.ofKey p)) events
  | .vlanTable => scan snapshot.enabledDhcpInterfaces (fun e p => some (e.ofKey p)) events
  | .vlanIntfTable => scan snapshot.enabledDhcpInterfaces Event.vlanIntf events
  | .vlanMemberTable => scan snapshot.enabledDhcpInterfaces (fun e p => some (e.ofInterface p)) events
  | .midPlaneTable => scan snapshot.enabledDhcpInterfaces (fun e p => some (e.midPlane p)) events
  | .dpusTable => scan (some ()) (fun _ _ => some true) events
  | .dhcpServerFeatureState => scan snapshot.dhcpServerFeatureEnabled (fun e p => some (e.featureState p)) events

theorem scan_some {π : Type} {p : π} {processCheck : Event → π → Bool} (events : List Event) :
    scan (some p) (fun e p => some (processCheck e p)) events = some (events.any (processCheck · p)) := by
  induction events with
  | nil => rfl
  | cons e events ih => grind [scan, List.anyM_cons]

end Sonic.Dhcp
