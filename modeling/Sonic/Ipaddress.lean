import Sonic.Text
import Mathlib.Algebra.Group.Nat.Defs

/-! # Addresses in text form

`IPv4Address`, `IPv6Address` and `ip_network` of Python's `ipaddress` module on a text: `none` where
the constructor raises, the integer value otherwise; and `socket.inet_pton`. -/

namespace Sonic.Ipaddress

open Str (decimal)

def hexDigit (c : Char) : Option Nat :=
  if c.isDigit then some (c.toNat - '0'.toNat)
  else if 'a' ≤ c ∧ c ≤ 'f' then some (c.toNat - 'a'.toNat + 10)
  else if 'A' ≤ c ∧ c ≤ 'F' then some (c.toNat - 'A'.toNat + 10)
  else none

def parseOctet (s : Str) : Option Nat :=
  if s = [] ∨ ¬ s.all Char.isDigit then none
  else if 3 < s.length then none
  else if s ≠ ['0'] ∧ s.head? = some '0' then none
  else if 255 < decimal s then none
  else some (decimal s)

def ipv4Address (s : Str) : Option Nat :=
  if '/' ∈ s then none else
  let octets := s.split '.'
  if octets.length ≠ 4 then none else
  (octets.mapM parseOctet).map fun l => l.foldl (fun n o => n * 256 + o) 0

def parseHextet (s : Str) : Option Nat :=
  if s = [] ∨ 4 < s.length then none
  else (s.mapM hexDigit).map fun l => l.foldl (fun n d => n * 16 + d) 0

def splitScopeId (s : Str) : Option Str :=
  match Str.split '%' s with
  | [addr] => some addr
  | [addr, scope] => if scope = [] then none else some addr
  | _ => none

def ipv6Parts (s : Str) : Option (List (Option Str ⊕ Nat)) :=
  let parts := Str.split ':' s
  if parts.length < 3 then none else
  let text (p : Str) : Option Str ⊕ Nat := .inl (if p = [] then none else some p)
  match parts.getLast? with
  | none => none
  | some lst =>
    if '.' ∈ lst then
      (ipv4Address lst).map fun v => parts.dropLast.map text ++ [.inr (v / 65536), .inr (v % 65536)]
    else some (parts.map text)

def hextetOf : Option Str ⊕ Nat → Option Nat
  | .inl (some p) => parseHextet p
  | .inl none => none
  | .inr v => some v

def isBlank : Option Str ⊕ Nat → Bool
  | .inl none => true
  | _ => false

def skips (parts : List (Option Str ⊕ Nat)) : List Nat :=
  (List.range parts.length).filter fun i => 0 < i && i + 1 < parts.length && (parts[i]?.map isBlank).getD false

def ipv6Value (parts : List (Option Str ⊕ Nat)) : Option Nat :=
  if 9 < parts.length then none else
  let hd := (parts.head?.map isBlank).getD false
  let lst := (parts.getLast?.map isBlank).getD false
  let value (hi lo : List (Option Str ⊕ Nat)) (skipped : Nat) : Option Nat :=
    match hi.mapM hextetOf, lo.mapM hextetOf with
    | some h, some l => some ((h ++ List.replicate skipped 0 ++ l).foldl (fun n d => n * 65536 + d) 0)
    | _, _ => none
  match skips parts with
  | [] => if parts.length ≠ 8 ∨ hd ∨ lst then none else value parts [] 0
  | [i] =>
    let hi := i - if hd then 1 else 0
    let lo := parts.length - i - 1 - if lst then 1 else 0
    if hd ∧ hi ≠ 0 then none
    else if lst ∧ lo ≠ 0 then none
    else if 8 < hi + lo + 1 then none
    else value (parts.take hi) (parts.drop (parts.length - lo)) (8 - (hi + lo))
  | _ => none

def ipv6Address (s : Str) : Option Nat :=
  if '/' ∈ s then none else
  (splitScopeId s).bind fun addr => if addr = [] then none else (ipv6Parts addr).bind ipv6Value

example : ipv6Address "2001:db8::1" = some 0x20010db8000000000000000000000001 := by decide
example : ipv6Address "1:::2" = none := by decide

/-! ## Networks -/

inductive Version where
  | v4
  | v6
  deriving DecidableEq

def Version.isV4 : Version → Bool
  | .v4 => true
  | .v6 => false

def prefixFromIpInt (v : Nat) : Option Nat := (List.range 33).find? fun p => v = 2 ^ 32 - 2 ^ (32 - p)

def prefixFromIpString (s : Str) : Option Nat :=
  (ipv4Address s).bind fun v => (prefixFromIpInt v).or (prefixFromIpInt (2 ^ 32 - 1 - v))

def prefixFromPrefixString (maxPrefixlen : Nat) (s : Str) : Option Nat :=
  if s.isdigit ∧ decimal s ≤ maxPrefixlen then some (decimal s) else none

def splitOptionalNetmask (s : Str) : Option (Str × Option Str) :=
  match Str.split '/' s with
  | [addr] => some (addr, none)
  | [addr, mask] => some (addr, some mask)
  | _ => none

def strict (maxPrefixlen v prefixlen : Nat) : Bool := v % 2 ^ (maxPrefixlen - prefixlen) = 0

def ipv4Network (s : Str) : Option (Nat × Nat) :=
  (splitOptionalNetmask s).bind fun (addr, mask) =>
  (ipv4Address addr).bind fun v =>
  (match mask with
    | none => some 32
    | some m => (prefixFromPrefixString 32 m).or (prefixFromIpString m)).bind fun prefixlen =>
  if strict 32 v prefixlen then some (v, prefixlen) else none

def ipv6Network (s : Str) : Option (Nat × Nat) :=
  (splitOptionalNetmask s).bind fun (addr, mask) =>
  (ipv6Address addr).bind fun v =>
  (match mask with
    | none => some 128
    | some m => prefixFromPrefixString 128 m).bind fun prefixlen =>
  if strict 128 v prefixlen then some (v, prefixlen) else none

def ipNetwork (s : Str) : Option Version :=
  if (ipv4Network s).isSome then some .v4
  else if (ipv6Network s).isSome then some .v6
  else none

example : ipNetwork "10.0.0.0/255.0.0.0" = some .v4 := by decide +kernel
example : ipNetwork "10.1.0.0/8" = none := by decide +kernel
example : ipNetwork "2001:db8::/32" = some .v6 := by decide +kernel

/-! ## Addresses and networks with their version -/

def Version.bits : Version → Nat
  | .v4 => 32
  | .v6 => 128

structure Addr where
  version : Version
  value : Nat
  deriving DecidableEq

def ipAddress (s : Str) : Option Addr :=
  match ipv4Address s with
  | some v => some ⟨.v4, v⟩
  | none => (ipv6Address s).map fun v => ⟨.v6, v⟩

structure Net where
  version : Version
  network : Nat
  prefixlen : Nat
  deriving DecidableEq

def Net.ofInterface (version : Version) (value prefixlen : Nat) : Net :=
  ⟨version, value - value % 2 ^ (version.bits - prefixlen), prefixlen⟩

def ipNetworkLoose (s : Str) : Option Net :=
  (splitOptionalNetmask s).bind fun (addr, mask) =>
    match ipv4Address addr with
    | some v =>
      (match mask with
        | none => some 32
        | some m => (prefixFromPrefixString 32 m).or (prefixFromIpString m)).map fun p => Net.ofInterface .v4 v p
    | none =>
      (ipv6Address addr).bind fun v =>
        (match mask with
          | none => some 128
          | some m => prefixFromPrefixString 128 m).map fun p => Net.ofInterface .v6 v p

def Net.contains (n : Net) (a : Addr) : Bool :=
  a.version = n.version ∧ a.value - a.value % 2 ^ (n.version.bits - n.prefixlen) = n.network

inductive Af where
  | inet
  | inet6
  deriving DecidableEq

inductive PyError where
  | valueError
  | osError

def inetPton (af : Af) (s : Str) : Except PyError Nat :=
  if '\x00' ∈ s then .error .valueError
  else
    let addr := match af with
      | .inet => ipv4Address s
      | .inet6 => if '%' ∈ s then none else ipv6Address s
    match addr with
    | some v => .ok v
    | none => .error .osError

end Sonic.Ipaddress
