import Mathlib
import Sonic.Dict
import Sonic.Run
import Sonic.Text

/-! # VLANs of a PAC port

PAC mirrors the VLAN members of CONFIG_DB in two bit masks for each port. When it acquires a port it
has the configured VLANs removed, and when it releases the port it has them restored; both
notifications are read off the masks. -/

namespace Sonic.PacVlan
open List Function

open Str

abbrev Mask := Nat → BitVec 8

def setMaskBit (j : Mask) (k : Nat) : Mask :=
  Function.update j ((k - 1) / 8) (j ((k - 1) / 8) ||| 1#8 <<< ((k - 1) % 8))

def clrMaskBit (j : Mask) (k : Nat) : Mask :=
  Function.update j ((k - 1) / 8) (j ((k - 1) / 8) &&& ~~~(1#8 <<< ((k - 1) % 8)))

def isMaskBitSet (j : Mask) (k : Nat) : Bool := j ((k - 1) / 8) &&& 1#8 <<< ((k - 1) % 8) ≠ 0#8

theorem isMaskBitSet_eq (j : Mask) (k : Nat) : isMaskBitSet j k = (j ((k - 1) / 8)).getLsbD ((k - 1) % 8) := by
  have hlt : (k - 1) % 8 < 8 := Nat.mod_lt _ (by decide)
  rw [isMaskBitSet, show 1#8 <<< ((k - 1) % 8) = BitVec.twoPow 8 ((k - 1) % 8) from rfl, BitVec.and_twoPow]
  cases hb : (j ((k - 1) / 8)).getLsbD ((k - 1) % 8) with
  | false => rfl
  | true =>
    refine decide_eq_true fun hz => ?_
    have hbit := BitVec.getLsbD_twoPow (w := 8) ((k - 1) % 8) ((k - 1) % 8)
    rw [if_pos rfl] at hz
    simp_all

theorem bit_inj {k l : Nat} (hk : 1 ≤ k) (hl : 1 ≤ l) (hbyte : (k - 1) / 8 = (l - 1) / 8)
    (hplace : (k - 1) % 8 = (l - 1) % 8) : k = l := by omega

theorem isMaskBitSet_set {k l : Nat} (hk : 1 ≤ k) (hl : 1 ≤ l) (j : Mask) :
    isMaskBitSet (setMaskBit j k) l = (decide (k = l) || isMaskBitSet j l) := by
  rw [isMaskBitSet_eq, isMaskBitSet_eq, setMaskBit]
  by_cases hbyte : (l - 1) / 8 = (k - 1) / 8
  · have hlt : (k - 1) % 8 < 8 := Nat.mod_lt _ (by decide)
    rw [hbyte, update_self, BitVec.getLsbD_or, show 1#8 <<< ((k - 1) % 8) = BitVec.twoPow 8 ((k - 1) % 8) from rfl,
      BitVec.getLsbD_twoPow, decide_eq_true hlt, Bool.true_and, Bool.or_comm]
    congr 1
    exact decide_eq_decide.mpr ⟨fun h => bit_inj hk hl hbyte.symm h, fun h => h ▸ rfl⟩
  · rw [update_of_ne hbyte, decide_eq_false (fun h : k = l => hbyte (h ▸ rfl)), Bool.false_or]

theorem isMaskBitSet_clr {k l : Nat} (hk : 1 ≤ k) (hl : 1 ≤ l) (j : Mask) :
    isMaskBitSet (clrMaskBit j k) l = (!decide (k = l) && isMaskBitSet j l) := by
  rw [isMaskBitSet_eq, isMaskBitSet_eq, clrMaskBit]
  by_cases hbyte : (l - 1) / 8 = (k - 1) / 8
  · have hlt : (k - 1) % 8 < 8 := Nat.mod_lt _ (by decide)
    have hlt' : (l - 1) % 8 < 8 := Nat.mod_lt _ (by decide)
    rw [hbyte, update_self, BitVec.getLsbD_and, BitVec.getLsbD_not,
      show 1#8 <<< ((k - 1) % 8) = BitVec.twoPow 8 ((k - 1) % 8) from rfl,
      BitVec.getLsbD_twoPow, decide_eq_true hlt, decide_eq_true hlt', Bool.true_and, Bool.true_and, Bool.and_comm]
    congr 2
    exact decide_eq_decide.mpr ⟨fun h => bit_inj hk hl hbyte.symm h, fun h => h ▸ rfl⟩
  · rw [update_of_ne hbyte, decide_eq_false (fun h : k = l => hbyte (h ▸ rfl)), Bool.not_false, Bool.true_and]

/-! ## authmgr -/

structure PortData where
  vlanMask : Mask
  tagging : Mask
  pvid : Nat

structure VlanDb where
  vlanMask : Mask
  portVlanDb : Nat → PortData

def VlanDb.zero : VlanDb := ⟨fun _ => 0, fun _ => ⟨fun _ => 0, fun _ => 0, 0⟩⟩

structure NotifyData where
  tagged : Bool
  vlanId : Nat

inductive Notify where
  | vlanDeletePending
  | vlanAdd
  | vlanAddPort
  | vlanDeletePort
  | vlanPvidChange

def VlanDb.modify (db : VlanDb) (intIfNum : Nat) (f : PortData → PortData) : VlanDb :=
  { db with portVlanDb := Function.update db.portVlanDb intIfNum (f (db.portVlanDb intIfNum)) }

def authmgrVlanConfChangeCallback (db : VlanDb) (vlanData : NotifyData) (intIfNum : Nat) : Notify → VlanDb
  | .vlanDeletePending => { db with vlanMask := clrMaskBit db.vlanMask vlanData.vlanId }
  | .vlanAdd => { db with vlanMask := setMaskBit db.vlanMask vlanData.vlanId }
  | .vlanAddPort => db.modify intIfNum fun p => { p with vlanMask := setMaskBit p.vlanMask vlanData.vlanId }
  | .vlanDeletePort => db.modify intIfNum fun p => { p with vlanMask := clrMaskBit p.vlanMask vlanData.vlanId }
  | .vlanPvidChange => db.modify intIfNum fun p => { p with pvid := vlanData.vlanId }

def dot1qMaxVlanId : Nat := 4094

structure Notification where
  op : Str
  port : Str
  keys : List Str
  deriving DecidableEq

inductive CfgType where
  | remove
  | revert

def memberKey (vlan : Nat) (tagged : Bool) : Str :=
  "Vlan" ++ ofNat vlan ++ '|' :: if tagged then "tagged" else "untagged"

def memberKeys (cfg : PortData) : List Str :=
  (List.range' 1 (dot1qMaxVlanId - 1)).filterMap fun i =>
    if isMaskBitSet cfg.vlanMask i then some (memberKey i (isMaskBitSet cfg.tagging i)) else none

def pacCfgVlanSendCfgNotification (type : CfgType) (interface : Str) (cfg : PortData) : Notification where
  op := match type with
    | .remove => "DEL"
    | .revert => "SET"
  port := interface
  keys := memberKeys cfg

structure Nim where
  checkIfNumber : Nat → Bool
  getIntfName : Nat → Option Str

def authmgrVlanAcquirePort (nim : Nim) (db : VlanDb) (intIfNum : Nat) : Option Notification :=
  if nim.checkIfNumber intIfNum then
    (nim.getIntfName intIfNum).map fun aliasName =>
      pacCfgVlanSendCfgNotification .remove aliasName (db.portVlanDb intIfNum)
  else none

def authmgrVlanReleasePort (nim : Nim) (db : VlanDb) (intIfNum : Nat) : Option Notification :=
  if nim.checkIfNumber intIfNum then
    (nim.getIntfName intIfNum).map fun aliasName =>
      pacCfgVlanSendCfgNotification .revert aliasName (db.portVlanDb intIfNum)
  else none

def splitSign : Str → Int × Str
  | '-' :: t => (-1, t)
  | '+' :: t => (1, t)
  | t => (1, t)

def stoi (s : Str) : Option Int :=
  let (sign, t) := splitSign (s.dropWhile fun c => c ∈ [' ', '\t', '\n', '\x0b', '\x0c', '\r'])
  let digits := t.takeWhile Char.isDigit
  let n := sign * decimal digits
  if digits = [] ∨ n < -2 ^ 31 ∨ 2 ^ 31 ≤ n then none else some n

def toUint32 (n : Int) : Nat := (n % 2 ^ 32).toNat

def fpGetIntIfNumFromHostIfName (name : Str) : Option (Option Nat) :=
  if 'E' ∉ name then some none
  else match (splitOnce "/" name).or (splitOnce "_" name) with
    | some (_, rest) => (stoi rest).map fun n => some (toUint32 n)
    | none => if name.length < 8 then none else (stoi (name.drop 8)).map fun n => some (toUint32 (n + 1))

structure Entry where
  key : Str
  op : Str
  fields : List (Str × Str)

def parseKey (key : Str) : Option (Nat × Str) := do
  let (vlan, port) ← splitOnce "|" (key.drop 4)
  let vlan ← stoi vlan
  return (toUint32 vlan, port)

def processEntry (db : VlanDb) (entry : Entry) : Option VlanDb :=
  if startsWith "Vlan".toList entry.key then
    match parseKey entry.key with
    | none => some db
    | some (vlan, port) =>
      if 'E' ∉ port then some db
      else (fpGetIntIfNumFromHostIfName port).map fun number =>
        match number with
        | none => db
        | some intIfNum =>
          let vlanData : NotifyData := ⟨entry.fields.any (· = ("tagging_mode".toList, "tagged".toList)), vlan⟩
          if entry.op = "SET".toList then authmgrVlanConfChangeCallback db vlanData intIfNum .vlanAddPort
          else if entry.op = "DEL".toList then authmgrVlanConfChangeCallback db vlanData intIfNum .vlanDeletePort
          else db
  else some db

def processConfVlanMemTblEvent (db : VlanDb) (entries : List Entry) : Option VlanDb := entries.foldlM processEntry db

/-! ## CONFIG_DB -/

inductive Change where
  | set (vlan : Nat) (port : Str) (tagged : Bool)
  | del (vlan : Nat) (port : Str)

namespace Change

def vlan : Change → Nat
  | set vlan _ _ => vlan
  | del vlan _ => vlan

def port : Change → Str
  | set _ port _ => port
  | del _ port => port

def key (c : Change) : Str := "Vlan" ++ ofNat c.vlan ++ '|' :: c.port

def entry (c : Change) : Entry :=
  match c with
  | set _ _ tagged =>
    ⟨c.key, "SET", [("tagging_mode", if tagged then "tagged" else "untagged")]⟩
  | del _ _ => ⟨c.key, "DEL", []⟩

def apply (members : Dict (Nat × Str) Bool) : Change → Dict (Nat × Str) Bool
  | set vlan port tagged => members.set (vlan, port) tagged
  | del vlan port => members.erase (vlan, port)

end Change

def configDb (changes : List Change) : Dict (Nat × Str) Bool := changes.foldl Change.apply []

/-- The keys are the members of the port, each once and with its mode. -/
def Lists (members : Dict (Nat × Str) Bool) (port : Str) (keys : List Str) : Prop :=
  keys.Nodup ∧ ∀ key, key ∈ keys ↔ ∃ vlan tagged, members.get? (vlan, port) = some tagged ∧ key = memberKey vlan tagged

/-- The port is released with its configured VLANs and acquired by removing them. -/
def Restores (nim : Nim) (db : VlanDb) (members : Dict (Nat × Str) Bool) (port : Str) (intIfNum : Nat) : Prop :=
  (∃ n, authmgrVlanReleasePort nim db intIfNum = some n ∧ n.op = "SET" ∧ Lists members port n.keys) ∧
    ∃ n, authmgrVlanAcquirePort nim db intIfNum = some n ∧ n.op = "DEL" ∧ Lists members port n.keys

theorem splitSign_of_isDigit {c : Char} (h : c.isDigit = true) (t : Str) : splitSign (c :: t) = (1, c :: t) := by
  unfold splitSign
  split
  · simp_all
  · simp_all
  · rfl

theorem stoi_ofNat {n : Nat} (hn : n < 2 ^ 31) : stoi (ofNat n) = some (n : Int) := by
  have hdigit := isDigit_ofNat n
  obtain ⟨d, ds, hd⟩ := exists_cons_of_ne_nil (ofNat_ne_nil n)
  have hfirst : d.isDigit = true := hdigit d (hd ▸ mem_cons_self)
  have hspace : d ∉ [' ', '\t', '\n', '\x0b', '\x0c', '\r'] := by
    intro hm
    simp only [mem_cons, not_mem_nil, or_false] at hm
    rcases hm with rfl | rfl | rfl | rfl | rfl | rfl <;> cases hfirst
  have htake : (d :: ds).takeWhile Char.isDigit = d :: ds := List.takeWhile_eq_self_iff.mpr (hd ▸ hdigit)
  have hval : decimal (d :: ds) = n := hd ▸ decimal_ofNat n
  rw [hd, stoi, dropWhile_cons_of_neg (by simp_all), splitSign_of_isDigit hfirst]
  simp only [htake, hval, Int.one_mul]
  rw [if_neg]
  rintro (h | h | h)
  · cases h
  · omega
  · omega

theorem toUint32_natCast {n : Nat} (hn : n < 2 ^ 32) : toUint32 (n : Int) = n := by
  rw [toUint32]
  omega

theorem parseKey_key {c : Change} (hv : c.vlan ≤ 4094) : parseKey c.key = some (c.vlan, c.port) := by
  have hdrop : c.key.drop 4 = ofNat c.vlan ++ '|' :: c.port := by
    rw [Change.key, append_assoc]
    rfl
  have hbar : '|' ∉ ofNat c.vlan := fun h => absurd (isDigit_ofNat c.vlan _ h) (by decide)
  rw [parseKey, hdrop, show "|" = ['|'] from rfl, splitOnce_append hbar,
    show '|' :: c.port = ['|'] ++ c.port from rfl, splitOnce_self]
  grind [stoi_ofNat, toUint32_natCast]

def Change.adds : Change → Bool
  | .set _ _ _ => true
  | .del _ _ => false

def Change.notify : Change → Notify
  | .set _ _ _ => .vlanAddPort
  | .del _ _ => .vlanDeletePort

theorem processEntry_entry {c : Change} (hv : c.vlan ≤ 4094) (db : VlanDb) :
    ∃ tagged, processEntry db c.entry = (fpGetIntIfNumFromHostIfName c.port).map fun number =>
      number.elim db fun n => authmgrVlanConfChangeCallback db ⟨tagged, c.vlan⟩ n c.notify := by
  have hkey : c.entry.key = c.key := by cases c <;> rfl
  have hstart : startsWith "Vlan".toList c.key = true := by grind [startsWith_iff, Change.key]
  refine ⟨c.entry.fields.any (· = ("tagging_mode".toList, "tagged".toList)), ?_⟩
  rw [processEntry, hkey, if_pos hstart, parseKey_key hv]
  by_cases hE : 'E' ∉ c.port
  · simp_all [fpGetIntIfNumFromHostIfName]
  · simp only [if_neg hE]
    congr 1
    funext number
    cases number with
    | none => rfl
    | some n => cases c <;> rfl

/-! ## The masks mirror CONFIG_DB -/

structure Mirrors (members : Dict (Nat × Str) Bool) (port : Str) (n : Nat) (db : VlanDb) : Prop where
  tagging : ∀ v, isMaskBitSet (db.portVlanDb n).tagging v = false
  mask : ∀ v, 1 ≤ v → isMaskBitSet (db.portVlanDb n).vlanMask v = (members.get? (v, port)).isSome
  range : ∀ v tagged, members.get? (v, port) = some tagged → 1 ≤ v ∧ v ≤ 4094

section
variable {members : Dict (Nat × Str) Bool} {port : Str} {n : Nat} {db t : VlanDb} {c : Change}

theorem get?_apply_ne {v : Nat} (h : ¬ (c.vlan = v ∧ c.port = port)) :
    (c.apply members).get? (v, port) = members.get? (v, port) := by
  have hne : (c.vlan, c.port) ≠ (v, port) := fun he => h (Prod.mk.inj he)
  cases c with
  | set vlan port' tagged => exact Dict.get?_set_ne members hne tagged
  | del vlan port' => exact Dict.get?_erase_ne hne members

theorem isSome_get?_apply_self : ((c.apply members).get? (c.vlan, c.port)).isSome = c.adds := by
  cases c with
  | set vlan port' tagged => rw [Change.apply, Change.vlan, Change.port, Dict.get?_set_self]; rfl
  | del vlan port' => rw [Change.apply, Change.vlan, Change.port, Dict.get?_erase_self]; rfl

theorem Mirrors.range_apply (h : Mirrors members port n db) (hv : 1 ≤ c.vlan ∧ c.vlan ≤ 4094) (v : Nat) (tagged : Bool)
    (hget : (c.apply members).get? (v, port) = some tagged) : 1 ≤ v ∧ v ≤ 4094 := by
  by_cases hc : c.vlan = v ∧ c.port = port <;> simp_all [get?_apply_ne, h.range]

theorem Mirrors.other (h : Mirrors members port n db) (hv : 1 ≤ c.vlan ∧ c.vlan ≤ 4094) (hport : c.port ≠ port)
    (hsame : t.portVlanDb n = db.portVlanDb n) : Mirrors (c.apply members) port n t := by
  refine ⟨fun v => ?_, fun v hle => ?_, h.range_apply hv⟩ <;> simp_all [h.tagging, get?_apply_ne, h.mask]

theorem Mirrors.self (h : Mirrors members port n db) (hv : 1 ≤ c.vlan ∧ c.vlan ≤ 4094) (hport : c.port = port)
    (tagged : Bool) :
    Mirrors (c.apply members) port n (authmgrVlanConfChangeCallback db ⟨tagged, c.vlan⟩ n c.notify) := by
  subst hport
  refine ⟨fun v => ?_, fun v hle => ?_, h.range_apply hv⟩
  · cases c <;> simp_all [authmgrVlanConfChangeCallback, Change.notify, VlanDb.modify, h.tagging]
  · have hbit : isMaskBitSet ((authmgrVlanConfChangeCallback db ⟨tagged, c.vlan⟩ n c.notify).portVlanDb n).vlanMask v =
        if c.vlan = v then c.adds else isMaskBitSet (db.portVlanDb n).vlanMask v := by
      cases c with
      | set vlan port' tagged' =>
        simp only [authmgrVlanConfChangeCallback, Change.notify, VlanDb.modify, update_self]
        rw [isMaskBitSet_set hv.1 hle]
        by_cases he : Change.vlan (.set vlan port' tagged') = v
        · rw [if_pos he, decide_eq_true he, Bool.true_or]; rfl
        · simp_all
      | del vlan port' =>
        simp only [authmgrVlanConfChangeCallback, Change.notify, VlanDb.modify, update_self]
        rw [isMaskBitSet_clr hv.1 hle]
        by_cases he : Change.vlan (.del vlan port') = v
        · rw [if_pos he, decide_eq_true he, Bool.not_true, Bool.false_and]; rfl
        · simp_all
    grind [isSome_get?_apply_self, get?_apply_ne, h.mask]

theorem callback_other {n' : Nat} (hne : n' ≠ n) (data : NotifyData) (e : Notify) :
    (authmgrVlanConfChangeCallback db data n' e).portVlanDb n = db.portVlanDb n := by
  cases e with
  | vlanDeletePending => rfl
  | vlanAdd => rfl
  | vlanAddPort => exact update_of_ne hne.symm ..
  | vlanDeletePort => exact update_of_ne hne.symm ..
  | vlanPvidChange => exact update_of_ne hne.symm ..

theorem Mirrors.step (h : Mirrors members port n db) (hv : 1 ≤ c.vlan ∧ c.vlan ≤ 4094)
    (hnum : fpGetIntIfNumFromHostIfName port = some (some n))
    (honly : fpGetIntIfNumFromHostIfName c.port = some (some n) → c.port = port)
    (hstep : processEntry db c.entry = some t) : Mirrors (c.apply members) port n t := by
  obtain ⟨tagged, hproc⟩ := processEntry_entry hv.2 db
  rw [hproc] at hstep
  obtain ⟨number, hnumber, rfl⟩ := Option.map_eq_some_iff.mp hstep
  have hother : number ≠ some n → c.port ≠ port := by grind
  cases number <;> grind [other, self, other, callback_other]

theorem Mirrors.run (hnum : fpGetIntIfNumFromHostIfName port = some (some n)) :
    ∀ {changes : List Change} {members : Dict (Nat × Str) Bool} {db : VlanDb},
      (∀ c ∈ changes, 1 ≤ c.vlan ∧ c.vlan ≤ 4094) →
      (∀ c ∈ changes, fpGetIntIfNumFromHostIfName c.port = some (some n) → c.port = port) → Mirrors members port n db →
      processConfVlanMemTblEvent db (changes.map Change.entry) = some t →
      Mirrors (changes.foldl Change.apply members) port n t
  | [], members, db, _, _, h, hrun => by
    cases hrun
    exact h
  | c :: changes, members, db, hv, honly, h, hrun => by
    rw [processConfVlanMemTblEvent, map_cons, foldlM_cons] at hrun
    obtain ⟨u, hu, hrun⟩ := Option.bind_eq_some_iff.mp hrun
    rw [foldl_cons]
    exact Mirrors.run hnum (fun d hd => hv d (mem_cons_of_mem c hd)) (fun d hd => honly d (mem_cons_of_mem c hd))
      (h.step (hv c mem_cons_self) hnum (honly c mem_cons_self) hu) hrun

theorem mirrors_zero : Mirrors [] port n .zero := by
  refine ⟨fun v => ?_, fun v _ => ?_, nofun⟩
  · rw [isMaskBitSet_eq]
    exact BitVec.getLsbD_zero
  · rw [isMaskBitSet_eq]
    exact BitVec.getLsbD_zero

/-! ## The notifications -/

theorem memberKey_inj {v w : Nat} {a b : Bool} (h : memberKey v a = memberKey w b) : v = w ∧ a = b := by
  have hbar : ∀ k, '|' ∉ ofNat k := fun k hk => absurd (isDigit_ofNat k _ hk) (by decide)
  rw [memberKey, memberKey, append_assoc, append_assoc] at h
  obtain ⟨hv, hm⟩ := append_sep_inj (hbar v) (hbar w) (append_cancel_left h)
  refine ⟨ofNat_injective hv, ?_⟩
  cases a <;> cases b
  · rfl
  · simp_all
  · simp_all
  · rfl

theorem nodup_memberKeys (cfg : PortData) : (memberKeys cfg).Nodup := by
  refine List.Nodup.filterMap (fun v w key hv hw => ?_) nodup_range'
  rw [Option.mem_def] at hv hw
  split at hv
  · split at hw
    · exact (memberKey_inj ((Option.some.inj hv).trans (Option.some.inj hw).symm)).1
    · cases hw
  · cases hv

theorem mem_memberKeys {cfg : PortData} {key : Str} : key ∈ memberKeys cfg ↔
    ∃ v, 1 ≤ v ∧ v < 4094 ∧ isMaskBitSet cfg.vlanMask v = true ∧ key = memberKey v (isMaskBitSet cfg.tagging v) := by
  rw [memberKeys, mem_filterMap]
  constructor
  · rintro ⟨v, hv, hkey⟩
    rw [mem_range'_1] at hv
    split at hkey
    · rename_i hset
      exact ⟨v, hv.1, by grind [dot1qMaxVlanId], hset, (Option.some.inj hkey).symm⟩
    · cases hkey
  · grind [dot1qMaxVlanId]

theorem Mirrors.lists_iff (h : Mirrors members port n db) : Lists members port (memberKeys (db.portVlanDb n)) ↔
    ∀ v tagged, members.get? (v, port) = some tagged → tagged = false ∧ v ≠ 4094 := by
  constructor
  · intro hlists v tagged hget
    obtain ⟨w, _, hlt, _, hkey⟩ := mem_memberKeys.mp ((hlists.2 _).mpr ⟨v, tagged, hget, rfl⟩)
    grind [memberKey_inj, h.tagging]
  · intro hall
    refine ⟨nodup_memberKeys _, fun key => ⟨fun hmem => ?_, ?_⟩⟩
    · grind [mem_memberKeys, h.mask, Option.isSome_iff_exists, h.tagging]
    · rintro ⟨v, tagged, hget, rfl⟩
      obtain ⟨rfl, hne⟩ := hall v tagged hget
      obtain ⟨hle, hmax⟩ := h.range v _ hget
      refine mem_memberKeys.mpr ⟨v, hle, by omega, ?_, by rw [h.tagging v]⟩ <;> simp_all [h.mask]

theorem Mirrors.restores {nim : Nim} {aliasName : Str} (h : Mirrors members port n db)
    (hcheck : nim.checkIfNumber n = true) (hname : nim.getIntfName n = some aliasName) :
    Restores nim db members port n ↔ ∀ v tagged, members.get? (v, port) = some tagged → tagged = false ∧ v ≠ 4094 := by
  rw [← h.lists_iff, Restores, authmgrVlanReleasePort, authmgrVlanAcquirePort, if_pos hcheck, if_pos hcheck, hname]
  constructor
  · rintro ⟨⟨notification, hsent, _, hlists⟩, _⟩
    cases hsent
    exact hlists
  · intro hlists
    exact ⟨⟨_, rfl, rfl, hlists⟩, _, rfl, rfl, hlists⟩

/-- After any changes of VLAN members, the port is released with its members and acquired by removing them exactly if
they are all untagged and none is the last VLAN. -/
theorem members_restored_iff {nim : Nim} {changes : List Change} {aliasName : Str}
    (hvlan : ∀ c ∈ changes, 1 ≤ c.vlan ∧ c.vlan ≤ 4094) (hnum : fpGetIntIfNumFromHostIfName port = some (some n))
    (honly : ∀ c ∈ changes, fpGetIntIfNumFromHostIfName c.port = some (some n) → c.port = port)
    (hcheck : nim.checkIfNumber n = true) (hname : nim.getIntfName n = some aliasName)
    (hrun : processConfVlanMemTblEvent .zero (changes.map Change.entry) = some t) :
    Restores nim t (configDb changes) port n ↔
      ∀ v tagged, (configDb changes).get? (v, port) = some tagged → tagged = false ∧ v ≠ 4094 :=
  (Mirrors.run hnum hvlan honly mirrors_zero hrun).restores hcheck hname

end

def ethernet0 : Str := "Ethernet0"

def hostNim : Nim := ⟨fun n => 1 ≤ n, fun n => some ("Ethernet" ++ ofNat (n - 1))⟩

def memberChanges : List Change :=
  [.set 10 ethernet0 true, .set 20 ethernet0 false, .set 10 "Ethernet4" true, .set 30 "PortChannel1" true,
    .set 10 ethernet0 false, .del 20 ethernet0]

theorem members_restored_changes :
    ∃ t, processConfVlanMemTblEvent .zero (memberChanges.map Change.entry) = some t ∧
      Restores hostNim t (configDb memberChanges) ethernet0 1 := by
  refine ⟨_, rfl, (members_restored_iff (by decide +kernel) (by decide +kernel) (by decide +kernel) rfl rfl rfl).mpr ?_⟩
  intro v tagged hget
  have hall : ∀ p ∈ configDb memberChanges, p.1.2 = ethernet0 → p.2 = false ∧ p.1.1 ≠ 4094 := by decide +kernel
  exact hall _ (Dict.get?_eq_some_mem hget) rfl

theorem members_not_restored :
    (∃ t, processConfVlanMemTblEvent .zero ([.set 10 ethernet0 true].map Change.entry) = some t ∧
      ¬ Restores hostNim t (configDb [.set 10 ethernet0 true]) ethernet0 1) ∧
    ∃ t, processConfVlanMemTblEvent .zero ([.set 4094 ethernet0 false].map Change.entry) = some t ∧
      ¬ Restores hostNim t (configDb [.set 4094 ethernet0 false]) ethernet0 1 := by
  have key : ∀ (c : Change) (tagged : Bool) (t : VlanDb), 1 ≤ c.vlan ∧ c.vlan ≤ 4094 → c.port = ethernet0 →
      processConfVlanMemTblEvent .zero ([c].map Change.entry) = some t →
      (configDb [c]).get? (c.vlan, ethernet0) = some tagged → ¬ (tagged = false ∧ c.vlan ≠ 4094) →
      ¬ Restores hostNim t (configDb [c]) ethernet0 1 := by
    intro c tagged t hv hport hrun hget hnot hres
    have hmirror : Mirrors (configDb [c]) ethernet0 1 t :=
      Mirrors.run (by decide +kernel) (List.forall_mem_singleton.mpr hv) (List.forall_mem_singleton.mpr fun _ => hport)
        mirrors_zero hrun
    exact hnot ((hmirror.restores rfl rfl).mp hres _ _ hget)
  exact ⟨⟨_, rfl, key _ true _ (by decide) rfl rfl rfl (by decide)⟩,
    _, rfl, key _ false _ (by decide) rfl rfl rfl (by decide)⟩

end Sonic.PacVlan
