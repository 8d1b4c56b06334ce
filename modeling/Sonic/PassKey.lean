import Sonic.Dict
import Sonic.Run
import Sonic.Text

/-! # Rotation of pass keys

`master_key_mgr` encrypts the pass keys of CONFIG_DB with one password for each feature. A rotation
re-encrypts the registered entries of the feature one by one and replaces the password after the
last one. openssl may fail to encrypt at any call; the error message of `_encrypt_passkey` has one
placeholder too many, so a failing call raises. -/

namespace Sonic.PassKey
open List Option Bool

open Str

inductive Decrypted where
  | plain (text : Str)
  | failed
  | raised

structure Cipher where
  enc : Str → Nat → Str → Str
  dec : Str → Str → Decrypted
  enc_ne_nil : ∀ passwd salt text, enc passwd salt text ≠ []
  dec_enc : ∀ passwd salt text, dec passwd (enc passwd salt text) = .plain text
  dec_other : ∀ passwd other salt text, passwd ≠ other → dec other (enc passwd salt text) = .failed

/-! ## The manager -/

abbrev Row := Dict Str Str

abbrev Entry := Str × Str

structure Feature where
  tableInfo : List Str
  password : Option Str

structure St where
  registry : Dict Str Feature
  configDb : Dict Entry Row

def St.getEntry (db : Dict Entry Row) (entry : Entry) : Row := (db.get? entry).getD []

def St.feature (s : St) (featureType : Str) : Feature := (s.registry.get? featureType).getD ⟨[], none⟩

def St.passwd (s : St) (featureType : Str) : Option Str := (s.feature featureType).password.filter (· ≠ [])

def register (s : St) (featureType tableInfo : Str) : St :=
  let feature := s.feature featureType
  ⟨s.registry.set featureType
    (if tableInfo ∈ feature.tableInfo then feature
      else { feature with tableInfo := feature.tableInfo ++ [tableInfo] }), s.configDb⟩

def setFeaturePassword (s : St) (featureType password : Str) : St :=
  if (s.feature featureType).password.isSome then s
  else { s with registry := s.registry.set featureType { s.feature featureType with password := some password } }

def splitTableInfo (tableInfo : Str) : Option Entry :=
  match split '|' tableInfo with
  | [table, entry] => some (table, entry)
  | _ => none

def keyEncrypt (row : Row) : Bool := lower ((row.get? "key_encrypt").getD "None") = "true"

def selected (row : Row) : Bool := (row.get? "passkey").any (· ≠ []) && keyEncrypt row

section
variable (c : Cipher)

def encryptWith (secret passwd : Str) (salt : Option Nat) : Option Str := salt.map fun r => c.enc passwd r secret

def decryptWith (b64Encoded passwd : Str) : Option Str :=
  match c.dec passwd b64Encoded with
  | .plain text => some (strip text)
  | .failed => some []
  | .raised => none

def encryptPasskey (s : St) (featureType secret : Str) (salt : Option Nat) : Option Str :=
  (s.passwd featureType).bind fun passwd => encryptWith c secret passwd salt

def decryptPasskey (s : St) (featureType b64Encoded : Str) : Option Str :=
  (s.passwd featureType).bind fun passwd => decryptWith c b64Encoded passwd

def rotateEntry (old new : Str) (salts : Str → Option Nat) (db : Dict Entry Row) (tableInfo : Str) :
    Option (Dict Entry Row) :=
  (splitTableInfo tableInfo).bind fun entry =>
    let row := St.getEntry db entry
    if selected row then
      (decryptWith c ((row.get? "passkey").getD []) old).bind fun plain =>
        (encryptWith c plain new (salts tableInfo)).map fun passkey => db.set entry (row.set "passkey" passkey)
    else some db

def rotateEntries (old new : Str) (salts : Str → Option Nat) : Dict Entry Row → List Str → Bool × Dict Entry Row
  | db, [] => (true, db)
  | db, tableInfo :: rest =>
    match rotateEntry c old new salts db tableInfo with
    | some db' => rotateEntries old new salts db' rest
    | none => (false, db)

def rotateFeaturePasswd (s : St) (featureType newPassword : Str) (salts : Str → Option Nat) : St :=
  match s.registry.get? featureType with
  | none => s
  | some feature =>
    let (done, db) := rotateEntries c (feature.password.getD "None") newPassword salts s.configDb feature.tableInfo
    ⟨if done then s.registry.set featureType { feature with password := some newPassword } else s.registry, db⟩

def encryptAndStore (s : St) (featureType : Str) (entry : Entry) (flag secret : Str) (salt : Option Nat) : Option St :=
  (encryptPasskey c s featureType secret salt).map fun passkey =>
    ⟨s.registry, s.configDb.set entry
      (((St.getEntry s.configDb entry).set "passkey" passkey).set "key_encrypt" flag)⟩

inductive Event where
  | register (featureType tableInfo : Str)
  | setFeaturePassword (featureType password : Str)
  | rotate (featureType newPassword : Str) (salts : Str → Option Nat)
  | store (featureType : Str) (entry : Entry) (flag secret : Str) (salt : Option Nat)

structure Tracked where
  mgr : St
  secrets : Dict Entry (Str × Str)

def step (s : Tracked) : Event → Option Tracked
  | .register featureType tableInfo => some { s with mgr := register s.mgr featureType tableInfo }
  | .setFeaturePassword featureType password => some { s with mgr := setFeaturePassword s.mgr featureType password }
  | .rotate featureType newPassword salts => some
      { s with mgr := rotateFeaturePasswd c s.mgr featureType newPassword salts }
  | .store featureType entry flag secret salt =>
    match encryptAndStore c s.mgr featureType entry flag secret salt with
    | some mgr => some ⟨mgr, s.secrets.set entry (featureType, secret)⟩
    | none => some s

def init (db : Dict Entry Row) : Tracked := ⟨⟨[], db⟩, []⟩

/-- Every registered entry that is marked as encrypted and holds a stored secret decrypts to it. -/
def Kept (s : Tracked) : Prop :=
  ∀ featureType, ∀ tableInfo ∈ (s.mgr.feature featureType).tableInfo, ∀ entry secret,
    splitTableInfo tableInfo = some entry → s.secrets.get? entry = some (featureType, secret) →
    keyEncrypt (St.getEntry s.mgr.configDb entry) = true →
    ∃ passkey, (St.getEntry s.mgr.configDb entry).get? "passkey" = some passkey ∧
      decryptPasskey c s.mgr featureType passkey = some secret

def Proper (owner : Entry → Str) : Event → Prop
  | .register featureType tableInfo => ∀ entry ∈ splitTableInfo tableInfo, owner entry = featureType
  | .setFeaturePassword _ _ => True
  | .rotate _ _ _ => True
  | .store featureType entry _ secret _ => owner entry = featureType ∧ Stripped secret

def passedOver (db : Dict Entry Row) (tableInfo : Str) : Bool :=
  (splitTableInfo tableInfo).any fun entry => !selected (St.getEntry db entry)

def turnOk (old : Str) (salts : Str → Option Nat) (db : Dict Entry Row) (tableInfo : Str) : Bool :=
  (splitTableInfo tableInfo).any fun entry => !selected (St.getEntry db entry) ||
    ((salts tableInfo).isSome && match c.dec old (((St.getEntry db entry).get? "passkey").getD []) with
      | .raised => false
      | _ => true)

/-- Nothing fails for any entry, the new password is not empty and every secret of the feature is in a registered
entry; or it fails at the first entry that is to be re-encrypted. -/
def rotateOk (s : Tracked) (featureType newPassword : Str) (salts : Str → Option Nat) : Prop :=
  ∀ feature ∈ s.mgr.registry.get? featureType,
    (newPassword ≠ [] ∧ (∀ p ∈ s.secrets, p.2.1 = featureType → ∃ t ∈ feature.tableInfo, splitTableInfo t = some p.1) ∧
      ∀ t ∈ feature.tableInfo, turnOk c (feature.password.getD "None") salts s.mgr.configDb t = true) ∨
    ∃ t ∈ feature.tableInfo.find? (fun t => !passedOver s.mgr.configDb t),
      turnOk c (feature.password.getD "None") salts s.mgr.configDb t = false

def stepOk (s : Tracked) : Event → Prop
  | .rotate featureType newPassword salts => rotateOk c s featureType newPassword salts
  | _ => True

instance decProper (owner : Entry → Str) : ∀ e, Decidable (Proper owner e)
  | .register featureType tableInfo =>
    inferInstanceAs (Decidable (∀ entry ∈ splitTableInfo tableInfo, owner entry = featureType))
  | .setFeaturePassword _ _ | .rotate _ _ _ => isTrue trivial
  | .store featureType entry _ secret _ => inferInstanceAs
      (Decidable (owner entry = featureType ∧ strip secret = secret))

instance decRotateOk (s : Tracked) (featureType newPassword : Str) (salts : Str → Option Nat) :
    Decidable (rotateOk c s featureType newPassword salts) :=
  inferInstanceAs (Decidable (∀ feature ∈ s.mgr.registry.get? featureType, _ ∨ ∃ t ∈ _, _))

instance decStepOk (s : Tracked) : ∀ e, Decidable (stepOk c s e)
  | .register _ _ | .setFeaturePassword _ _ | .store _ _ _ _ _ => isTrue trivial
  | .rotate featureType newPassword salts => decRotateOk c s featureType newPassword salts

/-! ## One turn -/

def Holds (db : Dict Entry Row) (entry : Entry) (passwd secret : Str) : Prop :=
  keyEncrypt (St.getEntry db entry) = true →
    ∃ salt, (St.getEntry db entry).get? "passkey" = some (c.enc passwd salt secret)

variable {c : Cipher} {old new passwd secret : Str} {salts : Str → Option Nat} {db db' : Dict Entry Row} {entry : Entry}
  {tableInfo : Str}

theorem Holds.congr (h : Holds c db entry passwd secret) (hdb : db'.get? entry = db.get? entry) :
    Holds c db' entry passwd secret := by
  unfold Holds St.getEntry
  rw [hdb]
  exact h

theorem keyEncrypt_set_passkey (row : Row) (v : Str) : keyEncrypt (row.set "passkey" v) = keyEncrypt row := by
  unfold keyEncrypt
  rw [Dict.get?_set_ne row (by decide)]

theorem decryptWith_enc (salt : Nat) (hs : Stripped secret) :
    decryptWith c (c.enc passwd salt secret) passwd = some secret := by
  rw [decryptWith, c.dec_enc]
  exact congrArg some hs

theorem rotateEntry_some (h : rotateEntry c old new salts db tableInfo = some db') :
    ∃ entry, splitTableInfo tableInfo = some entry ∧
      ((selected (St.getEntry db entry) = false ∧ db' = db) ∨
        selected (St.getEntry db entry) = true ∧ ∃ plain salt,
          decryptWith c (((St.getEntry db entry).get? "passkey").getD []) old = some plain ∧
          db' = db.set entry ((St.getEntry db entry).set "passkey" (c.enc new salt plain))) := by
  obtain ⟨entry, hentry, h⟩ := Option.bind_eq_some_iff.mp h
  refine ⟨entry, hentry, ?_⟩
  cases hsel : selected (St.getEntry db entry) with
  | false => simp_all
  | true =>
    rw [if_pos hsel] at h
    obtain ⟨plain, hplain, h⟩ := Option.bind_eq_some_iff.mp h
    obtain ⟨passkey, hpass, rfl⟩ := Option.map_eq_some_iff.mp h
    obtain ⟨salt, _, rfl⟩ := Option.map_eq_some_iff.mp hpass
    exact .inr ⟨rfl, plain, salt, hplain, rfl⟩

theorem rotateEntry_other (h : rotateEntry c old new salts db tableInfo = some db')
    (hne : splitTableInfo tableInfo ≠ some entry) : db'.get? entry = db.get? entry := by grind [rotateEntry_some]

theorem rotateEntry_holds (h : rotateEntry c old new salts db tableInfo = some db')
    (hentry : splitTableInfo tableInfo = some entry) (hs : Stripped secret) (hold : Holds c db entry old secret) :
    Holds c db' entry new secret := by
  obtain ⟨entry', hentry', hcases⟩ := rotateEntry_some h
  obtain rfl : entry = entry' := Option.some.inj (hentry.symm.trans hentry')
  intro hflag
  obtain ⟨hsel, rfl⟩ | ⟨hsel, plain, salt, hplain, rfl⟩ := hcases
  · -- it is not selected, but it is marked and holds a secret
    obtain ⟨salt, hpass⟩ := hold hflag
    simp_all [selected, c.enc_ne_nil]
  · rw [St.getEntry, Dict.get?_set_self, getD_some] at hflag ⊢
    rw [keyEncrypt_set_passkey] at hflag
    obtain ⟨salt', hpass⟩ := hold hflag
    grind [decryptWith_enc]

theorem rotateEntry_of_turnOk (new : Str) (h : turnOk c old salts db tableInfo = true) :
    ∃ db', rotateEntry c old new salts db tableInfo = some db' := by
  obtain ⟨entry, hentry, h⟩ := (Option.any_eq_true _ _).mp h
  rw [rotateEntry, hentry, bind_some]
  cases hsel : selected (St.getEntry db entry) with
  | false => simp_all
  | true =>
    rw [hsel, Bool.not_true, Bool.false_or, and_eq_true] at h
    obtain ⟨salt, hsalt⟩ := Option.isSome_iff_exists.mp h.1
    rw [if_pos hsel, decryptWith, hsalt]
    cases hdec : c.dec old (((St.getEntry db entry).get? "passkey").getD []) with
    | plain text => exact ⟨_, rfl⟩
    | failed => exact ⟨_, rfl⟩
    | raised => rw [hdec] at h; cases h.2

theorem rotateEntry_of_not_turnOk (h : turnOk c old salts db tableInfo = false) :
    rotateEntry c old new salts db tableInfo = none := by
  rw [rotateEntry]
  cases hentry : splitTableInfo tableInfo with
  | none => rfl
  | some entry =>
    rw [turnOk, hentry, any_some, or_eq_false_iff, not_eq_false', and_eq_false_iff] at h
    rw [bind_some, if_pos h.1, decryptWith]
    obtain hsalt | hdec := h.2
    · rw [isSome_eq_false_iff, isNone_iff_eq_none] at hsalt
      rw [hsalt]
      exact bind_fun_none _
    · cases hd : c.dec old (((St.getEntry db entry).get? "passkey").getD []) with
      | plain text => rw [hd] at hdec; cases hdec
      | failed => rw [hd] at hdec; cases hdec
      | raised => rfl

theorem rotateEntry_of_passedOver (h : passedOver db tableInfo = true) :
    rotateEntry c old new salts db tableInfo = some db := by
  obtain ⟨entry, hentry, h⟩ := (Option.any_eq_true _ _).mp h
  rw [not_eq_true'] at h
  rw [rotateEntry, hentry, bind_some, if_neg (by simp_all)]

theorem turnOk_congr (h : ∀ entry, splitTableInfo tableInfo = some entry → db'.get? entry = db.get? entry) :
    turnOk c old salts db' tableInfo = turnOk c old salts db tableInfo := by
  grind [turnOk, splitTableInfo, St.getEntry]

theorem splitTableInfo_inj {t t' : Str} (h : splitTableInfo t = some entry) (h' : splitTableInfo t' = some entry) :
    t = t' := by
  have key : ∀ u, splitTableInfo u = some entry → u = join ['|'] [entry.1, entry.2] := by
    grind [splitTableInfo, join_split]
  grind

theorem rotateEntries_done (new : Str) : ∀ {ts : List Str} {db : Dict Entry Row}, ts.Nodup →
    (∀ t ∈ ts, turnOk c old salts db t = true) → ∃ db', rotateEntries c old new salts db ts = (true, db') ∧
      (∀ entry, (∀ t ∈ ts, splitTableInfo t ≠ some entry) → db'.get? entry = db.get? entry) ∧
      ∀ t ∈ ts, ∀ entry secret, splitTableInfo t = some entry → Stripped secret → Holds c db entry old secret →
        Holds c db' entry new secret
  | [], db, _, _ => ⟨db, rfl, fun _ _ => rfl, nofun⟩
  | t :: ts, db, hnd, hok => by
    obtain ⟨hnot, hnd⟩ := List.nodup_cons.mp hnd
    obtain ⟨db₁, hturn⟩ := rotateEntry_of_turnOk new (hok t mem_cons_self)
    have hlater : ∀ u ∈ ts, ∀ entry, splitTableInfo u = some entry → db₁.get? entry = db.get? entry :=
      fun u hu entry hentry => rotateEntry_other hturn fun ht => hnot (splitTableInfo_inj ht hentry ▸ hu)
    obtain ⟨db', hrest, hother, hmoved⟩ := rotateEntries_done new hnd fun u hu => by
      rw [turnOk_congr (hlater u hu)]
      simp_all
    refine ⟨db', by rw [rotateEntries, hturn]; exact hrest, fun entry hne => ?_,
      fun u hu entry secret hentry hs hold => ?_⟩
    · grind [rotateEntry_other]
    · obtain rfl | hu := List.mem_cons.mp hu
      · -- the later turns are about other entries
        exact (rotateEntry_holds hturn hentry hs hold).congr
          (hother entry fun v hv hv' => hnot (splitTableInfo_inj hentry hv' ▸ hv))
      · grind [Holds.congr]

theorem rotateEntries_stopped : ∀ {ts : List Str} {t : Str}, ts.find? (fun t => !passedOver db t) = some t →
    turnOk c old salts db t = false → rotateEntries c old new salts db ts = (false, db)
  | [], _, hfind, _ => by cases hfind
  | u :: ts, t, hfind, hfail => by
    rw [List.find?_cons] at hfind
    rw [rotateEntries]
    cases hover : passedOver db u with
    | true =>
      rw [hover] at hfind
      rw [rotateEntry_of_passedOver hover]
      exact rotateEntries_stopped hfind hfail
    | false =>
      rw [hover] at hfind
      rw [Option.some.inj hfind, rotateEntry_of_not_turnOk hfail]

/-! ## Runs -/

structure Inv (c : Cipher) (owner : Entry → Str) (s : Tracked) : Prop where
  nodup : ∀ f, (s.mgr.feature f).tableInfo.Nodup
  owned : ∀ f, ∀ t ∈ (s.mgr.feature f).tableInfo, ∀ entry, splitTableInfo t = some entry → owner entry = f
  owner_eq : ∀ entry f secret, s.secrets.get? entry = some (f, secret) → owner entry = f
  holds : ∀ entry f secret, s.secrets.get? entry = some (f, secret) →
    Stripped secret ∧ ∃ passwd, s.mgr.passwd f = some passwd ∧ Holds c s.mgr.configDb entry passwd secret

variable {owner : Entry → Str} {s : Tracked}

theorem Inv.kept (h : Inv c owner s) : Kept c s := by
  intro f t _ entry secret _ hsecret hflag
  obtain ⟨hs, passwd, hpass, hold⟩ := h.holds entry f secret hsecret
  obtain ⟨salt, hget⟩ := hold hflag
  grind [decryptPasskey, decryptWith_enc]

theorem inv_init (db : Dict Entry Row) : Inv c owner (init db) :=
  ⟨fun _ => nodup_nil, fun _ _ ht => absurd ht not_mem_nil, nofun, nofun⟩

theorem feature_set (s : St) (f : Str) (feature : Feature) (db : Dict Entry Row) (g : Str) :
    St.feature ⟨s.registry.set f feature, db⟩ g = if f = g then feature else s.feature g := by grind [St.feature]

theorem Inv.register (h : Inv c owner s) {f t : Str} (ht : ∀ entry ∈ splitTableInfo t, owner entry = f) :
    Inv c owner { s with mgr := register s.mgr f t } := by
  have hfeature : ∀ g, (PassKey.register s.mgr f t).feature g = if f = g then
      (if t ∈ (s.mgr.feature f).tableInfo then s.mgr.feature f
        else { s.mgr.feature f with tableInfo := (s.mgr.feature f).tableInfo ++ [t] }) else s.mgr.feature g :=
    feature_set s.mgr f _ _
  refine ⟨fun g => ?_, fun g => ?_, h.owner_eq, fun entry g secret hget => ?_⟩
  · grind [h.nodup]
  · grind [h.owned]
  · obtain ⟨hs, passwd, hpass, hold⟩ := h.holds entry g secret hget
    refine ⟨hs, passwd, ?_, hold⟩ <;> grind [St.passwd]

theorem Inv.setPassword (h : Inv c owner s) {f password : Str} {db : Dict Entry Row}
    (hholds : ∀ entry g secret, s.secrets.get? entry = some (g, secret) → Stripped secret →
      ∃ passwd, (if f = g then (some password).filter (· ≠ []) else s.mgr.passwd g) = some passwd ∧
        Holds c db entry passwd secret) :
    Inv c owner { s with mgr := ⟨s.mgr.registry.set f { s.mgr.feature f with password := some password }, db⟩ } := by
  have hfeature : ∀ g, St.feature ⟨s.mgr.registry.set f { s.mgr.feature f with password := some password }, db⟩ g =
      if f = g then { s.mgr.feature f with password := some password } else s.mgr.feature g :=
    feature_set s.mgr f _ db
  refine ⟨fun g => ?_, fun g => ?_, h.owner_eq, fun entry g secret hget => ?_⟩ <;> grind [h.nodup, h.owned, h.holds,
    St.passwd]

theorem Inv.setFeaturePassword (h : Inv c owner s) (f password : Str) :
    Inv c owner { s with mgr := setFeaturePassword s.mgr f password } := by
  unfold PassKey.setFeaturePassword
  split
  · exact h
  · rename_i hnone
    refine h.setPassword fun entry g secret hget _ => ?_
    obtain ⟨_, passwd, hpass, hold⟩ := h.holds entry g secret hget
    refine ⟨passwd, ?_, hold⟩
    rw [if_neg]
    · exact hpass
    · -- a feature with a secret has a password
      grind [St.passwd, filter_eq_some_iff]

theorem Inv.store (h : Inv c owner s) {f flag secret : Str} {entry : Entry} {salt : Option Nat} {mgr : St}
    (howner : owner entry = f) (hs : Stripped secret)
    (hstore : encryptAndStore c s.mgr f entry flag secret salt = some mgr) :
    Inv c owner ⟨mgr, s.secrets.set entry (f, secret)⟩ := by
  obtain ⟨passkey, hpasskey, rfl⟩ := Option.map_eq_some_iff.mp hstore
  obtain ⟨passwd, hpass, henc⟩ := Option.bind_eq_some_iff.mp hpasskey
  obtain ⟨r, _, rfl⟩ := Option.map_eq_some_iff.mp henc
  refine ⟨h.nodup, h.owned, fun e g t hget => ?_, fun e g t hget => ?_⟩ <;> rw [Dict.get?_set] at hget <;> split at hget
  · grind
  · exact h.owner_eq e g t hget
  · rename_i he
    subst he
    cases hget
    refine ⟨hs, passwd, hpass, fun _ => ⟨r, ?_⟩⟩
    grind [St.getEntry]
  · rename_i hne
    obtain ⟨ht, passwd', hpass', hold⟩ := h.holds e g t hget
    exact ⟨ht, passwd', hpass', hold.congr (Dict.get?_set_ne _ hne _)⟩

theorem Inv.rotate (h : Inv c owner s) {f new : Str} {salts : Str → Option Nat} (hok : rotateOk c s f new salts) :
    Inv c owner { s with mgr := rotateFeaturePasswd c s.mgr f new salts } := by
  unfold rotateFeaturePasswd
  cases hf : s.mgr.registry.get? f with
  | none => exact h
  | some feature =>
    obtain rfl : s.mgr.feature f = feature := by rw [St.feature, hf, getD_some]
    obtain ⟨hnew, hall, hturns⟩ | ⟨t, hfind, hfail⟩ := hok _ hf
    · obtain ⟨db', hloop, hother, hmoved⟩ := rotateEntries_done new (h.nodup f) hturns
      simp only [hloop, if_true]
      refine h.setPassword fun entry g secret hget hs => ?_
      obtain ⟨_, passwd, hpass, hold⟩ := h.holds entry g secret hget
      split
      · rename_i he
        subst he
        obtain ⟨t, ht, hentry⟩ := hall _ (Dict.get?_eq_some_mem hget) rfl <;> grind [filter_eq_some_iff,
          St.passwd]
      · rename_i hne
        exact ⟨passwd, hpass, hold.congr (hother entry fun t ht hentry =>
          hne ((h.owned f t ht entry hentry).symm.trans (h.owner_eq entry g secret hget)))⟩
    · simp_all [rotateEntries_stopped]

theorem Inv.step (h : Inv c owner s) {e : Event} {s' : Tracked} (hp : Proper owner e) (hok : stepOk c s e)
    (hs : PassKey.step c s e = some s') : Inv c owner s' := by
  cases e with
  | register f t =>
    cases hs
    exact h.register hp
  | setFeaturePassword f password =>
    cases hs
    exact h.setFeaturePassword f password
  | rotate f new salts =>
    cases hs
    exact h.rotate hok
  | store f entry flag secret salt =>
    rw [PassKey.step] at hs
    split at hs
    · rename_i mgr hmgr
      cases hs
      exact h.store hp.1 hp.2 hmgr
    · simp_all

/-- In every run whose rotations meet the condition, whatever else CONFIG_DB held at first, every stored secret can be
decrypted. -/
theorem secrets_kept {db : Dict Entry Row} {es : List Event}
    (hok : Along (PassKey.step c) (fun s e => Proper owner e ∧ stepOk c s e) (init db) es) :
    ∃ t, run (PassKey.step c) (init db) es = some t ∧ Kept c t := by
  obtain ⟨t, ht, hinv⟩ := run_total (PassKey.step c) (fun s e (_ : Inv c owner s) _ => by
      cases e with
      | register f t => exact ⟨_, rfl⟩
      | setFeaturePassword f password => exact ⟨_, rfl⟩
      | rotate f new salts => exact ⟨_, rfl⟩
      | store f entry flag secret salt =>
        rw [PassKey.step]
        split <;> exact ⟨_, rfl⟩)
    (fun s e s' hi ho hs => hi.step ho.1 ho.2 hs) (inv_init db) hok
  exact ⟨t, ht, hinv.kept⟩

end

/-! ## A cipher -/

def header (passwd : Str) : Str := List.replicate passwd.length 'a' ++ 'b' :: passwd

theorem header_inj {p q s t : Str} (h : header p ++ s = header q ++ t) : p = q := by
  rw [header, header, append_assoc, append_assoc, cons_append, cons_append] at h
  have hnot : ∀ n, 'b' ∉ List.replicate n 'a' := fun n hb => absurd (eq_of_mem_replicate hb) (by decide)
  grind [append_sep_inj, append_inj]

def textCipher : Cipher where
  enc passwd _ text := header passwd ++ text
  dec passwd b64Encoded :=
    if startsWith (header passwd) b64Encoded then .plain (b64Encoded.drop (header passwd).length) else .failed
  enc_ne_nil passwd _ text h := by grind [List.append_eq_nil_iff, header]
  dec_enc passwd _ text := by grind [startsWith_iff]
  dec_other passwd other _ text hne := by
    refine if_neg fun hp => hne ?_
    obtain ⟨rest, hrest⟩ := startsWith_iff.mp hp
    exact (header_inj hrest).symm

def radius : Str := "RADIUS"

def first : Str := "RADIUS_SERVER|10.0.0.1"

def second : Str := "RADIUS_SERVER|10.0.0.2"

def firstEntry : Entry := ("RADIUS_SERVER", "10.0.0.1")

def secondEntry : Entry := ("RADIUS_SERVER", "10.0.0.2")

def stored : List Event :=
  [.register radius first, .register radius second, .setFeaturePassword radius "old",
    .store radius firstEntry "True" "s1" (some 0), .store radius secondEntry "true" "s2" (some 0)]

theorem secrets_kept_rotated :
    ∃ t, run (step textCipher) (init []) (stored ++ [.rotate radius "new" fun _ => some 0,
      .rotate radius "next" fun _ => none, .store radius firstEntry "true" "s3" none]) = some t ∧
      Kept textCipher t :=
  @secrets_kept textCipher (fun _ => radius) _ _ (by decide +kernel)

theorem secret_lost :
    ∃ t, run (step textCipher) (init []) (stored ++
      [.rotate radius "new".toList fun t => if t = first then some 0 else none]) =
        some t ∧ ¬ Kept textCipher t := by
  have key : ∀ t : Tracked, first ∈ (t.mgr.feature radius).tableInfo →
      t.secrets.get? firstEntry = some (radius, "s1".toList) → keyEncrypt (St.getEntry t.mgr.configDb firstEntry) =
        true →
      ((St.getEntry t.mgr.configDb firstEntry).get? "passkey".toList).bind (decryptPasskey textCipher t.mgr radius) =
        some [] → ¬ Kept textCipher t := by
    intro t hreg hsecret hflag hempty hkept
    obtain ⟨passkey, hpass, hdec⟩ := hkept radius first hreg firstEntry "s1".toList rfl hsecret hflag
    rw [hpass, Option.bind_some, hdec] at hempty
    exact absurd hempty (by decide)
  exact ⟨_, rfl, key _ (by decide +kernel) (by decide +kernel) (by decide +kernel) (by decide +kernel)⟩

end Sonic.PassKey
