import Sonic.Dict
import Sonic.Run
import Sonic.Text

/-! # Software BFD sessions of bgpcfgd

`BfdMgr` writes the sessions of its table to FRR with vtysh and keeps their parameters in
`bfd_sessions`. An invocation of vtysh may fail after any of its commands; the local copy is written
only when it succeeds, and a SET with the parameters of the local copy is skipped. -/

namespace Sonic.BfdSession

open Str

abbrev Data := Dict Str Str

structure SessionKey where
  vrf : Str
  interface : Str
  peer : Str
  deriving DecidableEq

structure FrrKey where
  peer : Str
  multihop : Bool
  localAddress : Str
  interface : Option Str
  vrf : Str
  deriving DecidableEq

structure Fields where
  detectMultiplier : Int
  receiveInterval : Int
  transmitInterval : Int
  minimumTtl : Nat
  passiveMode : Bool
  deriving DecidableEq

def Fields.fresh : Fields := ⟨3, 300, 300, 254, false⟩

inductive Cmd where
  | confT
  | bfd
  | peer (key : FrrKey)
  | noPeer (key : FrrKey)
  | detectMultiplier (n : Int)
  | receiveInterval (n : Int)
  | transmitInterval (n : Int)
  | minimumTtl (n : Nat)
  | passiveMode (on : Bool)

structure Frr where
  sessions : Dict FrrKey Fields
  node : Option FrrKey

namespace Frr

def modify (f : Frr) (g : Fields → Fields) : Frr :=
  match f.node with
  | none => f
  | some key => { f with sessions := f.sessions.set key (g ((f.sessions.get? key).getD .fresh)) }

def exec (f : Frr) : Cmd → Frr
  | .confT | .bfd => { f with node := none }
  | .peer key => { sessions := f.sessions.set key ((f.sessions.get? key).getD .fresh), node := some key }
  | .noPeer key => { sessions := f.sessions.erase key, node := none }
  | .detectMultiplier n => f.modify fun s => { s with detectMultiplier := n }
  | .receiveInterval n => f.modify fun s => { s with receiveInterval := n }
  | .transmitInterval n => f.modify fun s => { s with transmitInterval := n }
  | .minimumTtl n => f.modify fun s => { s with minimumTtl := n }
  | .passiveMode on => f.modify fun s => { s with passiveMode := on }

end Frr

/-! ## The manager -/

structure Res where
  multihop : Bool
  localAddress : Str
  detectMultiplier : Int
  receiveInterval : Int
  transmitInterval : Int
  passiveMode : Bool
  deriving DecidableEq

structure St where
  bfdSessions : Dict SessionKey Res
  frr : Frr

def getDefResFields : Res := ⟨false, [], 3, 200, 200, true⟩

def redisToLocalRes (data : Data) : Option Res := do
  let detectMultiplier ← (data.get? "multiplier").elim (some getDefResFields.detectMultiplier) int
  let receiveInterval ← (data.get? "rx_interval").elim (some getDefResFields.receiveInterval) int
  let transmitInterval ← (data.get? "tx_interval").elim (some getDefResFields.transmitInterval) int
  return {
    multihop := (data.get? "multihop").elim getDefResFields.multihop (· = "true")
    localAddress := (data.get? "local_addr").getD getDefResFields.localAddress
    detectMultiplier, receiveInterval, transmitInterval
    passiveMode := (data.get? "type").elim getDefResFields.passiveMode (· ≠ "async_active") }

def frrKey (key : SessionKey) (res : Res) : FrrKey where
  peer := key.peer
  multihop := res.multihop && key.interface = "default"
  localAddress := res.localAddress
  interface := if key.interface = "default" then none else some key.interface
  vrf := key.vrf

def createBfdPeerCmd (key : SessionKey) (res : Res) (isDelete : Bool) : List Cmd :=
  if isDelete then [.noPeer (frrKey key res)]
  else
    [.peer (frrKey key res), .detectMultiplier res.detectMultiplier, .receiveInterval res.receiveInterval,
      .transmitInterval res.transmitInterval] ++
    (if res.multihop then [.minimumTtl 1] else []) ++ [.passiveMode res.passiveMode]

inductive Outcome where
  | success
  | failure (executed : Nat)

def runCommand (f : Frr) (cmds : List Cmd) : Outcome → Bool × Frr
  | .success => (true, cmds.foldl Frr.exec f)
  | .failure executed => (false, (cmds.take executed).foldl Frr.exec f)

def enterBfd : List Cmd := [.confT, .bfd]

def addFrrSession (s : St) (key : SessionKey) (data : Data) (o : Outcome) : Option (Bool × St) :=
  (redisToLocalRes data).map fun res =>
    let (ok, frr) := runCommand s.frr (enterBfd ++ createBfdPeerCmd key res false) o
    (ok, ⟨if ok then s.bfdSessions.set key res else s.bfdSessions, frr⟩)

def updateCmds (key : SessionKey) (old res : Res) : List Cmd :=
  if res.multihop ≠ old.multihop ∨ res.localAddress ≠ old.localAddress then
    createBfdPeerCmd key old true ++ createBfdPeerCmd key res false
  else createBfdPeerCmd key res false

def updateFrrSession (s : St) (key : SessionKey) (old : Res) (data : Data) (o : Outcome) : Option (Bool × St) :=
  (redisToLocalRes data).map fun res =>
    if old = res then (true, s)
    else
      let (ok, frr) := runCommand s.frr (enterBfd ++ updateCmds key old res) o
      (ok, ⟨if ok then s.bfdSessions.set key res else s.bfdSessions, frr⟩)

def delFrrSession (s : St) (key : SessionKey) (res : Res) (o : Outcome) : Bool × St :=
  let (ok, frr) := runCommand s.frr (enterBfd ++ createBfdPeerCmd key res true) o
  (ok, ⟨if ok then s.bfdSessions.erase key else s.bfdSessions, frr⟩)

def splitKey (key : Str) : Option SessionKey := do
  let (vrf, rest) ← splitOnce "|" key
  let (interface, peer) ← splitOnce "|" rest
  return ⟨vrf, interface, peer⟩

inductive Event where
  | set (key : Str) (data : Data) (o : Outcome)
  | del (key : Str) (o : Outcome)

def handle (s : St) : Event → Option (Bool × St)
  | .set key data o => (splitKey key).bind fun session =>
    match s.bfdSessions.get? session with
    | some old => updateFrrSession s session old data o
    | none => addFrrSession s session data o
  | .del key o => (splitKey key).map fun session =>
    match s.bfdSessions.get? session with
    | some res => delFrrSession s session res o
    | none => (true, s)

def step (s : St) (e : Event) : Option St := (handle s e).map Prod.snd

/-! ## Sessions of one key -/

def belongs (key : SessionKey) (k : FrrKey) : Bool :=
  k.peer = key.peer ∧ k.vrf = key.vrf ∧
    k.interface = if key.interface = "default" then none else some key.interface

def sessionsOf (f : Frr) (key : SessionKey) : List (FrrKey × Fields) := f.sessions.filter fun p => belongs key p.1

/-- FRR has one session for the key, with these parameters. -/
def Has (f : Frr) (key : SessionKey) (res : Res) : Prop :=
  ∃ frrKey fields, sessionsOf f key = [(frrKey, fields)] ∧ frrKey.multihop = res.multihop ∧
    frrKey.localAddress = res.localAddress ∧ fields.detectMultiplier = res.detectMultiplier ∧
    fields.receiveInterval = res.receiveInterval ∧ fields.transmitInterval = res.transmitInterval ∧
    fields.passiveMode = res.passiveMode

def Matches (s : St) : Prop := ∀ key res, s.bfdSessions.get? key = some res → Has s.frr key res

def Skips (s : St) (session : SessionKey) (res : Res) : Event → Prop
  | .set key data _ => splitKey key = some session ∧ redisToLocalRes data = some res ∧
    s.bfdSessions.get? session = some res
  | .del _ _ => False

section
variable {s : St} {key : SessionKey} {res old : Res}

theorem belongs_frrKey (key key' : SessionKey) (res : Res) : belongs key (frrKey key' res) = decide (key' = key) := by
  rw [belongs, decide_eq_decide, SessionKey.mk.injEq]
  simp only [frrKey]
  constructor
  · rintro ⟨hpeer, hvrf, hif⟩
    refine ⟨hvrf, ?_, hpeer⟩
    split at hif
    · split at hif <;> simp_all
    · split at hif <;> grind
  · rintro ⟨hvrf, hif, hpeer⟩
    exact ⟨hpeer, hvrf, by rw [hif]⟩

def fieldsOf (res : Res) (ttl : Nat) : Fields :=
  ⟨res.detectMultiplier, res.receiveInterval, res.transmitInterval, ttl, res.passiveMode⟩

theorem foldl_create (f : Frr) (key : SessionKey) (res : Res) :
    ∃ ttl, ((createBfdPeerCmd key res false).foldl Frr.exec f).sessions =
      f.sessions.set (frrKey key res) (fieldsOf res ttl) := by
  unfold createBfdPeerCmd
  rw [if_neg Bool.false_ne_true]
  cases res.multihop with
  | true =>
    refine ⟨1, ?_⟩
    simp only [List.foldl_append, List.foldl_cons, List.foldl_nil, Frr.exec, Frr.modify, Dict.get?_set_self,
      Option.getD_some, Dict.set_set, if_true, fieldsOf]
  | false =>
    refine ⟨((f.sessions.get? (frrKey key res)).getD .fresh).minimumTtl, ?_⟩
    simp only [List.foldl_append, List.foldl_cons, List.foldl_nil, Frr.exec, Frr.modify, Dict.get?_set_self,
      Option.getD_some, Dict.set_set, Bool.false_eq_true, if_false, fieldsOf]

/-- The local copy is what FRR has: one session for each of its keys, none for others. A multihop session has no
interface. -/
structure Synced (s : St) : Prop where
  multihop : ∀ key res, s.bfdSessions.get? key = some res → res.multihop = true → key.interface = "default"
  sessions : ∀ key res, s.bfdSessions.get? key = some res →
    ∃ ttl, sessionsOf s.frr key = [(frrKey key res, fieldsOf res ttl)]
  others : ∀ key, s.bfdSessions.get? key = none → sessionsOf s.frr key = []

theorem Synced.has (h : Synced s) (hget : s.bfdSessions.get? key = some res) : Has s.frr key res := by
  obtain ⟨ttl, hs⟩ := h.sessions key res hget
  refine ⟨_, _, hs, ?_, rfl, rfl, rfl, rfl, rfl⟩
  cases hm : res.multihop with
  | false => rw [frrKey, hm]; rfl
  | true => simp_all [frrKey, h.multihop]

theorem sessionsOf_congr {f f' : Frr} (h : f'.sessions = f.sessions) (key : SessionKey) :
    sessionsOf f' key = sessionsOf f key := by rw [sessionsOf, h, sessionsOf]

theorem Synced.write (h : Synced s) {frr : Frr} {d : Dict FrrKey Fields}
    (hm : res.multihop = true → key.interface = "default")
    (hfrr : ∃ ttl, frr.sessions = d.set (frrKey key res) (fieldsOf res ttl))
    (hown : d.filter (fun p => belongs key p.1) = [] ∨ ∃ v, d.filter (fun p => belongs key p.1) = [(frrKey key res, v)])
    (hother : ∀ k, k ≠ key → d.filter (fun p => belongs k p.1) = sessionsOf s.frr k) :
    Synced ⟨s.bfdSessions.set key res, frr⟩ := by
  obtain ⟨ttl, hfrr⟩ := hfrr
  have hself : sessionsOf frr key = [(frrKey key res, fieldsOf res ttl)] := by
    rw [sessionsOf, hfrr, Dict.filter_set_of_pos (by rw [belongs_frrKey]; exact decide_eq_true rfl)]
    obtain hnil | ⟨v, hone⟩ := hown
    · rw [hnil]
      rfl
    · rw [hone]
      exact if_pos rfl
  have hrest : ∀ k, k ≠ key → sessionsOf frr k = sessionsOf s.frr k := by
    intro k hk
    rw [sessionsOf, hfrr, Dict.filter_set (by rw [belongs_frrKey]; exact decide_eq_false (Ne.symm hk)), hother k hk]
  refine ⟨fun k r hget => ?_, fun k r hget => ?_, fun k hget => ?_⟩ <;> rw [Dict.get?_set] at hget <;> split at hget
  · rename_i he
    rw [← he, ← Option.some.inj hget]
    exact hm
  · exact h.multihop k r hget
  · rename_i he
    rw [← he, ← Option.some.inj hget]
    exact ⟨ttl, hself⟩
  · rename_i he
    rw [hrest k (Ne.symm he)]
    exact h.sessions k r hget
  · cases hget
  · rename_i he
    rw [hrest k (Ne.symm he)]
    exact h.others k hget

theorem foldl_enterBfd (f : Frr) (cmds : List Cmd) :
    (enterBfd ++ cmds).foldl Frr.exec f = cmds.foldl Frr.exec { f with node := none } := rfl

theorem Synced.add (h : Synced s) (hget : s.bfdSessions.get? key = none)
    (hm : res.multihop = true → key.interface = "default") :
    Synced ⟨s.bfdSessions.set key res, (enterBfd ++ createBfdPeerCmd key res false).foldl Frr.exec s.frr⟩ :=
  h.write hm (foldl_create { s.frr with node := none } key res) (.inl (h.others key hget)) fun _ _ => rfl

theorem filter_erase_self {d : Dict FrrKey Fields} {k : FrrKey} {v : Fields}
    (h : d.filter (fun p => belongs key p.1) = [(k, v)]) : (d.erase k).filter (fun p => belongs key p.1) = [] := by
  rw [Dict.erase, List.filter_comm, h]
  simp

theorem Synced.update (h : Synced s) (hget : s.bfdSessions.get? key = some old)
    (hm : res.multihop = true → key.interface = "default") :
    Synced ⟨s.bfdSessions.set key res, (enterBfd ++ updateCmds key old res).foldl Frr.exec s.frr⟩ := by
  obtain ⟨ttl, hone⟩ := h.sessions key old hget
  rw [foldl_enterBfd, updateCmds]
  split
  · -- the old session goes first
    rw [List.foldl_append]
    refine h.write hm (foldl_create _ key res) (.inl ?_) fun k hk => ?_
    · exact filter_erase_self hone
    · exact Dict.filter_erase (by simp_all [belongs_frrKey, Ne.symm]) _
  · rename_i hsame
    rw [not_or, not_not, not_not] at hsame
    have hkey : frrKey key res = frrKey key old := by rw [frrKey, hsame.1, hsame.2, frrKey]
    exact h.write hm (foldl_create _ key res) (.inr ⟨_, hkey ▸ hone⟩) fun _ _ => rfl

theorem Synced.delete (h : Synced s) (hget : s.bfdSessions.get? key = some res) :
    Synced ⟨s.bfdSessions.erase key, (enterBfd ++ createBfdPeerCmd key res true).foldl Frr.exec s.frr⟩ := by
  obtain ⟨ttl, hone⟩ := h.sessions key res hget
  rw [foldl_enterBfd]
  have hrest : ∀ k, k ≠ key →
      sessionsOf ((createBfdPeerCmd key res true).foldl Frr.exec { s.frr with node := none }) k = sessionsOf s.frr k :=
    fun k hk => Dict.filter_erase (by simp_all [belongs_frrKey, Ne.symm]) _
  have hne : ∀ k r, (s.bfdSessions.erase key).get? k = some r → k ≠ key := by grind
  refine ⟨fun k r hk => h.multihop k r (Dict.get?_of_erase hk), fun k r hk => ?_, fun k hk => ?_⟩
  · grind [h.sessions]
  · by_cases he : k = key
    · subst he
      exact filter_erase_self hone
    · rw [hrest k he]
      rw [Dict.get?_erase_ne (Ne.symm he)] at hk
      exact h.others k hk

theorem Synced.fail (h : Synced s) {cmds : List Cmd} {n : Nat} (hn : n ≤ 2) :
    Synced ⟨s.bfdSessions, ((enterBfd ++ cmds).take n).foldl Frr.exec s.frr⟩ := by
  have hsame : (((enterBfd ++ cmds).take n).foldl Frr.exec s.frr).sessions = s.frr.sessions := by
    obtain rfl | rfl | rfl : n = 0 ∨ n = 1 ∨ n = 2 := by omega
    · rfl
    · rfl
    · rfl
  exact ⟨h.multihop, fun k r hk => by rw [sessionsOf_congr hsame]; exact h.sessions k r hk,
    fun k hk => by rw [sessionsOf_congr hsame]; exact h.others k hk⟩

end

/-! ## Runs -/

def Outcome.clean : Outcome → Bool
  | .success => true
  | .failure executed => executed ≤ 2

def stepOk : Event → Bool
  | .set key data o => o.clean && (splitKey key).all fun session =>
    data.get? "multihop".toList ≠ some "true".toList ∨ session.interface = "default".toList
  | .del _ o => o.clean

theorem redisToLocalRes_multihop {data : Data} {res : Res} (h : redisToLocalRes data = some res)
    (hm : res.multihop = true) : data.get? "multihop".toList = some "true".toList := by
  simp only [redisToLocalRes, Option.bind_eq_bind, Option.bind_eq_some_iff] at h
  obtain ⟨_, _, _, _, _, _, h⟩ := h
  cases h
  cases hd : data.get? "multihop".toList with
  | none => rw [hd] at hm; cases hm
  | some v =>
    rw [hd] at hm
    rw [of_decide_eq_true hm]

theorem Synced.handle {s s' : St} {e : Event} {ok : Bool} (h : Synced s) (hok : stepOk e = true)
    (hs : BfdSession.handle s e = some (ok, s')) : Synced s' := by
  cases e with
  | set key data o =>
    obtain ⟨session, hkey, hs⟩ := Option.bind_eq_some_iff.mp hs
    simp only [stepOk, hkey, Option.all_some, Bool.and_eq_true, decide_eq_true_eq] at hok
    obtain ⟨hclean, hmulti⟩ := hok
    have hm : ∀ res, redisToLocalRes data = some res → res.multihop = true → session.interface = "default".toList :=
      fun res hr ht => hmulti.resolve_left (not_not.mpr (redisToLocalRes_multihop hr ht))
    cases hget : s.bfdSessions.get? session with
    | none =>
      rw [hget] at hs
      obtain ⟨res, hres, hs⟩ := Option.map_eq_some_iff.mp hs
      cases o with
      | success =>
        cases hs
        exact h.add hget (hm res hres)
      | failure n =>
        cases hs
        exact h.fail (of_decide_eq_true hclean)
    | some old =>
      rw [hget] at hs
      obtain ⟨res, hres, hs⟩ := Option.map_eq_some_iff.mp hs
      split at hs
      · cases hs
        exact h
      · cases o with
        | success =>
          cases hs
          exact h.update hget (hm res hres)
        | failure n =>
          cases hs
          exact h.fail (of_decide_eq_true hclean)
  | del key o =>
    obtain ⟨session, hkey, hs⟩ := Option.map_eq_some_iff.mp hs
    cases hget : s.bfdSessions.get? session with
    | none => simp_all
    | some res =>
      rw [hget] at hs
      cases o with
      | success =>
        cases hs
        exact h.delete hget
      | failure n =>
        cases hs
        exact h.fail (of_decide_eq_true hok)

/-- In every run whose failing invocations do nothing to a session, each event that is handled leaves FRR with exactly
the sessions of the local copy, and a SET is skipped only if FRR has its parameters. -/
theorem sessions_matched {s : St} {es : List Event} (h : Synced s)
    (hok : Along step (fun _ e => stepOk e = true) s es) :
    Along step (fun s e => (∀ s', handle s e = some (true, s') → Matches s') ∧
      ∀ session res, Skips s session res e → Has s.frr session res) s es := by
  refine along_inv step (fun s e s' (hi : Synced s) ho hs => ?_) (fun s e hi ho => ⟨fun s' hs => ?_, ?_⟩) h hok
  · obtain ⟨⟨ok, t⟩, ht, rfl⟩ := Option.map_eq_some_iff.mp hs
    exact hi.handle ho ht
  · exact fun key res hget => (hi.handle ho hs).has hget
  · intro session res hskip
    cases e with
    | set key data o => exact hi.has hskip.2.2
    | del key o => exact hskip.elim

def init : St := ⟨[], ⟨[], none⟩⟩

theorem synced_init : Synced init := ⟨nofun, nofun, fun _ _ => rfl⟩

def peerKey : Str := "default|default|10.0.0.1"

def peerSession : SessionKey := ⟨"default", "default", "10.0.0.1"⟩

def multiplierRow (n : String) : Data := [("multiplier", n.toList)]

theorem sessions_matched_recreated :
    Along step (fun s e => (∀ s', handle s e = some (true, s') → Matches s') ∧
      ∀ session res, Skips s session res e → Has s.frr session res) init
      [.set peerKey (multiplierRow "3") .success, .set peerKey (multiplierRow "5") (.failure 2),
        .set peerKey [("multihop".toList, "true".toList)] .success, .del peerKey .success] :=
  sessions_matched synced_init (by decide +kernel)

theorem sessions_not_matched :
    ∃ s, run step init [.set peerKey (multiplierRow "3") .success,
        .set peerKey (multiplierRow "5") (.failure 4)] = some s ∧
      Skips s peerSession getDefResFields (.set peerKey (multiplierRow "3") .success) ∧
      handle s (.set peerKey (multiplierRow "3") .success) = some (true, s) ∧
      ¬ Has s.frr peerSession getDefResFields ∧ ¬ Matches s := by
  have hnot : ∀ s : St, s.bfdSessions.get? peerSession = some getDefResFields →
      ((sessionsOf s.frr peerSession).map fun p => p.2.detectMultiplier) = [5] →
      ¬ Has s.frr peerSession getDefResFields ∧ ¬ Matches s := by
    intro s hget hfive
    have hhas : ¬ Has s.frr peerSession getDefResFields := by
      rintro ⟨k, v, hone, _, _, hmul, _⟩
      rw [hone, List.map_singleton, hmul] at hfive
      exact absurd hfive (by decide +kernel)
    exact ⟨hhas, fun hm => hhas (hm _ _ hget)⟩
  exact ⟨_, rfl, ⟨rfl, by decide +kernel, rfl⟩, rfl, hnot _ rfl (by decide +kernel)⟩

end Sonic.BfdSession
