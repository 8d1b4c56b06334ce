import Sonic.IccpMac

/-! # Entries that are aged on both switches

Every handler drops an entry when it sets the second age flag, but for one place: an ADD of the peer
for a static entry sets the flag of the peer back, also where it was not set before. -/

namespace Sonic.IccpMac

theorem AgeFlag.ne_both_of_local {a : AgeFlag} (h : a.localAged = false) : a ≠ .both := by
  rintro rfl
  cases h

theorem AgeFlag.ne_both_of_peer {a : AgeFlag} (h : a.peerAged = false) : a ≠ .both := by
  rintro rfl
  cases h

/-! ## Effects -/

def Effect.Ok (f : Effect) : Prop := f.removed = true ∨ f.entry.ageFlag ≠ .both

section
variable (env : Env) (set : Bool) (f : Effect)

@[simp] theorem setMacLocalAgeFlag_ageFlag :
    (setMacLocalAgeFlag env set f).entry.ageFlag = { f.entry.ageFlag with localAged := set } := by
  unfold setMacLocalAgeFlag
  split
  · rename_i h
    rw [← h]
  · split <;> rfl

end

theorem Effect.dropAged_ok (f : Effect) : f.dropAged.Ok := by
  unfold Effect.dropAged
  split
  · exact .inl rfl
  · rename_i h
    exact .inr h

section
variable {m : MacMsg} (hm : m.ageFlag ≠ .both)
include hm

theorem syncdAdd_ok (env : Env) (ifname : Str) (fdbType : FdbType) : (syncdAdd env ifname fdbType m).Ok := by
  unfold syncdAdd
  split
  · exact .inr hm
  · right
    split
    · exact AgeFlag.ne_both_of_local rfl
    · simp_all [AgeFlag.ne_both_of_local]

theorem syncdDel_ok (env : Env) (ifname : Str) : (syncdDel env ifname m).Ok := by
  unfold syncdDel
  split
  · split
    · exact .inr hm
    · exact Effect.dropAged_ok _
  · dsimp only
    split
    · exact Effect.dropAged_ok _
    · rename_i hage
      split
      · exact .inr hage
      · exact .inr hage

theorem updateL2MacState_ok (env : Env) (name : Str) (poState : Bool) : (updateL2MacState env name poState m).Ok := by
  unfold updateL2MacState
  split
  · exact .inr hm
  · split
    · split
      · exact .inr hm
      · split
        · split
          · exact .inr hm
          · exact .inl rfl
        · exact .inr hm
    · split
      · exact .inr hm
      · dsimp only
        split
        · exact Effect.dropAged_ok _
        · rename_i hage
          split
          · exact .inr hage
          · exact .inr hage

theorem peerDisconnFdb_ok (env : Env) : (peerDisconnFdb env m).Ok := by
  unfold peerDisconnFdb
  split
  · by_cases h : m.ageFlag.localAged = true
    · refine .inl ?_
      simp [h, AgeFlag.both]
    · refine .inr fun hboth => h ?_
      exact congrArg AgeFlag.localAged hboth
  · split
    · exact .inr (AgeFlag.ne_both_of_local rfl)
    · exact .inr hm

theorem peerlinkDown_ok (env : Env) : (peerlinkDown env m).Ok := by
  unfold peerlinkDown
  split
  · exact .inr hm
  · grind [Effect.dropAged_ok]

end

def setsBack (env : Env) (ifname : Str) (m : MacMsg) : Bool :=
  (m.ifname ≠ ifname ∨ m.originIfname ≠ ifname) && m.fdbType = .static &&
    (m.ageFlag.localAged || (env.fromMclagIntf ifname && m.pendingLocalDel))

theorem clearPeerAge_peerAged (env : Env) (ifname : Str) (m : MacMsg) :
    (clearPeerAge env ifname m).entry.ageFlag.peerAged = false := by
  unfold clearPeerAge
  split <;> rfl

theorem clearPeerAge_localAged (env : Env) (ifname : Str) (m : MacMsg) :
    (clearPeerAge env ifname m).entry.ageFlag.localAged =
      (m.ageFlag.localAged || (env.fromMclagIntf ifname && m.pendingLocalDel)) := by
  unfold clearPeerAge
  split
  · simp_all
  · rename_i h
    rw [← Bool.and_eq_true, Bool.not_eq_true] at h
    rw [h, Bool.or_false]
    rfl

theorem takePort_ok (env : Env) (ifname : Str) {f : Effect} (hf : f.entry.ageFlag.peerAged = false) :
    (takePort env ifname f).Ok := by
  have hset : (setMacLocalAgeFlag env true f).entry.ageFlag ≠ .both := by simp_all [AgeFlag.ne_both_of_peer]
  unfold takePort
  split
  · split
    · exact .inr hset
    · split
      · exact .inr hset
      · exact .inl rfl
  · exact .inr (AgeFlag.ne_both_of_peer hf)

theorem peerAdd_ok {env : Env} {ifname : Str} {m : MacMsg} (h : setsBack env ifname m = false) :
    (peerAdd env ifname m).Ok := by
  have hpeer := clearPeerAge_peerAged env ifname m
  unfold peerAdd
  split
  · rename_i hport
    split
    · rename_i hstatic
      refine .inr (AgeFlag.ne_both_of_local ((clearPeerAge_localAged env ifname m).trans ?_)) <;> simp_all [setsBack]
    · exact takePort_ok env ifname hpeer
  · split
    · exact .inr (AgeFlag.ne_both_of_peer hpeer)
    · exact .inr (AgeFlag.ne_both_of_peer hpeer)

theorem peerDel_ok (m : MacMsg) : (peerDel m).Ok := Effect.dropAged_ok _

def NoneAged (s : Node) : Prop := ∀ k m, s.macRb.get? k = some m → m.ageFlag ≠ .both

theorem NoneAged.apply {s : Node} (hs : NoneAged s) {f : Effect} (hf : f.Ok) (k : Key) : NoneAged (s.apply k f) := by
  intro k' m hm
  unfold Node.apply at hm
  dsimp only at hm
  split at hm
  · by_cases hk : k = k'
    · grind
    · rw [Dict.get?_erase_ne hk] at hm
      exact hs k' m hm
  · rename_i hr
    by_cases hk : k = k'
    · rw [hk, Dict.get?_set_self] at hm
      cases hm
      exact hf.resolve_left hr
    · rw [Dict.get?_set_ne _ hk] at hm
      exact hs k' m hm

theorem NoneAged.change {s : Node} (hs : NoneAged s) {k : Key} {g : MacMsg → Effect}
    (hg : ∀ m, s.macRb.get? k = some m → m.ageFlag ≠ .both → (g m).Ok) : NoneAged (s.change k g) := by
  unfold Node.change
  split
  · rename_i m hm
    exact hs.apply (hg m hm (hs k m hm)) k
  · exact hs

theorem NoneAged.forEach {s : Node} (hs : NoneAged s) {g : MacMsg → Effect}
    (hg : ∀ m, m.ageFlag ≠ .both → (g m).Ok) : NoneAged (s.forEach g) := by
  unfold Node.forEach
  generalize s.macRb.keys = ks
  induction ks generalizing s <;> grind [change]

/-! ## Runs -/

inductive Event where
  | ports (env : Env)
  | syncd (k : Key) (ifname : Str) (fdbType : FdbType) (opType : Op)
  | peer (d : MacData)
  | portChannel (name : Str) (poState : Bool)
  | peerlink (poState : Bool)
  | disconnect

def step (s : Node) : Event → Option Node
  | .ports env => some { s with env := env }
  | .syncd k ifname fdbType opType => some (doMacUpdateFromSyncd s k ifname fdbType opType)
  | .peer d => some (updateMacEntryFromPeer s d)
  | .portChannel name poState => some (s.forEach (updateL2MacState s.env name poState))
  | .peerlink poState => some (if poState then s else s.forEach (peerlinkDown s.env))
  | .disconnect => some (s.forEach (peerDisconnFdb s.env))

def peerOk (s : Node) : Event → Prop
  | .peer d => d.type = some .add → ∀ m, s.macRb.get? d.key = some m → setsBack s.env d.ifname m = false
  | _ => True

theorem NoneAged.step {s s' : Node} {e : Event} (hs : NoneAged s) (hok : peerOk s e) (he : step s e = some s') :
    NoneAged s' := by
  cases e with
  | ports env => cases he; exact hs
  | syncd k ifname fdbType opType =>
    cases he
    unfold doMacUpdateFromSyncd
    split
    · exact hs
    · cases opType with
      | add =>
        dsimp only
        split
        · exact hs
        · split
          · exact hs
          · split
            · grind [change, syncdAdd_ok]
            · unfold Node.learn
              split
              · exact hs
              · exact hs.apply (.inr (AgeFlag.ne_both_of_local rfl)) k
      | del => grind [change, syncdDel_ok]
  | peer d =>
    cases he
    unfold updateMacEntryFromPeer
    split
    · exact hs
    · split
      · rename_i htype
        split
        · exact hs.change fun m hm _ => peerAdd_ok (hok htype m hm)
        · unfold Node.learnPeer
          dsimp only
          split
          · split
            · split
              · exact hs.apply (.inr (AgeFlag.ne_both_of_peer rfl)) _
              · exact hs
            · exact hs.apply (.inr (AgeFlag.ne_both_of_peer rfl)) _
          · exact hs.apply (.inr (AgeFlag.ne_both_of_peer rfl)) _
      · exact hs.change fun m _ _ => peerDel_ok m
      · exact hs
  | portChannel name poState =>
    cases he
    grind [forEach, updateL2MacState_ok]
  | peerlink poState =>
    cases he
    grind [forEach, peerlinkDown_ok]
  | disconnect =>
    cases he
    exact hs.forEach fun m hm => peerDisconnFdb_ok hm _

instance (s : Node) : ∀ e, Decidable (peerOk s e)
  | .peer d =>
    match hm : s.macRb.get? d.key with
    | some m => decidable_of_iff (d.type = some .add → setsBack s.env d.ifname m = false) (by simp [peerOk, hm])
    | none => isTrue fun _ m h => by rw [hm] at h; cases h
  | .ports _ | .syncd .. | .portChannel .. | .peerlink _ | .disconnect => isTrue trivial

def Node.empty (env : Env) : Node := ⟨env, [], []⟩

theorem noneAged_of_run (env : Env) (events : List Event) (hok : Along step peerOk (Node.empty env) events) :
    ∃ s, run step (Node.empty env) events = some s ∧ ∀ k m, s.macRb.get? k = some m → m.ageFlag ≠ .both := by
  refine run_total step (fun s e _ _ => ?_) (fun s e s' hs hok he => NoneAged.step hs hok he) (fun k m hm => ?_) hok
  · cases e <;> exact ⟨_, rfl⟩
  · cases hm

def trunkEnv : Env :=
  ⟨"PortChannel10", [("PortChannel10", ⟨.up, false⟩), ("PortChannel1", ⟨.up, true⟩)],
    [("PortChannel1", .up)], true⟩

def staticAdd : Event := .peer ⟨⟨10, 1⟩, some .add, .static, "Ethernet4"⟩

theorem noneAged_relearned : ∃ s, run step (Node.empty trunkEnv)
      [.syncd ⟨10, 1⟩ "PortChannel1" .dynamic .add, .peer ⟨⟨10, 1⟩, some .add, .dynamic, "PortChannel1"⟩,
        .syncd ⟨10, 1⟩ "PortChannel1" .dynamic .del, .portChannel "PortChannel1" false] = some s ∧
    ∀ k m, s.macRb.get? k = some m → m.ageFlag ≠ .both :=
  noneAged_of_run trunkEnv _ (by decide +kernel)

theorem bothAged_static_again : ∃ s m, run step (Node.empty trunkEnv) [staticAdd, staticAdd] = some s ∧
    s.macRb.get? ⟨10, 1⟩ = some m ∧ m.ageFlag = .both :=
  ⟨_, _, (Option.some_get (by decide +kernel)).symm, (Option.some_get (by decide +kernel)).symm, by decide +kernel⟩

end Sonic.IccpMac
