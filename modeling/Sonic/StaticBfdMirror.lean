import Sonic.StaticBfdRoutes

/-! # The APPL_DB mirror of staticroutebfd

The daemon beside the table of BFD states it hears about. A stored bfd route that is not held has in
APPL_DB the row of its nexthops that STATE_DB reports up, and no row without one. -/

namespace Sonic.StaticBfd

open Str

/-! ## The daemon and STATE_DB -/

structure Sys where
  st : St
  stateDb : Str × Str × Str → Bool      -- the last reported state of vrf, interface, peer is UP

def sysInit : Sys := ⟨init, fun _ => false⟩

def Sys.up (y : Sys) (nh : Str × Str) : Bool := y.stateDb (nh.1, "default", nh.2)

def reportedUp (data : Row) : Bool := upper ((data.get? "state").getD "DOWN") = "UP"

def report (db : Str × Str × Str → Bool) : Ev → Str × Str × Str → Bool
  | .stateSet key data =>
    match bfdStateSplitKey key with
    | some k => Function.update db k (reportedUp data)
    | none => db
  | .stateDel key =>
    match bfdStateSplitKey key with
    | some k => Function.update db k false
    | none => db
  | _ => db

def sysStep (y : Sys) (e : Ev) : Option Sys := (step y.st e).map fun s => ⟨s, report y.stateDb e⟩

def Mirrored (y : Sys) : Prop :=
  ∀ r, bfdTrue (y.st.config r) = true → ¬ Held (y.st.config r) →
    Mirrors y.up (y.st.config r) (y.st.routeAppl (applKey r))

/-- A SET that the list checks skip does not change the bfd flag, and a stored
one meets `StoreOk`. A report that the daemon does not act on is no news for a
nexthop in use: the session is not in the local table, or the state is neither
UP nor DOWN. A report on another interface is not for a session of the local
table, and the end of one does not hit a nexthop that is up. -/
def mirrorOk (y : Sys) : Ev → Prop
  | .routeSet key data =>
    match staticRouteSplitKey key with
    | none => True
    | some (vrf, p) =>
      data ≠ [] → (checkIp p).isSome = true →
        match newLists y.st key vrf p data with
        | none => y.st.config (routeKey vrf p) = [] ∨ bfdTrue (y.st.config (routeKey vrf p)) = newBfd data
        | some lists => newBfd data = true → StoreOk y.up y.st vrf (routeKey vrf p) data lists
  | .stateSet key data =>
    match bfdStateSplitKey key with
    | none => True
    | some (vrf, intf, peer) =>
      if intf = "default".toList then
        (y.st.bfd (vrf ++ ':' :: intf ++ ':' :: peer) = [] ∨
          upper ((data.get? "state").getD "DOWN") ∉ ["UP".toList, "DOWN".toList]) →
        y.st.nexthop (nhKey vrf peer) ≠ [] → y.up (vrf, peer) = reportedUp data
      else y.st.bfd (vrf ++ ':' :: intf ++ ':' :: peer) = []
  | .stateDel key =>
    match bfdStateSplitKey key with
    | none => True
    | some (vrf, intf, peer) =>
      intf = "default".toList ∨ y.st.nexthop (nhKey vrf peer) = [] ∨ y.up (vrf, peer) = false
  | _ => True

instance (y : Sys) : ∀ e, Decidable (mirrorOk y e)
  | .routeSet key data =>
    match h : staticRouteSplitKey key with
    | none => isTrue (by simp [mirrorOk, h])
    | some (vrf, p) =>
      match hl : newLists y.st key vrf p data with
      | none => decidable_of_iff (data ≠ [] → (checkIp p).isSome = true →
          (y.st.config (routeKey vrf p) = [] ∨ bfdTrue (y.st.config (routeKey vrf p)) = newBfd data))
          (by simp only [mirrorOk, h, hl])
      | some lists => decidable_of_iff (data ≠ [] → (checkIp p).isSome = true → newBfd data = true →
          StoreOk y.up y.st vrf (routeKey vrf p) data lists) (by simp only [mirrorOk, h, hl])
  | .stateSet key data =>
    match h : bfdStateSplitKey key with
    | none => isTrue (by simp [mirrorOk, h])
    | some (vrf, intf, peer) => decidable_of_iff
        (if intf = "default".toList then
          (y.st.bfd (vrf ++ ':' :: intf ++ ':' :: peer) = [] ∨
            upper ((data.get? "state").getD "DOWN") ∉ ["UP".toList, "DOWN".toList]) →
          y.st.nexthop (nhKey vrf peer) ≠ [] → y.up (vrf, peer) = reportedUp data
        else y.st.bfd (vrf ++ ':' :: intf ++ ':' :: peer) = []) (by unfold mirrorOk; simp only; rw [h])
  | .stateDel key =>
    match h : bfdStateSplitKey key with
    | none => isTrue (by simp [mirrorOk, h])
    | some (vrf, intf, peer) => decidable_of_iff
        (intf = "default".toList ∨ y.st.nexthop (nhKey vrf peer) = [] ∨ y.up (vrf, peer) = false)
        (by unfold mirrorOk; simp only; rw [h])
  | .routeDel _ | .intfSet _ | .intfDel _ => isTrue trivial

theorem Routes.of_same {up : Str × Str → Bool} {s t : St} (h : Routes up s) (he : SameRoutes s t)
    (hr : t.routeAppl = s.routeAppl) : Routes up t := by
  refine ⟨h.toXInv.of_sameRoutes he, fun r => ?_, fun r hk => (h.routes r hk).congr ⟨?_, ?_, ?_⟩⟩
  · unfold KeysOk; rw [he.config]; exact h.keys r
  · rw [he.config]
  · rw [he.srt]
  · rw [hr]

theorem updatePending_routeAppl (ifName : Str) : ∀ (l : List (Str × Str × Str × Str)) (acc : St × List Str),
    (l.foldl (updatePendingEntry ifName) acc).1.routeAppl = acc.1.routeAppl
  | [], _ => rfl
  | e :: l, acc => by
    refine (updatePending_routeAppl ifName l (updatePendingEntry ifName acc e)).trans ?_
    unfold updatePendingEntry
    split
    split
    · split <;> rfl
    · rfl

theorem interfaceSet_routeAppl (s : St) (key : Str) : (interfaceSetHandler s key).routeAppl = s.routeAppl := by
  unfold interfaceSetHandler
  split
  · rfl
  · exact updatePending_routeAppl _ _ _

theorem interfaceDel_routeAppl (s : St) (key : Str) : (interfaceDelHandler s key).routeAppl = s.routeAppl := by
  grind [interfaceDelHandler]

theorem Routes.set {y : Sys} {s' : St} (h : Routes y.up y.st) {key : Str} {data : Row}
    (hok : mirrorOk y (.routeSet key data)) (hs : staticRouteSetHandler y.st key data = some s') :
    Routes y.up s' := by
  have hs := setStep_of_handler hs
  cases hs with
  | skip => exact h
  | @reject vrf p hd hk hip hl =>
    simp only [mirrorOk, hk, hl] at hok
    have hok := hok hd hip
    rcases toggled_cases h.wf data hk hip with ⟨hc, hf, _⟩ | ⟨hc, hf, hne, _⟩ | ⟨_,
      htog⟩ <;> simp_all [ne_nil_of_bfdTrue]
  | @plain vrf p lists hk hip hl hb =>
    have hoff := bfdTrue_set_false (newRow y.st key vrf p data).1
    rcases toggled_cases h.wf data hk hip with ⟨hc, _, htog⟩ | ⟨_, hf, _⟩ | ⟨hc, htog⟩
    · rw [htog]; exact h.turnOff hk hc hoff
    · rw [hb] at hf; cases hf
    · rw [htog]
      have hc : bfdTrue (y.st.config (routeKey vrf p)) = false := by grind [bfdTrue_nil]
      exact h.setOff ((h.toXInv.ready hc).setConfig_off hoff) hoff rfl (fun r' _ _ => .refl _ r')
        fun hkey => (h.routes _ hkey).row_of_off hc
  | @store vrf p lists _ hd hk hip hl hb hs =>
    simp only [mirrorOk, hk, hl] at hok
    exact h.storeRoute hk hip hl hb (hok hd hip hb) hs

section
variable (db : Str × Str × Str → Bool) {vrf peer : Str} (b : Bool)

theorem up_update_default (nh : Str × Str) :
    Function.update db (vrf, "default", peer) b (nh.1, "default", nh.2) =
      if nh = (vrf, peer) then b else db (nh.1, "default", nh.2) := by
  by_cases he : nh = (vrf, peer)
  · subst he; rw [if_pos rfl]; exact Function.update_self _ _ _
  · rw [if_neg he, Function.update_of_ne]
    grind

theorem up_update_ne {intf : Str} (hi : intf ≠ "default") (nh : Str × Str) :
    Function.update db (vrf, intf, peer) b (nh.1, "default", nh.2) = db (nh.1, "default", nh.2) := by
  refine Function.update_of_ne (fun hk => hi ?_) _ _
  simp_all

end

theorem Routes.foldUp {up up' : Str × Str → Bool} {s t : St} {v ip : Str} (h : Routes up s)
    (he : ∀ m, m ≠ (v, ip) → up m = up' m) (hup : up' (v, ip) = true)
    (hr : (s.nexthop (nhKey v ip)).foldlM (bfdUp (v, ip)) s = some t) : Routes up' t :=
  h.fold he (fun _ _ _ hx hm hu => hx.bfdUp hm hu) (fun _ _ _ hu => frames_bfdUp hu)
    (fun _ _ r _ hx hu hok hag hf => hok.bfdUp hag hup (hx.wf r) hu hf) hr

theorem Routes.foldDown {up up' : Str × Str → Bool} {s t : St} {v ip : Str} (h : Routes up s)
    (he : ∀ m, m ≠ (v, ip) → up m = up' m) (hup : up' (v, ip) = false)
    (hr : (s.nexthop (nhKey v ip)).foldlM (bfdDown (v, ip)) s = some t) : Routes up' t :=
  h.fold he (fun _ _ _ hx _ hu => hx.bfdDown hu) (fun _ _ _ hu => frames_bfdDown hu)
    (fun _ _ r _ hx hu hok hag hf => hok.bfdDown hag hup (hx.wf r) hu.2.1 hf) hr

theorem Routes.foldRemove {up up' : Str × Str → Bool} {s t : St} {v ip : Str} (h : Routes up s)
    (he : ∀ m, m ≠ (v, ip) → up m = up' m) (hup : up' (v, ip) = false)
    (hr : (s.nexthop (nhKey v ip)).foldlM (removeReachable (v, ip)) s = some t) : Routes up' t :=
  h.fold he (fun _ _ _ hx _ hu => hx.removeReachable hu) (fun _ _ _ hu => frames_removeReachable hu)
    (fun _ _ r _ hx hu hok hag hf => hok.removeReachable hag hup (hx.wf r) hu.2.1 hf) hr

theorem Routes.stateSet {y : Sys} {s' : St} (h : Routes y.up y.st) {key : Str} {data : Row}
    (hok : mirrorOk y (.stateSet key data)) (hs : bfdStateSetHandler y.st key data = some s') :
    Routes (Sys.up ⟨s', report y.stateDb (.stateSet key data)⟩) s' := by
  obtain ⟨vrf, intf, peer, hk, hc⟩ := stateSet_cases hs
  have hup : (Sys.up ⟨s', report y.stateDb (.stateSet key data)⟩) = fun nh =>
      Function.update y.stateDb (vrf, intf, peer) (reportedUp data) (nh.1, "default", nh.2) := by
    funext nh; simp only [Sys.up, report, hk]
  rw [hup]
  simp only [mirrorOk, hk] at hok
  have hset : ∀ k d, Routes y.up (y.st.setBfd k d) := fun k d => h.of_same (sameRoutes_setBfd _ _ _) rfl
  by_cases hi : intf = "default".toList
  · subst hi
    rw [if_pos rfl] at hok
    -- a report that is not acted on leaves the nexthops in use as they were
    have hnews : (y.st.bfd (vrf ++ ':' :: "default".toList ++ ':' :: peer) = [] ∨
        upper ((data.get? "state").getD "DOWN") ∉ ["UP".toList, "DOWN".toList]) →
        ∀ v ip, y.st.nexthop (nhKey v ip) ≠ [] → y.up (v, ip) =
          Function.update y.stateDb (vrf, "default", peer) (reportedUp data) (v, "default", ip) := by
      intro hq v ip hn
      rw [up_update_default _ _ (v, ip)]
      split
      · rename_i he; cases he; exact hok hq hn
      · rfl
    have hother : ∀ m, m ≠ (vrf, peer) → y.up m =
        Function.update y.stateDb (vrf, "default", peer) (reportedUp data) (m.1, "default", m.2) := by
      intro m hm
      rw [up_update_default, if_neg hm]; rfl
    have hself : Function.update y.stateDb (vrf, "default", peer) (reportedUp data) (vrf, "default", peer) =
        reportedUp data := Function.update_self _ _ _
    rcases hc with ⟨hb, rfl⟩ | ⟨_, hu, hf⟩ | ⟨_, hd, hf⟩ | ⟨_, hu, hd, rfl⟩
    · exact h.congr_up (hnews (Or.inl hb))
    · refine (hset _ _).foldUp hother (hself.trans ?_) hf
      simpa only [reportedUp, decide_eq_true_eq] using hu
    · refine (hset _ _).foldDown hother (hself.trans ?_) hf
      unfold reportedUp
      rw [hd]; decide
    · refine (hset _ _).congr_up (hnews (Or.inr ?_))
      simp only [List.mem_cons, List.not_mem_nil, or_false, not_or]
      exact ⟨hu, hd⟩
  · rw [if_neg hi] at hok
    rcases hc with ⟨_, rfl⟩ | ⟨hb, _⟩ | ⟨hb, _⟩ | ⟨hb, _⟩
    · exact h.congr_up fun v ip _ => (up_update_ne y.stateDb _ hi (v, ip)).symm
    · exact (hb hok).elim
    · exact (hb hok).elim
    · exact (hb hok).elim

theorem Routes.stateDel {y : Sys} {s' : St} (h : Routes y.up y.st) {key : Str}
    (hok : mirrorOk y (.stateDel key)) (hs : bfdStateDelHandler y.st key = some s') :
    Routes (Sys.up ⟨s', report y.stateDb (.stateDel key)⟩) s' := by
  unfold bfdStateDelHandler at hs
  cases hk : bfdStateSplitKey key with
  | none => rw [hk] at hs; cases hs
  | some q =>
    obtain ⟨vrf, intf, peer⟩ := q
    rw [hk] at hs
    simp only [mirrorOk, hk] at hok hs
    have hup : (Sys.up ⟨s', report y.stateDb (.stateDel key)⟩) = fun nh =>
        Function.update y.stateDb (vrf, intf, peer) false (nh.1, "default", nh.2) := by
      funext nh; simp only [Sys.up, report, hk]
    rw [hup]
    by_cases hi : intf = "default"
    · subst hi
      refine h.foldRemove (fun m hm => ?_) (Function.update_self _ _ _) hs
      rw [up_update_default, if_neg hm]; rfl
    · have he : ∀ nh, y.up nh = Function.update y.stateDb (vrf, intf, peer) false (nh.1, "default", nh.2) :=
        fun nh => (up_update_ne y.stateDb _ hi nh).symm
      rcases hok.resolve_left hi with hn | hdown
      · rw [hn] at hs
        cases hs
        exact h.congr_up fun v ip _ => he (v, ip)
      · exact h.foldRemove (fun m _ => he m) ((he (vrf, peer)).symm.trans hdown) hs

theorem Routes.init : Routes sysInit.up sysInit.st :=
  ⟨XInv.init, fun _ hb => (by cases hb), fun _ _ => .off rfl rfl⟩

theorem Routes.step {y y' : Sys} {e : Ev} (h : Routes y.up y.st) (hok : mirrorOk y e) (hs : sysStep y e = some y') :
    Routes y'.up y'.st := by
  obtain ⟨s', hs', rfl⟩ := Option.map_eq_some_iff.mp hs
  clear hs
  cases e with
  | routeSet key data => exact h.set hok hs'
  | routeDel key => cases hs'; exact h.del key
  | intfSet key => cases hs'; exact h.of_same (sameRoutes_interfaceSet _ key) (interfaceSet_routeAppl _ key)
  | intfDel key => cases hs'; exact h.of_same (sameRoutes_interfaceDel _ key) (interfaceDel_routeAppl _ key)
  | stateSet key data => exact h.stateSet hok hs'
  | stateDel key => exact h.stateDel hok hs'

theorem Routes.mirrored {y : Sys} (h : Routes y.up y.st) : Mirrored y := by
  intro r hb hh
  cases h.routes r (h.keys r hb).1 <;> simp_all

/-- **APPL_DB mirror.** In every run whose events meet `mirrorOk`, a bfd route
that is not held shows in APPL_DB the nexthops STATE_DB reports up. -/
theorem mirrored_of_run {es : List Ev} {y : Sys} (hok : Along sysStep mirrorOk sysInit es)
    (hr : run sysStep sysInit es = some y) : Mirrored y :=
  (run_inv sysStep (fun _ _ _ => Routes.step) Routes.init hok hr).mirrored

theorem mirrored_two_routes : ∃ y, run sysStep sysInit
    [.intfSet "if1|10.0.0.1/24",
     .routeSet "2.2.2.0/24" [("bfd", "false"), ("nexthop", "10.0.0.2"), ("ifname", "if1")],
     .routeSet "2.2.2.0/24" [("bfd", "true"), ("nexthop", "10.0.0.2"), ("ifname", "if1"), ("distance", "5")],
     .routeSet "red|3.3.3.0/24" [("bfd", "true"), ("nexthop", "10.0.0.2,10.0.0.3"), ("ifname", "if1,if1"),
       ("nexthop-vrf", "default, ")],
     .stateSet "default|default|10.0.0.2" [("state", "Up")],
     .stateSet "red|default|10.0.0.3" [("state", "Up")],
     .routeSet "red|3.3.3.0/24" [("bfd", "true"), ("nexthop", "10.0.0.3"), ("ifname", "if1")],
     .stateSet "red|default|10.0.0.3" [("state", "Down")],
     .stateDel "default|default|10.0.0.2"] = some y ∧ Mirrored y :=
  ⟨_, (Option.some_get (by decide +kernel)).symm, mirrored_of_run (by decide +kernel) (Option.some_get _).symm⟩

theorem not_mirrored_stale_nexthop : ∃ y, run sysStep sysInit
    [.intfSet "if1|10.0.0.1/24",
     .routeSet "2.2.2.0/24" [("bfd", "true"), ("nexthop", "10.0.0.2"), ("ifname", "if1")],
     .stateSet "default|default|10.0.0.2" [("state", "Up")],
     .routeSet "2.2.2.0/24" [("bfd", "true"), ("nexthop", "10.0.0.3"), ("ifname", "if1")]] = some y ∧
    ¬ Mirrored y := by
  refine ⟨_, (Option.some_get (by decide +kernel)).symm, fun h => ?_⟩
  obtain ⟨vs, is, ns, hl, h⟩ := h "default|2.2.2.0/24" (by decide +kernel) (by decide +kernel)
  have hv : some vs = some ["default".toList] := hl.vrfs.symm.trans (by decide +kernel)
  have hn : some ns = some ["10.0.0.3".toList] := hl.nexthops.symm.trans (by decide +kernel)
  cases hv
  cases hn
  rcases h with ⟨_, hrow⟩ | ⟨hlive, _⟩
  · revert hrow; decide +kernel
  · exact hlive (by decide +kernel)

end Sonic.StaticBfd
