import Sonic.StaticBfdSteps

/-! # Every BFD session has a route

A session in APPL_DB belongs to a nexthop that some route still uses. The sessions are counted
through `LOCAL_NEXTHOP_TABLE`; the ones that wait for an interface address are not, and a request
that outlives the last route of its nexthop turns into a session nobody owns. -/

namespace Sonic.StaticBfd
open List

open Str

variable {s s' t : St} {r key vrf p : Str} {data d : Row} {nh : Str × Str} {new : List (Str × Str)}

/-! ## Ownership -/

/-- Session `k` is the one of a nexthop with a route. -/
def Referenced (s : St) (k : Str) : Prop := ∃ v ip, '|' ∉ v ∧ k = bfdKey v ip ∧ s.nexthop (nhKey v ip) ≠ []

def Owned (s : St) : Prop := ∀ k, s.bfdAppl k ≠ none → Referenced s k

structure Sessions (s : St) (new : List (Str × Str)) : Prop where
  owned : Owned s
  waiting : ∀ e ∈ s.pending, ∃ v, '|' ∉ v ∧ e.2.2.2 = bfdKey v e.2.2.1 ∧
    ((v, e.2.2.1) ∈ new ∨ s.nexthop (nhKey v e.2.2.1) ≠ [])

def sessionVrf (k ip : Str) : Str := k.take (k.length - (":default:".toList.length + ip.length))

theorem sessionVrf_bfdKey (v ip : Str) : sessionVrf (bfdKey v ip) ip = v := by
  grind [sessionVrf, bfdKey, take_left']

theorem Referenced.mono {k : Str} (h : Referenced s k)
    (hn : ∀ k, s.nexthop k ≠ [] → t.nexthop k ≠ []) : Referenced t k := by
  obtain ⟨v, ip, hv, hk, hne⟩ := h
  exact ⟨v, ip, hv, hk, hn _ hne⟩

structure SameSessions (s t : St) : Prop where
  nexthop : t.nexthop = s.nexthop
  bfdAppl : t.bfdAppl = s.bfdAppl
  pending : t.pending = s.pending

theorem SameSessions.refl (s : St) : SameSessions s s := ⟨rfl, rfl, rfl⟩

theorem Owned.of_same (h : Owned s) (he : SameSessions s t) : Owned t := by
  intro k hk
  rw [he.bfdAppl] at hk
  exact (h k hk).mono fun k hk => by rwa [he.nexthop]

theorem Sessions.of_same (h : Sessions s new) (he : SameSessions s t) :
    Sessions t new :=
  ⟨h.owned.of_same he, fun e hm => by grind [he.nexthop, he.pending, h.waiting]⟩

theorem Owned.dropNexthop (h : Owned s) (r : Str) (nh : Str × Str) (hv : '|' ∉ nh.1) :
    Owned (dropNexthop r s nh) := by
  have hne : ∀ {v ip}, '|' ∉ v → (v, ip) ≠ nh → nhKey v ip ≠ nhKey nh.1 nh.2 := by
    intro v ip hv' hne he
    obtain ⟨h₁, h₂⟩ := append_sep_inj hv' hv he
    simp_all
  intro k hk
  unfold StaticBfd.dropNexthop at hk ⊢
  simp only at hk ⊢
  split at hk
  · rename_i he
    rw [if_pos he]
    have hkne : k ≠ bfdKey nh.1 nh.2 := by
      rintro rfl
      simp [delBfdSessionFromApplDb] at hk
    have hk' : s.bfdAppl k ≠ none := by
      simpa [delBfdSessionFromApplDb, St.setBfd, removeFromNhTableEntry, St.setNexthop,
        Function.update_of_ne hkne] using hk
    obtain ⟨v, ip, hv', rfl, hn⟩ := h k hk'
    have hd : (v, ip) ≠ nh := by grind
    exact ⟨v, ip, hv', rfl, by
      simpa [delBfdSessionFromApplDb, St.setBfd, removeFromNhTableEntry, St.setNexthop,
        Function.update_of_ne (hne hv' hd)] using hn⟩
  · rename_i he
    rw [if_neg he]
    obtain ⟨v, ip, hv', rfl, hn⟩ := h k hk
    refine ⟨v, ip, hv', rfl, ?_⟩
    by_cases hd : (v, ip) = nh
    · subst hd; exact he
    · simp_all [removeFromNhTableEntry, St.setNexthop]

theorem dropNexthop_pending (r : Str) (s : St) (nh : Str × Str) : (dropNexthop r s nh).pending = s.pending := by
  unfold dropNexthop; simp only; split <;> rfl

theorem Owned.dropAll (r : Str) : ∀ {l : List (Str × Str)} {s : St}, Owned s → (∀ nh ∈ l, '|' ∉ nh.1) →
    Owned (l.foldl (StaticBfd.dropNexthop r) s) ∧ (l.foldl (StaticBfd.dropNexthop r) s).pending = s.pending
  | [], s, h, _ => ⟨h, rfl⟩
  | nh :: l, s, h, hl => by
    obtain ⟨h₁, h₂⟩ := dropAll r (h.dropNexthop r nh (hl nh mem_cons_self))
      fun nh' hm => hl nh' (mem_cons_of_mem _ hm)
    grind [dropNexthop_pending]

theorem Owned.removeAll (r : Str) (new : List (Str × Str × Str)) :
    ∀ {l : List (Str × Str × Str)} {s : St}, Owned s → (∀ t ∈ l, '|' ∉ t.1) →
      Owned (l.foldl (removeDeleted r new) s) ∧ (l.foldl (removeDeleted r new) s).pending = s.pending
  | [], s, h, _ => ⟨h, rfl⟩
  | t :: l, s, h, hl => by
    have hl' : ∀ t' ∈ l, '|' ∉ t'.1 := fun t' hm => hl t' (mem_cons_of_mem _ hm)
    have hone : Owned (removeDeleted r new s t) ∧ (removeDeleted r new s t).pending = s.pending := by
      unfold removeDeleted
      split
      · exact ⟨h, rfl⟩
      · have ho : Owned (removeFromSrtTableEntry s r (t.1, t.2.2)) := h.of_same ⟨rfl, rfl, rfl⟩
        refine ⟨ho.dropNexthop r (t.1, t.2.2) (hl t mem_cons_self), ?_⟩
        rw [dropNexthop_pending]; rfl
    obtain ⟨h₁, h₂⟩ := removeAll r new hone.1 hl' <;> simp_all

/-- No request for a nexthop waits for route `r` alone, unless the nexthop is
one of `new`. -/
def Leaves (s : St) (r : Str) (new : List (Str × Str)) : Prop :=
  ∀ e ∈ s.pending, (sessionVrf e.2.2.2 e.2.2.1, e.2.2.1) ∈ new ∨
    ∃ r' ∈ s.nexthop (nhKey (sessionVrf e.2.2.2 e.2.2.1) e.2.2.1), r' ≠ r

instance (s : St) (r : Str) (new : List (Str × Str)) : Decidable (Leaves s r new) :=
  inferInstanceAs (Decidable (∀ e ∈ s.pending, _ ∨ _))

theorem Sessions.remove (h : Sessions s []) (hl : Leaves s r new)
    (ho : Owned t) (hp : t.pending = s.pending)
    (hr : ∀ k r', r' ≠ r → r' ∈ s.nexthop k → r' ∈ t.nexthop k) : Sessions t new := by
  refine ⟨ho, fun e hm => ?_⟩
  rw [hp] at hm
  obtain ⟨v, hv, hk, _⟩ := h.waiting e hm
  have hl := hl e hm
  rw [hk, sessionVrf_bfdKey] at hl
  grind

theorem addNexthop_session (r : Str) (s : St) (v i ip : Str) :
    (∀ k, (addNexthop r s (v, i, ip)).bfdAppl k ≠ none → s.bfdAppl k ≠ none ∨ k = bfdKey v ip) ∧
      ∀ e ∈ (addNexthop r s (v, i, ip)).pending, e ∈ s.pending ∨ (e.2.2.2 = bfdKey v ip ∧ e.2.2.1 = ip) := by
  have hnew : ∀ (u : St) (a k : Str), (createBfdSession u (bfdKey v ip) a).bfdAppl k ≠ none →
      u.bfdAppl k ≠ none ∨ k = bfdKey v ip := by
    intro u a k hk
    by_cases he : k = bfdKey v ip <;> simp_all [createBfdSession, setBfdSessionIntoApplDb, St.setBfd]
  have hwait : ∀ (u : St) (e : Str × Str × Str × Str),
      e ∈ u.pending.set (i ++ '_' :: bfdKey v ip) (i, ip, bfdKey v ip) →
      e ∈ u.pending ∨ (e.2.2.2 = bfdKey v ip ∧ e.2.2.1 = ip) := by
    intro u e hm
    rcases Dict.mem_set hm with hm | rfl
    · exact Or.inl hm
    · exact Or.inr ⟨rfl, rfl⟩
  unfold addNexthop
  simp only
  generalize hu : (if s.bfd (bfdKey v ip) = [] then s
    else s.setBfd (bfdKey v ip) ((s.bfd (bfdKey v ip)).set "static_route" "true")) = u
  have hb : u.bfdAppl = s.bfdAppl := by rw [← hu]; split <;> rfl
  have hp : u.pending = s.pending := by rw [← hu]; split <;> rfl
  rw [← hb, ← hp]
  split
  · split
    · exact ⟨fun k hk => Or.inl hk, fun e hm => hwait u e hm⟩
    · exact ⟨fun k hk => hnew u _ k hk, fun e hm => Or.inl hm⟩
  · exact ⟨fun k hk => Or.inl hk, fun e hm => Or.inl hm⟩

theorem addNexthop_nonempty (r : Str) (s : St) (t : Str × Str × Str) :
    (∀ k, s.nexthop k ≠ [] → (addNexthop r s t).nexthop k ≠ []) ∧
      (addNexthop r s t).nexthop (nhKey t.1 t.2.2) ≠ [] := by
  have h := (addNexthop_spec r s t).2.2.2
  refine ⟨fun k hk => ?_, ne_nil_of_mem ((h _ r).mpr (Or.inr ⟨rfl, rfl⟩))⟩
  obtain ⟨r', hm⟩ := exists_mem_of_ne_nil _ hk
  grind

theorem Sessions.addNexthop {v ip : Str} (h : Sessions s ((v, ip) :: new))
    (hv : '|' ∉ v) (r i : Str) : Sessions (addNexthop r s (v, i, ip)) new := by
  obtain ⟨hb, hp⟩ := addNexthop_session r s v i ip
  obtain ⟨hkeep, hself⟩ := addNexthop_nonempty r s (v, i, ip)
  refine ⟨fun k hk => ?_, fun e hm => ?_⟩
  · rcases hb k hk with hk | rfl
    · exact (h.owned k hk).mono hkeep
    · exact ⟨v, ip, hv, rfl, hself⟩
  · grind [h.waiting]

def nhPairs (l : List (Str × Str × Str)) : List (Str × Str) := l.map fun t => (t.1, t.2.2)

theorem Sessions.addAll (r : Str) : ∀ {l : List (Str × Str × Str)} {s : St}, Sessions s (nhPairs l) →
    (∀ t ∈ l, '|' ∉ t.1) → Sessions (l.foldl (StaticBfd.addNexthop r) s) []
  | [], _, h, _ => h
  | t :: l, _, h, hl =>
    addAll r (l := l) (h.addNexthop (hl t mem_cons_self) r t.2.1) fun t hm => hl t (mem_cons_of_mem _ hm)

theorem updatePending_owned (ifName : Str) : ∀ {l : List (Str × Str × Str × Str)} {acc : St × List Str},
    Owned acc.1 → (∀ e ∈ l, Referenced acc.1 e.2.2.2) → Owned (l.foldl (updatePendingEntry ifName) acc).1 ∧
      (l.foldl (updatePendingEntry ifName) acc).1.pending = acc.1.pending
  | [], acc, h, _ => ⟨h, rfl⟩
  | e :: l, acc, h, hl => by
    have hone : Owned (updatePendingEntry ifName acc e).1 ∧
        (updatePendingEntry ifName acc e).1.nexthop = acc.1.nexthop ∧
        (updatePendingEntry ifName acc e).1.pending = acc.1.pending := by
      obtain ⟨j, intf, ip, bfdk⟩ := e
      unfold updatePendingEntry
      simp only
      split
      · split
        · exact ⟨h, rfl, rfl⟩
        · refine ⟨fun k hk => ?_, rfl, rfl⟩
          by_cases he : k = bfdk
          · subst he; exact hl (j, intf, ip, k) mem_cons_self
          · refine h k ?_
            simp_all [createBfdSession, setBfdSessionIntoApplDb, St.setBfd]
      · exact ⟨h, rfl, rfl⟩
    have hl' : ∀ e' ∈ l, Referenced (updatePendingEntry ifName acc e).1 e'.2.2.2 := fun e' hm =>
      (hl e' (mem_cons_of_mem _ hm)).mono fun k hk => by rwa [hone.2.1]
    obtain ⟨h₁, h₂⟩ := updatePending_owned ifName hone.1 hl'
    grind

theorem mem_eraseAll {p : Str × Str × Str × Str} : ∀ {ks : List Str} {d : Dict Str (Str × Str × Str)},
    p ∈ ks.foldl Dict.erase d → p ∈ d
  | [], _, h => h
  | _ :: _, _, h => (Dict.mem_erase.mp (mem_eraseAll h)).1

theorem Sessions.updateBfdPending (h : Sessions s []) (ifName : Str) :
    Sessions (updateBfdPending s ifName) [] := by
  have href : ∀ e ∈ s.pending, Referenced s e.2.2.2 := fun e hm => by
    obtain ⟨v, hv, hk, hn⟩ := h.waiting e hm
    exact ⟨v, _, hv, hk, hn.resolve_left not_mem_nil⟩
  obtain ⟨ho, hp⟩ := @updatePending_owned ifName s.pending (s, []) h.owned href
  have hroutes := sameRoutes_updatePending ifName s.pending (s, [])
  unfold StaticBfd.updateBfdPending
  refine ⟨fun k hk => ho k hk, fun e hm => ?_⟩
  grind [mem_eraseAll, h.waiting, hroutes.nexthop]

theorem Sessions.interfaceSet (h : Sessions s []) (key : Str) : Sessions (interfaceSetHandler s key) [] := by
  unfold interfaceSetHandler
  split
  · exact h
  · refine Sessions.updateBfdPending ?_ _
    exact h.of_same ⟨rfl, rfl, rfl⟩

theorem sameSessions_interfaceDel (s : St) (key : Str) : SameSessions s (interfaceDelHandler s key) := by
  unfold interfaceDelHandler
  cases getIpFromKey key with
  | none => exact .refl _
  | some q =>
    obtain ⟨isIpv4, ifName, ip⟩ := q
    simp only
    split
    · exact .refl _
    · exact ⟨rfl, rfl, rfl⟩

/-! ## Routes -/

def NoBar (d : Row) : Prop := bfdTrue d = true → ∀ l, field d "nexthop-vrf" = some l → ∀ v ∈ l, '|' ∉ v

theorem mem_of_argList {v : Str} {l : List Str} {c : Char} (h : argList v = some l) (hp : p ∈ l) (hc : c ∈ p) :
    c ∈ v := by grind [argList, mem_of_mem_split, mem_of_mem_strip]

theorem noBar_newRow {vs is ns : List Str}
    (hl : newLists s key vrf p data = some (vs, is, ns)) (hv : ∀ v ∈ vs, '|' ∉ v) :
    NoBar (newRow s key vrf p data).1 := by
  intro _ l hf v hm hbar
  unfold field at hf
  rw [(newRow_vrfs hl).1] at hf
  rcases mem_join (mem_of_argList hf hm hbar) with h | ⟨q, hq, hc⟩ <;> simp_all

theorem noBar_hold0 (h : NoBar d) : NoBar (hold0 d) := by
  intro hb l hl
  unfold hold0 at hb hl
  rw [bfdTrue_set_ne d (by decide)] at hb
  rw [field_set_ne d (by decide)] at hl
  exact h hb l hl

theorem noBar_pairs (h : NoBar d) (hb : bfdTrue d = true) : ∀ nh ∈ pairs d, '|' ∉ nh.1 := by
  intro nh hm
  unfold pairs at hm
  split at hm
  · rename_i vs ns hv hn
    exact h hb vs hv nh.1 (of_mem_zip hm).1
  · cases hm

theorem noBar_existing {cur : Row} {nhList : List Str} {old : List (Str × Str × Str)} (h : NoBar cur)
    (hb : bfdTrue cur = true) (hv : '|' ∉ vrf) (ho : existingNexthops vrf cur nhList = some old) :
    ∀ t ∈ old, '|' ∉ t.1 := by
  intro t hm
  unfold existingNexthops at ho
  split at ho
  · cases ho
    have hm := (of_mem_zip (show (t.1, t.2) ∈ _ from hm)).1
    cases hf : field cur "nexthop-vrf" with
    | none => grind
    | some vs => rw [hf] at hm; exact h hb vs hf t.1 hm
  · cases ho

theorem splitKey_noBar (hk : staticRouteSplitKey key = some (vrf, p)) : '|' ∉ vrf := by
  unfold staticRouteSplitKey at hk
  split at hk
  · cases hk
  · split at hk
    · cases hk; decide
    · grind [not_mem_split]
    · cases hk

structure SInv (s : St) : Prop extends Sessions s [] where
  rows : ∀ r, NoBar (s.config r)

theorem dropNexthops_cases (r : Str) (s : St) (data : Row) :
    ∃ l, (l = [] ∨ bfdTrue data = true ∧ l = pairs data) ∧ dropNexthops r s data = l.foldl (dropNexthop r) s := by
  unfold dropNexthops
  split <;> grind [pairs]

theorem del_sessions (s : St) (key : Str) (redisDel : Bool) :
    staticRouteDelHandler s key redisDel = s ∨
      ∃ vrf p l, staticRouteSplitKey key = some (vrf, p) ∧
        (l = [] ∨ bfdTrue (s.config (routeKey vrf p)) = true ∧ l = pairs (s.config (routeKey vrf p))) ∧
        SameSessions (l.foldl (dropNexthop (routeKey vrf p)) s) (staticRouteDelHandler s key redisDel) ∧
        (staticRouteDelHandler s key redisDel).config =
          if redisDel then Function.update s.config (routeKey vrf p) [] else s.config := by
  unfold staticRouteDelHandler
  cases hk : staticRouteSplitKey key with
  | none => exact Or.inl rfl
  | some q =>
    obtain ⟨vrf, p⟩ := q
    simp only
    split
    · exact Or.inl rfl
    split
    · exact Or.inl rfl
    right
    obtain ⟨l, hl, he⟩ := dropNexthops_cases (routeKey vrf p) s (s.config (routeKey vrf p))
    rw [he]
    have hc : (l.foldl (dropNexthop (routeKey vrf p)) s).config = s.config := (dropAll_spec _ l s).1
    refine ⟨vrf, p, l, rfl, hl, ?_⟩
    generalize bfdTrue (s.config (routeKey vrf p)) = b
    rw [← hc]
    cases b <;> cases redisDel <;> exact ⟨⟨rfl, rfl, rfl⟩, rfl⟩

/-- No request is left without a route by a DEL or an edit, and the vrfs of an
accepted bfd SET do not hold the separator of the keys. -/
def sessionOk (s : St) : Ev → Prop
  | .routeSet key data =>
    match staticRouteSplitKey key with
    | none => True
    | some (vrf, p) =>
      (bfdTrue (s.config (routeKey vrf p)) = true → newBfd data = false → Leaves s (routeKey vrf p) []) ∧
        match newLists s key vrf p data with
        | none => True
        | some (vs, is, ns) => newBfd data = true → (∀ v ∈ vs, '|' ∉ v) ∧
            (bfdTrue (s.config (routeKey vrf p)) = true → Leaves s (routeKey vrf p) (nhPairs (zip3 vs is ns)))
  | .routeDel key =>
    match staticRouteSplitKey key with
    | none => True
    | some (vrf, p) => bfdTrue (s.config (routeKey vrf p)) = true → Leaves s (routeKey vrf p) []
  | _ => True

instance (s : St) : ∀ e, Decidable (sessionOk s e)
  | .routeSet key data =>
    match h : staticRouteSplitKey key with
    | none => isTrue (by simp [sessionOk, h])
    | some (vrf, p) =>
      match hl : newLists s key vrf p data with
      | none => decidable_of_iff
          (bfdTrue (s.config (routeKey vrf p)) = true → newBfd data = false → Leaves s (routeKey vrf p) [])
          (by simp [sessionOk, h, hl])
      | some (vs, is, ns) => decidable_of_iff
          ((bfdTrue (s.config (routeKey vrf p)) = true → newBfd data = false → Leaves s (routeKey vrf p) []) ∧
            (newBfd data = true → (∀ v ∈ vs, '|' ∉ v) ∧
              (bfdTrue (s.config (routeKey vrf p)) = true → Leaves s (routeKey vrf p) (nhPairs (zip3 vs is ns)))))
          (by simp only [sessionOk, h, hl])
  | .routeDel key =>
    match h : staticRouteSplitKey key with
    | none => isTrue (by simp [sessionOk, h])
    | some (vrf, p) => decidable_of_iff
        (bfdTrue (s.config (routeKey vrf p)) = true → Leaves s (routeKey vrf p) []) (by simp only [sessionOk, h])
  | .intfSet _ | .intfDel _ | .stateSet _ _ | .stateDel _ => isTrue trivial

theorem SInv.del (h : SInv s) {redisDel : Bool}
    (hok : ∀ vrf p, staticRouteSplitKey key = some (vrf, p) → bfdTrue (s.config (routeKey vrf p)) = true →
      Leaves s (routeKey vrf p) []) : SInv (staticRouteDelHandler s key redisDel) := by
  rcases del_sessions s key redisDel with e | ⟨vrf, p, l, hk, hl, hsame, hc⟩
  · rw [e]; exact h
  refine ⟨Sessions.of_same ?_ hsame, fun r => ?_⟩
  · rcases hl with rfl | ⟨hb, rfl⟩
    · exact h.toSessions
    · obtain ⟨ho, hp⟩ := h.owned.dropAll (routeKey vrf p) (noBar_pairs (h.rows _) hb)
      refine h.toSessions.remove (hok vrf p hk hb) ho hp fun k r' hne hm => ?_ <;> simp_all [dropAll_spec]
  · rw [hc]
    cases redisDel with
    | false => exact h.rows r
    | true =>
      by_cases hr : r = routeKey vrf p
      · subst hr
        intro hb
        simp [bfdTrue_nil] at hb
      · simpa [Function.update_of_ne hr] using h.rows r

theorem SInv.of_same (h : SInv s) (he : SameSessions s t) (hc : t.config = s.config) : SInv t :=
  ⟨h.toSessions.of_same he, fun r => by rw [hc]; exact h.rows r⟩

theorem SInv.setConfig (h : Sessions s []) (hr : ∀ r', r' ≠ r → NoBar (s.config r'))
    (hd : NoBar d) : SInv (s.setConfig r d) := by
  refine ⟨h.of_same ⟨rfl, rfl, rfl⟩, fun r' => ?_⟩
  by_cases he : r' = r <;> simp_all [St.setConfig]

theorem SInv.publish (h : SInv s) (r : Str) (cfg : Row) : SInv (publish s r cfg) :=
  SInv.of_same (SInv.setConfig h.toSessions (fun r' _ => h.rows r') (noBar_hold0 (h.rows r))) ⟨rfl, rfl, rfl⟩ rfl

theorem SInv.refresh (h : SInv s) (hr : refreshActiveNh s r = some s') : SInv s' := by
  rcases refresh_cases hr with ⟨_, rfl⟩ | ⟨_, cfg, _, rfl⟩
  · exact h
  · refine SInv.publish (h.of_same ?_ ?_) r cfg
    · rw [reach_eq]; exact ⟨rfl, rfl, rfl⟩
    · rw [reach_eq]

theorem SInv.toggled (h : SInv s)
    (hk : staticRouteSplitKey key = some (vrf, p))
    (hok : bfdTrue (s.config (routeKey vrf p)) = true → newBfd data = false → Leaves s (routeKey vrf p) []) :
    SInv (toggled s key vrf p data).1 ∧
      (newBfd data = true → SameSessions s (StaticBfd.toggled s key vrf p data).1) := by
  unfold StaticBfd.toggled toggleBfd newBfd at *
  simp only
  split_ifs with h₁ h₂ h₃
  · exact ⟨h, fun _ => .refl s⟩
  · refine ⟨?_, fun hb => (h₂.2 hb).elim⟩
    unfold handleBfdChange
    rw [hk]
    have h' : SInv (delStaticRouteFromApplDb s (vrf ++ ':' :: p)) := h.of_same ⟨rfl, rfl, rfl⟩ rfl
    refine h'.del fun vrf' p' hk' _ => ?_
    rw [hk] at hk'; cases hk'
    exact hok h₂.1 (by simpa using h₂.2)
  · unfold handleBfdChange
    rw [hk]
    exact ⟨h.of_same ⟨rfl, rfl, rfl⟩ rfl, fun _ => ⟨rfl, rfl, rfl⟩⟩
  · exact ⟨h, fun _ => .refl s⟩

theorem Leaves.of_same (h : Leaves s r new) (he : SameSessions s t) :
    Leaves t r new := by unfold Leaves; rw [he.pending, he.nexthop]; exact h

theorem Sessions.mono (h : Sessions s []) (new : List (Str × Str)) : Sessions s new :=
  ⟨h.owned, fun e hm => by
    grind [h.waiting]⟩

theorem SInv.removeDeletedNexthops (h : SInv s) {cur : Row} (hv : '|' ∉ vrf)
    (hc : NoBar cur) {new : List (Str × Str × Str)} {nhList : List Str}
    (hok : bfdTrue cur = true → Leaves s r (nhPairs new))
    (ht : removeDeletedNexthops s vrf r cur new nhList = some t) :
    Sessions t (nhPairs new) ∧ t.config = s.config := by
  unfold StaticBfd.removeDeletedNexthops at ht
  split at ht
  · rename_i hb
    obtain ⟨old, ho, rfl⟩ := Option.map_eq_some_iff.mp ht
    obtain ⟨hown, hp⟩ := h.owned.removeAll r new (noBar_existing hc hb.2 hv ho)
    obtain ⟨hcfg, _, hnh⟩ := removeAll_spec r new old s
    refine ⟨h.toSessions.remove (hok hb.2) hown hp fun k r' hne hm => ?_, hcfg⟩
    exact (hnh k r').mpr ⟨hm, fun he => hne he.1⟩
  · cases ht; exact ⟨h.toSessions.mono _, rfl⟩

theorem SInv.set (h : SInv s) (hok : sessionOk s (.routeSet key data))
    (hs : staticRouteSetHandler s key data = some s') : SInv s' := by
  have hs := setStep_of_handler hs
  cases hs with
  | skip => exact h
  | @reject vrf p hd hk hip hl => simp_all [sessionOk, toggled]
  | @plain vrf p lists hk hip hl hb =>
    simp only [sessionOk, hk, hl] at hok
    have ht := (h.toggled hk hok.1).1
    refine SInv.setConfig ht.toSessions (fun r' _ => ht.rows r') fun hb' => ?_
    rw [bfdTrue_set_false] at hb'; cases hb'
  | @store vrf p lists _ hd hk hip hl hb hs =>
    obtain ⟨vs, is, ns⟩ := lists
    simp only [sessionOk, hk, hl] at hok
    obtain ⟨hv, hleave⟩ := hok.2 hb
    obtain ⟨ht, hsame⟩ := h.toggled hk hok.1
    simp only [storeRoute, Option.bind_eq_some_iff] at hs
    obtain ⟨t, hrem, hs⟩ := hs
    obtain ⟨hsess, hcfg⟩ := ht.removeDeletedNexthops (splitKey_noBar hk) (h.rows _)
      (fun hc => (hleave hc).of_same (hsame hb)) hrem
    have hbars : ∀ t ∈ zip3 vs is ns, '|' ∉ t.1 := fun t hm =>
      hv t.1 (of_mem_zip (show (t.1, t.2) ∈ vs.zip (is.zip ns) from hm)).1
    have hadd := Sessions.addAll (routeKey vrf p) (l := zip3 vs is ns)
      (hsess.of_same (t := t.setConfig (routeKey vrf p) (newRow s key vrf p data).1) ⟨rfl, rfl, rfl⟩) hbars
    refine SInv.refresh ⟨hadd, fun r' => ?_⟩ hs
    rw [(addAll_spec _ _ _).1]
    by_cases hr : r' = routeKey vrf p
    · subst hr; simpa [St.setConfig] using noBar_newRow hl hv
    · simp_all [St.setConfig, ht.rows]

theorem SInv.bfdUp (h : SInv s) (hr : bfdUp nh s r = some s') : SInv s' := by
  rcases bfdUp_cases hr with ⟨_, rfl⟩ | ⟨_, cfg, _, rfl⟩
  · exact h
  · exact (h.of_same (t := appendToSrtTableEntry s r nh) ⟨rfl, rfl, rfl⟩ rfl).publish r cfg

theorem SInv.removeReachable (h : SInv s)
    (hr : removeReachable nh s r = some s') : SInv s' := by
  rcases removeReachable_cases hr with ⟨_, rfl⟩ | ⟨_, cfg, _, rfl⟩
  · exact h.of_same ⟨rfl, rfl, rfl⟩ rfl
  · exact h.of_same ⟨rfl, rfl, rfl⟩ rfl

theorem SInv.bfdDown (h : SInv s) (hr : bfdDown nh s r = some s') :
    SInv s' := by
  rcases bfdDown_cases hr with ⟨_, rfl⟩ | ⟨_, hr⟩ <;> grind [removeReachable]

theorem SInv.stateSet (h : SInv s)
    (hs : bfdStateSetHandler s key data = some s') : SInv s' := by
  obtain ⟨vrf, intf, peer, _, hc⟩ := stateSet_cases hs
  have hset : ∀ k d, SInv (s.setBfd k d) := fun k d => h.of_same ⟨rfl, rfl, rfl⟩ rfl
  rcases hc with ⟨_, rfl⟩ | ⟨_, _, hf⟩ | ⟨_, _, hf⟩ | ⟨_, _, _, rfl⟩
  · exact h
  · exact foldlM_inv SInv (fun t r u _ ht hu => ht.bfdUp hu) (hset _ _) hf
  · exact foldlM_inv SInv (fun t r u _ ht hu => ht.bfdDown hu) (hset _ _) hf
  · exact hset _ _

theorem SInv.stateDel (h : SInv s) (hs : bfdStateDelHandler s key = some s') : SInv s' := by
  unfold bfdStateDelHandler at hs
  split at hs
  · cases hs
  · exact foldlM_inv SInv (fun t r u _ ht hu => ht.removeReachable hu) h hs

theorem SInv.init : SInv init :=
  ⟨⟨fun _ hk => (hk rfl).elim, fun _ hm => (not_mem_nil hm).elim⟩, fun _ hb => by cases hb⟩

theorem SInv.step {e : Ev} (h : SInv s) (hok : sessionOk s e) (hs : step s e = some s') : SInv s' := by
  cases e with
  | routeSet key data => exact h.set hok hs
  | routeDel key =>
    cases hs
    refine h.del fun vrf p hk => ?_ <;> simp_all [sessionOk]
  | intfSet key =>
    cases hs
    exact ⟨h.toSessions.interfaceSet key, fun r => by rw [(sameRoutes_interfaceSet s key).config]; exact h.rows r⟩
  | intfDel key => cases hs; exact h.of_same (sameSessions_interfaceDel s key) (sameRoutes_interfaceDel s key).config
  | stateSet key data => exact h.stateSet hs
  | stateDel key => exact h.stateDel hs

/-- **Session ownership.** In every run that strands no pending request, a
session in APPL_DB has a route. -/
theorem owned_of_run {es : List Ev} {s : St} (hok : Along StaticBfd.step sessionOk StaticBfd.init es)
    (hr : run StaticBfd.step StaticBfd.init es = some s) : Owned s :=
  (run_inv StaticBfd.step (fun _ _ _ => SInv.step) SInv.init hok hr).owned

theorem owned_shared_pending : ∃ s, run StaticBfd.step StaticBfd.init
    [.routeSet "2.2.2.0/24" [("bfd", "true"), ("nexthop", "10.0.0.2"), ("ifname", "if1")],
     .routeSet "3.3.3.0/24" [("bfd", "true"), ("nexthop", "10.0.0.2"), ("ifname", "if1")],
     .routeDel "2.2.2.0/24",
     .intfSet "if1|10.0.0.1/24"] = some s ∧ s.bfdAppl "default:default:10.0.0.2" ≠ none ∧ Owned s :=
  ⟨_, (Option.some_get (by decide +kernel)).symm, by decide +kernel,
    owned_of_run (by decide +kernel) (Option.some_get _).symm⟩

theorem Referenced.split {k : Str} (h : Referenced s k) :
    ∃ n ≤ k.length, s.nexthop (nhKey (k.take n) (k.drop (n + ":default:".toList.length))) ≠ [] := by
  obtain ⟨v, ip, _, rfl, hn⟩ := h
  grind [bfdKey, drop_left]

theorem not_owned_stale_pending : ∃ s, run StaticBfd.step StaticBfd.init
    [.routeSet "2.2.2.0/24" [("bfd", "true"), ("nexthop", "10.0.0.2"), ("ifname", "if1")],
     .routeDel "2.2.2.0/24",
     .intfSet "if1|10.0.0.1/24"] = some s ∧ ¬ Owned s := by
  refine ⟨_, (Option.some_get (by decide +kernel)).symm, fun h => ?_⟩
  have href := (h "default:default:10.0.0.2" (by decide +kernel)).split
  revert href
  decide +kernel

end Sonic.StaticBfd
