import Sonic.Dict
import Sonic.Ipaddress
import Sonic.Run

/-! # Locators and SIDs of SRv6

Two `SRv6Mgr` share a directory. A SID whose locator is not in the directory yet waits in the queue
of its manager, which then subscribes to the locator: the `put` of a locator tries the whole queue
again, once for every subscription to a locator that is there. A SID that fails its checks also
waits, for good. -/

namespace Sonic.Srv6
open List Option

open Str
open Ipaddress (ipv6Network)

abbrev Data := Dict Str Str

structure Locator where
  name : Str
  blockLen : Int
  nodeLen : Int
  funcLen : Int
  argLen : Int
  prefixStr : Str

def intField (data : Data) (field : Str) (default : Int) : Option Int := (data.get? field).elim (some default) int

def Locator.ofData (name : Str) (data : Data) : Option Locator := do
  let blockLen ← intField data "block_len" 32
  let nodeLen ← intField data "node_len" 16
  let funcLen ← intField data "func_len" 16
  let argLen ← intField data "arg_len" 0
  let p ← data.get? "prefix"
  return ⟨name, blockLen, nodeLen, funcLen, argLen, lower p ++ '/' :: ofInt (blockLen + nodeLen)⟩

structure Sid where
  locatorName : Str
  ipPrefix : Str
  action : Str
  decapVrf : Str
  interface : Option Str
  adj : Option Str
  deriving DecidableEq

def defaultVrf : Str := "default"

def Sid.ofData (locatorName ipPrefix action : Str) (data : Data) : Sid :=
  ⟨locatorName, ipPrefix, action, (data.get? "decap_vrf").getD defaultVrf, data.get? "interface",
    data.get? "adj"⟩

def supportedBehaviors : List Str := ["uN", "uA", "uDT46"]

def supernet (net : Nat × Nat) (newPrefix : Int) : Option (Nat × Nat) :=
  if net.2 = 0 then some net
  else if net.2 < newPrefix then none
  else if newPrefix < 0 then none
  else some (net.1 - net.1 % 2 ^ (128 - newPrefix.toNat), newPrefix.toNat)

def supernetOf (net other : Nat × Nat) : Bool :=
  net.1 ≤ other.1 ∧ other.1 + 2 ^ (128 - other.2) ≤ net.1 + 2 ^ (128 - net.2)

/-! ## The managers -/

structure St where
  locators : Dict Str Locator
  sids : Dict Str (Sid × Str)
  deps : List Str      -- the locators that the manager of the SIDs depends on, and is subscribed to
  setQueue : List (Str × Data)
  pushed : List (List Str)

def init : St := ⟨[], [], [], [], []⟩

def pathExist (locators : Dict Str Locator) (path : Str) : Option Bool :=
  if locators = [] then some false
  else if path = [] then some true
  else match split '/' path with
    | [] => some true
    | [p] => some (locators.get? p).isSome
    | p :: _ => if (locators.get? p).isSome then none else some false

def splitKey (key : Str) : Option (Str × Str) := do
  let parts := split '|' key
  let ipPrefix := lower (← parts[1]?)
  let _ ← int (← (split '/' ipPrefix)[1]?)
  return (parts.headD [], ipPrefix)

def Sid.cmd (sid : Sid) : Str :=
  "sid ".toList ++ sid.ipPrefix ++ " locator ".toList ++ sid.locatorName ++ " behavior ".toList ++ sid.action ++
    (if sid.decapVrf ≠ defaultVrf then " vrf ".toList ++ sid.decapVrf else []) ++
    if sid.action = "uA".toList then
      " interface ".toList ++ sid.interface.getD [] ++
        if sid.adj.getD [] = [] then [] else " nexthop ".toList ++ sid.adj.getD []
    else []

def checkSid (locators : Dict Str Locator) (locatorName ipPrefix : Str) (data : Data) : Option (Option Sid) :=
  match data.get? "action" with
  | none => some none
  | some action =>
    if action ∉ supportedBehaviors then some none
    else do
      let locator ← locators.get? locatorName
      let locatorPrefix ← ipv6Network locator.prefixStr
      let sidPrefix ← ipv6Network ipPrefix
      let locatorBlock ← supernet locatorPrefix locator.blockLen
      if !supernetOf locatorBlock sidPrefix then some none
      else if action = "uN" ∧ !supernetOf locatorPrefix sidPrefix then some none
      else
        let sid := Sid.ofData locatorName ipPrefix action data
        if action = "uA" ∧ sid.interface.getD [] = [] then some none else some (some sid)

def sidLines (sid : Sid) : List Str := ["segment-routing", "srv6", "static-sids", sid.cmd]

def sidKey (locatorName ipPrefix : Str) : Str := replace '/' '\\' (locatorName ++ '|' :: ipPrefix)

def sidsSetHandler (s : St) (key : Str) (data : Data) : Option (Bool × St) :=
  (splitKey key).bind fun (locatorName, ipPrefix) =>
  (pathExist s.locators locatorName).bind fun found =>
  if found then
    (checkSid s.locators locatorName ipPrefix data).map fun
      | none => (false, s)
      | some sid =>
        (true, { s with
          pushed := s.pushed ++ [sidLines sid]
          sids := s.sids.set (sidKey locatorName ipPrefix) (sid, sid.cmd) })
  else some (false, { s with deps := if locatorName ∈ s.deps then s.deps else s.deps ++ [locatorName] })

def retry (p : St × List (Str × Data)) (e : Str × Data) : Option (St × List (Str × Data)) :=
  (sidsSetHandler p.1 e.1 e.2).map fun r => (r.2, if r.1 then p.2 else p.2 ++ [e])

def onDepsChange (s : St) : Option St :=
  (s.setQueue.foldlM retry (s, [])).map fun p => { p.1 with setQueue := p.2 }

def putLocator (s : St) (key : Str) (locator : Locator) : Option St :=
  let s := { s with locators := s.locators.set key locator }
  if ∃ path ∈ s.deps, pathExist s.locators path = none then none
  else (s.deps.filter fun path => pathExist s.locators path = some true).foldlM (fun s _ => onDepsChange s) s

def locatorLines (l : Locator) : List Str :=
  ["segment-routing", "srv6", "locators", "locator " ++ l.name,
    "prefix " ++ l.prefixStr ++ " block-len " ++ ofInt l.blockLen ++ " node-len " ++
      ofInt l.nodeLen ++ " func-bits " ++ ofInt l.funcLen,
    "behavior usid"]

def locatorsSetHandler (s : St) (key : Str) (data : Data) : Option St :=
  (Locator.ofData key data).bind fun locator =>
    putLocator { s with pushed := s.pushed ++ [locatorLines locator] } key locator

inductive Event where
  | locator (row : Str × Data)
  | sid (row : Str × Data)

def step (s : St) : Event → Option St
  | .locator (key, data) => locatorsSetHandler s key data
  | .sid (key, data) =>
    (sidsSetHandler s key data).map fun r =>
      if r.1 then r.2 else { r.2 with setQueue := r.2.setQueue ++ [(key, data)] }

def sidCmds (s : St) : List (List Str) := s.pushed.filter fun l => l[2]? = some "static-sids".toList

section
variable {α β : Type} {f g : α → Option β}

theorem filterMap_grow (h : ∀ x y, f x = some y → g x = some y) : ∀ l : List α,
    (l.filterMap g).Perm (l.filterMap f ++ (l.filter fun x => (f x).isNone).filterMap g)
  | [] => .nil
  | x :: l => by
    have ih := filterMap_grow h l
    cases hf : f x with
    | some y => simp_all
    | none =>
      rw [filterMap_cons_none hf, filter_cons_of_pos (by simp [hf])]
      cases hg : g x with
      | none => grind
      | some y =>
        rw [filterMap_cons_some hg, filterMap_cons_some hg]
        exact (ih.cons y).trans List.perm_middle.symm

theorem filter_grow (h : ∀ x y, f x = some y → g x = some y) (l : List α) :
    l.filter (fun x => (g x).isNone) = (l.filter fun x => (f x).isNone).filter fun x => (g x).isNone := by
  rw [List.filter_filter]
  refine filter_congr fun x _ => ?_
  cases hf : f x <;> simp_all

theorem filterMap_sublist (h : ∀ x y, f x = some y → g x = some y) : ∀ l : List α,
    (l.filterMap f).Sublist (l.filterMap g)
  | [] => .slnil
  | x :: l => by
    have ih := filterMap_sublist h l
    grind

theorem filterMap_filter_isNone (l : List α) : (l.filter fun x => (f x).isNone).filterMap f = [] := by simp

end

/-! ## One SID -/

def verdict (locators : Dict Str Locator) (row : Str × Data) : Option (Str × Sid × Str) :=
  (splitKey row.1).bind fun (locatorName, ipPrefix) =>
  (locators.get? locatorName).bind fun _ =>
  (checkSid locators locatorName ipPrefix row.2).join.map fun sid => (sidKey locatorName ipPrefix, sid, sid.cmd)

def supported (data : Data) : Bool := (data.get? "action").any (· ∈ supportedBehaviors)

/-- The SID can be handled whenever it comes, and is not passed over. The directory reads an empty name as the whole
table, and a name with a slash as a path into the locator before the slash. -/
def readable (locators : Dict Str Locator) (row : Str × Data) : Bool :=
  match splitKey row.1 with
  | none => false
  | some (locatorName, ipPrefix) =>
    if locatorName = [] then
      locators = [] ∨ supported row.2 = false ∨
        (∀ k ∈ locators.keys, k = []) ∧ (checkSid locators [] ipPrefix row.2).isSome
    else if '/' ∈ locatorName then
      (locators.get? (locatorName.takeWhile (· ≠ '/'))).isNone ∧ (verdict locators row).isNone
    else (locators.get? locatorName).isSome → (checkSid locators locatorName ipPrefix row.2).isSome

def Noted (s : St) (row : Str × Data) : Prop :=
  ∀ p, splitKey row.1 = some p → pathExist s.locators p.1 = some false → p.1 ∈ s.deps

def Sub (locators all : Dict Str Locator) : Prop := ∀ k l, locators.get? k = some l → all.get? k = some l

section
variable {s : St} {all locators : Dict Str Locator} {row : Str × Data} {name ipPrefix : Str} {data : Data}

theorem exists_get? (h : locators ≠ []) : ∃ k l, locators.get? k = some l := by
  obtain ⟨⟨k, l⟩, rest, rfl⟩ := List.exists_cons_of_ne_nil h
  exact ⟨k, l, by rw [Dict.get?_cons, if_pos rfl]⟩

theorem Sub.eq_nil (hsub : Sub locators all) (h : all = []) : locators = [] := by
  by_contra hne
  obtain ⟨k, l, hl⟩ := exists_get? hne
  have hall := hsub k l hl
  rw [h] at hall
  cases hall

theorem Sub.get?_none (hsub : Sub locators all) {k : Str} (h : all.get? k = none) : locators.get? k = none := by
  cases hl : locators.get? k with
  | none => rfl
  | some l => rw [hsub k l hl] at h; cases h

theorem pathExist_nil (h : locators ≠ []) : pathExist locators [] = some true := by
  rw [pathExist, if_neg h, if_pos rfl]

theorem pathExist_name (hn : name ≠ []) (hs : '/' ∉ name) :
    pathExist locators name = some (locators.get? name).isSome := by
  unfold pathExist
  rw [split_of_not_mem hs, if_neg hn]
  split
  next hnil => rw [hnil]; rfl
  next => rfl

theorem pathExist_slash (hs : '/' ∈ name) : pathExist locators name =
    if locators = [] then some false
    else if (locators.get? (name.takeWhile (· ≠ '/'))).isSome then none else some false := by
  have hn : name ≠ [] := fun h => by rw [h] at hs; cases hs
  obtain ⟨l, hl⟩ := split_eq_cons '/' name
  obtain ⟨q, rest, rfl⟩ : ∃ q rest, l = q :: rest := by
    refine List.exists_cons_of_ne_nil fun hnil => ?_
    have hjoin := join_split '/' name
    rw [hl, hnil] at hjoin
    have hno : '/' ∉ name.takeWhile (· ≠ '/') := not_mem_split (hl ▸ mem_cons_self)
    have hone : name.takeWhile (· ≠ '/') = name := by simpa [Str.join] using hjoin
    rw [hone] at hno
    exact hno hs
  unfold pathExist
  rw [hl, if_neg hn]

theorem pathExist_false_mono (hsub : Sub locators all) (h : pathExist all name = some false) :
    pathExist locators name = some false := by
  by_cases hnil : locators = []
  · rw [pathExist, if_pos hnil]
  have hall : all ≠ [] := fun h => hnil (hsub.eq_nil h)
  by_cases hn : name = []
  · rw [hn, pathExist_nil hall] at h
    cases h
  by_cases hs : '/' ∈ name
  · rw [pathExist_slash hs, if_neg hall] at h
    rw [pathExist_slash hs, if_neg hnil]
    split at h
    · cases h
    · rename_i hno
      rw [if_neg]
      rw [hsub.get?_none (Option.not_isSome_iff_eq_none.mp hno)]
      exact Bool.false_ne_true
  · rw [pathExist_name hn hs] at h ⊢
    rw [hsub.get?_none (by simpa using h)]
    rfl

theorem checkSid_congr (h : locators.get? name = all.get? name) (ipPrefix : Str) (data : Data) :
    checkSid locators name ipPrefix data = checkSid all name ipPrefix data := by
  unfold checkSid
  rw [h]

theorem checkSid_of_not_supported (h : supported data = false) : checkSid locators name ipPrefix data = some none := by
  unfold supported at h
  unfold checkSid
  cases ha : data.get? "action" with
  | none => rfl
  | some action =>
    rw [ha, Option.any_some, decide_eq_false_iff_not] at h
    exact if_pos h

theorem checkSid_of_get?_none (h : supported data = true) (hl : locators.get? name = none) :
    checkSid locators name ipPrefix data = none := by
  unfold supported at h
  unfold checkSid
  cases ha : data.get? "action" with
  | none => rw [ha] at h; cases h
  | some action =>
    rw [ha, Option.any_some, decide_eq_true_iff] at h
    simp only [h, not_true, if_false, hl, Option.bind_eq_bind, Option.bind_none]

theorem checkSid_none_mono (hsub : Sub locators all) (h : checkSid locators name ipPrefix data = some none) :
    checkSid all name ipPrefix data = some none := by
  cases hsup : supported data with
  | false => exact checkSid_of_not_supported hsup
  | true =>
    cases hl : locators.get? name with
    | none => rw [checkSid_of_get?_none hsup hl] at h; cases h
    | some l => rw [← h]; exact checkSid_congr ((hsub _ _ hl).trans hl.symm) _ _

theorem verdict_of_check (hk : splitKey row.1 = some (name, ipPrefix)) {r : Option Sid}
    (h : checkSid locators name ipPrefix row.2 = some r) :
    verdict locators row = r.map fun sid => (sidKey name ipPrefix, sid, sid.cmd) := by
  unfold verdict
  rw [hk, bind_some]
  dsimp only
  cases hl : locators.get? name with
  | some l => rw [bind_some, h]; rfl
  | none =>
    cases hsup : supported row.2 with
    | true => rw [checkSid_of_get?_none hsup hl] at h; cases h
    | false =>
      rw [checkSid_of_not_supported hsup] at h
      cases h
      rfl

theorem verdict_of_get?_none (hk : splitKey row.1 = some (name, ipPrefix)) (h : locators.get? name = none) :
    verdict locators row = none := by
  unfold verdict
  rw [hk, bind_some]
  dsimp only
  rw [h, bind_none]

theorem verdict_congr (h : ∀ p, splitKey row.1 = some p → locators.get? p.1 = all.get? p.1) :
    verdict locators row = verdict all row := by
  unfold verdict
  cases hk : splitKey row.1 <;> grind [checkSid_congr]

theorem verdict_mono (hsub : Sub locators all) (row : Str × Data) (v : Str × Sid × Str)
    (h : verdict locators row = some v) : verdict all row = some v := by
  rw [← h]
  refine (verdict_congr fun p hp => ?_).symm
  unfold verdict at h
  rw [hp, bind_some] at h
  obtain ⟨l, hl, _⟩ := Option.bind_eq_some_iff.mp h
  rw [hl, hsub _ _ hl]

/-- What the handler finds with any of the locators there. -/
theorem readable_found (hr : readable all row = true) (hk : splitKey row.1 = some (name, ipPrefix))
    (hsub : Sub locators all) :
    (pathExist locators name = some true ∧ ∃ r, checkSid locators name ipPrefix row.2 = some r) ∨
      (pathExist locators name = some false ∧ verdict locators row = none) := by
  unfold readable at hr
  rw [hk] at hr
  dsimp only at hr
  split at hr
  next hn =>
    subst hn
    by_cases hnil : locators = []
    · exact .inr ⟨by rw [hnil]; rfl, verdict_of_get?_none hk (by rw [hnil]; rfl)⟩
    refine .inl ⟨pathExist_nil hnil, ?_⟩
    rcases of_decide_eq_true hr with hall | hsup | ⟨hkeys, hcheck⟩
    · exact absurd (hsub.eq_nil hall) hnil
    · exact ⟨none, checkSid_of_not_supported hsup⟩
    · obtain ⟨k, l, hl⟩ := exists_get? hnil
      obtain rfl := hkeys k (Dict.mem_keys_of_get? (hsub k l hl))
      rw [checkSid_congr (hl.trans (hsub _ _ hl).symm)]
      exact Option.isSome_iff_exists.mp hcheck
  next hn =>
    split at hr
    next hs =>
      obtain ⟨hhead, hverdict⟩ := of_decide_eq_true hr
      refine .inr ⟨?_, ?_⟩
      · rw [pathExist_slash hs]
        split
        · rfl
        · rw [if_neg]
          rw [hsub.get?_none (Option.isNone_iff_eq_none.mp hhead)]
          exact Bool.false_ne_true
      · cases hv : verdict locators row with
        | none => rfl
        | some v =>
          rw [verdict_mono hsub row v hv] at hverdict
          cases hverdict
    next hs =>
      have hcheck := of_decide_eq_true hr
      rw [pathExist_name hn hs]
      cases hl : locators.get? name with
      | none => exact .inr ⟨rfl, verdict_of_get?_none hk hl⟩
      | some l =>
        have hall := hsub _ _ hl
        refine .inl ⟨rfl, ?_⟩
        rw [checkSid_congr (hl.trans hall.symm)]
        exact Option.isSome_iff_exists.mp (hcheck (by rw [hall]; rfl))

theorem readable_split (hr : readable all row = true) : ∃ name ipPrefix, splitKey row.1 = some (name, ipPrefix) := by
  unfold readable at hr
  split at hr
  · cases hr
  · exact ⟨_, _, by assumption⟩

theorem sidsSetHandler_eq (hr : readable all row = true) (hsub : Sub s.locators all) :
    (∃ v, verdict s.locators row = some v ∧ sidsSetHandler s row.1 row.2 = some (true, { s with
        pushed := s.pushed ++ [sidLines v.2.1]
        sids := s.sids.set v.1 v.2 })) ∨
      verdict s.locators row = none ∧ ∃ deps, sidsSetHandler s row.1 row.2 = some (false, { s with deps := deps }) ∧
        (∀ d ∈ s.deps, d ∈ deps) ∧ (∀ d ∈ deps, d ∈ s.deps ∨ ∃ p, splitKey row.1 = some (d, p)) ∧
        Noted { s with deps := deps } row ∧ (Noted s row → deps = s.deps) := by
  obtain ⟨name, ipPrefix, hk⟩ := readable_split hr
  simp only [sidsSetHandler, hk, bind_some]
  rcases readable_found hr hk hsub with ⟨hpath, r, hcheck⟩ | ⟨hpath, hverdict⟩
  · rw [hpath, hcheck, verdict_of_check hk hcheck]
    cases r with
    | some sid => exact .inl ⟨_, rfl, rfl⟩
    | none =>
      refine .inr ⟨rfl, s.deps, rfl, fun _ h => h, fun _ h => .inl h, fun p hp hfalse => ?_, fun _ => rfl⟩
      rw [hk] at hp
      cases hp
      rw [hpath] at hfalse
      cases hfalse
  · rw [hpath]
    refine .inr ⟨hverdict, _, rfl, fun d hd => ?_, fun d hd => ?_, fun p hp _ => ?_, fun hnoted => ?_⟩
    · split
      · exact hd
      · exact mem_append_left _ hd
    · split at hd
      · exact .inl hd
      · rcases mem_append.mp hd with hd | hd
        · exact .inl hd
        · exact .inr ⟨ipPrefix, by rw [List.mem_singleton.mp hd]⟩
    · rw [hk] at hp
      cases hp
      show name ∈ if name ∈ s.deps then s.deps else s.deps ++ [name]
      split
      · assumption
      · exact mem_append_right _ mem_cons_self
    · exact if_pos (hnoted _ hk hpath)

structure Ready (all : Dict Str Locator) (s : St) : Prop where
  sub : Sub s.locators all
  readable : ∀ row ∈ s.setQueue, Srv6.readable all row = true
  noted : ∀ row ∈ s.setQueue, Noted s row

def settle (s : St) : St :=
  { s with
    pushed := s.pushed ++ (s.setQueue.filterMap (verdict s.locators)).map fun v => sidLines v.2.1
    sids := s.sids.update (s.setQueue.filterMap (verdict s.locators))
    setQueue := s.setQueue.filter fun row => (verdict s.locators row).isNone }

theorem retry_queue : ∀ (q : List (Str × Data)) (s : St) (newQueue : List (Str × Data)), Sub s.locators all →
    (∀ row ∈ q, readable all row = true) → (∀ row ∈ q, Noted s row) →
    q.foldlM retry (s, newQueue) = some ({ s with
      pushed := s.pushed ++ (q.filterMap (verdict s.locators)).map fun v => sidLines v.2.1
      sids := s.sids.update (q.filterMap (verdict s.locators)) },
      newQueue ++ q.filter fun row => (verdict s.locators row).isNone)
  | [], s, newQueue, _, _, _ => by simp [Dict.update]
  | row :: q, s, newQueue, hsub, hread, hnoted => by
    have hread' : ∀ r ∈ q, readable all r = true := fun r hr => hread r (mem_cons_of_mem _ hr)
    have hnoted' : ∀ r ∈ q, Noted s r := fun r hr => hnoted r (mem_cons_of_mem _ hr)
    rw [foldlM_cons, retry]
    obtain ⟨v, hv, hh⟩ | ⟨hv, deps, hh, _, _, _, hsame⟩ := sidsSetHandler_eq (hread row mem_cons_self) hsub
    · rw [filterMap_cons_some hv, filter_cons_of_neg (by simp [hv]), hh]
      refine (retry_queue q { s with pushed := s.pushed ++ [sidLines v.2.1], sids := s.sids.set v.1 v.2 } newQueue hsub
        hread' hnoted').trans ?_
      rw [map_cons, append_assoc]
      rfl
    · rw [filterMap_cons_none hv, filter_cons_of_pos (by simp [hv]), hh, hsame (hnoted row mem_cons_self)]
      refine (retry_queue q s (newQueue ++ [row]) hsub hread' hnoted').trans ?_
      rw [append_assoc]
      rfl

theorem Ready.onDepsChange (h : Ready all s) : onDepsChange s = some (settle s) := by
  unfold Srv6.onDepsChange
  rw [retry_queue s.setQueue s [] h.sub h.readable h.noted]
  rfl

theorem Ready.settle (h : Ready all s) : Ready all (settle s) where
  sub := h.sub
  readable := fun row hrow => h.readable row (List.mem_filter.mp hrow).1
  noted := fun row hrow => h.noted row (List.mem_filter.mp hrow).1

theorem settle_of_nil (h : s.setQueue.filterMap (verdict s.locators) = []) : settle s = s := by
  have hq : s.setQueue.filter (fun row => (verdict s.locators row).isNone) = s.setQueue :=
    List.filter_eq_self.mpr fun row hrow => Option.isNone_iff_eq_none.mpr (List.filterMap_eq_nil_iff.mp h row hrow)
  simp only [settle, h, hq, map_nil, append_nil, Dict.update, foldl_nil]

theorem settle_settle (s : St) : settle (settle s) = settle s := settle_of_nil (filterMap_filter_isNone _)

theorem Ready.notify {α : Type} : ∀ (paths : List α) {s : St}, Ready all s →
    (paths = [] → s.setQueue.filterMap (verdict s.locators) = []) →
    paths.foldlM (fun s _ => Srv6.onDepsChange s) s = some (Srv6.settle s)
  | [], s, _, hnil => by
    rw [settle_of_nil (hnil rfl)]
    rfl
  | p :: paths, s, h, _ => by
    rw [foldlM_cons, h.onDepsChange, bind_eq_bind, bind_some,
      Ready.notify paths h.settle fun _ => filterMap_filter_isNone _, settle_settle]

end

/-! ## Entries that agree -/

section
variable {κ β : Type} [DecidableEq κ] {d : Dict κ β} {l ws : List (κ × β)}

/-- Entries of one key are equal. -/
def Agree (l : List (κ × β)) : Prop := ∀ v ∈ l, ∀ w ∈ l, v.1 = w.1 → v.2 = w.2

instance [DecidableEq β] (l : List (κ × β)) : Decidable (Agree l) :=
  inferInstanceAs (Decidable (∀ v ∈ l, ∀ w ∈ l, v.1 = w.1 → v.2 = w.2))

/-- The dictionary has the entries of the list and no others. -/
def Holds (d : Dict κ β) (l : List (κ × β)) : Prop := ∀ k x, d.get? k = some x ↔ (k, x) ∈ l

theorem Holds.set {v : κ × β} (h : Holds d l) (ha : Agree (l ++ [v])) : Holds (d.set v.1 v.2) (l ++ [v]) := by
  intro k x
  have hv : v ∈ l ++ [v] := mem_append_right _ mem_cons_self
  rw [Dict.get?_set]
  by_cases hk : v.1 = k
  · subst hk
    rw [if_pos rfl]
    constructor
    · rintro ⟨⟩
      exact hv
    · exact fun hx => congrArg some (ha v hv _ hx rfl)
  · rw [if_neg hk, h k x, mem_append, List.mem_singleton]
    exact ⟨.inl, fun hx => hx.resolve_right fun he => hk (congrArg Prod.fst he).symm⟩

theorem Holds.update (h : Holds d l) (ha : Agree (l ++ ws)) : Holds (d.update ws) (l ++ ws) := by
  induction ws generalizing d l with
  | nil => rwa [append_nil]
  | cons v ws ih =>
    rw [show l ++ v :: ws = l ++ [v] ++ ws by rw [append_assoc]; rfl] at ha ⊢
    exact ih (h.set fun x hx y hy => ha x (mem_append_left _ hx) y (mem_append_left _ hy)) ha

theorem Holds.congr (h : Holds d l) (hl : ∀ x, x ∈ l ↔ x ∈ ws) : Holds d ws := fun k x => (h k x).trans (hl _)

end

/-! ## Runs -/

def Event.locatorRow : Event → Option (Str × Data)
  | .locator row => some row
  | .sid _ => none

def Event.sidRow : Event → Option (Str × Data)
  | .locator _ => none
  | .sid row => some row

def locatorsOf (rows : List (Str × Data)) : Dict Str Locator :=
  rows.filterMap fun row => (Locator.ofData row.1 row.2).map fun l => (row.1, l)

def validSids (locators sids : List (Str × Data)) : Dict Str (Sid × Str) :=
  sids.filterMap (verdict (locatorsOf locators))

/-- Every locator can be read and every SID can be handled whenever it comes, and SIDs that pass their checks and have
the same locator and the same prefix in lower case are equal. -/
structure Admissible (locators sids : List (Str × Data)) : Prop where
  parsed : ∀ row ∈ locators, (Locator.ofData row.1 row.2).isSome = true
  readable : ∀ row ∈ sids, Srv6.readable (locatorsOf locators) row = true
  agree : Agree (validSids locators sids)

/-- An order of the SETs. -/
def IsOrder (locators sids : List (Str × Data)) (es : List Event) : Prop :=
  es.Perm (locators.map .locator ++ sids.map .sid)

section
variable {locators sids : List (Str × Data)} {es done rest : List Event} {e : Event} {s : St}

theorem locatorsOf_keys (rows : List (Str × Data)) : (locatorsOf rows).keys.Sublist (rows.map Prod.fst) := by
  induction rows with
  | nil => exact .slnil
  | cons row rows ih =>
    unfold locatorsOf
    cases h : Locator.ofData row.1 row.2 with
    | none =>
      rw [filterMap_cons_none (by rw [h]; rfl)]
      exact ih.cons _
    | some l =>
      rw [filterMap_cons_some (by rw [h]; rfl)]
      exact ih.cons_cons _

theorem IsOrder.locatorRows (h : IsOrder locators sids es) : (es.filterMap Event.locatorRow).Perm locators := by
  refine (h.filterMap _).trans ?_
  rw [filterMap_append, filterMap_map, filterMap_map,
    List.filterMap_eq_nil_iff.mpr (fun _ _ => rfl : ∀ row ∈ sids, (Event.locatorRow ∘ Event.sid) row = none),
    append_nil, show Event.locatorRow ∘ Event.locator = some from rfl, filterMap_some]

theorem IsOrder.sidRows (h : IsOrder locators sids es) : (es.filterMap Event.sidRow).Perm sids := by
  refine (h.filterMap _).trans ?_
  rw [filterMap_append, filterMap_map, filterMap_map,
    List.filterMap_eq_nil_iff.mpr (fun _ _ => rfl : ∀ row ∈ locators, (Event.sidRow ∘ Event.locator) row = none),
    nil_append, show Event.sidRow ∘ Event.sid = some from rfl, filterMap_some]

section
variable (hkeys : (locators.map Prod.fst).Nodup) (ho : IsOrder locators sids es) (hd : done.Sublist es)
include hkeys ho hd

theorem sub_done : Sub (locatorsOf (done.filterMap Event.locatorRow)) (locatorsOf locators) := by
  intro k l hl
  have hmem : (k, l) ∈ locatorsOf locators :=
    (ho.locatorRows.filterMap _).subset (((hd.filterMap _).filterMap _).subset (Dict.get?_eq_some_mem hl))
  exact Dict.get?_of_nodup (hkeys.sublist (locatorsOf_keys _)) hmem

omit hkeys in
theorem agree_done (ha : Admissible locators sids) {now : Dict Str Locator} (hsub : Sub now (locatorsOf locators)) :
    Agree ((done.filterMap Event.sidRow).filterMap (verdict now)) := by
  have hvalid : ∀ v ∈ (done.filterMap Event.sidRow).filterMap (verdict now), v ∈ validSids locators sids := by
    intro v hv
    obtain ⟨row, hrow, hverdict⟩ := List.mem_filterMap.mp hv
    exact List.mem_filterMap.mpr ⟨row, ho.sidRows.subset ((hd.filterMap _).subset hrow),
      verdict_mono hsub row v hverdict⟩
  exact fun v hv w hw => ha.agree v (hvalid v hv) w (hvalid w hw)

end

structure Inv (rows : List (Str × Data)) (done : List Event) (s : St) : Prop where
  locators : s.locators = locatorsOf (done.filterMap Event.locatorRow)
  queue : s.setQueue.Perm ((done.filterMap Event.sidRow).filter fun row => (verdict s.locators row).isNone)
  sids : Holds s.sids ((done.filterMap Event.sidRow).filterMap (verdict s.locators))
  cmds : (sidCmds s).Perm (((done.filterMap Event.sidRow).filterMap (verdict s.locators)).map fun v => sidLines v.2.1)
  noted : ∀ row ∈ s.setQueue, Noted s row
  deps : ∀ d ∈ s.deps, ∃ row ∈ rows, ∃ p, splitKey row.1 = some (d, p)

theorem inv_init : Inv sids [] init :=
  ⟨rfl, .nil, fun k x => iff_of_false (by rintro ⟨⟩) (by rintro ⟨⟩), .nil, nofun, nofun⟩

section
variable (hkeys : (locators.map Prod.fst).Nodup) (ha : Admissible locators sids) (ho : IsOrder locators sids es)
include hkeys ha ho

theorem Inv.sidStep (h : Inv sids done s) {row : Str × Data} (hd : (done ++ [Event.sid row]).Sublist es) :
    ∃ s', step s (.sid row) = some s' ∧ Inv sids (done ++ [.sid row]) s' := by
  have hrow : row ∈ sids := ho.sidRows.subset ((hd.filterMap _).subset (by simp [Event.sidRow]))
  have hsub : Sub s.locators (locatorsOf locators) := by
    rw [h.locators]
    exact sub_done hkeys ho ((List.sublist_append_left _ _).trans hd)
  have hlocs : (done ++ [Event.sid row]).filterMap Event.locatorRow = done.filterMap Event.locatorRow := by
    simp [Event.locatorRow]
  have hsids : (done ++ [Event.sid row]).filterMap Event.sidRow = done.filterMap Event.sidRow ++ [row] := by
    simp [Event.sidRow]
  have hagree := agree_done ho hd ha hsub
  rw [hsids, filterMap_append] at hagree
  rw [step]
  obtain ⟨v, hv, hh⟩ | ⟨hv, deps, hh, hkeep, hdeps, hnoted, _⟩ := sidsSetHandler_eq (ha.readable row hrow) hsub
  · refine ⟨{ s with pushed := s.pushed ++ [sidLines v.2.1], sids := s.sids.set v.1 v.2 }, by rw [hh]; rfl, ?_⟩
    rw [List.filterMap_cons_some hv, List.filterMap_nil] at hagree
    refine ⟨h.locators.trans (by rw [hlocs]), ?_, ?_, ?_, h.noted, h.deps⟩
    · rw [hsids, List.filter_append, List.filter_cons_of_neg (by simp [hv]), List.filter_nil, append_nil]
      exact h.queue
    · rw [hsids, List.filterMap_append, List.filterMap_cons_some hv, List.filterMap_nil]
      exact h.sids.set hagree
    · rw [hsids, List.filterMap_append, List.filterMap_cons_some hv, List.filterMap_nil, map_append]
      show ((s.pushed ++ [sidLines v.2.1]).filter _).Perm _
      rw [filter_append]
      exact h.cmds.append_right _
  · refine ⟨{ s with deps := deps, setQueue := s.setQueue ++ [row] }, by rw [hh]; rfl, ?_⟩
    refine ⟨h.locators.trans (by rw [hlocs]), ?_, ?_, ?_, ?_, ?_⟩
    · rw [hsids, List.filter_append, List.filter_cons_of_pos (by simp [hv]), List.filter_nil]
      exact h.queue.append_right _
    · rw [hsids, List.filterMap_append, List.filterMap_cons_none hv, List.filterMap_nil, append_nil]
      exact h.sids
    · rw [hsids, List.filterMap_append, List.filterMap_cons_none hv, List.filterMap_nil, append_nil]
      exact h.cmds
    · intro r hr
      rcases List.mem_append.mp hr with hr | hr
      · exact fun p hp habs => hkeep _ (h.noted r hr p hp habs)
      · rw [List.mem_singleton.mp hr]
        exact hnoted
    · intro d hdmem
      rcases hdeps d hdmem with hd' | hd'
      · exact h.deps d hd'
      · exact ⟨row, hrow, hd'⟩

omit hkeys in
/-- A SID that can be resolved with a new locator waits for it, and the manager is subscribed to it. -/
theorem Inv.wakes (h : Inv sids done s) (hd : done.Sublist es) {now : Dict Str Locator} (hgrow : Sub s.locators now)
    (hsub : Sub now (locatorsOf locators)) (hnil : (s.deps.filter fun path => pathExist now path = some true) = []) :
    s.setQueue.filterMap (verdict now) = [] := by
  rw [filterMap_eq_nil_iff]
  intro row hrow
  obtain ⟨hmem, hold⟩ := List.mem_filter.mp (h.queue.subset hrow)
  have hr := ha.readable row (ho.sidRows.subset ((hd.filterMap _).subset hmem))
  obtain ⟨name, ipPrefix, hk⟩ := readable_split hr
  rcases readable_found hr hk hsub with ⟨hpath, r, hcheck⟩ | ⟨-, hverdict⟩
  · rcases readable_found hr hk (fun k l hl => hsub k l (hgrow k l hl)) with ⟨-, r', hcheck'⟩ | ⟨hfalse, -⟩
    · rw [verdict_of_check hk hcheck', Option.isNone_iff_eq_none, Option.map_eq_none_iff] at hold
      rw [hold] at hcheck'
      rw [verdict_of_check hk (checkSid_none_mono hgrow hcheck')]
      rfl
    · have hin : name ∈ s.deps.filter fun path => pathExist now path = some true :=
        List.mem_filter.mpr ⟨h.noted row hrow _ hk hfalse, decide_eq_true hpath⟩
      rw [hnil] at hin
      cases hin
  · exact hverdict

theorem Inv.locatorStep (h : Inv sids done s) {row : Str × Data} (hd : (done ++ [Event.locator row]).Sublist es) :
    ∃ s', step s (.locator row) = some s' ∧ Inv sids (done ++ [.locator row]) s' := by
  have hrow : row ∈ locators := ho.locatorRows.subset ((hd.filterMap _).subset (by simp [Event.locatorRow]))
  obtain ⟨l, hl⟩ := Option.isSome_iff_exists.mp (ha.parsed row hrow)
  have hdone : done.Sublist es := (List.sublist_append_left _ _).trans hd
  have hrows : (done ++ [Event.locator row]).filterMap Event.locatorRow = done.filterMap Event.locatorRow ++ [row] := by
    simp [Event.locatorRow]
  have hsids : (done ++ [Event.locator row]).filterMap Event.sidRow = done.filterMap Event.sidRow := by
    simp [Event.sidRow]
  have hfresh : row.1 ∉ s.locators.keys := by
    intro hmem
    rw [h.locators] at hmem
    have hkeys' : ((done.filterMap Event.locatorRow ++ [row]).map Prod.fst).Nodup := by
      rw [← hrows]
      exact ((ho.locatorRows.map _).nodup_iff.mpr hkeys).sublist ((hd.filterMap _).map _)
    rw [map_append, nodup_append] at hkeys'
    exact hkeys'.2.2 row.1 ((locatorsOf_keys _).subset hmem) row.1 mem_cons_self rfl
  set s₁ : St := { s with pushed := s.pushed ++ [locatorLines l], locators := s.locators.set row.1 l } with hs₁
  have hlocs : s₁.locators = s.locators ++ [(row.1, l)] := Dict.set_of_not_mem hfresh
  have hlocs' : s₁.locators = locatorsOf ((done ++ [Event.locator row]).filterMap Event.locatorRow) := by
    simp_all [h.locators, locatorsOf]
  have hsub : Sub s₁.locators (locatorsOf locators) := by
    rw [hlocs']
    exact sub_done hkeys ho hd
  have hgrow : Sub s.locators s₁.locators := by
    intro k l' hk
    rw [hlocs, Dict.get?_append, hk]
    rfl
  have hmono := verdict_mono hgrow
  have hperm : ((done.filterMap Event.sidRow).filterMap (verdict s.locators) ++
      s.setQueue.filterMap (verdict s₁.locators)).Perm
        ((done.filterMap Event.sidRow).filterMap (verdict s₁.locators)) :=
    ((h.queue.filterMap _).append_left _).trans (filterMap_grow hmono _).symm
  have hread : ∀ r ∈ s.setQueue, readable (locatorsOf locators) r = true := fun r hr =>
    ha.readable r (ho.sidRows.subset ((hdone.filterMap _).subset (List.mem_filter.mp (h.queue.subset hr)).1))
  have hready : Ready (locatorsOf locators) s₁ :=
    ⟨hsub, hread, fun r hr p hp hfalse => h.noted r hr p hp (pathExist_false_mono hgrow hfalse)⟩
  have hpaths : ∀ d ∈ s.deps, pathExist s₁.locators d ≠ none := by
    intro d hd' hnone
    obtain ⟨r, hr, p, hp⟩ := h.deps d hd'
    rcases readable_found (ha.readable r hr) hp hsub with ⟨hpath, -⟩ | ⟨hpath, -⟩ <;> rw
      [hnone] at hpath <;> cases hpath
  have hstep : step s (.locator row) = some (settle s₁) := by
    rw [step, locatorsSetHandler, hl, bind_some, putLocator]
    refine (if_neg ?_).trans (hready.notify _ (h.wakes ha ho hdone hgrow hsub))
    rintro ⟨d, hd', hnone⟩
    exact hpaths d hd' hnone
  refine ⟨_, hstep, hlocs', ?_, ?_, ?_, fun r hr => hready.settle.noted r hr, h.deps⟩
  · rw [hsids]
    exact (h.queue.filter _).trans (.of_eq (filter_grow hmono _).symm)
  · rw [hsids]
    have hagree := agree_done ho hdone ha hsub
    refine Holds.congr (h.sids.update ?_) fun x => hperm.mem_iff
    exact fun v hv w hw => hagree v (hperm.subset hv) w (hperm.subset hw)
  · rw [hsids]
    refine List.Perm.trans ?_ (hperm.map _)
    show (((s.pushed ++ [locatorLines l]) ++ _).filter _).Perm _
    rw [filter_append, filter_append, map_append]
    have hlines : ∀ vs : List (Str × Sid × Str), (vs.map fun v => sidLines v.2.1).filter
        (fun l => l[2]? = some "static-sids".toList) = vs.map fun v => sidLines v.2.1 := by
      intro vs
      refine List.filter_eq_self.mpr fun x hx => ?_
      obtain ⟨v, _, rfl⟩ := List.mem_map.mp hx
      rfl
    rw [hlines, show [locatorLines l].filter (fun l => l[2]? = some "static-sids".toList) = [] from rfl, append_nil]
    exact h.cmds.append_right _

end

theorem run_valid (hkeys : (locators.map Prod.fst).Nodup) (ha : Admissible locators sids)
    (ho : IsOrder locators sids es) :
    ∃ t, run step init es = some t ∧ Holds t.sids (validSids locators sids) ∧
      (sidCmds t).Perm ((validSids locators sids).map fun v => sidLines v.2.1) := by
  have hstep : ∀ done e rest s, done ++ e :: rest = es → Inv sids done s →
      ∃ s', step s e = some s' ∧ Inv sids (done ++ [e]) s' := by
    intro done e rest s he hi
    have hd : (done ++ [e]).Sublist es := by grind
    cases e with
    | locator row => exact hi.locatorStep hkeys ha ho hd
    | sid row => exact hi.sidStep hkeys ha ho hd
  obtain ⟨t, ht, hinv⟩ := run_done step hstep rfl inv_init
  have hfull : ∀ row, verdict t.locators row = verdict (locatorsOf locators) row := by
    intro row
    refine verdict_congr fun p _ => ?_
    rw [hinv.locators]
    have hperm : (locatorsOf (es.filterMap Event.locatorRow)).Perm (locatorsOf locators) := ho.locatorRows.filterMap _
    exact (Dict.get?_perm (hkeys.sublist (locatorsOf_keys _)) hperm.symm p.1).symm
  have hperm : ((es.filterMap Event.sidRow).filterMap (verdict t.locators)).Perm (validSids locators sids) := by
    rw [funext hfull]
    exact ho.sidRows.filterMap _
  exact ⟨t, ht, hinv.sids.congr fun x => hperm.mem_iff, hinv.cmds.trans (hperm.map _)⟩

/-- Any two orders end, with the same SIDs in the directory and the same commands, one for each SID that passes its
checks and none for the others. -/
def OrderIndependent (locators sids : List (Str × Data)) : Prop :=
  ∀ es es', IsOrder locators sids es → IsOrder locators sids es' →
    ∃ t t', run step init es = some t ∧ run step init es' = some t' ∧ (∀ k, t.sids.get? k = t'.sids.get? k) ∧
      (sidCmds t).Perm (sidCmds t') ∧ (sidCmds t).Perm ((validSids locators sids).map fun v => sidLines v.2.1)

theorem Admissible.orderIndependent (hkeys : (locators.map Prod.fst).Nodup) (ha : Admissible locators sids) :
    OrderIndependent locators sids := by
  intro es es' ho ho'
  obtain ⟨t, ht, hsids, hcmds⟩ := run_valid hkeys ha ho
  obtain ⟨t', ht', hsids', hcmds'⟩ := run_valid hkeys ha ho'
  refine ⟨t, t', ht, ht', fun k => Option.ext fun x => ?_, hcmds.trans hcmds'.symm, hcmds⟩
  exact (hsids k x).trans (hsids' k x).symm

/-! ## What an order tells -/

/-- The handler ends for the SID with these locators. -/
def Handled (now : Dict Str Locator) (row : Str × Data) : Prop :=
  ∃ name ipPrefix found, splitKey row.1 = some (name, ipPrefix) ∧ pathExist now name = some found ∧
    (found = true → (checkSid now name ipPrefix row.2).isSome = true)

/-- What the handler pushes for the SID with these locators. -/
def taken (now : Dict Str Locator) (row : Str × Data) : Option (Str × Sid × Str) :=
  if (splitKey row.1).any fun p => pathExist now p.1 = some true then verdict now row else none

theorem sid_step {row : Str × Data} {s' : St} (h : step s (.sid row) = some s') :
    s'.locators = s.locators ∧ Handled s.locators row ∧
      sidCmds s' = sidCmds s ++ (taken s.locators row).toList.map fun v => sidLines v.2.1 := by
  obtain ⟨r, hr, rfl⟩ := Option.map_eq_some_iff.mp h
  unfold sidsSetHandler at hr
  obtain ⟨⟨name, ipPrefix⟩, hk, hr⟩ := Option.bind_eq_some_iff.mp hr
  obtain ⟨found, hpath, hr⟩ := Option.bind_eq_some_iff.mp hr
  cases found with
  | false =>
    cases hr
    have htaken : taken s.locators row = none := by
      rw [taken, hk, Option.any_some, hpath]
      rfl
    refine ⟨rfl, ⟨name, ipPrefix, false, hk, hpath, fun h => by cases h⟩, ?_⟩
    rw [htaken]
    exact (append_nil _).symm
  | true =>
    rw [if_pos rfl] at hr
    obtain ⟨o, ho, rfl⟩ := Option.map_eq_some_iff.mp hr
    have htaken : taken s.locators row = o.map fun sid => (sidKey name ipPrefix, sid, sid.cmd) := by
      rw [taken, hk, Option.any_some, hpath, decide_eq_true rfl, if_pos rfl, verdict_of_check hk ho]
    have hhandled : Handled s.locators row := ⟨name, ipPrefix, true, hk, hpath, fun _ => by rw [ho]; rfl⟩
    rw [htaken]
    cases o with
    | none => exact ⟨rfl, hhandled, (append_nil _).symm⟩
    | some sid => exact ⟨rfl, hhandled, filter_append ..⟩

theorem run_sids {rows : List (Str × Data)} {t : St} (h : run step s (rows.map .sid) = some t) :
    t.locators = s.locators ∧ (∀ row ∈ rows, Handled s.locators row) ∧
      sidCmds t = sidCmds s ++ (rows.filterMap (taken s.locators)).map fun v => sidLines v.2.1 := by
  induction rows generalizing s with
  | nil =>
    cases h
    exact ⟨rfl, nofun, (append_nil _).symm⟩
  | cons row rows ih =>
    obtain ⟨s', hs, hrun⟩ := run_cons_some step h
    obtain ⟨hl, hh, hc⟩ := sid_step hs
    obtain ⟨hl', hh', hc'⟩ := ih hrun
    rw [hl] at hl' hh' hc'
    refine ⟨hl', fun r hr => ?_, ?_⟩
    · rcases List.mem_cons.mp hr with rfl | hr
      · exact hh
      · exact hh' r hr
    · rw [hc', hc, append_assoc, ← map_append]
      cases ht : taken s.locators row with
      | none => rw [filterMap_cons_none ht]; rfl
      | some v => rw [filterMap_cons_some ht]; rfl

theorem run_split {es es' : List Event} {t : St} (h : run step s (es ++ es') = some t) :
    ∃ s', run step s es = some s' ∧ run step s' es' = some t := by
  induction es generalizing s with
  | nil => exact ⟨s, rfl, h⟩
  | cons e es ih =>
    obtain ⟨s₁, hs, hrun⟩ := run_cons_some step h
    obtain ⟨s', hs', hrest⟩ := ih hrun
    exact ⟨s', (run_cons step hs es).trans hs', hrest⟩

/-- With no SID waiting the locators are only stored. -/
theorem run_locators {rows : List (Str × Data)} {t : St} (hdeps : s.deps = [])
    (hfresh : (s.locators.keys ++ rows.map Prod.fst).Nodup) (h : run step s (rows.map .locator) = some t) :
    (∀ row ∈ rows, (Locator.ofData row.1 row.2).isSome = true) ∧ t.locators = s.locators ++ locatorsOf rows ∧
      sidCmds t = sidCmds s := by
  induction rows generalizing s with
  | nil =>
    cases h
    exact ⟨nofun, (append_nil _).symm, rfl⟩
  | cons row rows ih =>
    obtain ⟨s', hs, hrun⟩ := run_cons_some step h
    obtain ⟨l, hl, hput⟩ := Option.bind_eq_some_iff.mp hs
    unfold putLocator at hput
    rw [show ({ s with pushed := s.pushed ++ [locatorLines l] } : St).deps = [] from hdeps] at hput
    obtain rfl : { s with pushed := s.pushed ++ [locatorLines l], locators := s.locators.set row.1 l } = s' := by
      simpa [hdeps] using hput
    have hnew : row.1 ∉ s.locators.keys := fun hmem => by
      rw [map_cons, nodup_append] at hfresh
      exact hfresh.2.2 row.1 hmem row.1 mem_cons_self rfl
    have hset : s.locators.set row.1 l = s.locators ++ [(row.1, l)] := Dict.set_of_not_mem hnew
    have hfresh' : ((s.locators.set row.1 l).keys ++ rows.map Prod.fst).Nodup := by
      rw [hset, Dict.keys, map_append, append_assoc]
      exact hfresh
    obtain ⟨hparsed, hlocs, hcmds⟩ := ih (s := { s with
      pushed := s.pushed ++ [locatorLines l], locators := s.locators.set row.1 l }) hdeps hfresh' hrun
    refine ⟨fun r hr => ?_, ?_, hcmds.trans ?_⟩
    · rcases List.mem_cons.mp hr with rfl | hr
      · rw [hl]; rfl
      · exact hparsed r hr
    · rw [hlocs]
      show s.locators.set row.1 l ++ _ = _
      rw [hset, append_assoc, locatorsOf, locatorsOf, filterMap_cons_some (by rw [hl]; rfl)]
      rfl
    · show (s.pushed ++ [locatorLines l]).filter _ = _
      rw [filter_append]
      exact append_nil _

theorem isSome_of_length {α β : Type} {f g : α → Option β} (h : ∀ x y, f x = some y → g x = some y) : ∀ {l : List α},
    (l.filterMap f).length = (l.filterMap g).length → ∀ x ∈ l, g x ≠ none → f x ≠ none
  | x :: l, hlen, y, hy, hg => by
    have hle := (filterMap_sublist h l).length_le
    cases hf : f x with
    | some z =>
      rw [filterMap_cons_some hf, filterMap_cons_some (h x z hf), length_cons, length_cons] at hlen
      rcases List.mem_cons.mp hy with rfl | hy
      · rw [hf]; exact fun h => by cases h
      · exact isSome_of_length h (Nat.succ.inj hlen) y hy hg
    | none =>
      rw [filterMap_cons_none hf] at hlen
      cases hgx : g x with
      | some z =>
        rw [filterMap_cons_some hgx, length_cons] at hlen
        omega
      | none =>
        rw [filterMap_cons_none hgx] at hlen
        rcases List.mem_cons.mp hy with rfl | hy
        · exact absurd hgx hg
        · exact isSome_of_length h hlen y hy hg

theorem taken_eq_some {now : Dict Str Locator} (row : Str × Data) (v : Str × Sid × Str) (h : taken now row = some v) :
    verdict now row = some v := by
  unfold taken at h
  split at h
  · exact h
  · cases h

section
variable (hkeys : (locators.map Prod.fst).Nodup) (h : OrderIndependent locators sids)
include hkeys h

/-- The locators first, and then the SIDs in some order. -/
theorem OrderIndependent.locators_first {rows : List (Str × Data)} (hrows : rows.Perm sids) :
    ∃ s t, run step init (locators.map .locator) = some s ∧ s.locators = locatorsOf locators ∧
      run step s (rows.map .sid) = some t ∧ run step init (locators.map .locator ++ rows.map .sid) = some t ∧
      (∀ row ∈ locators, (Locator.ofData row.1 row.2).isSome = true) ∧ sidCmds s = [] := by
  have ho : IsOrder locators sids (locators.map .locator ++ rows.map .sid) := (hrows.map _).append_left _
  obtain ⟨t, -, ht, -⟩ := h _ _ ho ho
  obtain ⟨s, hs, hrun⟩ := run_split ht
  obtain ⟨hparsed, hlocs, hcmds⟩ := run_locators (s := init) rfl hkeys hs
  exact ⟨s, t, hs, hlocs, hrun, ht, hparsed, hcmds⟩

theorem OrderIndependent.handled : ∀ row ∈ sids, Handled (locatorsOf locators) row ∧
    (verdict (locatorsOf locators) row ≠ none → taken (locatorsOf locators) row ≠ none) := by
  obtain ⟨s, t, -, hlocs, hrun, ht, -, hcmds⟩ := h.locators_first hkeys (.refl sids)
  obtain ⟨-, hhandled, hpushed⟩ := run_sids hrun
  rw [hlocs] at hhandled hpushed
  obtain ⟨t', -, ht', -, -, -, hvalid⟩ := h _ _ (.refl _) (.refl _)
  obtain rfl : t = t' := Option.some.inj (ht.symm.trans ht')
  rw [hpushed, hcmds, nil_append] at hvalid
  have hlen := hvalid.length_eq
  rw [length_map, length_map] at hlen
  exact fun row hrow => ⟨hhandled row hrow, isSome_of_length taken_eq_some hlen row hrow⟩

theorem OrderIndependent.one_locator {first row : Str × Data} (hfirst : first ∈ locators) (hrow : row ∈ sids) :
    ∃ l, Handled [(first.1, l)] row := by
  obtain ⟨pre, post, hsplit⟩ := List.append_of_mem hfirst
  have ho : IsOrder locators sids ([first].map .locator ++ (sids.map .sid ++ (pre ++ post).map .locator)) := by
    have hp : locators.Perm (first :: (pre ++ post)) := hsplit ▸ perm_middle
    refine List.Perm.trans ?_ ((hp.map _).append_right _).symm
    rw [map_cons, map_cons, map_nil, cons_append, nil_append, cons_append]
    exact perm_append_comm.cons _
  obtain ⟨t, -, ht, -⟩ := h _ _ ho ho
  obtain ⟨s, hs, hrest⟩ := run_split ht
  obtain ⟨s', hs', -⟩ := run_split hrest
  have hnodup : ([first].map Prod.fst).Nodup := pairwise_singleton _ _
  obtain ⟨hparsed, hlocs, -⟩ := @run_locators init [first] _ rfl hnodup hs
  obtain ⟨l, hl⟩ := Option.isSome_iff_exists.mp (hparsed first mem_cons_self)
  refine ⟨l, ?_⟩
  have hhandled := (run_sids hs').2.1 row hrow
  rw [hlocs] at hhandled
  have hone : locatorsOf [first] = [(first.1, l)] := by
    rw [locatorsOf, filterMap_cons_some (by rw [hl]; rfl), filterMap_nil]
  rw [hone] at hhandled
  exact hhandled

theorem OrderIndependent.readable : ∀ row ∈ sids, readable (locatorsOf locators) row = true := by
  intro row hrow
  obtain ⟨⟨name, ipPrefix, found, hk, hpath, hcheck⟩, htaken⟩ := h.handled hkeys row hrow
  unfold Srv6.readable
  rw [hk]
  dsimp only
  split
  next hn =>
    subst hn
    refine decide_eq_true ?_
    by_cases hnil : locatorsOf locators = []
    · exact .inl hnil
    rw [pathExist_nil hnil] at hpath
    cases hpath
    cases hsup : supported row.2 with
    | false => exact .inr (.inl rfl)
    | true =>
      refine .inr (.inr ⟨fun k hkmem => ?_, hcheck rfl⟩)
      -- with another locator alone the handler looks up the empty name, and raises
      obtain ⟨first, hfirst, rfl⟩ := List.mem_map.mp ((locatorsOf_keys locators).subset hkmem)
      obtain ⟨l, name', ipPrefix', found', hk', hpath', hcheck'⟩ := h.one_locator hkeys hfirst hrow
      rw [hk] at hk'
      cases hk'
      rw [pathExist_nil (cons_ne_nil _ _)] at hpath'
      cases hpath'
      by_contra hne
      have hnone : Dict.get? [(first.1, l)] ([] : Str) = none := by rw [Dict.get?_cons, if_neg hne]; rfl
      have hraise := hcheck' rfl
      rw [checkSid_of_get?_none hsup hnone] at hraise
      cases hraise
  next hn =>
    split
    next hs =>
      refine decide_eq_true ⟨?_, ?_⟩
      · rw [pathExist_slash hs] at hpath
        split at hpath
        next hnil => rw [hnil]; rfl
        next =>
          split at hpath
          · cases hpath
          next hno => simpa using hno
      · by_contra hne
        have htaken' := htaken fun he => hne (by rw [he]; rfl)
        rw [taken, hk, Option.any_some] at htaken'
        have hno : pathExist (locatorsOf locators) name ≠ some true := by
          rw [pathExist_slash hs]
          split
          · exact fun h => by cases h
          · split <;> exact fun h => by cases h
        rw [decide_eq_false hno] at htaken'
        exact htaken' rfl
    next hs =>
      refine decide_eq_true fun hsome => hcheck ?_
      rw [pathExist_name hn hs, hsome] at hpath
      exact (Option.some.inj hpath).symm

/-- The SID that comes last is in the directory. -/
theorem OrderIndependent.last {row : Str × Data} {v : Str × Sid × Str} (hrow : row ∈ sids)
    (hv : verdict (locatorsOf locators) row = some v) :
    ∃ es t, IsOrder locators sids es ∧ run step init es = some t ∧ t.sids.get? v.1 = some v.2 := by
  obtain ⟨pre, post, hsplit⟩ := List.append_of_mem hrow
  have hperm : (pre ++ post ++ [row]).Perm sids := by
    rw [hsplit]
    exact (perm_append_singleton row _).trans perm_middle.symm
  obtain ⟨s, t, -, hlocs, hrun, ht, -⟩ := h.locators_first hkeys hperm
  refine ⟨_, t, (hperm.map _).append_left _, ht, ?_⟩
  rw [map_append] at hrun
  obtain ⟨s', hs', hlast⟩ := run_split hrun
  have hlocs' : s'.locators = locatorsOf locators := (run_sids hs').1.trans hlocs
  obtain ⟨t', hstep, hnil⟩ := run_cons_some step hlast
  cases hnil
  rcases sidsSetHandler_eq (s := s') (h.readable hkeys row hrow) (hlocs' ▸ fun _ _ hl => hl) with
    ⟨w, hw, hh⟩ | ⟨hw, -⟩
  · rw [hlocs', hv] at hw
    cases hw
    rw [step, hh] at hstep
    cases hstep
    exact Dict.get?_set_self _ _ _
  · rw [hlocs', hv] at hw
    cases hw

theorem OrderIndependent.agree : Agree (validSids locators sids) := by
  intro v hv w hw hkey
  obtain ⟨row, hrow, hverdict⟩ := List.mem_filterMap.mp hv
  obtain ⟨row', hrow', hverdict'⟩ := List.mem_filterMap.mp hw
  obtain ⟨es, t, ho, ht, hget⟩ := h.last hkeys hrow hverdict
  obtain ⟨es', t', ho', ht', hget'⟩ := h.last hkeys hrow' hverdict'
  obtain ⟨u, u', hu, hu', hsame, -⟩ := h es es' ho ho'
  rw [ht] at hu
  cases hu
  rw [ht'] at hu'
  cases hu'
  have heq := hsame v.1
  rw [hget, hkey, hget'] at heq
  exact Option.some.inj heq

end

/-- **Order.** For SETs of locators with different keys, every order of them and of the SIDs does the same, as it should,
exactly if the SETs are admissible. -/
theorem order_independent_iff (hkeys : (locators.map Prod.fst).Nodup) :
    OrderIndependent locators sids ↔ Admissible locators sids := by
  refine ⟨fun h => ⟨?_, h.readable hkeys, h.agree hkeys⟩, fun ha => ha.orderIndependent hkeys⟩
  obtain ⟨-, -, -, -, -, -, hparsed, -⟩ := h.locators_first hkeys (.refl sids)
  exact hparsed

end

def loc1 : Str × Data := ("loc1", [("prefix", "FCBB:BBBB:1::")])

def sidRowOf (key action : String) : Str × Data := (key.toList, [("action", action.toList)])

def sids1 : List (Str × Data) :=
  [sidRowOf "loc1|FCBB:BBBB:1::/48" "uN", sidRowOf "loc2|fc00::/48" "uN", sidRowOf "a/b|fc00::/48" "uN"]

theorem order_independent_loc1 : OrderIndependent [loc1] sids1 ∧ (validSids [loc1] sids1).length = 1 :=
  ⟨(order_independent_iff (by decide +kernel)).mpr ⟨by decide +kernel, by decide +kernel, by decide +kernel⟩,
    by decide +kernel⟩

theorem order_matters : ∃ t t',
    run step init [.locator loc1, .sid (sidRowOf "loc1|FCBB:BBBB:1::/48" "uN"),
      .sid (sidRowOf "loc1|fcbb:bbbb:1::/48" "uDT46")] = some t ∧
    run step init [.locator loc1, .sid (sidRowOf "loc1|fcbb:bbbb:1::/48" "uDT46"),
      .sid (sidRowOf "loc1|FCBB:BBBB:1::/48" "uN")] = some t' ∧
    t.sids.get? "loc1|fcbb:bbbb:1::\\48" ≠ t'.sids.get? "loc1|fcbb:bbbb:1::\\48" :=
  ⟨_, _, (Option.some_get (by decide +kernel)).symm, (Option.some_get (by decide +kernel)).symm, by decide +kernel⟩

end Sonic.Srv6
