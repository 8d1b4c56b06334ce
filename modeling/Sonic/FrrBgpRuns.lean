import Sonic.FrrBgpHeld

/-! # Runs of frrcfgd

An event is one message, which can queue others: the neighbors of a peer group and the address
families of a neighbor are applied again. The cache is updated when the queue is empty, so that what
the first message dropped from it stays dropped. -/

namespace Sonic.FrrBgp
open List

open Frrcfgd

variable {vrf nbr : Name} {id : RowId} {db : ConfigDb} {cache : Cache} {m : Message}

section
variable {env : Env} {isGroup : Name → Name → Bool}

variable (env isGroup) in
structure MsgOk (cache : Cache) (m : Message) : Prop where
  right : m.id.Right isGroup
  nodup : m.data.keys.Nodup
  tokens : Tokens env m.id.table m.data
  fail : ∀ p ∈ m.data, p.2.succ = false
  asn : m.id.isGlobals = true → ∀ v, m.data.get? localAsn = some v → v.op ≠ .update
  covered : m.id.isGlobals = true → ∀ k v, (cachedRow cache m.id).get? k = some v → k ∈ m.data.keys
  router : m.id.isGlobals = true → (m.delTable = true ∨ ∃ v, m.data.get? localAsn = some v ∧ v.op = .delete) →
    ∀ id : RowId, id.vrf = m.id.vrf → id.isGlobals = false → cachedRow cache id = []
  peer : ∀ g vrf nbr, m.id = .peer g vrf nbr → m.delTable = true → ∀ id : RowId, id.vrf = vrf →
    id.node.under nbr = true → id.Right isGroup → cachedRow cache id = [] ∨ id ∈ nbrRows vrf nbr

section
variable {cache : Cache} {d : Daemon} {m : Message}

theorem updateGlobals_ok (hm : MsgOk env isGroup cache m) (hid : m.id = .globals vrf)
    (hg : Good env isGroup d.frr cache) :
    RowOk env isGroup cache (.globals vrf) (updateGlobals env d vrf m.delTable m.data).1
      (updateGlobals env d vrf m.delTable m.data).2 := by
  have hglobals : m.id.isGlobals = true := by rw [hid]; rfl
  have hrow : RowOk env isGroup cache (.globals vrf) d m.data :=
    ⟨hm.nodup, by rw [← hid]; exact hm.tokens, hg.upd_fail _ hm.fail⟩
  have hdelete : (m.delTable = true ∨ ∃ v, m.data.get? localAsn = some v ∧ v.op = .delete) →
      RowOk env isGroup cache (.globals vrf) (deleteVrfAsn env d vrf m.data).1 (deleteVrfAsn env d vrf m.data).2 := by
    intro hdel
    have hfree := hm.router hglobals hdel
    have hcov := hm.covered hglobals
    rw [hid] at hfree hcov
    exact deleteVrfAsn_ok hrow hg hfree hcov
  unfold updateGlobals
  split
  · simp_all
  · split
    · exact configGlobals_ok (hg.nodup _) hrow
    · rename_i asn hasn
      split
      · simp_all
      · rename_i hop
        refine configGlobals_ok (hg.nodup _) (setVrfAsn_ok (hg.nodup _) hrow hasn ?_)
        have hupdate := hm.asn hglobals asn hasn
        cases ho : asn.op with
        | none => exact .inl rfl
        | add => exact .inr rfl
        | update => simp_all
        | delete => exact absurd ho hop

theorem handle_ok (hm : MsgOk env isGroup cache m) (hg : Good env isGroup d.frr cache) {r : Done}
    (h : handle env db d cache m = some r) : Good env isGroup r.daemon.frr (upd r.cache m.id r.data) := by
  have hsame : Good env isGroup d.frr (upd cache m.id m.data) := hg.upd_fail _ hm.fail
  obtain ⟨id, delTable, data⟩ := m
  unfold handle at h
  cases id with
  | globals vrf =>
    dsimp only at h
    split at h
    · grind
    · cases h
      exact (updateGlobals_ok hm rfl hg).good
  | peer g vrf nbr =>
    cases hasn : getVrfAsn env d vrf with
    | none =>
      rw [show (RowId.peer g vrf nbr).vrf = vrf from rfl, hasn] at h
      grind
    | some asn =>
      rw [show (RowId.peer g vrf nbr).vrf = vrf from rfl, hasn] at h
      cases h
      cases delTable with
      | true => exact delPeer_ok hg (hm.peer g vrf nbr rfl rfl) asn
      | false => exact setPeer_ok hm.right hg hm.nodup hm.tokens hm.fail db asn
  | af g vrf nbr afType =>
    cases hasn : getVrfAsn env d vrf with
    | none =>
      rw [show (RowId.af g vrf nbr afType).vrf = vrf from rfl, hasn] at h
      grind
    | some asn =>
      rw [show (RowId.af g vrf nbr afType).vrf = vrf from rfl, hasn] at h
      dsimp only at h
      split at h
      · cases h
        exact (RowOk.fields hm.right (hg.nodup _) ⟨hm.nodup, hm.tokens, hsame⟩ asn).good
      · cases h

end

variable (env isGroup) in
structure Again (vrf : Name) (m : Message) : Prop where
  vrf : m.id.vrf = vrf
  right : m.id.Right isGroup
  nodup : m.data.keys.Nodup
  tokens : Tokens env m.id.table m.data
  fail : ∀ p ∈ m.data, p.2.succ = false
  add : ∀ p ∈ m.data, p.2.op = .add
  set : m.delTable = false
  id : m.id.isGlobals = false ∧ ∀ vrf pg, m.id ≠ .peer true vrf pg

variable (env) in
/-- `get_command_cmn` has a command for every attribute of the row. -/
def Takes (table : Str) (row : Row) : Prop :=
  ∀ p ∈ row, p.1 ∈ env.fields table → env.takes table p.1 p.2 = true

variable (env isGroup) in
/-- The rows of CONFIG_DB that may be applied again for an event of the VRF. -/
structure DbOk (vrf : Name) (db : ConfigDb) : Prop where
  right : ∀ id ∈ db.keys, id.Right isGroup
  tokens : ∀ p ∈ db, p.1.vrf = vrf → Takes env p.1.table p.2.1

theorem Again.msgOk (h : Again env isGroup vrf m) (cache : Cache) : MsgOk env isGroup cache m where
  right := h.right
  nodup := h.nodup
  tokens := h.tokens
  fail := h.fail
  asn := fun hg => by rw [h.id.1] at hg; cases hg
  covered := fun hg => by rw [h.id.1] at hg; cases hg
  router := fun hg => by rw [h.id.1] at hg; cases hg
  peer := fun g vrf nbr _ hdel => by rw [h.set] at hdel; cases hdel

section
variable {env : Env}

theorem runFields_op {data : OpData} (h : ∀ p ∈ data, p.2.op = .add) (d : Daemon) (id : RowId) (node : Node)
    (asn : Str) :
    ∀ p ∈ (runFields env d id node asn data).data, p.2.op = .add := by
  unfold runFields
  suffices H : ∀ (l : List Str) (r : Ran), (∀ p ∈ r.data, p.2.op = .add) →
      ∀ p ∈ (l.foldl (runField env id asn node) r).data, p.2.op = .add from H _ _ h
  intro l
  induction l with
  | nil => grind
  | cons f l ih =>
    intro r hr
    refine ih _ ?_
    have hset : ∀ v, r.data.get? f = some v → ∀ p ∈ r.data.set f v.done, p.2.op = .add := by
      intro v hv p hp
      rcases Dict.mem_set hp with hp | rfl
      · exact hr p hp
      · exact hr (f, v) (Dict.get?_eq_some_mem hv)
    grind [runField]

theorem renewBfdCheck_op {data : OpData} (h : ∀ p ∈ data, p.2.op = .add) : ∀ p ∈ renewBfdCheck data, p.2.op = .add := by
  unfold renewBfdCheck
  split
  · split
    · intro p hp
      rcases Dict.mem_set hp with hp | rfl <;> grind
    · exact h
  · exact h

theorem nbrImplAction_add {data : OpData} (h : ∀ p ∈ data, p.2.op = .add) (nbr : Name) (g : Bool) :
    nbrImplAction env data nbr g = none ∨ nbrImplAction env data nbr g = some .apply := by
  cases ha : nbrImplAction env data nbr g with
  | none => exact .inl rfl
  | some a =>
    obtain ⟨attr, -, ha⟩ := List.exists_of_findSome?_eq_some ha
    obtain ⟨v, hv, ha⟩ := Option.bind_eq_some_iff.mp ha
    have hop : v.op = .add := h (attr, v) (Dict.get?_eq_some_mem hv)
    grind

theorem setPeer_cache {data : OpData} (h : ∀ p ∈ data, p.2.op = .add) (db : ConfigDb) (d : Daemon) (g : Bool)
    (vrf nbr : Name) (asn : Str) (cache cache' : Cache) :
    setPeer env db d cache' g vrf nbr asn data = { setPeer env db d cache g vrf nbr asn data with cache := cache' } ∧
      (setPeer env db d cache g vrf nbr asn data).cache = cache := by
  unfold setPeer
  split
  · rename_i d' _
    have hop : ∀ p ∈ (runFields env d' (.peer g vrf nbr) (.peer nbr) asn (renewBfdCheck data)).data, p.2.op = .add :=
      runFields_op (renewBfdCheck_op h) d' _ _ asn
    unfold configPeer
    dsimp only
    split <;> grind [implAction, nbrImplAction_add]
  · grind

end

theorem Again.handle_cache (h : Again env isGroup vrf m) {d : Daemon} {r : Done}
    (hr : handle env db d cache m = some r) :
    r.cache = cache ∧ ∀ cache', handle env db d cache' m = some { r with cache := cache' } := by
  obtain ⟨id, delTable, data⟩ := m
  obtain rfl : delTable = false := h.set
  unfold handle at hr ⊢
  cases id with
  | globals vrf => grind
  | peer g vrf nbr =>
    cases hasn : getVrfAsn env d (RowId.peer g vrf nbr).vrf with
    | none => grind
    | some asn =>
      rw [hasn] at hr
      cases hr
      refine ⟨(setPeer_cache h.add db d g vrf nbr asn cache cache).2, fun cache' => ?_⟩
      exact congrArg some (setPeer_cache h.add db d g vrf nbr asn cache cache').1
  | af g vrf nbr afType => cases hasn : getVrfAsn env d (RowId.af g vrf nbr afType).vrf <;> grind

def RowId.rank : RowId → Nat
  | .peer true _ _ => 2
  | .peer false _ _ => 1
  | _ => 0

theorem reapply_again (hr : id.Right isGroup) (hid : id.isGlobals = false ∧ ∀ vrf pg, id ≠ .peer true vrf pg)
    {row : Row} (hn : row.keys.Nodup) (ht : Takes env id.table row) : Again env isGroup id.vrf (reapply id row) := by
  refine ⟨rfl, hr, ?_, fun p hp hf _ => ?_, fun p hp => ?_, fun p hp => ?_, rfl, hid⟩
  · grind [reapply, Dict.keys]
  · obtain ⟨q, hq, rfl⟩ := List.mem_map.mp hp
    exact ht q hq hf
  · grind [reapply]
  · grind [reapply]

theorem applyDepVrfTable_again (hdb : DbOk env isGroup vrf db) {g : Bool}
    (hr : (RowId.peer g vrf nbr).Right isGroup) :
    ∀ m ∈ applyDepVrfTable db g vrf nbr, Again env isGroup vrf m ∧ m.id.rank < (RowId.peer g vrf nbr).rank := by
  intro m hm
  unfold applyDepVrfTable at hm
  cases g with
  | true =>
    rw [if_pos rfl] at hm
    obtain ⟨⟨id, row⟩, hp, hm⟩ := List.mem_filterMap.mp hm
    have hid : id.Right isGroup := hdb.right id (List.mem_map.mpr ⟨_, hp, rfl⟩)
    dsimp only at hm
    split at hm
    · split at hm
      · rename_i hvrf
        cases hm
        obtain ⟨rfl, -⟩ := hvrf
        exact ⟨reapply_again hid ⟨rfl, fun _ _ he => by cases he⟩ row.2 (hdb.tokens _ hp rfl), Nat.one_lt_two⟩
      · cases hm
    · cases hm
  | false =>
    rw [if_neg Bool.false_ne_true] at hm
    obtain ⟨af, haf, rfl⟩ := List.mem_map.mp hm
    have hlower : Str.lower af.1 = af.1 := by
      rcases List.mem_cons.mp haf with rfl | haf
      · decide
      · obtain rfl := List.mem_singleton.mp haf
        decide
    have hright : (RowId.af false vrf nbr af).Right isGroup := ⟨hr, hlower⟩
    cases hrow : db.get? (.af false vrf nbr af) with
    | none =>
      refine ⟨reapply_again hright ⟨rfl, fun _ _ he => by cases he⟩ nodup_nil fun p hp => ?_, Nat.zero_lt_one⟩
      exact (not_mem_nil hp).elim
    | some row =>
      refine ⟨reapply_again hright ⟨rfl, fun _ _ he => by cases he⟩ row.2 ?_, Nat.zero_lt_one⟩
      exact hdb.tokens _ (Dict.get?_eq_some_mem hrow) rfl

theorem queue_implAction (hdb : DbOk env isGroup vrf db) {g : Bool}
    (hr : (RowId.peer g vrf nbr).Right isGroup) (d : Daemon) (cache : Cache) (data : OpData) :
    ∀ m ∈ (implAction env db d cache g vrf nbr data).queue,
      Again env isGroup vrf m ∧ m.id.rank < (RowId.peer g vrf nbr).rank := by
  unfold implAction
  split
  · simp_all
  · split
    · simp_all
    · split <;> exact fun m hm => (not_mem_nil hm).elim
  · exact applyDepVrfTable_again hdb hr

theorem queue_setPeer (hdb : DbOk env isGroup vrf db) {g : Bool}
    (hr : (RowId.peer g vrf nbr).Right isGroup) (d : Daemon) (cache : Cache) (asn : Str) (data : OpData) :
    ∀ m ∈ (setPeer env db d cache g vrf nbr asn data).queue,
      Again env isGroup vrf m ∧ m.id.rank < (RowId.peer g vrf nbr).rank := by
        grind [setPeer, configPeer, queue_implAction]

theorem queue_handle (hdb : DbOk env isGroup vrf db) (hvrf : m.id.vrf = vrf)
    (hr : m.id.Right isGroup)
    {d : Daemon} {r : Done} (h : handle env db d cache m = some r) :
    ∀ m' ∈ r.queue, Again env isGroup vrf m' ∧ m'.id.rank < m.id.rank := by
  obtain ⟨id, delTable, data⟩ := m
  unfold handle at h
  cases id with
  | globals vrf => grind
  | peer g vrf nbr =>
    cases hasn : getVrfAsn env d (RowId.peer g vrf nbr).vrf with
    | none => grind
    | some asn =>
      rw [hasn] at h
      cases h
      cases delTable with
      | true => exact fun m hm => (not_mem_nil hm).elim
      | false =>
        obtain rfl := hvrf
        exact queue_setPeer hdb hr _ _ _ _
  | af g vrf nbr afType => grind

variable (env isGroup) in
def TurnOk (t : Turn) : Prop := Good env isGroup t.daemon.frr (updateCache t.cache t.dataList)

theorem updateCache_concat (cache : Cache) (dataList : List (RowId × OpData)) (id : RowId) (data : OpData) :
    updateCache cache (dataList ++ [(id, data)]) = upd (updateCache cache dataList) id data := by
  rw [updateCache, foldl_append]
  rfl

section
variable {vrf : Name} {db : ConfigDb} (hdb : DbOk env isGroup vrf db)
include hdb

theorem TurnOk.turn {t t' : Turn} (ht : TurnOk env isGroup t) (hm : Again env isGroup vrf m)
    (h : turn env db t m = some t') :
    TurnOk env isGroup t' ∧ ∀ m' ∈ t'.queue, m' ∈ t.queue ∨ Again env isGroup vrf m' ∧ m'.id.rank < m.id.rank := by
  obtain ⟨r, hr, rfl⟩ := Option.map_eq_some_iff.mp h
  obtain ⟨hcache, hany⟩ := hm.handle_cache hr
  refine ⟨?_, fun m' hm' => ?_⟩
  · have hgood := handle_ok (hm.msgOk _) ht (hany _)
    grind [TurnOk, updateCache_concat]
  · rcases List.mem_append.mp hm' with hm' | hm'
    · exact .inl hm'
    · exact .inr (queue_handle hdb hm.vrf hm.right hr m' hm')

theorem TurnOk.round {t t' : Turn} {n : Nat} (ht : TurnOk env isGroup t)
    (hq : ∀ m ∈ t.queue, Again env isGroup vrf m ∧ m.id.rank < n + 1) (h : round env db t = some t') :
    TurnOk env isGroup t' ∧ ∀ m ∈ t'.queue, Again env isGroup vrf m ∧ m.id.rank < n := by
  unfold FrrBgp.round at h
  have hstart : TurnOk env isGroup { t with queue := [] } ∧
      ∀ m ∈ ({ t with queue := [] } : Turn).queue, Again env isGroup vrf m ∧ m.id.rank < n :=
    ⟨ht, fun m hm => (not_mem_nil hm).elim⟩
  refine foldlM_inv (fun t : Turn => TurnOk env isGroup t ∧ ∀ m ∈ t.queue, Again env isGroup vrf m ∧ m.id.rank < n)
    (fun s m s' hm hs hs' => ?_) hstart h
  grind [turn]

theorem updateBgp_ok {d : Daemon} {t : Turn} (hg : Good env isGroup d.frr cache)
    (hvrf : m.id.vrf = vrf) (hm : MsgOk env isGroup cache m) (h : updateBgp env db ⟨d, cache, [], [m]⟩ = some t) :
    TurnOk env isGroup t ∧ t.queue = [] := by
  obtain ⟨t₂, h, h₃⟩ := Option.bind_eq_some_iff.mp h
  obtain ⟨t₁, h₁, h₂⟩ := Option.bind_eq_some_iff.mp h
  have hfirst : TurnOk env isGroup t₁ ∧ ∀ m ∈ t₁.queue, Again env isGroup vrf m ∧ m.id.rank < 1 + 1 := by
    unfold FrrBgp.round at h₁
    rw [foldlM_cons, Option.bind_eq_bind, Option.bind_eq_some_iff] at h₁
    obtain ⟨t', ht', h₁⟩ := h₁
    cases h₁
    obtain ⟨r, hr, rfl⟩ := Option.map_eq_some_iff.mp ht'
    refine ⟨handle_ok hm hg hr, fun m' hm' => ?_⟩
    obtain ⟨hagain, hlt⟩ := queue_handle hdb hvrf hm.right hr m' hm'
    have hle : m.id.rank ≤ 2 := by
      unfold RowId.rank
      split <;> omega
    grind
  obtain ⟨hok₂, hq₂⟩ := hfirst.1.round hdb hfirst.2 h₂
  obtain ⟨hok₃, hq₃⟩ := hok₂.round hdb hq₂ h₃
  simp_all [eq_nil_iff_forall_not_mem]

end

end

/-! ## Events -/

def Event.row (e : Event) : Row := (e.data.map Subtype.val).getD []

/-- The row of the VRF is deleted, or its ASN is taken out. -/
def removesVrf (s : State) (e : Event) : Prop :=
  e.data.isNone = true ∨
    (e.row.get? localAsn).isNone = true ∧ ((cachedRow s.cache e.id).get? localAsn).isSome = true

/-- No row below the VRF is cached. -/
def VrfFree (cache : Cache) (vrf : Name) : Prop :=
  ∀ k ∈ cache.keys, k.1 ∈ tables.tail → ¬(vrf.1 ++ ['|']) <+: k.2

/-- No row of the peer and of its address families is cached, those apart that go with a neighbor. -/
def PeerFree (cache : Cache) (g : Bool) (vrf nbr : Name) : Prop :=
  ∀ k ∈ cache.keys, (k.1 = (RowId.peer g vrf nbr).table ∧ k.2 = (RowId.peer g vrf nbr).key ∨
      k.1 = (RowId.af g vrf nbr nbr).table ∧ (vrf.1 ++ '|' :: (nbr.1 ++ ['|'])) <+: k.2) →
    k ∈ (nbrRows vrf nbr).map fun id => (id.table, id.key)

/-- The ASN of a VRF is not changed in place, what is taken away as a whole is not cached, and the boolean attributes
have one of their two tokens. -/
def eventOk (env : Env) (isGroup : Name → Name → Bool) (s : State) (e : Event) : Prop :=
  (e.id.Right isGroup ∧ DbOk env isGroup e.id.vrf e.db) ∧ Takes env e.id.table e.row ∧
    match e.id with
    | .globals vrf =>
      (∀ a ∈ (cachedRow s.cache e.id).get? localAsn, ∀ b ∈ e.row.get? localAsn, a = b) ∧
        (removesVrf s e → VrfFree s.cache vrf)
    | .peer g vrf nbr => e.data.isNone = true → PeerFree s.cache g vrf nbr
    | .af _ _ _ _ => True

section
variable {env : Env} {isGroup : Name → Name → Bool}

theorem mem_keys_of_cachedRow (h : cachedRow cache id ≠ []) :
    (id.table, id.key) ∈ cache.keys := by grind [cachedRow, rowOf, Dict.get?_eq_none_iff]

theorem RowId.table_mem_tail (h : id.isGlobals = false) : id.table ∈ tables.tail := by
  match id with
  | .globals _ => cases h
  | .peer false _ _ => exact mem_cons_self
  | .peer true _ _ => exact mem_cons_of_mem _ mem_cons_self
  | .af false _ _ _ => exact mem_cons_of_mem _ (mem_cons_of_mem _ mem_cons_self)
  | .af true _ _ _ =>
    exact mem_cons_of_mem _ (mem_cons_of_mem _ (mem_cons_of_mem _ mem_cons_self))

theorem VrfFree.cachedRow (h : VrfFree cache vrf) (hvrf : id.vrf = vrf)
    (hid : id.isGlobals = false) : cachedRow cache id = [] := by
  by_contra hne
  refine h _ (mem_keys_of_cachedRow hne) (RowId.table_mem_tail hid) ?_
  subst hvrf
  cases id with
  | globals _ => cases hid
  | peer g vrf nbr => simp_all [RowId.vrf, RowId.key]
  | af g vrf nbr t => simp_all [RowId.vrf, RowId.key]

theorem PeerFree.cachedRow {g : Bool} (h : PeerFree cache g vrf nbr)
    (hr : (RowId.peer g vrf nbr).Right isGroup) (hvrf : id.vrf = vrf) (hu : id.node.under nbr = true)
    (hr' : id.Right isGroup) : cachedRow cache id = [] ∨ id ∈ nbrRows vrf nbr := by
  by_cases hne : FrrBgp.cachedRow cache id = []
  · exact .inl hne
  · have hin := h _ (mem_keys_of_cachedRow hne) ?_
    · grind [RowId.key_inj]
    · cases id with
      | globals _ => cases hu
      | peer g' vrf' nbr' =>
        obtain rfl : nbr' = nbr := of_decide_eq_true hu
        obtain rfl : vrf' = vrf := hvrf
        obtain rfl : g' = g := hr'.symm.trans hr <;> simp_all
      | af g' vrf' nbr' t =>
        obtain rfl : nbr' = nbr := of_decide_eq_true hu
        obtain rfl : vrf' = vrf := hvrf
        obtain rfl : g' = g := hr'.1.symm.trans hr
        refine .inr ⟨by cases g' <;> rfl, t.1, by simp [RowId.key]⟩

variable (env) in
theorem not_mem_combAttrList {k : Str}
    (hk : k ∈ env.fields id.table ∨ id.isGlobals = true ∧ k = localAsn) : ∀ l ∈ id.combAttrList, k ∉ l := by
  have hcomb : ∀ l ∈ id.combAttrList, l = ["keepalive", "holdtime"] := by
    intro l hl
    cases id with
    | globals _ | peer _ _ _ => exact List.mem_singleton.mp hl
    | af _ _ _ _ => exact (List.not_mem_nil hl).elim
  intro l hl hm
  rw [hcomb l hl] at hm
  have htimers : k = "keepalive" ∨ k = "holdtime" := by simpa using hm
  rcases hk with hk | ⟨-, rfl⟩
  · rcases htimers with rfl | rfl
    · exact (env.timers_not_mem _).1 hk
    · exact (env.timers_not_mem _).2 hk
  · rcases htimers with h | h
    · exact absurd h (by decide +kernel)
    · exact absurd h (by decide +kernel)

theorem tokens_addOpToData {cached row : Row} (hn : (addOpToData cached row id.combAttrList).keys.Nodup)
    (h : Takes env id.table row) : Tokens env id.table (addOpToData cached row id.combAttrList) := by
  rintro ⟨k, v⟩ hp hf hop
  dsimp only at hf hop ⊢
  have hget := Dict.get?_of_nodup hn hp
  rw [get?_addOpToData (not_mem_combAttrList env (.inl hf)), get?_addOp] at hget
  cases hrow : row.get? k with
  | none =>
    rw [hrow] at hget
    obtain ⟨c, -, rfl⟩ := Option.map_eq_some_iff.mp hget
    exact absurd rfl hop
  | some b =>
    rw [hrow] at hget
    obtain rfl := Option.some.inj hget
    have hdata : (opOf (cached.get? k) b).data = b := by cases cached.get? k <;> rfl
    rw [hdata]
    exact h _ (Dict.get?_eq_some_mem hrow) hf

theorem eventOk.msgOk {s : State} {e : Event} (h : eventOk env isGroup s e)
    (hg : Good env isGroup s.daemon.frr s.cache) :
    MsgOk env isGroup s.cache ⟨e.id, e.data.isNone, addOpToData (cachedRow s.cache e.id) e.row e.id.combAttrList⟩ := by
  obtain ⟨⟨hr, -⟩, htakes, hid⟩ := h
  have hn : e.row.keys.Nodup := by
    unfold Event.row
    cases e.data with
    | none => exact nodup_nil
    | some r => exact r.2
  have globals_ok : e.id.isGlobals = true →
      (∀ a ∈ (cachedRow s.cache e.id).get? localAsn, ∀ b ∈ e.row.get? localAsn, a = b) ∧
        (removesVrf s e → VrfFree s.cache e.id.vrf) := by
    intro hglobals
    cases he : e.id with
    | globals vrf => rw [he] at hid; exact hid
    | peer _ _ _ | af _ _ _ _ => rw [he] at hglobals; cases hglobals
  have hasn : e.id.isGlobals = true → (addOpToData (cachedRow s.cache e.id) e.row e.id.combAttrList).get? localAsn =
      (addOp (cachedRow s.cache e.id) e.row).get? localAsn := fun hglobals =>
    get?_addOpToData (not_mem_combAttrList env (.inr ⟨hglobals, rfl⟩)) _ _
  have hnodup := nodup_addOpToData (hg.nodup e.id) hn e.id.combAttrList
  refine ⟨hr, hnodup, tokens_addOpToData hnodup htakes, addOpToData_fail _ _ _, fun hglobals v hv => ?_,
    fun hglobals k v hv => ?_, fun hglobals hdel id hvrf hne => ?_, fun g vrf nbr he hdel id hvrf hu hr' => ?_⟩
  · rw [hasn hglobals, get?_addOp] at hv
    cases hb : e.row.get? localAsn with
    | none =>
      rw [hb] at hv
      obtain ⟨c, -, rfl⟩ := Option.map_eq_some_iff.mp hv
      exact fun h => by cases h
    | some b =>
      rw [hb] at hv
      cases hv
      cases ha : (cachedRow s.cache e.id).get? localAsn with
      | none => exact fun h => by cases h
      | some a => simp_all [opOf]
  · have hk : (addOpToData (cachedRow s.cache e.id) e.row e.id.combAttrList).get? k =
        (addOp (cachedRow s.cache e.id) e.row).get? k :=
      get?_addOpToData (not_mem_combAttrList env (hg.held _ k v hv).field) _ _
    grind [get?_addOp, Dict.mem_keys_of_get?]
  · refine VrfFree.cachedRow ((globals_ok hglobals).2 ?_) hvrf hne
    rcases hdel with hdel | ⟨v, hv, hop⟩
    · exact .inl hdel
    · rw [hasn hglobals, get?_addOp] at hv
      refine .inr ?_
      cases hb : e.row.get? localAsn with
      | none =>
        rw [hb] at hv
        obtain ⟨c, hc, -⟩ := Option.map_eq_some_iff.mp hv <;> simp_all
      | some b =>
        rw [hb] at hv
        cases hv
        unfold opOf at hop
        split at hop <;> simp_all
  · dsimp only at he hdel
    rw [he] at hid hr
    exact PeerFree.cachedRow (hid hdel) hr hvrf hu hr'

theorem Good.step {s s' : State} {e : Event} (hg : Good env isGroup s.daemon.frr s.cache)
    (hok : eventOk env isGroup s e) (h : step env s e = some s') : Good env isGroup s'.daemon.frr s'.cache := by
  obtain ⟨t, ht, rfl⟩ := Option.map_eq_some_iff.mp h
  exact (updateBgp_ok hok.1.2 hg rfl (hok.msgOk hg) ht).1

end

instance (isGroup : Name → Name → Bool) : ∀ id : RowId, Decidable (id.Right isGroup)
  | .globals _ => isTrue trivial
  | .peer g vrf nbr => inferInstanceAs (Decidable (isGroup vrf nbr = g))
  | .af g vrf nbr afType => inferInstanceAs (Decidable (isGroup vrf nbr = g ∧ Str.lower afType.1 = afType.1))

instance (s : State) (e : Event) : Decidable (removesVrf s e) :=
  inferInstanceAs (Decidable (_ ∨ _))

instance (cache : Cache) (vrf : Name) : Decidable (VrfFree cache vrf) :=
  inferInstanceAs (Decidable (∀ k ∈ cache.keys, _))

instance (cache : Cache) (g : Bool) (vrf nbr : Name) : Decidable (PeerFree cache g vrf nbr) :=
  inferInstanceAs (Decidable (∀ k ∈ cache.keys, _))

instance (env : Env) (table : Str) (row : Row) : Decidable (Takes env table row) :=
  inferInstanceAs (Decidable (∀ p ∈ row, _))

instance (env : Env) (isGroup : Name → Name → Bool) (vrf : Name) (db : ConfigDb) :
    Decidable (DbOk env isGroup vrf db) :=
  decidable_of_iff ((∀ id ∈ db.keys, id.Right isGroup) ∧ ∀ p ∈ db, p.1.vrf = vrf → Takes env p.1.table p.2.1)
    ⟨fun h => ⟨h.1, h.2⟩, fun h => ⟨h.1, h.2⟩⟩

instance (env : Env) (isGroup : Name → Name → Bool) (s : State) : ∀ e : Event, Decidable (eventOk env isGroup s e)
  | ⟨_, .globals _, _⟩ => inferInstanceAs (Decidable (_ ∧ _ ∧ _ ∧ _))
  | ⟨_, .peer _ _ _, _⟩ => inferInstanceAs (Decidable (_ ∧ _ ∧ (_ → _)))
  | ⟨_, .af _ _ _ _, _⟩ => inferInstanceAs (Decidable (_ ∧ _ ∧ True))

theorem present_of_run (env : Env) (isGroup : Name → Name → Bool) (events : List Event) {s : State}
    (hok : Along (step env) (eventOk env isGroup) State.new events) (hr : run (step env) State.new events = some s) :
    (∀ id k v, (rowOf s.cache id.table id.key).get? k = some v → s.daemon.frr.value id k = some v) ∧
      ∀ id (row : Row) k v, k ∈ env.fields id.table → row.get? k = some v → s.daemon.frr.value id k ≠ some v →
        ∃ x, (addOpToData (rowOf s.cache id.table id.key) row id.combAttrList).get? k = some x ∧ x.data = v ∧
          (x.op = .add ∨ x.op = .update) := by
  have hnew : Good env isGroup State.new.daemon.frr State.new.cache :=
    ⟨fun _ => List.nodup_nil, fun _ _ _ hv => by cases hv⟩
  have hgood : Good env isGroup s.daemon.frr s.cache :=
    run_inv (step env) (fun s e s' hs hok he => Good.step hs hok he) hnew hok hr
  refine ⟨fun id k v hv => (hgood.held id k v hv).value, fun id row k v hk hrow hlost => ?_⟩
  rw [get?_addOpToData (not_mem_combAttrList env (.inl hk)), get?_addOp, hrow]
  refine ⟨_, rfl, ?_⟩
  cases hc : (rowOf s.cache id.table id.key).get? k with
  | none => exact ⟨rfl, .inl rfl⟩
  | some c =>
    have hne : v ≠ c := fun he => hlost (he ▸ (hgood.held id k c hc).value)
    rw [opOf, if_neg hne]
    exact ⟨rfl, .inr rfl⟩

def labEnv : Env where
  accepts := fun _ => true
  metadataAsn := none
  peerIsIp := fun s => '.' ∈ s
  fields := fun _ => ["router_id", "asn", peerGroupName, "weight", "always_compare_med"]
  boolValues := fun _ field => if field = "always_compare_med".toList then some ("true", "false") else none
  localAsn_not_mem := by decide +kernel
  timers_not_mem := fun _ => by decide +kernel

def labNbr : Name := ⟨"10.0.0.1", by decide⟩

def labPeer : RowId := .peer false defaultVrf labNbr

def labRow (k v : Str) : Option RowData := some ⟨[(k, v)], List.nodup_singleton _⟩

def labStart : List Event :=
  [⟨[], .globals defaultVrf, labRow localAsn "65000"⟩, ⟨[], labPeer, labRow "asn" "65001"⟩]

theorem present_removed : ∃ s, run (step labEnv) State.new (labStart ++
      [⟨[], .af false defaultVrf labNbr ipv4Unicast, labRow "weight".toList "10".toList⟩, ⟨[], labPeer, none⟩,
        ⟨[], .globals defaultVrf, none⟩]) = some s ∧
    (∀ id k v, (rowOf s.cache id.table id.key).get? k = some v → s.daemon.frr.value id k = some v) ∧
      ∀ id (row : Row) k v, k ∈ labEnv.fields id.table → row.get? k = some v → s.daemon.frr.value id k ≠ some v →
        ∃ x, (addOpToData (rowOf s.cache id.table id.key) row id.combAttrList).get? k = some x ∧ x.data = v ∧
          (x.op = .add ∨ x.op = .update) :=
  ⟨_, (Option.some_get (by decide +kernel)).symm,
    present_of_run labEnv (fun _ _ => false) _ (by decide +kernel) (Option.some_get (by decide +kernel)).symm⟩

-- no command is found for the token, but the attribute counts as set
example : ∃ s, run (step labEnv) State.new (labStart ++
      [⟨[], .globals defaultVrf, some ⟨[(localAsn, "65000"), ("always_compare_med", "yes")], by decide +kernel⟩⟩]) =
        some s ∧
    (rowOf s.cache "BGP_GLOBALS".toList "default".toList).get? "always_compare_med".toList = some "yes".toList ∧
    s.daemon.frr.value (.globals defaultVrf) "always_compare_med".toList = none :=
  ⟨_, (Option.some_get (by decide +kernel)).symm, by decide +kernel, by decide +kernel⟩

theorem lost_with_router : ∃ s, run (step labEnv) State.new (labStart ++ [⟨[], .globals defaultVrf, none⟩]) = some s ∧
    (rowOf s.cache labPeer.table labPeer.key).get? "asn".toList = some "65001".toList ∧
    s.daemon.frr.value labPeer "asn".toList = none :=
  ⟨_, (Option.some_get (by decide +kernel)).symm, by decide +kernel, by decide +kernel⟩

end Sonic.FrrBgp
