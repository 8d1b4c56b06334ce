import Sonic.FrrBgpRows

/-! # One message of frrcfgd

What a message leaves in the cache is present in FRR: an attribute is written to the cache only
after its command was taken, and a command touches one attribute of one row, as long as a name
stands for one peer. -/

namespace Sonic.FrrBgp

open Frrcfgd

variable {vrf nbr : Name} {k table : Str} {data : OpData} {id' : RowId} {g : Bool}

section
variable (env : Env) (isGroup : Name → Name → Bool)

/-- A name is that of a peer group or of a neighbor, and an address family is written in lower case. -/
def RowId.Right : RowId → Prop
  | .globals _ => True
  | .peer g vrf nbr => isGroup vrf nbr = g
  | .af g vrf nbr afType => isGroup vrf nbr = g ∧ Str.lower afType.1 = afType.1

structure Held (frr : Frr) (id : RowId) (k v : Str) : Prop where
  right : id.Right isGroup
  field : k ∈ env.fields id.table ∨ id.isGlobals = true ∧ k = localAsn
  value : frr.value id k = some v

structure Good (frr : Frr) (cache : Cache) : Prop where
  nodup : ∀ id, (cachedRow cache id).keys.Nodup
  held : ∀ id k v, (cachedRow cache id).get? k = some v → Held env isGroup frr id k v

end

section
variable {env : Env} {isGroup : Name → Name → Bool}

theorem RowId.Right.inj {id : RowId} (h : id.Right isGroup) (h' : id'.Right isGroup) (hvrf : id.vrf = id'.vrf)
    (hnode : id.node = id'.node) : id = id' := by
  cases id with
  | globals vrf =>
    cases id' with
    | globals vrf' => exact congrArg RowId.globals hvrf
    | peer _ _ _ | af _ _ _ _ => cases hnode
  | peer g vrf nbr =>
    cases id' with
    | peer g' vrf' nbr' =>
      obtain rfl : nbr = nbr' := Node.peer.inj hnode
      obtain rfl : vrf = vrf' := hvrf
      obtain rfl : g = g' := h.symm.trans h'
      rfl
    | globals _ | af _ _ _ _ => cases hnode
  | af g vrf nbr t =>
    cases id' with
    | af g' vrf' nbr' t' =>
      obtain ⟨rfl, ht⟩ := Node.af.inj hnode
      obtain rfl : vrf = vrf' := hvrf
      obtain rfl : g = g' := h.1.symm.trans h'.1
      obtain rfl : t = t' := Subtype.ext (h.2.symm.trans (ht.trans h'.2))
      rfl
    | globals _ | peer _ _ _ => cases hnode

theorem not_localAsn {id : RowId} (h : k ∈ env.fields id.table) : ¬(id.isGlobals = true ∧ k = localAsn) := by
  rintro ⟨hg, rfl⟩
  cases id with
  | globals vrf => exact env.localAsn_not_mem h
  | peer _ _ _ | af _ _ _ _ => cases hg

/-! ## Attributes in the cache -/

def attrAfter (old : Option Str) (v : CachedDataWithOp) : Option Str :=
  if v.succ then
    match v.op with
    | .none => old
    | .delete => none
    | .add | .update => some v.data
  else old

theorem get?_updateAttr (cached : Row) (k : Str) (v : CachedDataWithOp) :
    (updateAttr cached (k, v)).get? k = attrAfter (cached.get? k) v := by
  obtain ⟨data, op, succ⟩ := v
  cases succ with
  | false => rfl
  | true =>
    cases op with
    | none => rfl
    | delete => exact Dict.get?_erase_self _ _
    | add | update => exact Dict.get?_set_self _ _ _

theorem get?_updateRow_eq (hn : data.keys.Nodup) (cached : Row) (k : Str) :
    (updateRow cached data).get? k = (data.get? k).elim (cached.get? k) (attrAfter (cached.get? k)) := by
  cases hk : data.get? k <;> simp_all [get?_updateRow_of_not_mem, Dict.get?_eq_none_iff, get?_updateRow,
    get?_updateAttr]

def upd (cache : Cache) (id : RowId) (data : OpData) : Cache := updateCacheData cache id.table id.key data

theorem cachedRow_upd (cache : Cache) (id : RowId) (data : OpData) (id' : RowId) :
    cachedRow (upd cache id data) id' = if id = id' then updateRow (cachedRow cache id) data else cachedRow cache id' :=
  cachedRow_update cache id data id'

theorem cachedRow_upd_self (cache : Cache) (id : RowId) (data : OpData) :
    cachedRow (upd cache id data) id = updateRow (cachedRow cache id) data := by rw [cachedRow_upd, if_pos rfl]

theorem cachedRow_upd_ne (cache : Cache) {id : RowId} (h : id ≠ id') (data : OpData) :
    cachedRow (upd cache id data) id' = cachedRow cache id' := by rw [cachedRow_upd, if_neg h]

section
variable {frr frr' : Frr} {cache : Cache} {id : RowId} {data : OpData}

theorem Good.field (h : Good env isGroup frr (upd cache id data)) (hc : (cachedRow cache id).keys.Nodup)
    (hn : data.keys.Nodup) (hr : id.Right isGroup) {w : CachedDataWithOp}
    (hkeep : Keeps frr frr' fun id' k' => id'.vrf = id.vrf ∧ id'.node = id.node ∧ k' = k)
    (hnew : ∀ x, attrAfter ((cachedRow cache id).get? k) w = some x → Held env isGroup frr' id k x) :
    Good env isGroup frr' (upd cache id (data.set k w)) := by
  refine ⟨fun id' => ?_, fun id' k' x hx => ?_⟩
  · by_cases hid : id = id'
    · grind [cachedRow_upd_self, nodup_updateRow]
    · rw [cachedRow_upd_ne _ hid, ← cachedRow_upd_ne _ hid data]
      exact h.nodup id'
  · by_cases hid : id = id'
    · subst hid
      rw [cachedRow_upd_self, get?_updateRow_eq (Dict.nodup_set k w hn), Dict.get?_set] at hx
      by_cases hk : k = k'
      · grind
      · rw [if_neg hk, ← get?_updateRow_eq hn, ← cachedRow_upd_self] at hx
        have hheld := h.held id k' x hx
        exact ⟨hr, hheld.field, hkeep id k' x (fun hl => hk hl.2.2.symm) hheld.value⟩
    · rw [cachedRow_upd_ne _ hid, ← cachedRow_upd_ne _ hid data] at hx
      have hheld := h.held id' k' x hx
      refine ⟨hheld.right, hheld.field, hkeep id' k' x (fun hl => ?_) hheld.value⟩
      exact hid (hr.inj hheld.right hl.1.symm hl.2.1.symm)

theorem Good.keeps (h : Good env isGroup frr cache) (hkeep : Keeps frr frr' fun _ _ => False) :
    Good env isGroup frr' cache :=
  ⟨h.nodup, fun id k v hv =>
    let hheld := h.held id k v hv
    ⟨hheld.right, hheld.field, hkeep id k v (fun hl => hl) hheld.value⟩⟩

end

variable (env) in
/-- Every value that may be set has a command. -/
def Tokens (table : Str) (data : OpData) : Prop :=
  ∀ p ∈ data, p.1 ∈ env.fields table → p.2.op ≠ .delete → env.takes table p.1 p.2.data = true

theorem Tokens.set (h : Tokens env table data) {v w : CachedDataWithOp}
    (hv : data.get? k = some v) (hd : w.data = v.data) (hop : v.op = .delete → w.op = .delete) :
    Tokens env table (data.set k w) := by
  intro p hp hf hne
  rcases Dict.mem_set hp with hp | rfl
  · exact h p hp hf hne
  · dsimp only at hne ⊢
    rw [hd]
    exact h (k, v) (Dict.get?_eq_some_mem hv) hf fun hdel => hne (hop hdel)

theorem Tokens.done (h : Tokens env table data) {v : CachedDataWithOp}
    (hv : data.get? k = some v) : Tokens env table (data.set k v.done) := h.set hv rfl id

theorem tokens_forceOp_delete (table : Str) (data : OpData) : Tokens env table (forceOp .delete data) := by
  intro p hp _ hne
  obtain ⟨q, -, rfl⟩ := List.mem_map.mp hp
  exact absurd rfl hne

variable (env isGroup) in
structure RowOk (cache : Cache) (id : RowId) (d : Daemon) (data : OpData) : Prop where
  nodup : data.keys.Nodup
  tokens : Tokens env id.table data
  good : Good env isGroup d.frr (upd cache id data)

section
variable {cache : Cache} {id : RowId} (hr : id.Right isGroup) (hc : (cachedRow cache id).keys.Nodup)
include hr hc

theorem RowOk.field {r : Ran} (h : RowOk env isGroup cache id r.daemon r.data) {field : Str}
    (hf : field ∈ env.fields id.table) (asn : Str) :
    RowOk env isGroup cache id (runField env id asn id.node r field).daemon
      (runField env id asn id.node r field).data := by
  unfold runField
  cases hv : r.data.get? field with
  | none => exact h
  | some v =>
    have hold : ∀ x, attrAfter ((cachedRow cache id).get? field) v = some x →
        Held env isGroup r.daemon.frr id field x := by
      intro x hx
      refine h.good.held id field x ?_
      rw [cachedRow_upd_self, get?_updateRow_eq h.nodup, hv]
      exact hx
    dsimp only
    obtain ⟨data, op, succ⟩ := v
    cases op with
    | none =>
      refine ⟨Dict.nodup_set _ _ h.nodup, h.tokens.done hv,
        h.good.field hc h.nodup hr (fun _ _ _ _ hx => hx) fun x hx => hold x ?_⟩
      cases succ <;> exact hx
    | add | update =>
      have htakes : env.takes id.table field data = true :=
        h.tokens (field, _) (Dict.get?_eq_some_mem hv) hf fun hop => by cases hop
      dsimp only [config]
      rw [if_pos htakes]
      dsimp only
      rcases runCommand_cases env r.daemon (.router id.vrf asn (.set id.node field data)) with
        ⟨d, hrun, hfrr⟩ | ⟨d, hrun, hexec⟩
      · rw [hrun]
        exact ⟨h.nodup, h.tokens, hfrr ▸ h.good⟩
      · rw [hrun]
        refine ⟨Dict.nodup_set _ _ h.nodup, h.tokens.done hv, h.good.field hc h.nodup hr ?_ fun x hx => ?_⟩
        · grind [Keeps.exec, Instance.value_set_ne]
        · cases hx
          exact ⟨hr, .inl hf, value_of_exec hexec fun i _ => Instance.value_set_self (not_localAsn hf)⟩
    | delete =>
      dsimp only [config]
      rcases runCommand_cases env r.daemon (.router id.vrf asn (.unset id.node field)) with
        ⟨d, hrun, hfrr⟩ | ⟨d, hrun, hexec⟩
      · rw [hrun]
        exact ⟨h.nodup, h.tokens, hfrr ▸ h.good⟩
      · rw [hrun]
        refine ⟨Dict.nodup_set _ _ h.nodup, h.tokens.done hv, h.good.field hc h.nodup hr ?_ fun x hx => by cases hx⟩
        grind [Keeps.exec, Instance.value_unset_ne]

theorem RowOk.fields {d : Daemon} (h : RowOk env isGroup cache id d data) (asn : Str) :
    RowOk env isGroup cache id (runFields env d id id.node asn data).daemon
      (runFields env d id id.node asn data).data := by
  suffices H : ∀ (l : List Str) (r : Ran), (∀ f ∈ l, f ∈ env.fields id.table) →
      RowOk env isGroup cache id r.daemon r.data →
      RowOk env isGroup cache id (l.foldl (runField env id asn id.node) r).daemon
        (l.foldl (runField env id asn id.node) r).data from
    H _ ⟨d, data, 0, false⟩ (fun _ hf => hf) h
  intro l
  induction l <;> simp_all [field]

end

/-! ## Rows that are dropped -/

def Drops (cache cache' : Cache) : Prop := ∀ id, cachedRow cache' id = cachedRow cache id ∨ cachedRow cache' id = []

section
variable {frr : Frr} {cache cache' cache'' : Cache}

theorem Drops.refl (cache : Cache) : Drops cache cache := fun _ => .inl rfl

theorem Drops.trans (h : Drops cache cache') (h' : Drops cache' cache'') : Drops cache cache'' := by
  intro id
  rcases h' id with h' | h'
  · rw [h']
    exact h id
  · exact .inr h'

theorem Good.drops (h : Good env isGroup frr cache) (hd : Drops cache cache') : Good env isGroup frr cache' := by
  refine ⟨fun id => ?_, fun id k v hv => ?_⟩
  · rcases hd id with hid | hid
    · rw [hid]
      exact h.nodup id
    · rw [hid]
      exact List.nodup_nil
  · rcases hd id with hid | hid <;> simp_all [h.held]

theorem Drops.upd (h : Drops cache cache') {id : RowId} (hid : cachedRow cache' id = cachedRow cache id)
    (data : OpData) :
    Drops (upd cache id data) (upd cache' id data) := by
  intro id'
  by_cases he : id = id'
  · grind [cachedRow_upd_self]
  · rw [cachedRow_upd_ne _ he, cachedRow_upd_ne _ he]
    exact h id'

theorem cachedRow_erase_self (cache : Cache) (id : RowId) : cachedRow (cache.erase (id.table, id.key)) id = [] := by
  grind [cachedRow, rowOf]

theorem cachedRow_erase_ne (cache : Cache) {id : RowId} (h : id ≠ id') :
    cachedRow (cache.erase (id.table, id.key)) id' = cachedRow cache id' := by
  have hne : (id.table, id.key) ≠ (id'.table, id'.key) := fun he =>
    h (RowId.key_inj (Prod.mk.inj he).1 (Prod.mk.inj he).2)
  grind [cachedRow, rowOf]

def nbrRows (vrf nbr : Name) : List RowId :=
  [.peer false vrf nbr, .af false vrf nbr ipv4Unicast, .af false vrf nbr ipv6Unicast]

theorem cachedRow_cleanup (vrf nbr : Name) (cache : Cache) (id : RowId) :
    cachedRow (cleanupNbrCache vrf nbr cache) id = if id ∈ nbrRows vrf nbr then [] else cachedRow cache id := by
  suffices H : ∀ (l : List RowId) (cache : Cache),
      cachedRow (l.foldl (fun cache id => cache.erase (id.table, id.key)) cache) id =
        if id ∈ l then [] else cachedRow cache id from H _ cache
  intro l
  induction l with
  | nil => exact fun cache => rfl
  | cons id' l ih =>
    intro cache
    rw [List.foldl_cons, ih]
    by_cases he : id' = id <;> simp_all [cachedRow_erase_self, cachedRow_erase_ne, Ne.symm]

theorem Drops.cleanup (vrf nbr : Name) (cache : Cache) : Drops cache (cleanupNbrCache vrf nbr cache) := by
  intro id
  rw [cachedRow_cleanup]
  grind

theorem cachedRow_deletePgNeighbors (d : Daemon) (cache : Cache) (vrf pg : Name) :
    Drops cache (deletePgNeighbors d cache vrf pg).2 ∧ (deletePgNeighbors d cache vrf pg).1.frr = d.frr ∧
      ∀ vrf' pg', cachedRow (deletePgNeighbors d cache vrf pg).2 (.peer true vrf' pg') =
        cachedRow cache (.peer true vrf' pg') := by
  unfold deletePgNeighbors
  cases d.bgpPeerGroup.get? (vrf, pg) with
  | none => grind [Drops.refl]
  | some refNbrs =>
    dsimp only
    suffices H : ∀ cache : Cache, Drops cache (refNbrs.foldl (fun cache nbr => cleanupNbrCache vrf nbr cache) cache) ∧
        ∀ vrf' pg', cachedRow (refNbrs.foldl (fun cache nbr => cleanupNbrCache vrf nbr cache) cache)
          (.peer true vrf' pg') = cachedRow cache (.peer true vrf' pg') from
      ⟨(H cache).1, rfl, (H cache).2⟩
    induction refNbrs with
    | nil => grind [Drops.refl]
    | cons nbr l ih =>
      intro cache
      obtain ⟨hd, hp⟩ := ih (cleanupNbrCache vrf nbr cache)
      refine ⟨(Drops.cleanup vrf nbr cache).trans hd, fun vrf' pg' => (hp vrf' pg').trans ?_⟩
      rw [cachedRow_cleanup, if_neg]
      simp [nbrRows]

end

theorem get?_forceOp (op : Op) (data : OpData) (k : Str) :
    (forceOp op data).get? k = (data.get? k).map fun v => ⟨v.data, op, true⟩ :=
  Dict.get?_map (fun _ (v : CachedDataWithOp) => (⟨v.data, op, true⟩ : CachedDataWithOp)) k data

theorem keys_forceOp (op : Op) (data : OpData) : (forceOp op data).keys = data.keys := by
  simp_all [forceOp, Dict.keys]

theorem updateRow_forceOp_none (data : OpData) (cached : Row) : updateRow cached (forceOp .none data) = cached := by
  unfold updateRow forceOp
  induction data with
  | nil => rfl
  | cons p data ih => exact ih

theorem cachedRow_upd_none (cache : Cache) (id : RowId) (data : OpData) (id' : RowId) :
    cachedRow (upd cache id (forceOp .none data)) id' = cachedRow cache id' := by
  grind [cachedRow_upd, updateRow_forceOp_none]

theorem Good.upd_fail {frr : Frr} {cache : Cache} (h : Good env isGroup frr cache) (id : RowId)
    (hf : ∀ p ∈ data, p.2.succ = false) : Good env isGroup frr (upd cache id data) := by
  refine h.drops fun id' => .inl ?_
  grind [cachedRow_upd, updateRow_of_fail]

section
variable {cache : Cache} {vrf : Name} {d : Daemon} {data : OpData}

theorem deleteVrfAsn_ok (h : RowOk env isGroup cache (.globals vrf) d data) (hg : Good env isGroup d.frr cache)
    (hfree : ∀ id : RowId, id.vrf = vrf → id.isGlobals = false → cachedRow cache id = [])
    (hcov : ∀ k v, (cachedRow cache (.globals vrf)).get? k = some v → k ∈ data.keys) :
    RowOk env isGroup cache (.globals vrf) (deleteVrfAsn env d vrf data).1 (deleteVrfAsn env d vrf data).2 := by
  unfold deleteVrfAsn
  split
  · exact h
  · cases getVrfAsn env d vrf with
    | none => exact h
    | some asn =>
      dsimp only
      rcases runCommand_cases env d (.noRouter vrf asn) with ⟨d', hrun, hfrr⟩ | ⟨d', hrun, hexec⟩
      · rw [hrun]
        exact ⟨h.nodup, h.tokens, hfrr ▸ h.good⟩
      · rw [hrun]
        have hfrr := Frr.exec_noRouter hexec
        have hn : (forceOp .delete data).keys.Nodup := by rw [keys_forceOp]; exact h.nodup
        refine ⟨hn, tokens_forceOp_delete _ _, fun id => ?_, fun id k v hv => ?_⟩
        · by_cases hid : RowId.globals vrf = id <;> simp_all [cachedRow_upd_self, nodup_updateRow, hg.nodup,
            cachedRow_upd_ne]
        · by_cases hid : RowId.globals vrf = id
          · subst hid
            rw [cachedRow_upd_self, get?_updateRow_eq hn, get?_forceOp] at hv
            cases hk : data.get? k with
            | some w => rw [hk] at hv; cases hv
            | none =>
              rw [hk] at hv
              exact absurd (hcov k v hv) (Dict.get?_eq_none_iff.mp hk)
          · rw [cachedRow_upd_ne _ hid] at hv
            have hheld := hg.held id k v hv
            refine ⟨hheld.right, hheld.field, ?_⟩
            have hvrf : vrf ≠ id.vrf := by
              intro he
              cases hglobals : id.isGlobals with
              | false => simp_all
              | true =>
                cases id with
                | globals vrf' => exact hid (congrArg RowId.globals he)
                | peer _ _ _ | af _ _ _ _ => cases hglobals
            dsimp only
            rw [hfrr, Frr.value, Dict.get?_erase_ne hvrf]
            exact hheld.value

theorem setVrfAsn_ok (hc : (cachedRow cache (.globals vrf)).keys.Nodup)
    (h : RowOk env isGroup cache (.globals vrf) d data)
    {asn : CachedDataWithOp} (hasn : data.get? localAsn = some asn) (hop : asn.op = .none ∨ asn.op = .add) :
    RowOk env isGroup cache (.globals vrf) (setVrfAsn env d vrf data asn).1 (setVrfAsn env d vrf data asn).2 := by
  have hright : (RowId.globals vrf).Right isGroup := trivial
  obtain ⟨value, op, succ⟩ := asn
  rcases hop with rfl | rfl
  · refine ⟨Dict.nodup_set _ _ h.nodup, h.tokens.done hasn,
      h.good.field hc h.nodup hright (fun _ _ _ _ hx => hx) fun x hx => ?_⟩
    refine h.good.held _ localAsn x ?_
    rw [cachedRow_upd_self, get?_updateRow_eq h.nodup, hasn]
    cases succ <;> exact hx
  · rw [setVrfAsn, if_pos rfl]
    rcases runCommand_cases env d (.router vrf value (.line "no bgp default ipv4-unicast")) with
      ⟨d', hrun, hfrr⟩ | ⟨d', hrun, hexec⟩
    · rw [hrun]
      exact ⟨h.nodup, h.tokens, hfrr ▸ h.good⟩
    · rw [hrun]
      refine ⟨Dict.nodup_set _ _ h.nodup, h.tokens.done hasn, h.good.field hc h.nodup hright ?_ fun x hx => ?_⟩
      · exact Keeps.exec hexec fun _ _ _ _ _ => rfl
      · cases hx
        have hvalue : d'.frr.value (.globals vrf) localAsn = some value := value_of_exec hexec fun i hi => hi ▸ rfl
        exact ⟨hright, .inr ⟨rfl, rfl⟩, hvalue⟩

theorem configGlobals_ok (hc : (cachedRow cache (.globals vrf)).keys.Nodup)
    (h : RowOk env isGroup cache (.globals vrf) d data) :
    RowOk env isGroup cache (.globals vrf) (configGlobals env d vrf data).1 (configGlobals env d vrf data).2 := by
  have hright : (RowId.globals vrf).Right isGroup := trivial
  unfold configGlobals
  cases getVrfAsn env d vrf with
  | none => exact h
  | some asn =>
    dsimp only
    cases data.get? "srv6_locator" with
    | none => exact h.fields hright hc asn
    | some v =>
      dsimp only
      rcases runCommand_cases env d (.router vrf asn (.line ("locator " ++ v.data))) with
        ⟨d', hrun, hfrr⟩ | ⟨d', hrun, hexec⟩
      · rw [hrun]
        exact ⟨h.nodup, h.tokens, hfrr ▸ h.good⟩
      · rw [hrun]
        refine RowOk.fields hright hc ⟨h.nodup, h.tokens, h.good.keeps ?_⟩ asn
        exact Keeps.exec hexec fun _ _ _ _ _ => rfl

end

section
variable {cache : Cache} {d : Daemon} {data : OpData}

theorem createPeer_ok {id : RowId} (h : RowOk env isGroup cache id d data) (g : Bool) (vrf nbr : Name) (asn : Str) :
    RowOk env isGroup cache id (createPeer env d g vrf nbr asn).2 data := by
  have hcreate : ∀ d', d.frr.exec (.router vrf asn (.create nbr)) = some d'.frr → RowOk env isGroup cache id d' data :=
    fun d' hexec => ⟨h.nodup, h.tokens, h.good.keeps (Keeps.exec hexec fun i id k _ _ => Instance.value_create nbr)⟩
  unfold createPeer
  split
  · split
    · exact h
    · rcases runCommand_cases env d (.router vrf asn (.create nbr)) with ⟨d', hrun, hfrr⟩ | ⟨d', hrun, hexec⟩
      · rw [hrun]
        exact ⟨h.nodup, h.tokens, hfrr ▸ h.good⟩
      · grind
  · split
    · exact h
    · rcases runCommand_cases env d (.router vrf asn (.create nbr)) with ⟨d', hrun, hfrr⟩ | ⟨d', hrun, hexec⟩
      · rw [hrun]
        exact ⟨h.nodup, h.tokens, hfrr ▸ h.good⟩
      · grind

theorem frr_trackGroup {d' : Daemon} (h : trackGroup d vrf nbr data = some d') : d'.frr = d.frr := by
  grind [trackGroup, Option.map_eq_some_iff]

theorem renewBfdCheck_nodup (h : data.keys.Nodup) : (renewBfdCheck data).keys.Nodup := by
  unfold renewBfdCheck
  split
  · split
    · exact Dict.nodup_set _ _ h
    · exact h
  · exact h

theorem renewBfdCheck_fail (h : ∀ p ∈ data, p.2.succ = false) : ∀ p ∈ renewBfdCheck data, p.2.succ = false := by
  unfold renewBfdCheck
  split
  · rename_i chk _ hchk
    split
    · intro p hp
      rcases Dict.mem_set hp with hp | rfl
      · exact h p hp
      · exact h (_, chk) (Dict.get?_eq_some_mem hchk)
    · exact h
  · exact h

theorem renewBfdCheck_tokens (h : Tokens env table data) : Tokens env table (renewBfdCheck data) := by
  unfold renewBfdCheck
  split
  · rename_i chk _ hchk
    split
    · rename_i hop
      exact h.set hchk rfl fun hdel => by rw [hop.2.2.1] at hdel; cases hdel
    · exact h
  · exact h

theorem frr_deleteVrfNeighbor (cache : Cache) (vrf nbr : Name) (data : OpData) (g : Bool) :
    (deleteVrfNeighbor env d cache vrf nbr data g).daemon.frr = d.frr := by cases g <;> rfl

theorem implAction_ok (h : RowOk env isGroup cache (.peer g vrf nbr) d data)
    (db : ConfigDb) :
    Good env isGroup (implAction env db d cache g vrf nbr data).daemon.frr
      (upd (implAction env db d cache g vrf nbr data).cache (.peer g vrf nbr)
        (implAction env db d cache g vrf nbr data).data) := by
  unfold implAction
  split
  · exact h.good
  · split
    · rename_i hg
      subst hg
      obtain ⟨hdrops, hfrr, hsame⟩ := cachedRow_deletePgNeighbors d cache vrf nbr
      dsimp only
      rw [hfrr]
      exact h.good.drops (hdrops.upd (hsame vrf nbr) data)
    · rename_i hg
      obtain rfl := Bool.eq_false_iff.mpr hg
      split
      · refine h.good.drops fun id => ?_
        dsimp only [deleteVrfNeighbor]
        rw [cachedRow_upd_none, cachedRow_cleanup]
        split
        · exact .inr rfl
        · rename_i hid
          have hne : RowId.peer false vrf nbr ≠ id := fun he => hid (he ▸ List.mem_cons_self)
          grind [cachedRow_upd_ne]
      · exact h.good
  · exact h.good

theorem setPeer_ok (hr : (RowId.peer g vrf nbr).Right isGroup)
    (hg : Good env isGroup d.frr cache) (hn : data.keys.Nodup)
    (ht : Tokens env (RowId.peer g vrf nbr).table data) (hf : ∀ p ∈ data, p.2.succ = false) (db : ConfigDb)
    (asn : Str) :
    Good env isGroup (setPeer env db d cache g vrf nbr asn data).daemon.frr
      (upd (setPeer env db d cache g vrf nbr asn data).cache (.peer g vrf nbr)
        (setPeer env db d cache g vrf nbr asn data).data) := by
  have hok : RowOk env isGroup cache (.peer g vrf nbr) (createPeer env d g vrf nbr asn).2 (renewBfdCheck data) :=
    createPeer_ok ⟨renewBfdCheck_nodup hn, renewBfdCheck_tokens ht, hg.upd_fail _ (renewBfdCheck_fail hf)⟩ g vrf nbr asn
  have hok' : RowOk env isGroup cache (.peer g vrf nbr) (createPeer env d g vrf nbr asn).2 data :=
    createPeer_ok ⟨hn, ht, hg.upd_fail _ hf⟩ g vrf nbr asn
  unfold setPeer
  split
  · rename_i d' hd'
    rw [hd'] at hok
    have hran := RowOk.fields hr (hg.nodup _) hok asn
    unfold configPeer
    dsimp only
    split
    · split
      · exact hran.good
      · rename_i d'' hd''
        refine implAction_ok ⟨hran.nodup, hran.tokens, ?_⟩ db
        rw [frr_trackGroup hd'']
        exact hran.good
    · exact hran.good
  · grind [hok'.good]

theorem delPeer_ok (hg : Good env isGroup d.frr cache)
    (hgone : ∀ id : RowId, id.vrf = vrf → id.node.under nbr = true → id.Right isGroup →
      cachedRow cache id = [] ∨ id ∈ nbrRows vrf nbr) (asn : Str) :
    Good env isGroup (delPeer env d cache g vrf nbr asn data).daemon.frr
      (upd (delPeer env d cache g vrf nbr asn data).cache (.peer g vrf nbr)
        (delPeer env d cache g vrf nbr asn data).data) := by
  unfold delPeer
  obtain ⟨d₁, cache₁, heq, hdrops, hfrr₁⟩ : ∃ d₁ cache₁,
      (if g = true then deletePgNeighbors d cache vrf nbr else (d, cache)) = (d₁, cache₁) ∧ Drops cache cache₁ ∧
        d₁.frr = d.frr := by grind [cachedRow_deletePgNeighbors, Drops.refl]
  rw [heq]
  dsimp only
  rw [frr_deleteVrfNeighbor]
  have hrows : Drops cache (upd (cleanupNbrCache vrf nbr cache₁) (.peer g vrf nbr) (forceOp .none data)) := by
    refine (hdrops.trans (Drops.cleanup vrf nbr cache₁)).trans fun id => .inl ?_
    exact cachedRow_upd_none _ _ _ _
  rcases runCommand_cases env d₁ (.router vrf asn (.noNeighbor nbr)) with ⟨d', hrun, hfrr⟩ | ⟨d', hrun, hexec⟩
  · rw [hrun]
    dsimp only
    rw [hfrr, hfrr₁]
    exact hg.drops hrows
  · rw [hrun]
    dsimp only
    rw [hfrr₁] at hexec
    have hkeep : Keeps d.frr d'.frr fun id _ => id.vrf = vrf ∧ id.node.under nbr = true :=
      Keeps.exec hexec fun i id k hvrf hl => Instance.value_noNeighbor (Bool.eq_false_iff.mpr fun hu => hl ⟨hvrf, hu⟩)
    refine ⟨(hg.drops hrows).nodup, fun id k v hv => ?_⟩
    have hheld := (hg.drops hrows).held id k v hv
    refine ⟨hheld.right, hheld.field, hkeep id k v (fun hl => ?_) hheld.value⟩
    dsimp only [deleteVrfNeighbor] at hv
    rw [cachedRow_upd_none, cachedRow_cleanup] at hv
    split at hv
    · cases hv
    · rename_i hid
      rcases hdrops id with hsame | hnil
      · rw [hsame, (hgone id hl.1 hl.2 hheld.right).resolve_right hid] at hv
        cases hv
      · simp_all

end

end

end Sonic.FrrBgp
