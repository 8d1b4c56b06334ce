import Sonic.IccpMac

/-! # Agreement of two switches on the age of an address

Each switch tells the other when it learns or ages an address. What one switch says and the other
has not heard yet is a stream of messages, in the channel and in the queue; the last of them is what
the first switch holds to be true of itself. -/

namespace Sonic.IccpMac
open List Option

section
variable (k : Key)

def Node.claims (n : Node) : Bool := ((n.macRb.get? k).map fun m => !m.ageFlag.localAged).getD false

def Node.hears (n : Node) : Bool := ((n.macRb.get? k).map fun m => !m.ageFlag.peerAged).getD false

def Node.messages (n : Node) : List MacData := n.macMsgList.filterMap n.message

structure Rep (n : Node) (gone : List MacMsg) (entry : Option MacMsg) (queued : Bool) : Prop where
  found : n.macRb.get? k = entry
  list : n.macMsgList = gone.map (.gone k) ++ if queued then [.live k] else []
  live : queued = true → entry.isSome = true

end

section
variable {k : Key} {n : Node} {gone : List MacMsg} {entry : Option MacMsg} {queued : Bool}

theorem Rep.messages (h : Rep k n gone entry queued) :
    n.messages = gone.map (·.data k) ++ if queued then (entry.map (·.data k)).toList else [] := by
  have hgone : (gone.map (Item.gone k)).filterMap n.message = gone.map (·.data k) := by
    rw [filterMap_map]
    exact congrFun filterMap_eq_map gone
  grind [Node.messages, h.list, Node.message, h.found]

theorem Rep.apply (h : Rep k n gone entry queued) (f : Effect) :
    Rep k (n.apply k f) (if f.removed && (queued || f.queued) then gone ++ [f.entry] else gone)
      (if f.removed then none else some f.entry) (!f.removed && (queued || f.queued)) := by
  have hnot : Item.live k ∉ gone.map (Item.gone k) := by grind
  have hq : (if f.queued then n.enqueue k else n.macMsgList) =
      gone.map (.gone k) ++ if (queued || f.queued) then [.live k] else [] := by
    unfold Node.enqueue
    rw [h.list]
    grind
  unfold Node.apply
  dsimp only
  rw [hq]
  cases hr : f.removed with
  | true =>
    have hmap : (gone.map (Item.gone k)).map (fun i => if i = .live k then Item.gone k f.entry else i) =
        gone.map (Item.gone k) := by simp_all
    refine ⟨Dict.get?_erase_self _ _, ?_, fun h => by cases h⟩
    rw [if_pos rfl]
    dsimp only
    rw [map_append, hmap, Bool.true_and]
    cases (queued || f.queued) with
    | true => simp
    | false => simp
  | false => exact ⟨Dict.get?_set_self _ _ _, rfl, fun _ => rfl⟩

end

section
variable (k : Key) (n : Node)

def Node.types : List (Option Op) := n.messages.map MacData.type

end

section
variable {k : Key} {n : Node} {gone : List MacMsg} {entry : Option MacMsg} {queued : Bool}

theorem Rep.types (h : Rep k n gone entry queued) :
    n.types = gone.map MacMsg.opType ++ if queued then (entry.map MacMsg.opType).toList else [] := by
  rw [Node.types, h.messages, map_append, List.map_map]
  cases queued with
  | false => rfl
  | true => cases entry <;> rfl

theorem Rep.types_apply (h : Rep k n gone entry queued) (f : Effect) :
    (n.apply k f).types = gone.map MacMsg.opType ++ if (queued || f.queued) then [f.entry.opType] else [] := by
  rw [(h.apply f).types]
  grind

end

/-! ## What a switch does to its entry -/

/-- The shared port-channels are up and the switches exchange messages. -/
structure Shared (ports : List Str) (env : Env) : Prop where
  exchange : env.exchange = true
  port : ∀ p ∈ ports, env.lifs.get? p = some ⟨.up, true⟩
  link : env.peerItfName ∉ ports

section
variable (ports : List Str) (k : Key)

structure Fine (d : MacData) : Prop where
  key : d.key = k
  type : d.type.isSome = true
  mac : d.macType = .dynamic
  port : d.ifname ∈ ports

structure EntryOk (m : MacMsg) (queued : Bool) : Prop where
  type : m.fdbType = .dynamic
  port : m.ifname ∈ ports
  origin : m.originIfname ∈ ports
  pending : m.pendingLocalDel = false
  age : m.ageFlag ≠ .both
  op : queued = true → m.opType = some (if m.ageFlag.localAged then .del else .add)

def NodeOk (n : Node) : Prop :=
  Shared ports n.env ∧ ∃ gone entry queued, Rep k n gone entry queued ∧ (∀ m ∈ gone, Fine ports k (m.data k)) ∧
    ∀ m, entry = some m → EntryOk ports m queued

end

section
variable {ports : List Str} {k : Key} {n : Node}

theorem EntryOk.fine {m : MacMsg} (h : EntryOk ports m true) : Fine ports k (m.data k) :=
  ⟨rfl, by rw [MacMsg.data, h.op rfl]; rfl, h.type, h.origin⟩

theorem NodeOk.fine (h : NodeOk ports k n) : ∀ d ∈ n.messages, Fine ports k d := by
  obtain ⟨-, gone, entry, queued, hrep, hgone, hentry⟩ := h
  intro d hd
  rw [hrep.messages, mem_append] at hd
  rcases hd with hd | hd
  · grind
  · cases queued with
    | false => cases hd
    | true =>
      rw [if_pos rfl, mem_toList, map_eq_some_iff] at hd
      obtain ⟨m, hm, rfl⟩ := hd
      exact (hentry m hm).fine

theorem NodeOk.entryOk (h : NodeOk ports k n) {m : MacMsg} (hm : n.macRb.get? k = some m) :
    ∃ queued, EntryOk ports m queued := by
  obtain ⟨-, gone, entry, queued, hrep, -, hentry⟩ := h
  exact ⟨queued, hentry m (hrep.found.symm.trans hm)⟩

theorem env_apply (k : Key) (f : Effect) : (n.apply k f).env = n.env := by grind [Node.apply]

theorem NodeOk.apply (h : NodeOk ports k n) {f : Effect}
    (hf : ∀ queued, (queued = true → (n.macRb.get? k).isSome = true) →
      (∀ m, n.macRb.get? k = some m → EntryOk ports m queued) →
      EntryOk ports f.entry (queued || f.queued) ∨ f.removed = true ∧
        ((queued || f.queued) = true → Fine ports k (f.entry.data k))) : NodeOk ports k (n.apply k f) := by
  obtain ⟨hs, gone, entry, queued, hrep, hgone, hentry⟩ := h
  refine ⟨by rw [env_apply]; exact hs, _, _, _, hrep.apply f, fun m hm => ?_, fun m hm => ?_⟩
  · split at hm
    · rename_i hq
      rw [Bool.and_eq_true] at hq
      rcases List.mem_append.mp hm with hm | hm
      · exact hgone m hm
      · obtain rfl := List.mem_singleton.mp hm
        rcases hf queued (hrep.found ▸ hrep.live) (hrep.found ▸ hentry) with h | h
        · rw [hq.2] at h
          exact h.fine
        · exact h.2 hq.2
    · exact hgone m hm
  · cases hr : f.removed with
    | true => grind
    | false => grind [hrep.found, hrep.live]

structure Silent (old : Option MacMsg) (f : Effect) : Prop where
  queued : f.queued = false
  entry : ∃ m, old = some m ∧ m.opType = f.entry.opType ∧ (m.ageFlag.localAged = f.entry.ageFlag.localAged)

theorem NodeOk.types_silent (h : NodeOk ports k n) {f : Effect} (hf : Silent (n.macRb.get? k) f) :
    (n.apply k f).types = n.types := by
  obtain ⟨-, gone, entry, queued, hrep, -⟩ := h
  obtain ⟨m, hm, hop, -⟩ := hf.entry
  rw [hrep.found] at hm
  rw [hrep.types_apply f, hrep.types, hf.queued, Bool.or_false, hm, ← hop]
  rfl

theorem NodeOk.types_none (h : NodeOk ports k n) (hm : n.macRb.get? k = none) {f : Effect} (hf : f.queued = false) :
    (n.apply k f).types = n.types := by
  obtain ⟨-, gone, entry, queued, hrep, -⟩ := h
  have hentry : entry = none := hrep.found.symm.trans hm
  have hqueued : queued = false := by
    cases hq : queued with
    | false => rfl
    | true => exact absurd (hrep.live hq) (by simp_all)
  rw [hrep.types_apply, hrep.types, hf, hqueued]
  rfl

theorem NodeOk.types_queued (h : NodeOk ports k n) {f : Effect} (hf : f.queued = true) :
    ∃ l, (n.apply k f).types = l ++ [f.entry.opType] := by
  obtain ⟨-, gone, entry, queued, hrep, -⟩ := h
  refine ⟨gone.map MacMsg.opType, ?_⟩
  rw [hrep.types_apply f, hf, Bool.or_true, if_pos rfl]

theorem claims_apply (f : Effect) : (n.apply k f).claims k = (!f.removed && !f.entry.ageFlag.localAged) := by
  unfold Node.claims Node.apply
  grind

theorem hears_apply (f : Effect) : (n.apply k f).hears k = (!f.removed && !f.entry.ageFlag.peerAged) := by
  unfold Node.hears Node.apply
  grind

section
variable {env : Env} (henv : Shared ports env) {p : Str} (hp : p ∈ ports)
include henv hp

theorem Shared.fromMclagIntf : env.fromMclagIntf p = true := by
  rw [Env.fromMclagIntf, henv.port p hp]
  rfl

theorem Shared.lifDown : env.lifDown p = false := by
  rw [Env.lifDown, henv.port p hp]
  rfl

theorem Shared.ne_link : p ≠ env.peerItfName := fun h => henv.link (h ▸ hp)

variable {m : MacMsg} {queued : Bool} (hm : EntryOk ports m queued)
include hm

theorem syncdAdd_eq (hmove : m.ifname = p ∧ m.originIfname = p ∨ m.ageFlag.peerAged = true) :
    syncdAdd env p .dynamic m =
      ⟨{ m with
          ifname := p, originIfname := p, ageFlag := ⟨false, m.ageFlag.peerAged⟩
          opType := if m.ageFlag.localAged then some .add else m.opType }, m.ageFlag.localAged, false⟩ := by
  obtain ⟨op, fdb, ifname, origin, ⟨aged, peer⟩, pending⟩ := m
  have hfdb : fdb = .dynamic := hm.type
  subst hfdb
  unfold syncdAdd setMacLocalAgeFlag
  rw [henv.lifDown hp, henv.exchange, if_neg (by simp)]
  split
  · rename_i hne
    have hpeer : peer = true := by
      rcases hmove with ⟨h₁, h₂⟩ | h <;> simp_all
    subst hpeer
    cases aged <;> rfl
  · rename_i hsame
    simp only [ne_eq, not_true_eq_false, false_or, not_or, Decidable.not_not] at hsame
    obtain ⟨rfl, rfl⟩ := hsame
    cases aged <;> rfl

theorem syncdDel_eq : syncdDel env p m =
    if m.ageFlag.localAged then m.keep
    else ⟨{ m with ageFlag := ⟨true, m.ageFlag.peerAged⟩, opType := some .del }, true, m.ageFlag.peerAged⟩ := by
  have hlink : m.ifname ≠ env.peerItfName := henv.ne_link hm.port
  have hage := hm.age
  obtain ⟨op, fdb, ifname, origin, ⟨aged, peer⟩, pending⟩ := m
  have hup : ¬(p ≠ env.peerItfName ∧ env.fromMclagIntf p = true ∧ env.lifDown p = true ∧ env.peerItfName ≠ []) := by
    rw [henv.lifDown hp]
    simp_all
  unfold syncdDel setMacLocalAgeFlag Effect.dropAged
  rw [if_neg hlink, henv.exchange]
  dsimp only
  rw [if_neg hup]
  cases aged with
  | false => cases peer <;> rfl
  | true =>
    cases peer with
    | false => rfl
    | true => exact absurd rfl hage

theorem peerAdd_eq : peerAdd env p m =
    ⟨{ m with ifname := p, originIfname := p, ageFlag := ⟨m.ageFlag.localAged, false⟩ }, false, false⟩ := by
  have htype : m.fdbType ≠ .static := by
    rw [hm.type]
    decide
  have hclear : clearPeerAge env p m = { m with ageFlag := { m.ageFlag with peerAged := false } }.keep := by
    rw [clearPeerAge, hm.pending, if_neg (by simp)]
  unfold peerAdd takePort
  rw [hclear, henv.fromMclagIntf hp, henv.lifDown hp, if_neg htype]
  split
  · rfl
  · rename_i hsame
    simp only [ne_eq, not_or, Decidable.not_not] at hsame
    rw [if_neg (by simp)]
    obtain ⟨op, fdb, ifname, origin, age, pending⟩ := m
    dsimp only at hsame
    obtain ⟨rfl, rfl⟩ := hsame
    rfl

end

theorem peerDel_eq {m : MacMsg} :
    peerDel m = ⟨{ m with ageFlag := ⟨m.ageFlag.localAged, true⟩ }, false, m.ageFlag.localAged⟩ := by
  obtain ⟨op, fdb, ifname, origin, ⟨aged, peer⟩, pending⟩ := m
  cases aged <;> rfl

variable (ports k) in
structure Told (n n' : Node) (op : Op) : Prop where
  ok : NodeOk ports k n'
  hears : n'.hears k = n.hears k
  claims : n'.claims k = decide (op = .add)
  types : (n'.claims k = n.claims k ∧ n'.types = n.types) ∨ ∃ l, n'.types = l ++ [some op]

theorem claims_of_get? {e : Option MacMsg} (h : n.macRb.get? k = e) :
    n.claims k = (e.map fun m => !m.ageFlag.localAged).getD false := by rw [Node.claims, h]

theorem hears_of_get? {e : Option MacMsg} (h : n.macRb.get? k = e) :
    n.hears k = (e.map fun m => !m.ageFlag.peerAged).getD false := by rw [Node.hears, h]

section
variable (hn : NodeOk ports k n) (hk : k.mac ≠ 0) {p : Str} (hp : p ∈ ports)
include hn hk hp

theorem NodeOk.learn (hmove : ∀ m ∈ n.macRb.get? k, m.ifname = p ∧ m.originIfname = p ∨ m.ageFlag.peerAged = true) :
    Told ports k n (doMacUpdateFromSyncd n k p .dynamic .add) .add := by
  have henv := hn.1
  have hlif : ¬(n.env.lifs.get? p).isNone = true := by simp_all [henv.port]
  unfold doMacUpdateFromSyncd
  rw [if_neg hk]
  dsimp only
  rw [if_neg hlif, if_neg (henv.ne_link hp)]
  cases hm : n.macRb.get? k with
  | none =>
    rw [isSome_none, if_neg Bool.false_ne_true, Node.learn, henv.lifDown hp, henv.exchange, if_neg (by simp)]
    refine ⟨hn.apply fun queued _ _ => .inl ⟨rfl, hp, hp, rfl, by simp [AgeFlag.both], fun _ => rfl⟩, ?_, ?_, .inr ?_⟩
    · rw [hears_apply, hears_of_get? hm]; rfl
    · rw [claims_apply]; rfl
    · exact hn.types_queued rfl
  | some m =>
    obtain ⟨queued, hentry⟩ := hn.entryOk hm
    rw [isSome_some, if_pos rfl, Node.change, hm]
    dsimp only
    rw [syncdAdd_eq henv hp hentry (hmove m hm)]
    refine ⟨hn.apply fun queued _ h => .inl ?_, ?_, ?_, ?_⟩
    · have hm' := h m hm
      refine ⟨hm'.type, hp, hp, hm'.pending, by simp [AgeFlag.both], fun hq => ?_⟩
      dsimp only at hq ⊢
      cases haged : m.ageFlag.localAged <;> simp_all [hm'.op]
    · rw [hears_apply, hears_of_get? hm]; rfl
    · rw [claims_apply]; rfl
    · cases haged : m.ageFlag.localAged with
      | true => exact .inr (hn.types_queued rfl)
      | false =>
        refine .inl ⟨?_, hn.types_silent ⟨rfl, m, hm, rfl, haged⟩⟩
        rw [claims_apply, claims_of_get? hm, map_some, haged]
        rfl

theorem NodeOk.age : Told ports k n (doMacUpdateFromSyncd n k p .dynamic .del) .del := by
  have henv := hn.1
  unfold doMacUpdateFromSyncd
  rw [if_neg hk]
  dsimp only
  rw [Node.change]
  cases hm : n.macRb.get? k with
  | none =>
    have hclaims : n.claims k = false := claims_of_get? hm
    exact ⟨hn, rfl, hclaims, .inl ⟨rfl, rfl⟩⟩
  | some m =>
    obtain ⟨queued, hentry⟩ := hn.entryOk hm
    dsimp only
    rw [syncdDel_eq henv hp hentry]
    cases haged : m.ageFlag.localAged with
    | true =>
      rw [if_pos rfl]
      refine ⟨hn.apply fun queued _ h => .inl ?_, ?_, ?_, .inl ⟨?_, hn.types_silent ⟨rfl, m, hm, rfl, rfl⟩⟩⟩
      · simp_all [MacMsg.keep]
      · rw [hears_apply, hears_of_get? hm]; rfl
      · rw [claims_apply, MacMsg.keep, haged]; rfl
      · rw [claims_apply, claims_of_get? hm]; rfl
    | false =>
      rw [if_neg Bool.false_ne_true]
      refine ⟨hn.apply fun queued _ h => ?_, ?_, ?_, .inr (hn.types_queued rfl)⟩
      · have hm' := h m hm
        cases hpeer : m.ageFlag.peerAged with
        | true => exact .inr ⟨rfl, fun _ => ⟨rfl, rfl, hm'.type, hm'.origin⟩⟩
        | false => exact .inl ⟨hm'.type, hm'.port, hm'.origin, hm'.pending, by simp [AgeFlag.both], fun _ => rfl⟩
      · rw [hears_apply, hears_of_get? hm, map_some, getD_some, Bool.and_self]
      · simp_all [claims_apply]

end

theorem NodeOk.sent (hn : NodeOk ports k n) : NodeOk ports k (syncSendSyncMacInfo n).2 := by
  obtain ⟨henv, gone, entry, queued, hrep, -, hentry⟩ := hn
  refine ⟨henv, [], entry, false, ⟨hrep.found, rfl, fun h => by cases h⟩, fun _ hm => (not_mem_nil hm).elim,
    fun m hm => ?_⟩
  have hm' := hentry m hm
  exact ⟨hm'.type, hm'.port, hm'.origin, hm'.pending, hm'.age, fun h => by cases h⟩

theorem NodeOk.hear (hn : NodeOk ports k n) (hk : k.mac ≠ 0) {d : MacData} (hd : Fine ports k d) :
    NodeOk ports k (updateMacEntryFromPeer n d) ∧ (updateMacEntryFromPeer n d).claims k = n.claims k ∧
      (updateMacEntryFromPeer n d).hears k = decide (d.type = some .add) ∧
      (updateMacEntryFromPeer n d).types = n.types := by
  have henv := hn.1
  obtain ⟨key, type, macType, ifname⟩ := d
  obtain ⟨rfl, htype, rfl, hport⟩ := hd
  obtain ⟨op, rfl⟩ := Option.isSome_iff_exists.mp htype
  unfold updateMacEntryFromPeer
  rw [if_neg hk]
  cases op with
  | add =>
    dsimp only
    cases hm : n.macRb.get? key with
    | none =>
      rw [isSome_none, if_neg Bool.false_ne_true, Node.learnPeer, henv.fromMclagIntf hport, henv.lifDown hport]
      dsimp only
      rw [if_neg (by simp), MacMsg.keep]
      refine ⟨hn.apply fun queued hq _ => .inl ⟨rfl, hport, hport, rfl, by simp [AgeFlag.both], fun hq' => ?_⟩,
        ?_, ?_, hn.types_none hm rfl⟩
      · simp_all
      · rw [claims_apply, claims_of_get? hm]; rfl
      · rw [hears_apply]; rfl
    | some m =>
      obtain ⟨queued, hentry⟩ := hn.entryOk hm
      rw [isSome_some, if_pos rfl, Node.change, hm]
      dsimp only
      rw [peerAdd_eq henv hport hentry]
      refine ⟨hn.apply fun queued _ h => .inl ?_, ?_, ?_, hn.types_silent ⟨rfl, m, hm, rfl, rfl⟩⟩
      · have hm' := h m hm
        refine ⟨hm'.type, hport, hport, hm'.pending, by simp [AgeFlag.both], fun hq => ?_⟩
        simp_all [hm'.op]
      · rw [claims_apply, claims_of_get? hm]; rfl
      · rw [hears_apply]; rfl
  | del =>
    dsimp only
    rw [Node.change]
    cases hm : n.macRb.get? key with
    | none => grind [Sonic.IccpMac.Node.hears]
    | some m =>
      dsimp only
      rw [peerDel_eq]
      refine ⟨hn.apply fun queued _ h => ?_, ?_, ?_, hn.types_silent ⟨rfl, m, hm, rfl, rfl⟩⟩
      · have hm' := h m hm
        cases haged : m.ageFlag.localAged with
        | true =>
          refine .inr ⟨rfl, fun hq => ?_⟩
          rw [Bool.or_false] at hq
          subst hq
          exact ⟨rfl, hm'.fine.type, hm'.type, hm'.origin⟩
        | false =>
          refine .inl ⟨hm'.type, hm'.port, hm'.origin, hm'.pending, by simp [AgeFlag.both], fun hq => ?_⟩
          simp_all [hm'.op]
      · rw [claims_apply, claims_of_get? hm, map_some]
        simp_all
      · simp_all [hears_apply]

end

end Sonic.IccpMac
