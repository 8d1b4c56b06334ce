import Sonic.DhcpCfggen

/-! # Ports and pools

What `_parse_port` holds for an interface depends only on the rows of its own ports, and the ranges
of an address of the interface lie in the network of the address. -/

namespace Sonic.Dhcp
open List

open Str Ipaddress

/-! ## Intervals -/

def mergeStep (ret : List Range) (i : Range) : List Range :=
  match ret.getLast? with
  | none => [i]
  | some last =>
    if last.2.value < i.1.value then ret ++ [i]
    else ret.dropLast ++ [(last.1, if last.2.value < i.2.value then i.2 else last.2)]

def EndsIn (l ret : List Range) : Prop := ∀ r ∈ ret, (∃ a ∈ l, r.1 = a.1) ∧ ∃ b ∈ l, r.2 = b.2

theorem mergeStep_endsIn {l ret : List Range} {i : Range} (h : EndsIn l ret) (hi : i ∈ l) :
    EndsIn l (mergeStep ret i) := by
  unfold mergeStep
  split
  · intro r hr
    grind
  · rename_i last hlast
    have hl := h last (mem_of_getLast? hlast)
    split
    · intro r hr
      rcases List.mem_append.mp hr with hr | hr
      · exact h r hr
      · grind
    · intro r hr
      rcases List.mem_append.mp hr with hr | hr
      · exact h r ((dropLast_sublist ret).subset hr)
      · grind

theorem mergeStep_ne_nil (ret : List Range) (i : Range) : mergeStep ret i ≠ [] := by
  unfold mergeStep
  split
  · simp
  · split <;> simp

theorem mergeIntervals_endsIn (l : List Range) : EndsIn l (mergeIntervals l) := by
  have hloop : ∀ {rest ret : List Range}, EndsIn l ret → (∀ i ∈ rest, i ∈ l) → EndsIn l (rest.foldl mergeStep ret) := by
    intro rest
    induction rest <;> grind [mergeStep_endsIn]
  exact hloop nofun fun i hi => ((perm_insertionSort _ l).mem_iff).mp hi

theorem mergeIntervals_ne_nil {l : List Range} (h : l ≠ []) : mergeIntervals l ≠ [] := by
  have hloop : ∀ (rest : List Range) (ret : List Range), ret ≠ [] → rest.foldl mergeStep ret ≠ [] := by
    intro rest
    induction rest <;> simp_all [mergeStep_ne_nil]
  have hsort : l.insertionSort (fun a b => a.1.value ≤ b.1.value) ≠ [] := fun e =>
    h (List.length_eq_zero_iff.mp ((length_insertionSort _ l).symm.trans (congrArg List.length e)))
  cases hs : l.insertionSort (fun a b => a.1.value ≤ b.1.value) with
  | nil => exact absurd hs hsort
  | cons i rest =>
    have hmerge : mergeIntervals l = rest.foldl mergeStep (mergeStep [] i) :=
      congrArg (List.foldl mergeStep []) hs
    grind [mergeStep_ne_nil]

/-- The address lies in the interval. -/
def Covers (r : Range) (a : Addr) : Prop := a.version = r.1.version ∧ r.1.value ≤ a.value ∧ a.value ≤ r.2.value

structure Merged (v : Version) (done ret : List Range) : Prop where
  endsIn : EndsIn done ret
  wf : ∀ r ∈ ret, r.1.version = v ∧ r.1.value ≤ r.2.value
  apart : ret.Pairwise fun r s => r.2.value < s.1.value
  covers : ∀ a, (∃ r ∈ ret, Covers r a) ↔ ∃ r ∈ done, Covers r a

theorem mergeStep_concat (init : List Range) (last i : Range) : mergeStep (init ++ [last]) i =
    if last.2.value < i.1.value then init ++ [last] ++ [i]
    else init ++ [(last.1, if last.2.value < i.2.value then i.2 else last.2)] := by grind [mergeStep]

theorem covers_widen {last i : Range} {a : Addr} (hv : i.1.version = last.1.version) (hlo : last.1.value ≤ i.1.value)
    (hin : i.1.value ≤ last.2.value) :
    Covers (last.1, if last.2.value < i.2.value then i.2 else last.2) a ↔ Covers last a ∨ Covers i a := by
  simp only [Covers, hv]
  split <;> constructor
  · rintro ⟨hva, hla, hah⟩
    by_cases ha : a.value ≤ last.2.value <;> grind
  · grind
  · grind
  · grind

theorem Merged.step {v : Version} {done ret : List Range} {i : Range} (h : Merged v done ret) (hv : i.1.version = v)
    (hi : i.1.value ≤ i.2.value) (hsort : ∀ r ∈ done, r.1.value ≤ i.1.value) :
      Merged v (done ++ [i]) (mergeStep ret i) := by
  have hends : EndsIn (done ++ [i]) (mergeStep ret i) := by
    refine mergeStep_endsIn (fun r hr => ?_) (mem_append_right _ (List.mem_singleton.mpr rfl))
    obtain ⟨⟨a, ha, hra⟩, b, hb, hrb⟩ := h.endsIn r hr
    grind
  have hsnoc : ∀ {l : List Range} {r : Range} {a : Addr}, (∃ s ∈ l ++ [r], Covers s a) ↔
      (∃ s ∈ l, Covers s a) ∨ Covers r a := by
    simp [or_and_right, exists_or]
  obtain rfl | ⟨init, last, rfl⟩ := eq_nil_or_concat' ret
  · refine ⟨hends, fun r hr => ?_, pairwise_singleton _ _, fun a => ?_⟩
    · rw [List.mem_singleton.mp hr]
      exact ⟨hv, hi⟩
    · rw [hsnoc, ← h.covers a]
      exact hsnoc (l := [])
  · have hlast : last ∈ init ++ [last] := mem_append_right _ (List.mem_singleton.mpr rfl)
    obtain ⟨hlv, hlw⟩ := h.wf last hlast
    obtain ⟨hapart, -, hbelow⟩ := List.pairwise_append.mp h.apart
    rw [mergeStep_concat] at hends ⊢
    by_cases hgap : last.2.value < i.1.value
    · rw [if_pos hgap] at hends ⊢
      refine ⟨hends, fun r hr => ?_, List.pairwise_append.mpr ⟨h.apart, pairwise_singleton _ _, fun r hr s hs => ?_⟩,
        fun a => ?_⟩
      · grind [h.wf]
      · rw [List.mem_singleton.mp hs]
        rcases List.mem_append.mp hr with hr | hr
        · -- an interval before the last one ends below its start
          grind
        · grind
      · rw [hsnoc, h.covers a, hsnoc]
    · rw [if_neg hgap] at hends ⊢
      have hlo : last.1.value ≤ i.1.value := by
        obtain ⟨⟨d, hd, he⟩, -⟩ := h.endsIn last hlast <;> grind
      refine ⟨hends, fun r hr => ?_, List.pairwise_append.mpr ⟨hapart, pairwise_singleton _ _, fun r hr s hs => ?_⟩,
        fun a => ?_⟩
      · grind [h.wf]
      · grind
      · rw [hsnoc, hsnoc, covers_widen (hv.trans hlv.symm) hlo (Nat.le_of_not_lt hgap), ← h.covers a, hsnoc, or_assoc]

theorem merged_foldl {v : Version} : ∀ {rest done ret : List Range}, Merged v done ret →
    (∀ r ∈ rest, r.1.version = v ∧ r.1.value ≤ r.2.value) → (done ++ rest).Pairwise (fun r s => r.1.value ≤ s.1.value) →
    Merged v (done ++ rest) (rest.foldl mergeStep ret)
  | [], done, ret, h, _, _ => by simp_all
  | i :: rest, done, ret, h, hwf, hsort => by
    obtain ⟨⟨hv, hi⟩, hwf⟩ := List.forall_mem_cons.mp hwf
    have hbelow : ∀ r ∈ done, r.1.value ≤ i.1.value := fun r hr =>
      (List.pairwise_append.mp hsort).2.2 r hr i mem_cons_self
    rw [append_cons] at hsort ⊢
    exact merged_foldl (h.step hv hi hbelow) hwf hsort

/-- The result is sorted with a gap between any two intervals, and covers what the intervals cover. -/
theorem mergeIntervals_spec (v : Version) (intervals : List Range)
    (hwf : ∀ r ∈ intervals, r.1.version = v ∧ r.2.version = v ∧ r.1.value ≤ r.2.value) :
    (∀ r ∈ mergeIntervals intervals, r.1.value ≤ r.2.value) ∧
      (mergeIntervals intervals).Pairwise (fun r s => r.2.value < s.1.value) ∧
      ∀ a, (∃ r ∈ mergeIntervals intervals, Covers r a) ↔ ∃ r ∈ intervals, Covers r a := by
  have hperm := List.perm_insertionSort (fun a b : Range => a.1.value ≤ b.1.value) intervals
  have hsort : (intervals.insertionSort fun a b : Range => a.1.value ≤ b.1.value).Pairwise
      fun a b => a.1.value ≤ b.1.value := by
    have : Std.Total fun a b : Range => a.1.value ≤ b.1.value := ⟨fun a b => Nat.le_total _ _⟩
    have : IsTrans Range fun a b => a.1.value ≤ b.1.value := ⟨fun a b c => Nat.le_trans⟩
    exact List.pairwise_insertionSort _ _
  have hempty : Merged v [] [] := ⟨nofun, nofun, List.Pairwise.nil, fun a => Iff.rfl⟩
  have h := merged_foldl hempty (fun r hr => by
    obtain ⟨hv, -, hr⟩ := hwf r (hperm.mem_iff.mp hr)
    exact ⟨hv, hr⟩) hsort
  refine ⟨fun r hr => (h.wf r hr).2, h.apart,
    fun a => (h.covers a).trans (exists_congr fun r => and_congr_left fun _ => ?_)⟩
  rw [List.nil_append]
  exact hperm.mem_iff

theorem mergeIntervals_spec_touching :
    (∀ r ∈ [((⟨.v4, 5⟩, ⟨.v4, 9⟩) : Range), (⟨.v4, 2⟩, ⟨.v4, 5⟩), (⟨.v4, 11⟩, ⟨.v4, 11⟩), (⟨.v4, 3⟩, ⟨.v4, 4⟩)],
      r.1.version = .v4 ∧ r.2.version = .v4 ∧ r.1.value ≤ r.2.value) ∧
    mergeIntervals [(⟨.v4, 5⟩, ⟨.v4, 9⟩), (⟨.v4, 2⟩, ⟨.v4, 5⟩), (⟨.v4, 11⟩, ⟨.v4, 11⟩), (⟨.v4, 3⟩, ⟨.v4, 4⟩)] =
      [(⟨.v4, 2⟩, ⟨.v4, 9⟩), (⟨.v4, 11⟩, ⟨.v4, 11⟩)] ∧
    ∀ a, (∃ r ∈ mergeIntervals [(⟨.v4, 5⟩, ⟨.v4, 9⟩), (⟨.v4, 2⟩, ⟨.v4, 5⟩), (⟨.v4, 11⟩, ⟨.v4, 11⟩),
      (⟨.v4, 3⟩, ⟨.v4, 4⟩)],
      Covers r a) ↔ ∃ r ∈ [((⟨.v4, 5⟩, ⟨.v4, 9⟩) : Range), (⟨.v4, 2⟩, ⟨.v4, 5⟩), (⟨.v4, 11⟩, ⟨.v4, 11⟩),
        (⟨.v4, 3⟩, ⟨.v4, 4⟩)],
        Covers r a :=
  ⟨by decide, by decide, (mergeIntervals_spec .v4 _ (by decide)).2.2⟩

/-- The range is a part of the network. -/
def Inside (n : Net) (r : Range) : Prop :=
  r.1.version = n.version ∧ r.2.version = n.version ∧
    ∀ v, r.1.value ≤ v → v ≤ r.2.value → n.contains ⟨n.version, v⟩ = true

theorem inside_of_contains {n : Net} {a b : Addr} (ha : n.contains a = true) (hb : n.contains b = true) :
    Inside n (a, b) := by
  obtain ⟨hav, ha⟩ := of_decide_eq_true ha
  obtain ⟨hbv, hb⟩ := of_decide_eq_true hb
  refine ⟨hav, hbv, fun v hlo hhi => decide_eq_true ⟨rfl, ?_⟩⟩
  dsimp only at hlo hhi ⊢
  generalize 2 ^ (n.version.bits - n.prefixlen) = m at *
  -- Both ends have the same quotient by the size of the network, so all numbers between them have it.
  have hquot : ∀ x, x - x % m = m * (x / m) := fun x => by
    have := Nat.div_add_mod x m
    omega
  rw [hquot] at ha hb ⊢
  have hle : m * (a.value / m) ≤ m * (v / m) := Nat.mul_le_mul_left m (Nat.div_le_div_right hlo)
  have hge : m * (v / m) ≤ m * (b.value / m) := Nat.mul_le_mul_left m (Nat.div_le_div_right hhi)
  omega

/-! ## The rows of an interface -/

section
variable (g : Generator) (st : Site) (name : Str)

def targets (p : Str × Entry) : Bool :=
  match portTarget g st p with
  | some (some t) => t.1 = name
  | _ => false

def asksOf (p : Str × Entry) : List (Str × Range) :=
  match portTarget g st p with
  | some (some t) => if t.1 = name then ((offered g st p.2).getD []).map fun r => (t.2.1, r) else []
  | _ => []

def addresses : List IfaceIp := (st.interfaces.get? name).getD []

def place (ips : IfacePorts) (a : Str × Range) : IfacePorts := matchRangeNetwork (addresses st name) a.1 ips a.2

end

section
variable {g : Generator} {st : Site} {name : Str}

theorem portTarget_iface {p : Str × Entry} {t : Str × Str × List IfaceIp} (h : portTarget g st p = some (some t)) :
    st.interfaces.get? t.1 = some t.2.2 := by grind [portTarget, Option.map_eq_some_iff]

theorem portStep_get? {portIps portIps' : Dict Str IfacePorts} {p : Str × Entry}
    (h : portStep g st portIps p = some portIps') :
    portIps'.get? name =
      if targets g st name p then some ((asksOf g st name p).foldl (place st name) ((portIps.get? name).getD []))
      else portIps.get? name := by
  unfold portStep at h
  obtain ⟨t, ht, h⟩ := Option.bind_eq_some_iff.mp h
  cases t with
  | none => simp_all [targets]
  | some t =>
    obtain ⟨rs, hrs, h⟩ := Option.bind_eq_some_iff.mp h
    cases h
    simp only [targets, asksOf, ht, hrs, Option.getD_some, decide_eq_true_eq]
    rw [Dict.get?_set]
    split
    · rename_i he
      subst he
      rw [foldl_map]
      have hi : addresses st t.1 = t.2.2 := by rw [addresses, portTarget_iface ht, Option.getD_some]
      simp only [place, hi]
    · rfl

theorem asksOf_nil {p : Str × Entry} (h : targets g st name p = false) : asksOf g st name p = [] := by
  grind [targets, asksOf]

theorem asks_nil {rows : Table} (h : rows.any (targets g st name) = false) : rows.flatMap (asksOf g st name) = [] :=
  List.flatMap_eq_nil_iff.mpr fun p hp => asksOf_nil (Bool.eq_false_iff.mpr (List.any_eq_false.mp h p hp))

theorem foldlM_get? : ∀ {rows : Table} {portIps portIps' : Dict Str IfacePorts},
    rows.foldlM (portStep g st) portIps = some portIps' →
    portIps'.get? name =
      if rows.any (targets g st name) then
        some ((rows.flatMap (asksOf g st name)).foldl (place st name) ((portIps.get? name).getD []))
      else portIps.get? name
  | [], _, _, h => by
    cases h
    rfl
  | p :: rows, portIps, portIps', h => by
    rw [foldlM_cons] at h
    obtain ⟨mid, hmid, h⟩ := Option.bind_eq_some_iff.mp h
    rw [foldlM_get? h, portStep_get? hmid, any_cons, flatMap_cons, foldl_append]
    cases ht : targets g st name p with
    | true =>
      cases hrest : rows.any (targets g st name) with
      | true => simp
      | false => simp [asks_nil hrest]
    | false =>
      rw [asksOf_nil ht, Bool.false_or]
      rfl

theorem parsePort_get? {rows : Table} {portIps : Dict Str IfacePorts} (h : parsePort g st rows = some portIps)
    (name : Str) :
    portIps.get? name =
      if rows.any (targets g st name) then
        some (mergePorts ((rows.flatMap (asksOf g st name)).foldl (place st name) []))
      else none := by
  obtain ⟨portIps', hfold, rfl⟩ := Option.map_eq_some_iff.mp h
  have hget := Dict.get?_map (fun _ v => mergePorts v) name portIps'
  rw [hget, foldlM_get? hfold]
  split <;> rfl

structure Placed (addrs : List IfaceIp) (asks : List (Str × Range)) (ips : IfacePorts) : Prop where
  nodup : (Dict.keys ips).Nodup
  ports_nodup : ∀ ip ports, ips.get? ip = some ports → (Dict.keys ports).Nodup ∧ ports ≠ []
  held : ∀ ip ports port rs, ips.get? ip = some ports → ports.get? port = some rs → rs ≠ [] ∧
    ∀ r ∈ rs, (port, r) ∈ asks ∧ ∃ i, addrs.find? (inNet r) = some i ∧ i.ip = ip
  kept : ∀ a ∈ asks, ∀ i, addrs.find? (inNet a.2) = some i →
    ∃ ports rs, ips.get? i.ip = some ports ∧ ports.get? a.1 = some rs

theorem Placed.step {addrs : List IfaceIp} {asks : List (Str × Range)} {ips : IfacePorts} (h : Placed addrs asks ips)
    (a : Str × Range) : Placed addrs (asks ++ [a]) (matchRangeNetwork addrs a.1 ips a.2) := by
  unfold matchRangeNetwork
  have hmono : ∀ b ∈ asks, b ∈ asks ++ [a] := fun b hb => mem_append_left _ hb
  split
  · rename_i hnone
    refine ⟨h.nodup, h.ports_nodup, fun ip ports port rs hip hp => ?_, fun b hb i hi => ?_⟩
    · grind [h.held]
    · grind [h.kept]
  · rename_i i hi
    -- What the interface already holds under the address.
    have hold : ∀ port rs, Dict.get? ((ips.get? i.ip).getD []) port = some rs →
        ∃ ports, ips.get? i.ip = some ports ∧ ports.get? port = some rs := by
      intro port rs hp
      cases hip : ips.get? i.ip with
      | none => rw [hip] at hp; cases hp
      | some ports => grind
    refine ⟨Dict.nodup_set _ _ h.nodup, fun ip ports hip => ?_, fun ip ports port rs hip hp => ?_, fun b hb j hj => ?_⟩
    · rw [Dict.get?_set] at hip
      split at hip
      · cases hip
        refine ⟨Dict.nodup_set _ _ ?_, Dict.set_ne_nil _ _ _⟩
        cases hip : ips.get? i.ip with
        | none => exact nodup_nil
        | some ports => exact (h.ports_nodup _ _ hip).1
      · exact h.ports_nodup ip ports hip
    · have hheld : ∀ ports port rs, ips.get? ip = some ports → ports.get? port = some rs → rs ≠ [] ∧
          ∀ r ∈ rs, (port, r) ∈ asks ++ [a] ∧ ∃ i, addrs.find? (inNet r) = some i ∧ i.ip = ip := by grind [h.held]
      rw [Dict.get?_set] at hip
      split at hip
      · rename_i he
        subst he
        cases hip
        rw [Dict.get?_set] at hp
        split at hp
        · rename_i he
          subst he
          cases hp
          refine ⟨by simp, fun r hr => ?_⟩
          rcases List.mem_append.mp hr with hr | hr
          · cases hrs : Dict.get? ((ips.get? i.ip).getD []) a.1 with
            | none => rw [hrs] at hr; cases hr
            | some rs => grind
          · grind
        · grind
      · exact hheld ports port rs hip hp
    · have hnew : ∀ ports rs port, ips.get? j.ip = some ports → ports.get? port = some rs → ∃ ports' rs',
          (Dict.set ips i.ip (Dict.set ((ips.get? i.ip).getD []) a.1
            ((Dict.get? ((ips.get? i.ip).getD []) a.1).getD [] ++ [a.2]))).get? j.ip = some ports' ∧
          ports'.get? port = some rs' := by grind
      rcases List.mem_append.mp hb with hb | hb
      · grind [h.kept]
      · rw [List.mem_singleton.mp hb, hi] at hj
        simp_all

theorem placed_foldl (addrs : List IfaceIp) :
    ∀ (rest asks : List (Str × Range)) {ips : IfacePorts}, Placed addrs asks ips →
    Placed addrs (asks ++ rest) (rest.foldl (fun ips a => matchRangeNetwork addrs a.1 ips a.2) ips)
  | [], asks, _, h => by rwa [append_nil]
  | a :: rest, asks, _, h => by
    have := placed_foldl addrs rest (asks ++ [a]) (h.step a)
    simp_all

theorem placed (st : Site) (name : Str) (asks : List (Str × Range)) :
    Placed (addresses st name) asks (asks.foldl (place st name) []) :=
  placed_foldl (addresses st name) asks [] ⟨nodup_nil, nofun, nofun, nofun⟩

end

end Sonic.Dhcp
