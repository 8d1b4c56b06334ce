import Mathlib.Data.Char
import Mathlib.Data.List.Dedup
import Mathlib.Data.List.Lex
import Sonic.EventCache

/-! # What the capture service keeps

A capture starts with a stock of events. While it still expects to see those again it drops what is
not newer than the stock; then it keeps every event up to the limit of the cache, and of those
beyond the limit the last one of each runtime id. -/

namespace Sonic.EventCache
open List

abbrev Event := Str × Nat × Str

section
variable (decode : Str → Option (Str × Nat)) (cacheMax : Nat)

def valid (msgs : List Str) : List Event := msgs.filterMap fun m => (decode m).map fun p => (p.1, p.2, m)

def Capture.receiveAll (c : Capture) (evts : List Event) : Capture :=
  evts.foldl (fun c e => c.receive cacheMax e.1 e.2.1 e.2.2) c

def Capture.doCapture (c : Capture) (msgs : List Str) : Capture :=
  msgs.foldl (fun c m => match decode m with
    | some (rid, seq) => c.receive cacheMax rid seq m
    | none => c) c

def started (maxPublishersCount : Nat) (stock : List Str) : Capture :=
  { Capture.new with ctrl := .initCapture }.start decode maxPublishersCount stock

/-- The sequence numbers of each runtime id increase. -/
def Increasing (evts : List Event) : Prop := evts.Pairwise fun a b => a.1 = b.1 → a.2.1 < b.2.1

def lastSeq (stock : List Event) (rid : Str) : Option Nat := ((stock.filter (·.1 = rid)).getLast?).map (·.2.1)

def fresh (stock : List Event) (e : Event) : Bool := (lastSeq stock e.1).all (· < e.2.1)

end

section
variable {decode : Str → Option (Str × Nat)} {cacheMax : Nat}

theorem doCapture_eq (c : Capture) (msgs : List Str) :
    c.doCapture decode cacheMax msgs = c.receiveAll cacheMax (valid decode msgs) := by
  rw [Capture.receiveAll, valid, foldl_filterMap]
  refine congrArg (fun f => List.foldl f c msgs) ?_
  grind

theorem receiveAll_cons (c : Capture) (e : Event) (evts : List Event) :
    c.receiveAll cacheMax (e :: evts) = (c.receive cacheMax e.1 e.2.1 e.2.2).receiveAll cacheMax evts := rfl

theorem receiveAll_concat (c : Capture) (e : Event) (evts : List Event) :
    c.receiveAll cacheMax (evts ++ [e]) = (c.receiveAll cacheMax evts).receive cacheMax e.1 e.2.1 e.2.2 := by
  simp [Capture.receiveAll]

theorem decode_of_mem_valid {msgs : List Str} {e : Event} (h : e ∈ valid decode msgs) :
    decode e.2.2 = some (e.1, e.2.1) := by
  obtain ⟨m, -, hm⟩ := List.mem_filterMap.mp h
  grind [Option.map_eq_some_iff]

theorem lastSeq_concat (stock : List Event) (e : Event) (rid : Str) :
    lastSeq (stock ++ [e]) rid = if e.1 = rid then some e.2.1 else lastSeq stock rid := by
  unfold lastSeq
  rw [filter_append]
  by_cases h : e.1 = rid
  · simp [h]
  · simp [h]

structure Stocked (stock : List Event) (c : Capture) : Prop where
  events : c.events = stock.map (·.2.2)
  capState : c.capState = .init
  known : ∀ rid, c.preExistId.get? rid = lastSeq stock rid
  totalOverflow : c.totalOverflow = 0
  totalMissedCache : c.totalMissedCache = 0

theorem initCaptureCache_stocked : ∀ (msgs : List Str) {stock : List Event} {c : Capture}, Stocked stock c →
    Stocked (stock ++ valid decode msgs) (c.initCaptureCache decode msgs)
  | [], _, _, h => by simpa [Capture.initCaptureCache, valid] using h
  | m :: msgs, stock, c, h => by
    rw [Capture.initCaptureCache, foldl_cons]
    cases hm : decode m with
    | none =>
      have hv : valid decode (m :: msgs) = valid decode msgs := by simp [valid, hm]
      rw [hv]
      exact initCaptureCache_stocked msgs h
    | some p =>
      have hv : valid decode (m :: msgs) = [(p.1, p.2, m)] ++ valid decode msgs := by simp [valid, hm]
      rw [hv, ← append_assoc]
      refine initCaptureCache_stocked msgs ⟨by simp [h.events], h.capState, fun rid => ?_, h.totalOverflow,
        h.totalMissedCache⟩
      rw [Dict.get?_set, lastSeq_concat, h.known]

variable (decode) in
theorem started_stocked (maxPublishersCount : Nat) (stock : List Str) :
    Stocked (valid decode stock) (started decode maxPublishersCount stock) ∧
      (started decode maxPublishersCount stock).initCnt = (valid decode stock).length := by
  have h0 : Stocked [] { Capture.new with
      ctrl := .initCapture
      lastEvents := (List.range maxPublishersCount).foldl (fun m i => mapSet m (Str.ofNat i) []) [] } :=
    ⟨rfl, rfl, fun _ => rfl, rfl, rfl⟩
  have h := @initCaptureCache_stocked decode stock _ _ h0
  rw [List.nil_append] at h
  refine ⟨⟨h.events, h.capState, h.known, h.totalOverflow, h.totalMissedCache⟩, ?_⟩
  have hlen := congrArg List.length h.events
  rw [List.length_map] at hlen
  exact congrArg Nat.cast hlen

theorem le_lastSeq {stock : List Event} (hs : Increasing stock) {e : Event} (he : e ∈ stock) :
    ∃ n, lastSeq stock e.1 = some n ∧ e.2.1 ≤ n := by
  induction stock using List.reverseRecOn with
  | nil => cases he
  | append_singleton stock x ih =>
    obtain ⟨hs, -, hx⟩ := List.pairwise_append.mp hs
    rw [lastSeq_concat]
    rcases List.mem_append.mp he with he | he
    · by_cases h : x.1 = e.1
      · exact ⟨x.2.1, if_pos h, (hx e he x (by simp) h.symm).le⟩
      · rw [if_neg h]
        exact ih hs he
    · simp_all

/-! ## While the stock is checked -/

theorem receive_last {c : Capture} (h : c.capState = .last) (rid : Str) (seq : Nat) (evt : Str) :
    (c.receive cacheMax rid seq evt).capState = .last := by grind [Capture.receive]

theorem receiveAll_last : ∀ (evts : List Event) {c : Capture}, c.capState = .last →
    (c.receiveAll cacheMax evts).capState = .last
  | [], _, h => h
  | e :: evts, _, h => receiveAll_last evts (receive_last h e.1 e.2.1 e.2.2)

theorem receiveAll_active : ∀ (evts : List Event) {c : Capture}, c.capState = .active →
    (c.receiveAll cacheMax evts).capState ≠ .last →
    (c.receiveAll cacheMax evts).events = c.events ++ evts.map (·.2.2)
  | [], c, _, _ => by simp [Capture.receiveAll]
  | e :: evts, c, h, hf => by
    rw [receiveAll_cons] at hf ⊢
    have hr : (c.receive cacheMax e.1 e.2.1 e.2.2).events = c.events ++ [e.2.2] ∧
        ((c.receive cacheMax e.1 e.2.1 e.2.2).capState = .last ∨
          (c.receive cacheMax e.1 e.2.1 e.2.2).capState = .active) := by grind [Capture.receive]
    rcases hr with ⟨he, hl | ha⟩
    · exact absurd (receiveAll_last evts hl) hf
    · rw [receiveAll_active evts ha hf, he]
      simp

def Capture.checked (c : Capture) (e : Event) : Capture :=
  { c with
    initCnt := c.initCnt - 1
    events := if (c.preExistId.get? e.1).any (e.2.1 ≤ ·) then c.events else c.events ++ [e.2.2]
    preExistId := if (c.preExistId.get? e.1).any (· ≤ e.2.1) then c.preExistId.erase e.1 else c.preExistId }

theorem receive_init {c : Capture} (h : c.capState = .init) (e : Event) :
    c.receive cacheMax e.1 e.2.1 e.2.2 =
      if (c.checked e).preExistId.isEmpty ∨ (c.checked e).initCnt ≤ 0
      then { c.checked e with preExistId := [], capState := .active } else c.checked e := by
  simp only [Capture.receive, Capture.checked, h]
  cases hk : c.preExistId.get? e.1 with
  | none => simp
  | some n => simp

structure Checking (stock : List Event) (c : Capture) (evts : List Event) : Prop where
  capState : c.capState = .init
  known : ∀ {rid n}, c.preExistId.get? rid = some n → lastSeq stock rid = some n
  passed : ∀ e ∈ evts, c.preExistId.get? e.1 = none → fresh stock e = true
  increasing : Increasing evts

theorem fresh_iff {stock : List Event} {c : Capture} {e : Event} {evts : List Event}
    (h : Checking stock c (e :: evts)) :
    (c.preExistId.get? e.1).any (e.2.1 ≤ ·) = false ↔ fresh stock e = true := by
  cases hk : c.preExistId.get? e.1 <;> grind [h.passed, fresh, h.known]

theorem checked_checking {stock : List Event} {c : Capture} {e : Event} {evts : List Event}
    (h : Checking stock c (e :: evts)) : Checking stock (c.checked e) evts := by
  obtain ⟨hlt, hinc⟩ := List.pairwise_cons.mp h.increasing
  refine ⟨h.capState, ?_, ?_, hinc⟩
  · grind [Capture.checked, h.known]
  · intro x hx hn
    by_cases hk : c.preExistId.get? x.1 = none
    · grind [h.passed]
    · -- the id was dropped just now, by an event that is not older than the stock
      simp only [Capture.checked] at hn
      split at hn
      · rename_i hd
        obtain ⟨n, hn', hle⟩ := (Option.any_eq_true _ _).mp hd
        have hr : e.1 = x.1 := by grind
        have hlast := h.known hn'
        rw [hr] at hlast
        simp only [fresh, hlast, Option.all_some, decide_eq_true_eq]
        grind
      · exact absurd hn hk

theorem filter_map_eq_iff {stock evts : List Event} :
    evts.map (·.2.2) = (evts.filter (fresh stock)).map (·.2.2) ↔ ∀ e ∈ evts, fresh stock e = true := by
  grind [length_map, filter_eq_self, filter_sublist, filter_eq_self]

theorem checked_events {stock : List Event} {c : Capture} {e : Event} {evts : List Event}
    (h : Checking stock c (e :: evts)) :
    (c.checked e).events = c.events ++ ([e].filter (fresh stock)).map (·.2.2) := by
  by_cases hf : fresh stock e = true
  · simp [Capture.checked, (fresh_iff h).mpr hf, hf]
  · have hd : (c.preExistId.get? e.1).any (e.2.1 ≤ ·) = true := by simpa using mt (fresh_iff h).mp hf
    simp [Capture.checked, hd, hf]

theorem receiveAll_checking {stock : List Event} : ∀ {evts : List Event} {c : Capture}, Checking stock c evts →
    (c.preExistId = [] ∨ 0 < c.initCnt) → (c.receiveAll cacheMax evts).capState ≠ .last →
    ((c.receiveAll cacheMax evts).events = c.events ++ (evts.filter (fresh stock)).map (·.2.2) ↔
      ∀ e ∈ evts.drop c.initCnt.toNat, fresh stock e = true)
  | [], c, _, _, _ => by simp [Capture.receiveAll]
  | e :: evts, c, h, hcnt, hf => by
    have hnext := checked_checking h
    have hev := checked_events h
    have hsplit : ((e :: evts).filter (fresh stock)).map (fun x : Event => x.2.2) =
        ([e].filter (fresh stock)).map (·.2.2) ++ (evts.filter (fresh stock)).map (·.2.2) := by grind
    have hall (hk : c.preExistId = []) : ∀ x ∈ e :: evts, fresh stock x = true :=
      fun x hx => h.passed x hx (by rw [hk]; rfl)
    rw [receiveAll_cons, receive_init h.capState] at hf ⊢
    rw [hsplit, ← append_assoc, ← hev]
    split at hf
    · rename_i hstop
      rw [if_pos hstop, receiveAll_active evts rfl hf]
      simp only [append_cancel_left_eq, filter_map_eq_iff]
      rcases hstop with hk | hc
      · have hk' : (c.checked e).preExistId = [] := List.isEmpty_iff.mp hk
        have hrest : ∀ x ∈ evts, fresh stock x = true := fun x hx => hnext.passed x hx (by rw [hk']; rfl)
        refine iff_of_true hrest fun x hx => ?_
        rcases hcnt with hk | hpos
        · exact hall hk x (mem_of_mem_drop hx)
        · obtain ⟨m, hm⟩ : ∃ m, c.initCnt.toNat = m + 1 := ⟨c.initCnt.toNat - 1, by omega⟩
          rw [hm, drop_succ_cons] at hx
          exact hrest x (mem_of_mem_drop hx)
      · rcases hcnt with hk | hpos
        · exact iff_of_true (fun x hx => hall hk x (mem_cons_of_mem _ hx))
            fun x hx => hall hk x (mem_of_mem_drop hx)
        · have h1 : c.initCnt.toNat = 1 := by
            have : c.initCnt - 1 ≤ 0 := hc
            omega
          grind
    · rename_i hgo
      rw [not_or] at hgo
      have hpos : 0 < (c.checked e).initCnt := Int.not_le.mp hgo.2
      have hdrop : (e :: evts).drop c.initCnt.toNat = evts.drop (c.checked e).initCnt.toNat := by
        have hm : c.initCnt.toNat = (c.checked e).initCnt.toNat + 1 := by
          have hd : (c.checked e).initCnt = c.initCnt - 1 := rfl
          omega
        rw [hm, drop_succ_cons]
      rw [if_neg (not_or.mpr hgo), hdrop]
      exact receiveAll_checking hnext (.inr hpos) hf

theorem nodup_of_increasing {evts : List Event} (h : Increasing evts) :
    (evts.map fun e => (e.1, e.2.1)).Nodup := by
  refine List.pairwise_map.mpr (h.imp fun {a b} hab he => ?_)
  grind

theorem decode_texts {msgs : List Str} {evts : List Event} (h : evts.Sublist (valid decode msgs)) :
    (evts.map (·.2.2)).filterMap decode = evts.map fun e => (e.1, e.2.1) := by
  rw [filterMap_map, ← filterMap_eq_map]
  exact filterMap_congr fun e he => decode_of_mem_valid (h.subset he)

theorem nodup_stock_fresh {stock evts : List Event} (hs : Increasing stock) (he : Increasing evts) :
    ((stock ++ evts.filter (fresh stock)).map fun e => (e.1, e.2.1)).Nodup := by
  rw [map_append, nodup_append]
  refine ⟨nodup_of_increasing hs, nodup_of_increasing (he.sublist filter_sublist), ?_⟩
  rintro _ ha _ hb rfl
  obtain ⟨a, ha, hae⟩ := List.mem_map.mp ha
  obtain ⟨b, hb, hbe⟩ := List.mem_map.mp hb
  obtain ⟨n, hn, hle⟩ := le_lastSeq hs ha
  rw [← hbe, Prod.mk.injEq] at hae
  have hfresh := (List.mem_filter.mp hb).2
  rw [fresh, ← hae.1, hn, Option.all_some, decide_eq_true_eq, ← hae.2] at hfresh
  omega

theorem capture_dedup_iff (maxPublishersCount : Nat) {stock msgs : List Str} (hs : Increasing (valid decode stock))
    (hm : Increasing (valid decode msgs))
    (hmax : ((started decode maxPublishersCount stock).doCapture decode cacheMax msgs).capState ≠ .last) :
    (((started decode maxPublishersCount stock).doCapture decode cacheMax msgs).events =
        (valid decode stock ++ (valid decode msgs).filter (fresh (valid decode stock))).map (·.2.2) ∧
      (((started decode maxPublishersCount stock).doCapture decode cacheMax msgs).events.filterMap decode).Nodup) ↔
    ∀ e ∈ (valid decode msgs).drop (valid decode stock).length, fresh (valid decode stock) e = true := by
  obtain ⟨h, hcnt⟩ := started_stocked decode maxPublishersCount stock
  rw [doCapture_eq] at hmax ⊢
  have hchecking : Checking (valid decode stock) (started decode maxPublishersCount stock) (valid decode msgs) := by
    refine ⟨h.capState, fun hk => (h.known _).symm.trans hk, fun e _ hk => ?_, hm⟩
    rw [fresh, ← h.known, hk]
    rfl
  have hpos : (started decode maxPublishersCount stock).preExistId = [] ∨
      0 < (started decode maxPublishersCount stock).initCnt := by
    cases hv : valid decode stock with
    | nil =>
      left
      refine Dict.eq_nil_of_get? fun rid => ?_
      rw [h.known, hv]
      rfl
    | cons e evts =>
      right
      rw [hcnt, hv]
      exact Int.natCast_pos.mpr (Nat.succ_pos _)
  have hiff := receiveAll_checking hchecking hpos hmax
  rw [hcnt, Int.toNat_natCast, h.events, ← List.map_append] at hiff
  rw [← hiff]
  refine and_iff_left_of_imp fun hev => ?_
  rw [hev, List.map_append, List.filterMap_append, decode_texts (List.Sublist.refl _),
    decode_texts List.filter_sublist, ← List.map_append]
  exact nodup_stock_fresh hs hm

end

def twoChars : Str → Option (Str × Nat)
  | [rid, seq] => some ([rid], seq.toNat - '0'.toNat)
  | _ => none

theorem capture_dedup_seen :
    ((started twoChars 0 ["A1"]).doCapture twoChars 9 ["A1", "B1", "A2"]).events =
        (valid twoChars ["A1"] ++ (valid twoChars ["A1", "B1", "A2"]).filter
          (fresh (valid twoChars ["A1"]))).map (·.2.2) ∧
      (((started twoChars 0 ["A1"]).doCapture twoChars 9
        ["A1", "B1", "A2"]).events.filterMap twoChars).Nodup :=
  (@capture_dedup_iff twoChars 9 0 ["A1"] ["A1", "B1", "A2"]
    (by unfold Increasing; decide +kernel) (by unfold Increasing; decide +kernel) (by decide +kernel)).mpr
    (by decide +kernel)

theorem capture_dup_after_other :
    Increasing (valid twoChars ["A1"]) ∧ Increasing (valid twoChars ["B1", "A1"]) ∧
    ((started twoChars 0 ["A1"]).doCapture twoChars 9 ["B1", "A1"]).capState ≠ .last ∧
    ¬ (((started twoChars 0 ["A1"]).doCapture twoChars 9 ["B1", "A1"]).events =
        (valid twoChars ["A1"] ++
          (valid twoChars ["B1", "A1"]).filter (fresh (valid twoChars ["A1"]))).map (·.2.2) ∧
      (((started twoChars 0 ["A1"]).doCapture twoChars 9
        ["B1", "A1"]).events.filterMap twoChars).Nodup) := by
  refine ⟨by unfold Increasing; decide +kernel, by unfold Increasing; decide +kernel, by decide +kernel, ?_⟩
  decide +kernel

/-! ## Beyond the limit -/

section
variable {decode : Str → Option (Str × Nat)} {cacheMax : Nat}

variable (cacheMax) in
def Capture.overflow (c : Capture) : List Event → List Event
  | [] => []
  | e :: evts => if c.capState = .last then e :: evts else (c.receive cacheMax e.1 e.2.1 e.2.2).overflow evts

def lastText (evts : List Event) (rid : Str) : Option Str := ((evts.filter (·.1 = rid)).getLast?).map (·.2.2)

/-- No runtime id comes for the first time after one has come again. -/
def NewFirst (rids : List Str) : Prop := ∀ (pre : List Str) (r : Str) (post : List Str),
  rids = pre ++ r :: post → r ∉ pre → pre.Nodup

theorem lastText_concat (evts : List Event) (e : Event) (rid : Str) :
    lastText (evts ++ [e]) rid = if e.1 = rid then some e.2.2 else lastText evts rid := by
  unfold lastText
  rw [filter_append]
  by_cases h : e.1 = rid
  · simp [h]
  · simp [h]

theorem get?_mapSet (k v k' : Str) : ∀ m : LastEvents, Dict.get? (mapSet m k v) k' = if k =
    k' then some v else Dict.get? m k'
  | [] => by simp [mapSet, Dict.get?_cons]
  | (j, w) :: m => by
    simp only [mapSet]
    by_cases h : k = j
    · grind
    · rw [if_neg h]
      split
      · grind
      · rw [Dict.get?_cons, get?_mapSet k v k' m, Dict.get?_cons]
        grind

theorem mem_keys_mapSet {k v k' : Str} {m : LastEvents} : k' ∈ (mapSet m k v).keys ↔ k' = k ∨ k' ∈ m.keys := by
  have h := get?_mapSet k v k' m
  by_cases hk : k = k'
  · simp_all [Dict.mem_keys_of_get?]
  · rw [if_neg hk] at h
    rw [← not_iff_not, ← Dict.get?_eq_none_iff, h, Dict.get?_eq_none_iff, not_or]
    grind

theorem sorted_mapSet (k v : Str) : ∀ {m : LastEvents}, m.keys.Pairwise (· < ·) →
    (mapSet m k v).keys.Pairwise (· < ·)
  | [], _ => by simp [mapSet, Dict.keys]
  | (j, w) :: m, h => by
    obtain ⟨hj, hm⟩ := List.pairwise_cons.mp h
    simp only [mapSet]
    by_cases he : k = j
    · rw [if_pos he, he]
      exact List.pairwise_cons.mpr ⟨hj, hm⟩
    · rw [if_neg he]
      split
      · rename_i hlt
        refine List.pairwise_cons.mpr ⟨fun x hx => ?_, h⟩
        grind
      · rename_i hlt
        refine List.pairwise_cons.mpr ⟨fun x hx => ?_, sorted_mapSet k v hm⟩
        rcases mem_keys_mapSet.mp hx with rfl | hx
        · grind
        · exact hj x hx

theorem newFirst_nil : NewFirst [] := fun pre r post he => by simp at he

theorem newFirst_concat {rids : List Str} {r : Str} :
    NewFirst (rids ++ [r]) ↔ NewFirst rids ∧ (r ∉ rids → rids.Nodup) := by
  constructor
  · intro h
    refine ⟨fun pre x post he hx => h pre x (post ++ [r]) (by rw [he]; simp) hx, fun hr => h rids r [] rfl hr⟩
  · rintro ⟨h1, h2⟩ pre x post he hx
    rcases eq_nil_or_concat' post with rfl | ⟨post, y, rfl⟩
    · grind [append_inj']
    · rw [← cons_append, ← append_assoc] at he
      obtain ⟨rfl, -⟩ := append_inj' he rfl
      exact h1 pre x post rfl hx

theorem dedup_concat_of_mem {rids : List Str} {r : Str} (h : r ∈ rids) :
    (rids ++ [r]).dedup.length = rids.dedup.length := by
  refine ((perm_ext_iff_of_nodup (nodup_dedup _) (nodup_dedup _)).mpr fun x => ?_).length_eq
  simp_all

theorem dedup_concat_of_not_mem {rids : List Str} {r : Str} (h : r ∉ rids) :
    (rids ++ [r]).dedup.length = rids.dedup.length + 1 := by
  have hn : (r :: rids.dedup).Nodup := List.nodup_cons.mpr ⟨mt List.mem_dedup.mp h, nodup_dedup _⟩
  refine ((perm_ext_iff_of_nodup (nodup_dedup _) hn).mpr fun x => ?_).length_eq
  simp [or_comm]

structure Overflown (c c' : Capture) (evts : List Event) : Prop where
  capState : c'.capState = .last
  events : c'.events = c.events
  totalOverflow : c'.totalOverflow = evts.length
  last : ∀ rid, c'.lastEvents.get? rid = lastText evts rid
  sorted : c'.lastEvents.keys.Pairwise (· < ·)
  keys : ∀ rid, rid ∈ c'.lastEvents.keys ↔ rid ∈ evts.map (·.1)

theorem Overflown.length {c c' : Capture} {evts : List Event} (h : Overflown c c' evts) :
    c'.lastEvents.length = (evts.map (·.1)).dedup.length := by
  have hn : c'.lastEvents.keys.Nodup := h.sorted.imp fun hlt => ne_of_lt hlt
  have hp : c'.lastEvents.keys.Perm (evts.map (·.1)).dedup := by grind [nodup_dedup, mem_dedup, h.keys]
  have := hp.length_eq
  rwa [Dict.keys, length_map] at this

theorem receive_overflown {c c' : Capture} {evts : List Event} (h : Overflown c c' evts) (e : Event) :
    Overflown c (c'.receive cacheMax e.1 e.2.1 e.2.2) (evts ++ [e]) ∧
    (c'.receive cacheMax e.1 e.2.1 e.2.2).totalMissedCache = c'.totalMissedCache +
      if ((evts ++ [e]).map (·.1)).dedup.length < evts.length + 1 then 1 else 0 := by
  have hnext : Overflown c { c' with
      totalOverflow := c'.totalOverflow + 1
      lastEvents := mapSet c'.lastEvents e.1 e.2.2 } (evts ++ [e]) := by
    refine ⟨h.capState, h.events, by simp [h.totalOverflow], fun rid => ?_, sorted_mapSet _ _ h.sorted,
      fun rid => ?_⟩ <;> simp_all [get?_mapSet, lastText_concat, h.last, mem_keys_mapSet, h.keys, or_comm]
  have hlen := hnext.length
  have hov := h.totalOverflow
  unfold Capture.receive
  rw [h.capState]
  dsimp only at hlen ⊢
  rw [hlen, hov]
  split
  · exact ⟨⟨rfl, hnext.events, by simp, hnext.last, hnext.sorted, hnext.keys⟩, rfl⟩
  · exact ⟨⟨rfl, hnext.events, by simp, hnext.last, hnext.sorted, hnext.keys⟩, rfl⟩

structure Full (c : Capture) : Prop where
  capState : c.capState = .last
  lastEvents : c.lastEvents = []
  totalOverflow : c.totalOverflow = 0
  totalMissedCache : c.totalMissedCache = 0

theorem Full.overflown {c : Capture} (h : Full c) (evts : List Event) :
    Overflown c (c.receiveAll cacheMax evts) evts ∧
    evts.length ≤ (c.receiveAll cacheMax evts).totalMissedCache + (evts.map (·.1)).dedup.length ∧
    (evts.length = (c.receiveAll cacheMax evts).totalMissedCache + (evts.map (·.1)).dedup.length ↔
      NewFirst (evts.map (·.1))) := by
  induction evts using List.reverseRecOn with
  | nil =>
    refine ⟨⟨h.capState, rfl, h.totalOverflow, fun _ => ?_, ?_, fun _ => ?_⟩, ?_⟩
    · rw [Capture.receiveAll, foldl_nil, h.lastEvents]; rfl
    · rw [Capture.receiveAll, foldl_nil, h.lastEvents]; exact List.Pairwise.nil
    · rw [Capture.receiveAll, foldl_nil, h.lastEvents]; rfl
    · simp [newFirst_nil, Capture.receiveAll, h.totalMissedCache]
  | append_singleton evts e ih =>
    obtain ⟨hov, hle, hiff⟩ := ih
    obtain ⟨hnext, hmissed⟩ := @receive_overflown cacheMax _ _ _ hov e
    rw [receiveAll_concat]
    refine ⟨hnext, ?_⟩
    rw [hmissed, map_append, map_singleton, newFirst_concat, ← hiff, length_append, length_singleton]
    have hd := (dedup_sublist (evts.map (·.1))).length_le
    rw [length_map] at hd
    by_cases hr : e.1 ∈ evts.map (·.1)
    · have hsame : (evts.map (·.1) ++ [e.1]).dedup.length = (evts.map (·.1)).dedup.length :=
        dedup_concat_of_mem hr
      rw [hsame, if_pos (by omega)]
      grind
    · have hmore : (evts.map (·.1) ++ [e.1]).dedup.length = (evts.map (·.1)).dedup.length + 1 :=
        dedup_concat_of_not_mem hr
      rw [hmore]
      by_cases hn : (evts.map (·.1)).Nodup
      · simp_all [List.Nodup.dedup]
      · have hlt : (evts.map (·.1)).dedup.length < evts.length := by grind [dedup_eq_self, dedup_sublist]
        grind

structure Below (stock : List Event) (c : Capture) : Prop where
  capState : c.capState ≠ .last
  known : ∀ {rid n}, c.preExistId.get? rid = some n → lastSeq stock rid = some n
  totalOverflow : c.totalOverflow = 0
  totalMissedCache : c.totalMissedCache = 0

theorem receive_below {stock : List Event} {c : Capture} (h : Below stock c) (e : Event) :
    (Full (c.receive cacheMax e.1 e.2.1 e.2.2) ∨ Below stock (c.receive cacheMax e.1 e.2.1 e.2.2)) ∧
    (e.2.2 ∈ (c.receive cacheMax e.1 e.2.1 e.2.2).events ∨ fresh stock e = false) ∧
    ∀ t ∈ c.events, t ∈ (c.receive cacheMax e.1 e.2.1 e.2.2).events := by
  cases hs : c.capState with
  | last => exact absurd hs h.capState
  | active =>
    simp only [Capture.receive, hs]
    split
    · exact ⟨.inl ⟨rfl, rfl, h.totalOverflow, h.totalMissedCache⟩, .inl (by simp), by simp +contextual⟩
    · exact ⟨.inr ⟨by simp, h.known, h.totalOverflow, h.totalMissedCache⟩, .inl (by simp), by simp +contextual⟩
  | init =>
    have hev : (e.2.2 ∈ (c.checked e).events ∨ fresh stock e = false) ∧ ∀ t ∈ c.events, t ∈ (c.checked e).events := by
      simp only [Capture.checked]
      split <;> grind [Option.any_eq_true, fresh, h.known]
    have hknown : ∀ {rid n}, (c.checked e).preExistId.get? rid = some n → lastSeq stock rid = some n := by
      grind [Capture.checked, h.known]
    rw [receive_init hs]
    split
    · exact ⟨.inr ⟨by simp, fun hn => absurd hn (by simp), h.totalOverflow, h.totalMissedCache⟩, hev⟩
    · exact ⟨.inr ⟨h.capState, hknown, h.totalOverflow, h.totalMissedCache⟩, hev⟩

theorem overflow_of_last {c : Capture} (h : c.capState = .last) (evts : List Event) :
    c.overflow cacheMax evts = evts := by cases evts <;> simp_all [Capture.overflow]

theorem overflow_spec {stock : List Event} : ∀ {evts : List Event} {c : Capture}, Below stock c →
    (c.receiveAll cacheMax evts).capState = .last →
    ∃ pre c', evts = pre ++ c.overflow cacheMax evts ∧ Full c' ∧
      c.receiveAll cacheMax evts = c'.receiveAll cacheMax (c.overflow cacheMax evts) ∧
      (∀ e ∈ pre, e.2.2 ∈ c'.events ∨ fresh stock e = false) ∧ ∀ t ∈ c.events, t ∈ c'.events
  | [], _, h, hl => absurd hl h.capState
  | e :: evts, c, h, hl => by
    obtain ⟨hnext, hkept, hgrow⟩ := @receive_below cacheMax _ _ h e
    rw [receiveAll_cons] at hl
    rw [Capture.overflow, if_neg h.capState, receiveAll_cons]
    rcases hnext with hfull | hbelow
    · rw [overflow_of_last hfull.capState]
      refine ⟨[e], _, rfl, hfull, rfl, fun x hx => ?_, hgrow⟩
      grind
    · obtain ⟨pre, c', hsplit, hfull, hrun, hpre, hgrow'⟩ := overflow_spec hbelow hl
      refine ⟨e :: pre, c', by grind, hfull, hrun, fun x hx => ?_,
        fun t ht => hgrow' t (hgrow t ht)⟩
      rcases List.mem_cons.mp hx with rfl | hx
      · grind
      · exact hpre x hx

theorem capture_missed_iff (maxPublishersCount : Nat) {stock msgs : List Str}
    (hlast : ((started decode maxPublishersCount stock).doCapture decode cacheMax msgs).capState = .last) :
    let c := (started decode maxPublishersCount stock).doCapture decode cacheMax msgs
    let late := (started decode maxPublishersCount stock).overflow cacheMax (valid decode msgs)
    ((∃ pre, valid decode msgs = pre ++ late ∧
        ∀ e ∈ pre, e.2.2 ∈ c.events ∨ fresh (valid decode stock) e = false) ∧
      (∀ rid, c.lastEvents.get? rid = lastText late rid) ∧
      c.totalMissedCache = late.length - c.lastEvents.length ∧
      c.lastEvents.length = (late.map (·.1)).dedup.length) ↔ NewFirst (late.map (·.1)) := by
  intro c late
  obtain ⟨h, -⟩ := started_stocked decode maxPublishersCount stock
  have hbelow : Below (valid decode stock) (started decode maxPublishersCount stock) :=
    ⟨by simp [h.capState], fun hk => (h.known _).symm.trans hk, h.totalOverflow, h.totalMissedCache⟩
  rw [doCapture_eq] at hlast
  obtain ⟨pre, c', hsplit, hfull, hrun, hpre, -⟩ := overflow_spec hbelow hlast
  obtain ⟨hov, hle, hiff⟩ := @Full.overflown cacheMax _ hfull late
  have hc : c = c'.receiveAll cacheMax late := (doCapture_eq _ _).trans hrun
  rw [← hc] at hov hle hiff
  rw [← hiff]
  have hlen := hov.length
  constructor
  · rintro ⟨-, -, hm, -⟩
    have hd := (List.dedup_sublist (late.map (·.1))).length_le
    rw [List.length_map] at hd
    omega
  · intro heq
    refine ⟨⟨pre, hsplit, fun e he => ?_⟩, hov.last, by omega, hlen⟩
    rw [hov.events]
    exact hpre e he

end

theorem capture_missed_once :
    let c := (started twoChars 0 []).doCapture twoChars 2
      ["A1".toList, "A2".toList, "A3".toList, "B1".toList, "A4".toList]
    (∀ rid, c.lastEvents.get? rid =
      lastText [("A".toList, 3, "A3".toList), ("B".toList, 1, "B1".toList), ("A".toList, 4, "A4".toList)] rid) ∧
    c.totalMissedCache = 1 := by
  have hover : (started twoChars 0 []).overflow 2
      (valid twoChars ["A1".toList, "A2".toList, "A3".toList, "B1".toList, "A4".toList]) =
      [("A".toList, 3, "A3".toList), ("B".toList, 1, "B1".toList), ("A".toList, 4, "A4".toList)] := by decide +kernel
  have hA : NewFirst ([] ++ ["A".toList]) := newFirst_concat.mpr ⟨newFirst_nil, by decide +kernel⟩
  have hAB : NewFirst (([] ++ ["A".toList]) ++ ["B".toList]) := newFirst_concat.mpr ⟨hA, by decide +kernel⟩
  have hnew : NewFirst ((([] ++ ["A".toList]) ++ ["B".toList]) ++ ["A".toList]) :=
    newFirst_concat.mpr ⟨hAB, by decide +kernel⟩
  obtain ⟨-, hlast, hmissed, hlen⟩ := (@capture_missed_iff twoChars 2 0 []
    ["A1".toList, "A2".toList, "A3".toList, "B1".toList, "A4".toList] (by decide +kernel)).mpr
      (by rw [hover]; exact hnew)
  rw [hover] at hlast hlen hmissed
  rw [hlen] at hmissed
  exact ⟨hlast, hmissed.trans (by decide +kernel)⟩

theorem capture_missed_twice :
    let c := (started twoChars 0 []).doCapture twoChars 2 ["A1", "A2", "A3", "A4", "B1"]
    let late := (started twoChars 0 []).overflow 2
      (valid twoChars ["A1", "A2", "A3", "A4", "B1"])
    c.capState = .last ∧ late.length = 3 ∧ c.lastEvents.length = 2 ∧ c.totalMissedCache = 2 ∧
      ¬ c.totalMissedCache = late.length - c.lastEvents.length := by
  decide +kernel

end Sonic.EventCache
