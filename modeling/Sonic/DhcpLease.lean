import Mathlib.Data.List.Induction
import Sonic.Dict
import Sonic.Run
import Sonic.Text

/-! # The lease table of dhcpservd

Kea appends a row to its lease file for every event of a lease. `KeaDhcp4LeaseHandler` reads the
file from its oldest row to its newest and `update_lease` makes the lease table of STATE_DB agree
with what it has read. Functions answer `none` where the source raises. -/

namespace Sonic.DhcpLease
open List

open Str

variable {r : Row} {h : Handler} {row key : Str} {leases : Leases}

/-! ## The lease file -/

structure Row where
  address : Str
  hwaddr : Str
  validLifetime : Int
  expire : Int
  subnetId : Str
  state : Int

def keaLeaseMinCols : Nat := 10

def Row.parse (row : Str) : Option Row :=
  let splits := split ',' row
  if splits.getD 0 [] = "address" then none
  else if splits.length < keaLeaseMinCols then none
  else do
    let validLifetime ← int (splits.getD 3 [])
    let leaseEnd ← int (splits.getD 4 [])
    let state ← int (splits.getD 9 [])
    return ⟨splits.getD 0 [], splits.getD 1 [], validLifetime, leaseEnd, splits.getD 5 [], state⟩

def keaLeaseStateDefault : Int := 0

def Row.isActive (r : Row) : Bool := r.state = keaLeaseStateDefault ∧ 0 < r.validLifetime

structure Lease where
  leaseStart : Str
  leaseEnd : Str
  ip : Str

def Lease.items (l : Lease) : List (Str × Str) :=
  [("lease_start", l.leaseStart), ("lease_end", l.leaseEnd), ("ip", l.ip)]

abbrev Leases := Dict Str Lease

structure Handler where
  isSmartSwitch : Bool
  midplaneBridgeName : Option Str
  lastUpdateTime : Option Int
  locked : Bool

section
variable (h : Handler)

def Handler.leaseKey (subnetId macAddress : Str) : Option Str :=
  if h.isSmartSwitch then h.midplaneBridgeName.map (· ++ '|' :: macAddress)
  else some ("Vlan" ++ subnetId ++ '|' :: macAddress)

def Handler.readRow (newLease : Leases) (row : Str) : Option Leases :=
  match Row.parse row with
  | none => some newLease
  | some r => do
    let newKey ← h.leaseKey r.subnetId r.hwaddr
    if r.isActive then
      return newLease.set newKey ⟨ofInt (r.expire - r.validLifetime), ofInt r.expire, r.address⟩
    else
      let existing := newLease.get? newKey
      if existing.all (·.ip = r.address) then
        return newLease.set newKey ⟨ofInt r.expire, ofInt r.expire, r.address⟩
      else return newLease

def Handler.read (file : Option (List Str)) : Option Leases := file.bind fun rows => rows.foldlM h.readRow []

end

abbrev Table := Dict Str (Dict Str Str)

def Table.hset (t : Table) (key : Str) (items : List (Str × Str)) : Table :=
  t.set key (((t.get? key).getD []).update items)

structure Call where
  file : Option (List Str)
  now : Str → Int
  endTime : Int

def Lease.gone (l : Lease) (unixTime : Int) : Option Bool :=
  if l.leaseStart = l.leaseEnd then some true else (int l.leaseEnd).map fun leaseEnd => leaseEnd ≤ unixTime

def saveLease (now : Str → Int) (oldLeaseKey : List Str) (t : Table) (p : Str × Lease) : Option Table := do
  if ← p.2.gone (now p.1) then return if p.1 ∈ oldLeaseKey then t.erase p.1 else t
  else return t.hset p.1 p.2.items

def saveLeases (now : Str → Int) (newLease : Leases) (old : Table) : Option Table := do
  let t ← newLease.foldlM (saveLease now old.keys) old
  return old.keys.foldl (fun t key => if key ∈ newLease.keys then t else t.erase key) t

def Handler.updateLease (h : Handler) (c : Call) (t : Table) : Handler × Table :=
  if h.locked then (h, t)
  else match (h.read c.file).bind fun newLease => saveLeases c.now newLease t with
    | none => ({ h with locked := true }, t)
    | some t' => ({ h with lastUpdateTime := some c.endTime }, t')

def Handler.afterCalls (h : Handler) (calls : List (Call × Table)) : Handler :=
  calls.foldl (fun h p => (h.updateLease p.1 p.2).1) h

/-! ## What a lease file says -/

/-- A row with the columns of a lease: the address first, then the hardware address, the lifetime, the time of expiry
and the subnet in columns 1, 3, 4 and 5, and the state in column 9. The header, whose first column is `address`, is none. -/
def Reads (row : Str) (r : Row) : Prop :=
  ∃ cols : List Str, row = join [','] cols ∧ (∀ col ∈ cols, ',' ∉ col) ∧ 10 ≤ cols.length ∧
    cols[0]? = some r.address ∧ r.address ≠ "address" ∧ cols[1]? = some r.hwaddr ∧ cols[5]? = some r.subnetId ∧
    cols[3]?.bind int = some r.validLifetime ∧ cols[4]?.bind int = some r.expire ∧ cols[9]?.bind int = some r.state

/-- The client of a row is its hardware address in the VLAN of its subnet, on a smart switch on the mid plane bridge. -/
def Handler.Names (h : Handler) (r : Row) (key : Str) : Prop :=
  if h.isSmartSwitch then ∃ bridge, h.midplaneBridgeName = some bridge ∧ key = bridge ++ '|' :: r.hwaddr
  else key = "Vlan" ++ r.subnetId ++ '|' :: r.hwaddr

/-- The row assigns its address. -/
def Row.Active (r : Row) : Prop := r.state = 0 ∧ 0 < r.validLifetime

/-- The row is the last active one of the client, and no later row of the client is for its address. -/
def Handler.LastFor (h : Handler) (file : List Str) (key : Str) (r : Row) : Prop :=
  ∃ pre row post, file = pre ++ row :: post ∧ Reads row r ∧ h.Names r key ∧ r.Active ∧
    ∀ x ∈ post, ∀ r', Reads x r' → h.Names r' key → ¬ r'.Active ∧ r'.address ≠ r.address

/-- The key has a lease of the address that is not released. -/
def Leases.Active (leases : Leases) (key a : Str) : Prop :=
  ∃ l, leases.get? key = some l ∧ l.ip = a ∧ l.leaseStart ≠ l.leaseEnd

theorem exists_ten {cols : List Str} (h : 10 ≤ cols.length) : ∃ a b c d e f g i j k l,
    cols = a :: b :: c :: d :: e :: f :: g :: i :: j :: k :: l := by
  rcases cols with _ | ⟨a, _ | ⟨b, _ | ⟨c, _ | ⟨d, _ | ⟨e, _ | ⟨f, _ | ⟨g, _ | ⟨i, _ | ⟨j, _ | ⟨k, l⟩⟩⟩⟩⟩⟩⟩⟩⟩⟩
  all_goals first
    | exact ⟨a, b, c, d, e, f, g, i, j, k, l, rfl⟩
    | exact absurd h (by simp)

theorem parse_iff : Row.parse row = some r ↔ Reads row r := by
  have hcols {cols : List Str} (hs : split ',' row = cols) : Row.parse row = some r ↔ 10 ≤ cols.length ∧
      cols[0]? = some r.address ∧ r.address ≠ "address" ∧ cols[1]? = some r.hwaddr ∧
      cols[5]? = some r.subnetId ∧ cols[3]?.bind int = some r.validLifetime ∧ cols[4]?.bind int = some r.expire ∧
      cols[9]?.bind int = some r.state := by
    rw [Row.parse, hs]
    by_cases hlen : 10 ≤ cols.length
    · obtain ⟨a, b, c, d, e, f, g, i, j, k, l, rfl⟩ := exists_ten hlen
      obtain ⟨address, hwaddr, lifetime, expire, subnet, state⟩ := r
      by_cases ha : a = "address"
      · simp only [List.getD_cons_zero, if_pos ha]
        constructor
        · exact nofun
        · rintro ⟨-, he, hne, -⟩
          exact absurd ((Option.some.inj he).symm.trans ha) hne
      · simp only [List.getD_cons_zero, if_neg ha, if_neg (Nat.not_lt.mpr hlen : ¬ _ < keaLeaseMinCols)]
        show ((int d).bind fun v => (int e).bind fun x => (int k).bind fun s => some (⟨a, b, v, x, f, s⟩ : Row)) = _ ↔
          _ ∧ some a = some address ∧ _ ∧ some b = some hwaddr ∧ some f = some subnet ∧ int d = some lifetime ∧
            int e = some expire ∧ int k = some state
        simp only [Option.bind_eq_some_iff, Option.some_inj, Row.mk.injEq]
        constructor
        · rintro ⟨_, hd, _, he, _, hk, rfl, rfl, rfl, rfl, rfl, rfl⟩
          exact ⟨hlen, rfl, ha, rfl, rfl, hd, he, hk⟩
        · rintro ⟨-, rfl, -, rfl, rfl, hd, he, hk⟩
          exact ⟨_, hd, _, he, _, hk, rfl, rfl, rfl, rfl, rfl, rfl⟩
    · rw [show (if cols.length < keaLeaseMinCols then none else _) = none from if_pos (Nat.lt_of_not_le hlen)]
      simp [hlen]
  constructor
  · intro h
    exact ⟨_, (join_split ',' row).symm, fun col hcol => not_mem_split hcol, (hcols rfl).mp h⟩
  · rintro ⟨cols, rfl, hcomma, hlen, hrest⟩
    refine (hcols (split_join hcomma ?_)).mpr ⟨hlen, hrest⟩
    rintro rfl
    exact absurd hlen (by simp)

theorem leaseKey_iff :
    h.leaseKey r.subnetId r.hwaddr = some key ↔ h.Names r key := by
  rw [Handler.leaseKey, Handler.Names]
  split
  · rw [Option.map_eq_some_iff]
    exact exists_congr fun bridge => and_congr_right fun _ => eq_comm
  · rw [Option.some_inj]
    exact eq_comm

theorem isActive_iff : r.isActive = true ↔ r.Active := decide_eq_true_iff

/-! ## The rows of a client -/

def Handler.rowsOf (h : Handler) (key : Str) (rows : List Str) : List Row :=
  rows.filterMap fun row => (Row.parse row).filter fun r => h.leaseKey r.subnetId r.hwaddr = some key

def LastRow (rows : List Row) (r : Row) : Prop :=
  ∃ pre post, rows = pre ++ r :: post ∧ r.isActive = true ∧ ∀ x ∈ post, x.isActive = false ∧ x.address ≠ r.address

theorem row_iff :
    (Row.parse row).filter (fun r => h.leaseKey r.subnetId r.hwaddr = some key) = some r ↔
      Reads row r ∧ h.Names r key := by
  rw [Option.filter_eq_some_iff, parse_iff, decide_eq_true_eq, leaseKey_iff]

theorem lastRow_iff {file : List Str} :
    LastRow (h.rowsOf key file) r ↔ h.LastFor file key r := by
  constructor
  · rintro ⟨pre, post, he, hact, hpost⟩
    obtain ⟨f₁, f₂, rfl, -, hf₂⟩ := filterMap_eq_append_iff.mp he
    obtain ⟨g₁, row, g₂, rfl, -, hrow, rfl⟩ := filterMap_eq_cons_iff.mp hf₂
    obtain ⟨hreads, hnames⟩ := row_iff.mp hrow
    refine ⟨f₁ ++ g₁, row, g₂, by simp, hreads, hnames, isActive_iff.mp hact, fun x hx r' hr' hn' => ?_⟩
    obtain ⟨hoff, hne⟩ := hpost r' (mem_filterMap.mpr ⟨x, hx, row_iff.mpr ⟨hr', hn'⟩⟩)
    exact ⟨fun ha => Bool.false_ne_true (hoff.symm.trans (isActive_iff.mpr ha)), hne⟩
  · rintro ⟨pre, row, post, rfl, hreads, hnames, hact, hpost⟩
    refine ⟨h.rowsOf key pre, h.rowsOf key post, ?_, isActive_iff.mpr hact, fun x hx => ?_⟩
    · simp only [Handler.rowsOf, filterMap_append, filterMap_cons, row_iff.mpr ⟨hreads, hnames⟩]
    · obtain ⟨y, hy, hx⟩ := mem_filterMap.mp hx
      obtain ⟨hr', hn'⟩ := row_iff.mp hx
      obtain ⟨hoff, hne⟩ := hpost y hy x hr' hn'
      exact ⟨Bool.eq_false_iff.mpr fun ha => hoff (isActive_iff.mp ha), hne⟩

def Row.apply (r : Row) (existing : Option Lease) : Option Lease :=
  if r.isActive then some ⟨ofInt (r.expire - r.validLifetime), ofInt r.expire, r.address⟩
  else if existing.all (·.ip = r.address) then some ⟨ofInt r.expire, ofInt r.expire, r.address⟩
  else existing

theorem readRow_get? {leases' : Leases} (hr : h.readRow leases row = some leases')
    (key : Str) : leases'.get? key = (h.rowsOf key [row]).foldl (fun o r => r.apply o) (leases.get? key) := by
  unfold Handler.readRow at hr
  unfold Handler.rowsOf
  cases hp : Row.parse row with
  | none => simp_all
  | some r =>
    rw [hp] at hr
    obtain ⟨newKey, hkey, hr⟩ := Option.bind_eq_some_iff.mp hr
    have hrows : (if newKey = key then [r] else []) = [row].filterMap fun row =>
        (Row.parse row).filter fun r => h.leaseKey r.subnetId r.hwaddr = some key := by grind
    rw [← hrows]
    by_cases he : newKey = key
    · grind [Row.apply]
    · grind

theorem read_get? (key : Str) : ∀ {rows : List Str} {leases leases' : Leases},
    rows.foldlM h.readRow leases = some leases' →
    leases'.get? key = (h.rowsOf key rows).foldl (fun o r => r.apply o) (leases.get? key)
  | [], _, _, hr => by
    cases hr
    rfl
  | row :: rows, leases, leases', hr => by
    rw [foldlM_cons] at hr
    obtain ⟨next, h1, h2⟩ := Option.bind_eq_some_iff.mp hr
    have hsplit : h.rowsOf key (row :: rows) = h.rowsOf key [row] ++ h.rowsOf key rows := by grind [Handler.rowsOf]
    rw [hsplit, foldl_append, ← readRow_get? h1, read_get? key h2]

theorem lastRow_concat {rows : List Row} {x : Row} : LastRow (rows ++ [x]) r ↔
    x.isActive = true ∧ x = r ∨ x.isActive = false ∧ x.address ≠ r.address ∧ LastRow rows r := by
  constructor
  · rintro ⟨pre, post, he, hact, hpost⟩
    rcases eq_nil_or_concat' post with rfl | ⟨post, y, rfl⟩
    · obtain ⟨-, hx⟩ := append_inj' he rfl
      cases hx
      exact .inl ⟨hact, rfl⟩
    · rw [← cons_append, ← append_assoc] at he
      obtain ⟨hrows, hx⟩ := append_inj' he rfl
      cases hx
      obtain ⟨h1, h2⟩ := hpost x (by simp)
      exact .inr ⟨h1, h2, pre, post, hrows, hact, fun z hz => hpost z (by simp [hz])⟩
  · rintro (⟨hact, rfl⟩ | ⟨hact, hne, pre, post, rfl, hr, hpost⟩)
    · exact ⟨rows, [], rfl, hact, fun z hz => absurd hz not_mem_nil⟩
    · refine ⟨pre, post ++ [x], by simp, hr, fun z hz => ?_⟩
      rcases mem_append.mp hz with hz | hz
      · exact hpost z hz
      · rw [mem_singleton.mp hz]
        exact ⟨hact, hne⟩

theorem ofInt_sub_ne (h : r.isActive = true) : ofInt (r.expire - r.validLifetime) ≠ ofInt r.expire := by
  intro he
  have hpos : 0 < r.validLifetime := (of_decide_eq_true h).2
  have := ofInt_injective he
  omega

def final (rows : List Row) : Option Lease := rows.foldl (fun o r => r.apply o) none

theorem final_concat (rows : List Row) (x : Row) : final (rows ++ [x]) = x.apply (final rows) := by
  rw [final, final, foldl_append]
  rfl

/-- The lease of an active row. -/
def Row.lease (r : Row) : Lease := ⟨ofInt (r.expire - r.validLifetime), ofInt r.expire, r.address⟩

theorem final_iff (rows : List Row) (l : Lease) :
    (final rows = some l ∧ l.leaseStart ≠ l.leaseEnd) ↔ ∃ r, LastRow rows r ∧ l = r.lease := by
  induction rows using List.reverseRecOn generalizing l with
  | nil =>
    constructor
    · rintro ⟨hl, -⟩
      cases hl
    · rintro ⟨r, ⟨pre, post, he, -⟩, -⟩
      simp at he
  | append_singleton rows x ih =>
    rw [final_concat, Row.apply]
    simp only [lastRow_concat]
    by_cases hact : x.isActive = true
    · rw [if_pos hact]
      constructor
      · rintro ⟨hl, -⟩
        exact ⟨x, .inl ⟨hact, rfl⟩, (Option.some.inj hl).symm⟩
      · rintro ⟨r, ⟨-, rfl⟩ | ⟨hoff, -⟩, rfl⟩
        · exact ⟨rfl, ofInt_sub_ne hact⟩
        · rw [hact] at hoff
          cases hoff
    · rw [if_neg hact]
      have hact' : x.isActive = false := by simpa using hact
      simp only [hact', Bool.false_eq_true, false_and, false_or, true_and]
      split
      · rename_i hx
        -- the row clears the lease: there is none, or it is one of the row's address
        constructor
        · rintro ⟨hl, hne⟩
          cases hl
          exact absurd rfl hne
        · rintro ⟨r, ⟨hne, hr⟩, rfl⟩
          obtain ⟨hl, -⟩ := (ih r.lease).mpr ⟨r, hr, rfl⟩
          rw [hl] at hx
          exact absurd (of_decide_eq_true hx).symm hne
      · rename_i hx
        rw [ih]
        constructor
        · rintro ⟨r, hr, rfl⟩
          obtain ⟨hl, -⟩ := (ih r.lease).mpr ⟨r, hr, rfl⟩
          rw [hl] at hx
          exact ⟨r, ⟨fun he => hx (decide_eq_true he.symm), hr⟩, rfl⟩
        · rintro ⟨r, ⟨-, hr⟩, rfl⟩
          exact ⟨r, hr, rfl⟩

theorem read_iff {rows : List Str} (hr : h.read (some rows) = some leases)
    (key : Str) (l : Lease) : (leases.get? key = some l ∧ l.leaseStart ≠ l.leaseEnd) ↔
      ∃ r, h.LastFor rows key r ∧ l = r.lease := by
  have hget : leases.get? key = final (h.rowsOf key rows) := read_get? key hr
  rw [hget, final_iff]
  exact exists_congr fun r => and_congr_left' lastRow_iff

/-! ## The table after an update -/

theorem read_nodup {file : Option (List Str)} (hr : h.read file = some leases) :
    leases.keys.Nodup ∧ ∀ p ∈ leases, ∃ e : Int, p.2.leaseEnd = ofInt e := by
  obtain ⟨rows, -, hr⟩ := Option.bind_eq_some_iff.mp hr
  have h0 : (Dict.keys ([] : Leases)).Nodup ∧ ∀ p ∈ ([] : Leases), ∃ e : Int, p.2.leaseEnd = ofInt e :=
    ⟨nodup_nil, fun _ hp => absurd hp not_mem_nil⟩
  refine foldlM_inv (fun leases : Leases => leases.keys.Nodup ∧ ∀ p ∈ leases, ∃ e : Int, p.2.leaseEnd = ofInt e) ?_
    h0 hr
  rintro leases row next - ⟨hn, he⟩ hrow
  have hset : ∀ (k : Str) (start ip : Str) (e : Int), (leases.set k ⟨start, ofInt e, ip⟩).keys.Nodup ∧
      ∀ p ∈ leases.set k ⟨start, ofInt e, ip⟩, ∃ e : Int, p.2.leaseEnd = ofInt e := by
    intro k start ip e
    refine ⟨Dict.nodup_set _ _ hn, fun p hp => ?_⟩
    rcases Dict.mem_set hp with hp | rfl <;> grind
  grind [Handler.readRow, Option.bind_eq_some_iff]

theorem gone_eq {l : Lease} {e : Int} (he : l.leaseEnd = ofInt e) (t : Int) :
    ∃ b, l.gone t = some b ∧ (b = false ↔ l.leaseStart ≠ l.leaseEnd ∧ t < e) := by
  unfold Lease.gone
  split
  · grind
  · simp_all [int_ofInt]

def Lease.saved (l : Lease) (gone : Bool) (old : Option (Dict Str Str)) : Option (Dict Str Str) :=
  if gone then none else some ((old.getD []).update l.items)

theorem saveLease_spec {now : Str → Int} {old t : Table} {k : Str} {l : Lease} {gone : Bool}
    (hg : l.gone (now k) = some gone) (hk : t.get? k = old.get? k) :
    ∃ t', saveLease now old.keys t (k, l) = some t' ∧ t'.get? k = l.saved gone (old.get? k) ∧
      ∀ j ≠ k, t'.get? j = t.get? j := by
  unfold saveLease Lease.saved
  dsimp only
  rw [hg]
  cases gone with
  | true =>
    refine ⟨_, rfl, ?_, fun j hj => ?_⟩
    · grind [Dict.get?_eq_none_iff]
    · grind
  | false => simp_all [Dict.get?_set_ne, Ne.symm, Table.hset]

theorem saveLoop_spec {now : Str → Int} {old : Table} : ∀ {leases : Leases} {t : Table}, leases.keys.Nodup →
    (∀ p ∈ leases, ∃ e : Int, p.2.leaseEnd = ofInt e) → (∀ k ∈ leases.keys, t.get? k = old.get? k) →
    ∃ t', leases.foldlM (saveLease now old.keys) t = some t' ∧
      (∀ p ∈ leases, ∃ gone, p.2.gone (now p.1) = some gone ∧ t'.get? p.1 = p.2.saved gone (old.get? p.1)) ∧
      ∀ k ∉ leases.keys, t'.get? k = t.get? k
  | [], t, _, _, _ => ⟨t, rfl, fun _ hp => absurd hp not_mem_nil, fun _ _ => rfl⟩
  | (k, l) :: leases, t, hn, he, ht => by
    obtain ⟨hk, hn⟩ := List.nodup_cons.mp hn
    obtain ⟨e, hle⟩ := he (k, l) (by simp)
    obtain ⟨gone, hg, -⟩ := gone_eq hle (now k)
    obtain ⟨t1, h1, hself, hother⟩ := saveLease_spec hg (ht k (by simp [Dict.keys]))
    have hne : ∀ j ∈ Dict.keys leases, j ≠ k := fun j hj hjk => hk (hjk ▸ hj)
    obtain ⟨t', h2, hitems, hrest⟩ := saveLoop_spec hn (fun p hp => he p (mem_cons_of_mem _ hp))
      (fun j hj => (hother j (hne j hj)).trans (ht j (mem_cons_of_mem _ hj)))
    refine ⟨t', by rw [foldlM_cons, h1]; exact h2, fun p hp => ?_, fun j hj => ?_⟩
    · grind
    · rw [Dict.keys, map_cons, mem_cons, not_or] at hj
      rw [hrest j hj.2, hother j hj.1]

theorem get?_eraseLoop : ∀ (ks : List Str) (t : Table) (key : Str),
    (ks.foldl (fun t key => if key ∈ leases.keys then t else t.erase key) t).get? key =
      if key ∈ ks ∧ key ∉ leases.keys then none else t.get? key
  | [], t, key => by simp
  | k :: ks, t, key => by
    rw [foldl_cons, get?_eraseLoop ks]
    by_cases hmem : key ∈ ks ∧ key ∉ leases.keys
    · grind
    · rw [if_neg hmem]
      by_cases hkey : key = k
      · grind
      · have hcons : ¬ (key ∈ k :: ks ∧ key ∉ leases.keys) := fun h =>
          hmem ⟨(List.mem_cons.mp h.1).resolve_left hkey, h.2⟩
        rw [if_neg hcons]
        split
        · rfl
        · grind

theorem saveLeases_spec (now : Str → Int) (hn : leases.keys.Nodup)
    (he : ∀ p ∈ leases, ∃ e : Int, p.2.leaseEnd = ofInt e) (old : Table) :
    ∃ t', saveLeases now leases old = some t' ∧ (∀ key, leases.get? key = none → t'.get? key = none) ∧
      ∀ key l, leases.get? key = some l →
        ∃ gone, l.gone (now key) = some gone ∧ t'.get? key = l.saved gone (old.get? key) := by
  obtain ⟨t, ht, hitems, hrest⟩ := @saveLoop_spec now old leases old hn he fun _ _ => rfl
  refine ⟨_, by rw [saveLeases, ht]; rfl, fun key hk => ?_, fun key l hl => ?_⟩
  · rw [get?_eraseLoop]
    grind [Dict.get?_eq_none_iff, Dict.get?_eq_none_iff]
  · rw [get?_eraseLoop, if_neg fun h => h.2 (Dict.mem_keys_of_get? hl)]
    exact hitems (key, l) (Dict.get?_eq_some_mem hl)

theorem afterCalls_unlocked : ∀ {calls : List (Call × Table)} {h : Handler}, h.locked = false →
    (∀ p ∈ calls, (h.read p.1.file).isSome) → (h.afterCalls calls).locked = false ∧
      ∀ file, (h.afterCalls calls).read file = h.read file
  | [], h, hl, _ => ⟨hl, fun _ => rfl⟩
  | p :: calls, h, hl, hok => by
    obtain ⟨leases, hr⟩ := Option.isSome_iff_exists.mp (hok p (by simp))
    obtain ⟨hn, he⟩ := read_nodup hr
    obtain ⟨t', ht, -⟩ := saveLeases_spec p.1.now hn he p.2
    have hstep : (h.updateLease p.1 p.2).1 = { h with lastUpdateTime := some p.1.endTime } := by
      grind [Handler.updateLease]
    obtain ⟨h1, h2⟩ := @afterCalls_unlocked calls { h with lastUpdateTime := some p.1.endTime } hl
      fun q hq => hok q (mem_cons_of_mem _ hq)
    rw [Handler.afterCalls, foldl_cons, hstep]
    exact ⟨h1, h2⟩

theorem items_nodup (l : Lease) : (l.items.map Prod.fst).Nodup := by
  show ["lease_start".toList, "lease_end".toList, "ip".toList].Nodup
  decide +kernel

theorem lease_table {h : Handler} (hl : h.locked = false) {calls : List (Call × Table)}
    (hok : ∀ p ∈ calls, (h.read p.1.file).isSome) {c : Call} {rows : List Str} (hc : c.file = some rows)
    {leases : Leases} (hr : h.read (some rows) = some leases) (t : Table) :
    (∀ key a, leases.Active key a ↔ ∃ r, h.LastFor rows key r ∧ r.address = a) ∧
    (∀ key, key ∈ ((h.afterCalls calls).updateLease c t).2.keys ↔ ∃ r, h.LastFor rows key r ∧ c.now key < r.expire) ∧
    ∀ key r, h.LastFor rows key r → ∀ row, ((h.afterCalls calls).updateLease c t).2.get? key = some row →
      row.get? "lease_start" = some (ofInt (r.expire - r.validLifetime)) ∧
      row.get? "lease_end" = some (ofInt r.expire) ∧ row.get? "ip" = some r.address := by
  obtain ⟨hn, he⟩ := read_nodup hr
  obtain ⟨hunlocked, hread⟩ := afterCalls_unlocked hl hok
  obtain ⟨t', ht, hnone, hsome⟩ := saveLeases_spec c.now hn he t
  have hupdate : ((h.afterCalls calls).updateLease c t).2 = t' := by
    rw [Handler.updateLease, hunlocked, hread, hc, hr, Option.bind_some, ht]
    rfl
  rw [hupdate]
  refine ⟨fun key a => ?_, fun key => ?_, fun key r hlast row hrow => ?_⟩
  · constructor
    · rintro ⟨l, hl, rfl, hne⟩
      obtain ⟨r, hlast, rfl⟩ := (read_iff hr key l).mp ⟨hl, hne⟩
      exact ⟨r, hlast, rfl⟩
    · rintro ⟨r, hlast, rfl⟩
      obtain ⟨hl, hne⟩ := (read_iff hr key r.lease).mpr ⟨r, hlast, rfl⟩
      exact ⟨r.lease, hl, rfl, hne⟩
  · have hkey : key ∈ t'.keys ↔ ∃ l, leases.get? key = some l ∧ l.leaseStart ≠ l.leaseEnd ∧
        ∃ e, int l.leaseEnd = some e ∧ c.now key < e := by
      cases hk : leases.get? key with
      | none => simp [← not_iff_not, ← Dict.get?_eq_none_iff, hnone key hk]
      | some l =>
        obtain ⟨e, hle⟩ := he (key, l) (Dict.get?_eq_some_mem hk)
        obtain ⟨gone, hg, hget⟩ := hsome key l hk
        obtain ⟨gone', hg', hiff⟩ := gone_eq hle (c.now key)
        obtain rfl : gone = gone' := Option.some.inj (hg.symm.trans hg')
        have hend : int l.leaseEnd = some e := by rw [show l.leaseEnd = ofInt e from hle, int_ofInt]
        simp only [Option.some.injEq, exists_eq_left', hend, ← hiff]
        cases gone with
        | true => simp [← Dict.get?_eq_none_iff, hget, Lease.saved]
        | false => simp [Dict.mem_keys_of_get? hget]
    rw [hkey]
    constructor
    · rintro ⟨l, hl, hne, e, hend, hnow⟩
      obtain ⟨r, hlast, rfl⟩ := (read_iff hr key l).mp ⟨hl, hne⟩
      rw [Row.lease, int_ofInt] at hend
      cases hend
      exact ⟨r, hlast, hnow⟩
    · rintro ⟨r, hlast, hnow⟩
      obtain ⟨hl, hne⟩ := (read_iff hr key r.lease).mpr ⟨r, hlast, rfl⟩
      exact ⟨r.lease, hl, hne, r.expire, int_ofInt _, hnow⟩
  · obtain ⟨hl, -⟩ := (read_iff hr key r.lease).mpr ⟨r, hlast, rfl⟩
    obtain ⟨gone, hg, hget⟩ := hsome key r.lease hl
    rw [hget, Lease.saved] at hrow
    split at hrow
    · cases hrow
    · cases hrow
      have hitem {p : Str × Str} (hp : p ∈ r.lease.items) := Dict.get?_update_of_mem ((t.get? key).getD [])
        (items_nodup r.lease) hp
      exact ⟨hitem mem_cons_self, hitem (mem_cons_of_mem _ mem_cons_self),
        hitem (mem_cons_of_mem _ (mem_cons_of_mem _ mem_cons_self))⟩

section
def sampleFile : List Str :=
  ["address,hwaddr,client_id,valid_lifetime,expire,subnet_id,fqdn_fwd,fqdn_rev,hostname,state",
    "192.168.0.2,10:70:fd:b6:13:00,,900,2000,1000,0,0,,0,,0",
    "192.168.0.1,10:70:fd:b6:13:00,,0,1500,1000,0,0,,0,,0", "192.168.0.3"]

def sampleRow : Row := ⟨"192.168.0.2", "10:70:fd:b6:13:00", 900, 2000, "1000", 0⟩

-- the client keeps its lease although an address it had before is released; an old key goes
theorem lease_table_sample : ∃ leases : Leases, Handler.read ⟨false, none, none, false⟩ (some sampleFile) =
    some leases ∧
    leases.Active "Vlan1000|10:70:fd:b6:13:00".toList "192.168.0.2".toList ∧
    "Vlan1000|10:70:fd:b6:13:00".toList ∈
      ((Handler.afterCalls ⟨false, none, none, false⟩ [(⟨some [], fun _ => 0, 1⟩, [])]).updateLease
        ⟨some sampleFile, fun _ => 1700, 1701⟩ [("Vlan1000|old".toList, [])]).2.keys := by
  have hread : Handler.read ⟨false, none, none, false⟩ (some sampleFile) = some _ :=
    (Option.some_get (by decide +kernel)).symm
  have h := @lease_table ⟨false, none, none, false⟩ rfl [(⟨some [], fun _ => 0, 1⟩, [])] (by decide +kernel)
    ⟨some sampleFile, fun _ => 1700, 1701⟩ sampleFile rfl _ hread [("Vlan1000|old".toList, [])]
  have hlast : Handler.LastFor ⟨false, none, none, false⟩ sampleFile "Vlan1000|10:70:fd:b6:13:00".toList sampleRow := by
    refine lastRow_iff.mp ⟨[], [⟨"192.168.0.1", "10:70:fd:b6:13:00", 0, 1500, "1000", 0⟩], ?_, ?_, ?_⟩
    · rfl
    · rfl
    · intro x hx
      rw [mem_singleton.mp hx]
      exact ⟨rfl, by decide⟩
  exact ⟨_, hread, (h.1 _ _).mpr ⟨sampleRow, hlast, rfl⟩, (h.2.1 _).mpr ⟨sampleRow, hlast, by decide⟩⟩

end

end Sonic.DhcpLease
