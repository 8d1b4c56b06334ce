import Sonic.FrrCache

/-! # Commands of several attributes in frrcfgd

An entry of a key map names the attributes that make up one command. The first ones are required; an
attribute marked `+` or `++` may be absent. Each event splits the attributes into changed, deleted
and unchanged ones, and calls for a removal, an update, or both. -/

namespace Sonic.FrrKeyMap
open List Option

open Str Frrcfgd

variable {k : Attr} {opt chg noChg : List Nat} {ops : List Op} {v₀ : Str}

structure Command where
  enable : Bool
  args : List Str
  deriving DecidableEq

structure BoolValues where
  enable : Str
  disable : Str
  dflt : Option Bool

def cmdEnable (op : Op) (stIdx : Nat) (vals : List Str) : Option BoolValues → Option Bool
  | none => some (op ≠ .delete)
  | some b =>
    if op = .delete then some (b.dflt.getD false)
    else (vals[stIdx]?).bind fun chkVal =>
      if chkVal = b.enable then some true else if chkVal = b.disable then some false else none

def getCommandCmn (op : Op) (stIdx : Nat) (vals : List Str) (boolValues : Option BoolValues) : Option (List Command) :=
  (cmdEnable op stIdx vals boolValues).map fun enable =>
    [⟨enable, if boolValues.isSome then vals.eraseIdx stIdx else vals⟩]

def words (s : Str) : List Str := (s.splitOnP isSpace).filter (· ≠ [])

def isCmdCovered (srcCmd dstCmd : Str) : Bool :=
  (words srcCmd).length < (words dstCmd).length && (words srcCmd).isPrefixOf (words dstCmd)

def isCmdListCovered (srcList dstList : List Str) : Bool :=
  srcList.isEmpty || srcList.length ≤ dstList.length && (srcList.zip dstList).all fun p => isCmdCovered p.1 p.2

structure KeyMap where
  dbField : List Str
  boolValues : Option BoolValues

def parseField : Str → Bool × Bool × List Str
  | '+' :: '+' :: dkey => (true, true, split '&' dkey)
  | '+' :: dkey => (true, false, split '&' dkey)
  | dkey => (false, false, split '&' dkey)

structure Scan where
  reqIdxList : List Nat
  optIdxList : List Nat
  keyListList : List (List (Option Str))

def extend (keyListList : List (List (Option Str))) (keyList : List Str) : List (List (Option Str)) :=
  match keyList with
  | [] => if keyListList = [] then [[none]] else keyListList.map (· ++ [none])
  | _ =>
    if keyListList = [] then keyList.map fun k => [some k]
    else keyListList.flatMap fun l => keyList.map fun k => l ++ [some k]

def scanField (data : OpData) (s : Scan) (field : Str × Nat) : Option Scan :=
  let (optional, opt, dkeys) := parseField field.1
  let keyList := dkeys.filter fun k => (data.get? k).isSome
  if !optional && keyList.isEmpty then none
  else some {
    reqIdxList := if optional then s.reqIdxList else s.reqIdxList ++ [field.2]
    optIdxList := if opt then s.optIdxList ++ [field.2] else s.optIdxList
    keyListList := extend s.keyListList keyList }

def scan (data : OpData) (dbField : List Str) : Option Scan := dbField.zipIdx.foldlM (scanField data) ⟨[], [], []⟩

/-! ## From attributes to commands -/

def idList (data : OpData) (ops : List Op) (keyList : List (Option Str)) : List Nat :=
  (keyList.zipIdx.filter fun p => (p.1.bind fun k => data.get? k).any fun v => v.op ∈ ops).map Prod.snd

def minIdChged (optIdxList chgList noChgList : List Nat) : Bool :=
  match chgList.min? with
  | none => false
  | some minChgId =>
    if minChgId ∈ optIdxList then noChgList.isEmpty
    else match noChgList.min? with
      | none => true
      | some minUnchgId => minChgId < minUnchgId

def tokens (data : OpData) (optIdxList : List Nat) (taken : Nat → Bool) : Nat → List (Option Str) → List Str
  | _, [] => []
  | idx, dkey :: rest =>
    if taken idx then ((dkey.bind fun k => data.get? k).elim [] CachedDataWithOp.data) :: tokens data optIdxList taken
      (idx + 1) rest
    else if idx ∈ optIdxList then [] :: tokens data optIdxList taken (idx + 1) rest
    else []

def cmdOp (optIdxList chgList noChgList : List Nat) (isDel : Bool) : Op :=
  if isDel && minIdChged optIdxList chgList noChgList then .delete else .update

def taken (op : Op) (chgList noChgList : List Nat) (isDel : Bool) (idx : Nat) : Bool :=
  (!isDel || op = .delete) && (idx ∈ chgList ∨ idx ∈ noChgList) || isDel && op = .update && idx ∈ noChgList

def getCmdData (keyList : List (Option Str)) (s : Scan) (data : OpData) (chgList noChgList : List Nat) (isDel : Bool) :
    Option (List Str × Op) :=
  if s.reqIdxList.all fun idx => idx ∈ chgList ∨ idx ∈ noChgList then
    let op := cmdOp s.optIdxList chgList noChgList isDel
    let cmdData := tokens data s.optIdxList (taken op chgList noChgList isDel) 0 keyList
    if cmdData = [] then none
    else some (cmdData ++ List.replicate (keyList.length - cmdData.length) [], op)
  else none

section
variable (upperVals : List Str) (m : KeyMap)

def changeCommand (s : Scan) (data : OpData) (keyList : List (Option Str)) (chgList : List Nat) (isDel : Bool) :
    List Command :=
  if chgList = [] then []
  else match getCmdData keyList s data chgList (idList data [.none] keyList) isDel with
    | none => []
    | some (vals, op) => (getCommandCmn op upperVals.length (upperVals ++ vals) m.boolValues).getD []

def keyListCommands (s : Scan) (data : OpData) (keyList : List (Option Str)) : List Command :=
  changeCommand upperVals m s data keyList (idList data [.delete] keyList) true ++
    changeCommand upperVals m s data keyList (idList data [.add, .update] keyList) false

def runCommand (render : Command → Str) (data : OpData) : List Command × OpData :=
  match scan data m.dbField with
  | none => ([], data)
  | some s =>
    let cmdListList := (s.keyListList.map (keyListCommands upperVals m s data)).filter (· ≠ [])
    (cmdListList.foldl (fun cmdList chkList =>
      if isCmdListCovered (cmdList.map render) (chkList.map render) then chkList else cmdList) [],
      markSucc (fun k => s.keyListList.any fun keyList => some k ∈ keyList) data)

def exec (_ : Option (List Str)) (c : Command) : Option (List Str) := if c.enable then some c.args else none

structure St where
  cached : Row
  frr : Option (List Str)

abbrev RowData := {r : Row // r.keys.Nodup}

def init : St := ⟨[], none⟩

def rowOf (e : Option RowData) : Row := (e.map Subtype.val).getD []

def bgpTableHandlerCommon (render : Command → Str) (s : St) (e : Option RowData) : St :=
  let (cmds, data) := runCommand upperVals m render (addOpToData s.cached (rowOf e) [])
  ⟨updateRow s.cached data, cmds.foldl exec s.frr⟩

end

abbrev Attr := {s : Str // s.head? ≠ some '+' ∧ '&' ∉ s}

def fieldText (f : Bool × Attr) : Str := if f.1 then '+' :: '+' :: f.2.1 else '+' :: f.2.1

def keyMap (k₀ : Attr) (fs : List (Bool × Attr)) : KeyMap := ⟨k₀.1 :: fs.map fieldText, none⟩

def optTuple (row : Row) : List (Bool × Attr) → List Str
  | [] => []
  | (opt, f) :: fs =>
    match row.get? f.1 with
    | some v => v :: optTuple row fs
    | none => if opt then [] :: optTuple row fs else List.replicate (fs.length + 1) []

def expected (upperVals : List Str) (k₀ : Attr) (fs : List (Bool × Attr)) (row : Row) : Option (List Str) :=
  (row.get? k₀.1).map fun v => upperVals ++ v :: optTuple row fs

section
variable {data : OpData} {k₀ : Attr} {fs : List (Bool × Attr)}

/-! ## What the fields say -/

theorem parseField_attr (k : Attr) : parseField k.1 = (false, false, [k.1]) := by
  obtain ⟨k, hplus, hand⟩ := k
  unfold parseField
  grind [split_of_not_mem]

theorem parseField_fieldText (f : Bool × Attr) : parseField (fieldText f) = (true, f.1, [f.2.1]) := by
  obtain ⟨opt, k, hplus, hand⟩ := f
  cases opt with
  | true =>
    show (true, true, split '&' k) = _
    rw [split_of_not_mem hand]
  | false =>
    have hparse : parseField ('+' :: k) = (true, false, split '&' k) := by cases k <;> simp_all [parseField]
    show parseField ('+' :: k) = _
    rw [hparse, split_of_not_mem hand]

def present (data : OpData) (k : Attr) : Option Str := if (data.get? k.1).isSome then some k.1 else none

def keyList (data : OpData) (k₀ : Attr) (fs : List (Bool × Attr)) : List (Option Str) :=
  present data k₀ :: fs.map fun f => present data f.2

def optIdx (i : Nat) (fs : List (Bool × Attr)) : List Nat := ((fs.zipIdx i).filter fun p => p.1.1).map Prod.snd

theorem filter_attr (k : Attr) : [k.1].filter (fun k => (data.get? k).isSome) = (present data k).toList := by
  grind [present]

theorem extend_present (keys : List (Option Str)) (k : Attr) :
    extend [keys] (present data k).toList = [keys ++ [present data k]] := by cases present data k <;> rfl

theorem scan_optional : ∀ (fs : List (Bool × Attr)) (i : Nat) (req opt : List Nat) (keys : List (Option Str)),
    ((fs.map fieldText).zipIdx i).foldlM (scanField data) ⟨req, opt, [keys]⟩ =
      some ⟨req, opt ++ optIdx i fs, [keys ++ fs.map fun f => present data f.2]⟩
  | [], i, req, opt, keys => by simp [optIdx]
  | f :: fs, i, req, opt, keys => by
    have hturn : scanField data ⟨req, opt, [keys]⟩ (fieldText f, i) =
        some ⟨req, opt ++ (if f.1 then [i] else []), [keys ++ [present data f.2]]⟩ := by
      simp only [scanField, parseField_fieldText, Bool.not_true, Bool.false_and, Bool.false_eq_true, if_false, if_true,
        filter_attr, extend_present]
      grind
    rw [map_cons, zipIdx_cons, foldlM_cons, hturn, bind_eq_bind, bind_some, scan_optional fs (i + 1)]
    grind [optIdx]

theorem scan_keyMap (h : (data.get? k₀.1).isSome = true) :
    scan data (keyMap k₀ fs).dbField = some ⟨[0], optIdx 1 fs, [keyList data k₀ fs]⟩ := by
  have hturn : scanField data ⟨[], [], []⟩ (k₀.1, 0) = some ⟨[0], [], [[present data k₀]]⟩ := by
    simp only [scanField, parseField_attr, filter_attr, present, if_pos h]
    rfl
  rw [scan, keyMap, zipIdx_cons, foldlM_cons, hturn, bind_eq_bind, bind_some, scan_optional fs 1]
  rfl

theorem scan_keyMap_none (h : data.get? k₀.1 = none) : scan data (keyMap k₀ fs).dbField = none := by
  have hturn : scanField data ⟨[], [], []⟩ (k₀.1, 0) = none := by simp_all [scanField, parseField_attr]
  grind [scan, keyMap]

/-! ## Indices and operations -/

theorem mem_idList {keys : List (Option Str)} {i : Nat} : i ∈ idList data ops keys ↔
    ∃ k v, keys[i]? = some (some k) ∧ data.get? k = some v ∧ v.op ∈ ops := by
  rw [idList, List.mem_map]
  constructor
  · rintro ⟨⟨dkey, j⟩, hmem, rfl⟩ <;> grind [Option.any_eq_true]
  · simp_all [mem_zipIdx_iff_getElem?]

def hasOp (data : OpData) (ops : List Op) (k : Attr) : Prop := ∃ v, data.get? k.1 = some v ∧ v.op ∈ ops

theorem present_eq_some {a : Str} (h : present data k = some a) : k.1 = a := by grind [present]

theorem exists_present :
    (∃ a v, some (present data k) = some (some a) ∧ data.get? a = some v ∧ v.op ∈ ops) ↔ hasOp data ops k := by
  constructor
  · rintro ⟨a, v, hp, hget, hop⟩
    rw [← present_eq_some (Option.some.inj hp)] at hget
    exact ⟨v, hget, hop⟩
  · rintro ⟨v, hget, hop⟩
    grind [present]

theorem zero_mem_idList (fs : List (Bool × Attr)) : 0 ∈ idList data ops (keyList data k₀ fs) ↔
    hasOp data ops k₀ := by
  rw [mem_idList, ← exists_present]
  rfl

theorem succ_mem_idList (k₀ : Attr) {j : Nat} {f : Bool × Attr} (hf : fs[j]? = some f) :
    j + 1 ∈ idList data ops (keyList data k₀ fs) ↔ hasOp data ops f.2 := by
  rw [mem_idList, ← exists_present, keyList, List.getElem?_cons_succ, List.getElem?_map, hf, map_some]

theorem mem_optIdx {j : Nat} {f : Bool × Attr} (hf : fs[j]? = some f) (i : Nat) : i + j ∈ optIdx i fs ↔ f.1 = true := by
  rw [optIdx, List.mem_map]
  constructor
  · grind
  · intro hopt
    refine ⟨(f, i + j), List.mem_filter.mpr ⟨?_, hopt⟩, rfl⟩
    simp_all [List.mk_mem_zipIdx_iff_le_and_getElem?_sub]

theorem zero_not_mem_optIdx : 0 ∉ optIdx 1 fs := by grind [optIdx]

theorem tokens_optional {row : Row} {taken : Nat → Bool} : ∀ {fs : List (Bool × Attr)} {i : Nat},
    (∀ (j : Nat) f, fs[j]? = some f → (taken (i + j) = true ↔ (row.get? f.2.1).isSome = true)) →
    (∀ (j : Nat) f, fs[j]? = some f → (i + j ∈ opt ↔ f.1 = true)) →
    (∀ f ∈ fs, ∀ v, row.get? f.2.1 = some v → ∃ w, data.get? f.2.1 = some w ∧ w.data = v) →
    tokens data opt taken i (fs.map fun f => present data f.2) ++
      List.replicate (fs.length - (tokens data opt taken i (fs.map fun f => present data f.2)).length) [] =
        optTuple row fs
  | [], i, _, _, _ => rfl
  | f :: fs, i, htaken, hopt, hval => by
    have hrest := tokens_optional (i := i + 1) (fun j g hg => by
        rw [Nat.add_right_comm]
        exact htaken (j + 1) g hg) (fun j g hg => by
        rw [Nat.add_right_comm]
        exact hopt (j + 1) g hg) (fun g hg => hval g (mem_cons_of_mem f hg))
    have hhead := htaken 0 f rfl
    have hhead' := hopt 0 f rfl
    rw [Nat.add_zero] at hhead hhead'
    rw [map_cons, tokens, optTuple]
    cases hrow : row.get? f.2.1 with
    | some v =>
      rw [hrow] at hhead
      obtain ⟨w, hget, rfl⟩ := hval f mem_cons_self v hrow
      have htoken : ((present data f.2).bind fun k => data.get? k).elim [] CachedDataWithOp.data = w.data := by
        grind [present]
      grind
    | none =>
      rw [hrow] at hhead
      rw [if_neg (fun h => absurd (hhead.mp h) Bool.false_ne_true)]
      cases hf : f.1 with
      | true => grind
      | false => grind

theorem tokens_keyList {row : Row} {taken : Nat → Bool} (h₀ : row.get? k₀.1 = some v₀)
    (hzero : taken 0 = true)
    (htaken : ∀ (j : Nat) f, fs[j]? = some f → (taken (j + 1) = true ↔ (row.get? f.2.1).isSome = true))
    (hval : ∀ (k : Attr) v, row.get? k.1 = some v → ∃ w, data.get? k.1 = some w ∧ w.data = v) :
    tokens data (optIdx 1 fs) taken 0 (keyList data k₀ fs) ≠ [] ∧
      tokens data (optIdx 1 fs) taken 0 (keyList data k₀ fs) ++ List.replicate ((keyList data k₀ fs).length -
        (tokens data (optIdx 1 fs) taken 0 (keyList data k₀ fs)).length) [] = v₀ :: optTuple row fs := by
  obtain ⟨w, hget, rfl⟩ := hval k₀ v₀ h₀
  have htoken : ((present data k₀).bind fun k => data.get? k).elim [] CachedDataWithOp.data = w.data := by
    grind [present]
  rw [keyList, tokens, if_pos hzero, htoken]
  refine ⟨cons_ne_nil _ _, ?_⟩
  rw [cons_append, length_cons, length_cons, Nat.add_sub_add_right, length_map, Nat.zero_add]
  congr 1
  exact tokens_optional (fun j f hf => by grind) (fun j f hf => mem_optIdx hf 1)
    fun f _ => hval f.2

/-! ## The commands of an event -/

variable {upperVals : List Str} {cached row : Row}

theorem hasOp_none :
    hasOp (addOp cached row) [.none] k ↔ ∃ v, row.get? k.1 = some v ∧ cached.get? k.1 = some v := by
  unfold hasOp
  rw [get?_addOp]
  cases row.get? k.1 with
  | none => simp_all
  | some v =>
    cases cached.get? k.1 with
    | none => simp [opOf]
    | some c =>
      by_cases h : v = c <;> simp_all [opOf, Ne.symm]

theorem hasOp_change :
    hasOp (addOp cached row) [.add, .update] k ↔ ∃ v, row.get? k.1 = some v ∧ cached.get? k.1 ≠ some v := by
  unfold hasOp
  rw [get?_addOp]
  cases row.get? k.1 with
  | none => simp_all
  | some v =>
    cases cached.get? k.1 with
    | none => simp [opOf]
    | some c =>
      by_cases h : v = c <;> simp_all [opOf, Ne.symm]

theorem hasOp_delete :
    hasOp (addOp cached row) [.delete] k ↔ row.get? k.1 = none ∧ (cached.get? k.1).isSome = true := by
  unfold hasOp
  rw [get?_addOp]
  cases row.get? k.1 with
  | none => cases cached.get? k.1 <;> simp
  | some v => cases cached.get? k.1 <;> grind [opOf]

theorem hasOp_given (cached row : Row) :
    hasOp (addOp cached row) [.add, .update] k ∨ hasOp (addOp cached row) [.none] k ↔
    (row.get? k.1).isSome = true := by
  rw [hasOp_change, hasOp_none]
  cases row.get? k.1 <;> grind

theorem data_addOp (cached : Row) (k : Attr) (v : Str) (h : row.get? k.1 = some v) :
    ∃ w, (addOp cached row).get? k.1 = some w ∧ w.data = v := by
  rw [get?_addOp, h]
  cases cached.get? k.1 <;> exact ⟨_, rfl, rfl⟩

theorem minIdChged_same (h : 0 ∈ noChg) : minIdChged opt chg noChg = false := by
  have hmin : noChg.min? = some 0 := List.min?_eq_some_iff.mpr ⟨h, fun b _ => Nat.zero_le b⟩
  have hempty : noChg.isEmpty = false := List.isEmpty_eq_false_iff_exists_mem.mpr ⟨0, h⟩
  unfold minIdChged
  cases chg.min? <;> simp_all

theorem minIdChged_first (h : 0 ∈ chg) (hopt : 0 ∉ opt) (hno : 0 ∉ noChg) :
    minIdChged opt chg noChg = true := by
  have hmin : chg.min? = some 0 := List.min?_eq_some_iff.mpr ⟨h, fun b _ => Nat.zero_le b⟩
  grind [minIdChged, List.min?_mem]

theorem getCmdData_tuple {isDel : Bool} {op : Op} {keys : List (List (Option Str))}
    (hop : cmdOp (optIdx 1 fs) chg noChg isDel = op) (h₀ : row.get? k₀.1 = some v₀) (hreq : 0 ∈ chg ∨ 0 ∈ noChg)
    (hzero : taken op chg noChg isDel 0 = true)
    (htaken : ∀ (j : Nat) f, fs[j]? = some f →
      (taken op chg noChg isDel (j + 1) = true ↔ (row.get? f.2.1).isSome = true)) :
    getCmdData (keyList (addOp cached row) k₀ fs) ⟨[0], optIdx 1 fs, keys⟩ (addOp cached row) chg noChg isDel =
      some (v₀ :: optTuple row fs, op) := by
  obtain ⟨hnil, htuple⟩ := tokens_keyList h₀ hzero htaken (data_addOp cached)
  grind [getCmdData]

variable {s : Scan} {chg : List Nat} {isDel : Bool}

theorem changeCommand_of_some {vals : List Str} {op : Op} {keys : List (Option Str)} (hne : chg ≠ [])
    (h : getCmdData keys s data chg (idList data [.none] keys) isDel = some (vals, op)) :
    changeCommand upperVals (keyMap k₀ fs) s data keys chg isDel = [⟨op ≠ .delete, upperVals ++ vals⟩] := by
  rw [changeCommand, if_neg hne, h]
  rfl

abbrev ids (cached row : Row) (k₀ : Attr) (fs : List (Bool × Attr)) (ops : List Op) : List Nat :=
  idList (addOp cached row) ops (keyList (addOp cached row) k₀ fs)

abbrev scanned (cached row : Row) (k₀ : Attr) (fs : List (Bool × Attr)) : Scan :=
  ⟨[0], optIdx 1 fs, [keyList (addOp cached row) k₀ fs]⟩

theorem updCommand_eq (h₀ : row.get? k₀.1 = some v₀) (hne : ids cached row k₀ fs [.add, .update] ≠ []) :
    changeCommand upperVals (keyMap k₀ fs) (scanned cached row k₀ fs) (addOp cached row)
      (keyList (addOp cached row) k₀ fs)
      (ids cached row k₀ fs [.add, .update]) false = [⟨true, upperVals ++ v₀ :: optTuple row fs⟩] := by
  have hreq : 0 ∈ ids cached row k₀ fs [.add, .update] ∨ 0 ∈ ids cached row k₀ fs [.none] := by
    simp_all [zero_mem_idList, hasOp_given]
  refine changeCommand_of_some hne (getCmdData_tuple rfl h₀ hreq ?_ fun j f hf => ?_) <;> simp_all [taken, hasOp_given,
    succ_mem_idList]

theorem delCommand_eq (h₀ : row.get? k₀.1 = some v₀) (hsame : 0 ∈ ids cached row k₀ fs [.none])
    (hupd : ids cached row k₀ fs [.add, .update] = []) (hne : ids cached row k₀ fs [.delete] ≠ []) :
    changeCommand upperVals (keyMap k₀ fs) (scanned cached row k₀ fs) (addOp cached row)
      (keyList (addOp cached row) k₀ fs)
      (ids cached row k₀ fs [.delete]) true = [⟨true, upperVals ++ v₀ :: optTuple row fs⟩] := by
  have hop : cmdOp (optIdx 1 fs) (ids cached row k₀ fs [.delete]) (ids cached row k₀ fs [.none]) true = .update := by
    rw [cmdOp, minIdChged_same hsame]
    rfl
  refine changeCommand_of_some hne (getCmdData_tuple hop h₀ (.inr hsame) ?_ fun j f hf => ?_)
  · simp [taken, hsame]
  · have hnot : ¬ hasOp (addOp cached row) [.add, .update] f.2 := by
      rw [← succ_mem_idList k₀ hf]
      simp_all
    rw [← hasOp_given cached row, or_iff_right hnot, ← succ_mem_idList k₀ hf]
    simp [taken]

theorem noCommand_eq (upperVals : List Str) (h : 0 ∈ ids cached row k₀ fs [.delete])
    (hsame : 0 ∉ ids cached row k₀ fs [.none]) :
    ∃ vals, changeCommand upperVals (keyMap k₀ fs) (scanned cached row k₀ fs) (addOp cached row)
      (keyList (addOp cached row) k₀ fs) (ids cached row k₀ fs [.delete]) true = [⟨false, vals⟩] := by
  have hop : cmdOp (optIdx 1 fs) (ids cached row k₀ fs [.delete]) (ids cached row k₀ fs [.none]) true = .delete := by
    rw [cmdOp, minIdChged_first h zero_not_mem_optIdx hsame]
    rfl
  have hzero : taken .delete (ids cached row k₀ fs [.delete]) (ids cached row k₀ fs [.none]) true 0 = true := by
    simp [taken, h]
  have hsome : ∃ vals, getCmdData (keyList (addOp cached row) k₀ fs) (scanned cached row k₀ fs) (addOp cached row)
      (ids cached row k₀ fs [.delete]) (ids cached row k₀ fs [.none]) true = some (vals, .delete) := by
    simp_all [getCmdData, keyList, tokens]
  obtain ⟨vals, hvals⟩ := hsome
  exact ⟨_, changeCommand_of_some (ne_nil_of_mem h) hvals⟩

theorem updCommand_nil (hupd : 0 ∉ ids cached row k₀ fs [.add, .update]) (hsame : 0 ∉ ids cached row k₀ fs [.none]) :
    changeCommand upperVals (keyMap k₀ fs) (scanned cached row k₀ fs) (addOp cached row)
      (keyList (addOp cached row) k₀ fs)
      (ids cached row k₀ fs [.add, .update]) false = [] := by simp_all [changeCommand, getCmdData]

/-! ## Runs -/

theorem runCommand_eq (render : Command → Str) (h : ((addOp cached row).get? k₀.1).isSome = true) :
    runCommand upperVals (keyMap k₀ fs) render (addOp cached row) =
      (keyListCommands upperVals (keyMap k₀ fs) (scanned cached row k₀ fs) (addOp cached row)
        (keyList (addOp cached row) k₀ fs),
      markSucc (fun k => some k ∈ keyList (addOp cached row) k₀ fs) (addOp cached row)) := by
  rw [runCommand, scan_keyMap h]
  simp only [map_singleton, any_cons, any_nil, Bool.or_false, Prod.mk.injEq, and_true, filter_singleton]
  by_cases hnil : keyListCommands upperVals (keyMap k₀ fs) (scanned cached row k₀ fs) (addOp cached row)
      (keyList (addOp cached row) k₀ fs) = []
  · simp [hnil]
  · simp [hnil, isCmdListCovered]

theorem optTuple_congr {row' : Row} : ∀ {fs : List (Bool × Attr)}, (∀ f ∈ fs, row.get? f.2.1 = row'.get? f.2.1) →
    optTuple row fs = optTuple row' fs
  | [], _ => rfl
  | f :: fs, h => by
    rw [optTuple, optTuple, h f mem_cons_self, optTuple_congr fun g hg => h g (mem_cons_of_mem f hg)]

structure Inv (upperVals : List Str) (k₀ : Attr) (fs : List (Bool × Attr)) (s : St) (row : Row) : Prop where
  nodup : s.cached.keys.Nodup
  frr : s.frr = expected upperVals k₀ fs row
  first : s.cached.get? k₀.1 = row.get? k₀.1
  others : (row.get? k₀.1).isSome = true → ∀ f ∈ fs, s.cached.get? f.2.1 = row.get? f.2.1

theorem inv_init : Inv upperVals k₀ fs init [] := ⟨nodup_nil, rfl, rfl, nofun⟩

theorem foldl_commands {frr : Option (List Str)} (h : ((addOp cached row).get? k₀.1).isSome = true)
    (hframe : ids cached row k₀ fs [.add, .update] = [] → ids cached row k₀ fs [.delete] = [] →
      frr = expected upperVals k₀ fs row) :
    (keyListCommands upperVals (keyMap k₀ fs) (scanned cached row k₀ fs) (addOp cached row)
      (keyList (addOp cached row) k₀ fs)).foldl exec frr = expected upperVals k₀ fs row := by
  unfold keyListCommands
  cases h₀ : row.get? k₀.1 with
  | none =>
    have hdel : 0 ∈ ids cached row k₀ fs [.delete] := by simp_all [zero_mem_idList, hasOp_delete, get?_addOp]
    have hupd : 0 ∉ ids cached row k₀ fs [.add, .update] := by grind [zero_mem_idList, hasOp_change]
    have hsame : 0 ∉ ids cached row k₀ fs [.none] := by grind [zero_mem_idList, hasOp_none]
    obtain ⟨vals, hno⟩ := noCommand_eq upperVals hdel hsame
    rw [hno, updCommand_nil hupd hsame, expected, h₀]
    rfl
  | some v₀ =>
    have hexp : expected upperVals k₀ fs row = some (upperVals ++ v₀ :: optTuple row fs) := by
      rw [expected, h₀, map_some]
    by_cases hupd : ids cached row k₀ fs [.add, .update] = []
    · have hsame : 0 ∈ ids cached row k₀ fs [.none] := by
        have hgiven := (hasOp_given cached row (k := k₀)).mpr (by simp_all)
        rw [← zero_mem_idList fs, ← zero_mem_idList fs] at hgiven
        simp_all
      have hnil : changeCommand upperVals (keyMap k₀ fs) (scanned cached row k₀ fs) (addOp cached row)
          (keyList (addOp cached row) k₀ fs) (ids cached row k₀ fs [.add, .update]) false = [] := by
        rw [changeCommand, if_pos hupd]
      rw [hnil, append_nil]
      by_cases hdel : ids cached row k₀ fs [.delete] = []
      · simp_all [changeCommand]
      · rw [delCommand_eq h₀ hsame hupd hdel, hexp]
        rfl
    · -- the update comes last
      rw [updCommand_eq h₀ hupd, foldl_append, hexp]
      rfl

theorem some_mem_keyList (hk : k = k₀ ∨ ∃ f ∈ fs, k = f.2) (h : (data.get? k.1).isSome = true) :
    some k.1 ∈ keyList data k₀ fs := by
  have hp : present data k = some k.1 := by rw [present, if_pos h]
  obtain rfl | ⟨f, hf, rfl⟩ := hk
  · exact hp ▸ mem_cons_self
  · exact mem_cons_of_mem _ (List.mem_map.mpr ⟨f, hf, hp⟩)

theorem get?_cached (hc : cached.keys.Nodup) (hr : row.keys.Nodup) (hk : k = k₀ ∨ ∃ f ∈ fs, k = f.2) :
    (updateRow cached (markSucc (fun k => some k ∈ keyList (addOp cached row) k₀ fs) (addOp cached row))).get? k.1 =
      row.get? k.1 := by
  cases h : ((addOp cached row).get? k.1).isSome with
  | true => exact get?_updateRow_markSucc hc hr _ (decide_eq_true (some_mem_keyList hk h))
  | false =>
    rw [isSome_eq_false_iff, isNone_iff_eq_none] at h
    have hkeys : k.1 ∉ (markSucc (fun k => some k ∈ keyList (addOp cached row) k₀ fs) (addOp cached row)).keys := by
      rw [← Dict.get?_eq_none_iff, markSucc,
        Dict.get?_map (fun k (v : CachedDataWithOp) => if decide
          (some k ∈ keyList (addOp cached row) k₀ fs) then v.done else v),
        h, map_none]
    grind [get?_updateRow_of_not_mem, get?_addOp, map_eq_none_iff]

theorem get?_of_unchanged (hupd : ¬ hasOp (addOp cached row) [.add, .update] k)
    (hdel : ¬ hasOp (addOp cached row) [.delete] k) : row.get? k.1 = cached.get? k.1 := by
  rw [hasOp_change] at hupd
  rw [hasOp_delete] at hdel
  cases hrow : row.get? k.1 <;> simp_all

theorem not_hasOp_of_ids (h : ids cached row k₀ fs ops = [])
    (hk : k = k₀ ∨ ∃ f ∈ fs, k = f.2) : ¬ hasOp (addOp cached row) ops k := by
  obtain rfl | ⟨f, hf, rfl⟩ := hk
  · rw [← zero_mem_idList fs]
    simp_all
  · obtain ⟨j, hj⟩ := mem_iff_getElem?.mp hf
    rw [← succ_mem_idList k₀ hj]
    simp_all

theorem Inv.step {s : St} (h : Inv upperVals k₀ fs s row) (render : Command → Str) (e : Option RowData) :
    Inv upperVals k₀ fs (bgpTableHandlerCommon upperVals (keyMap k₀ fs) render s e) (rowOf e) := by
  have hr : (rowOf e).keys.Nodup := by
    cases e with
    | none => exact nodup_nil
    | some r => exact r.2
  unfold bgpTableHandlerCommon
  rw [show addOpToData s.cached (rowOf e) [] = addOp s.cached (rowOf e) from rfl]
  cases hdata : ((addOp s.cached (rowOf e)).get? k₀.1).isSome with
  | false =>
    -- the required attribute is neither in the row nor in the cache: nothing is run and nothing is written back
    rw [isSome_eq_false_iff, isNone_iff_eq_none] at hdata
    rw [runCommand, scan_keyMap_none hdata]
    simp only [foldl_nil, updateRow_of_fail (addOp_fail s.cached (rowOf e))]
    rw [get?_addOp] at hdata
    cases hrow : (rowOf e).get? k₀.1 with
    | some v => simp_all
    | none =>
      rw [hrow, map_eq_none_iff] at hdata
      refine ⟨h.nodup, ?_, hdata.trans hrow.symm, by rw [hrow]; nofun⟩
      grind [h.frr, expected, h.first]
  | true =>
    rw [runCommand_eq render hdata]
    refine ⟨nodup_updateRow h.nodup, foldl_commands hdata fun hupd hdel => ?_, get?_cached h.nodup hr (.inl rfl),
      fun _ f hf => get?_cached h.nodup hr (.inr ⟨f, hf, rfl⟩)⟩
    have hsame : ∀ k : Attr, (k = k₀ ∨ ∃ f ∈ fs, k = f.2) → (rowOf e).get? k.1 = s.cached.get? k.1 :=
      fun k hk => get?_of_unchanged (not_hasOp_of_ids hupd hk) (not_hasOp_of_ids hdel hk)
    have hfirst : (rowOf e).get? k₀.1 = row.get? k₀.1 := (hsame k₀ (.inl rfl)).trans h.first
    rw [h.frr, expected, expected, hfirst]
    cases hrow : row.get? k₀.1 with
    | none => rfl
    | some v₀ =>
      rw [optTuple_congr fun f hf => ((hsame f.2 (.inr ⟨f, hf, rfl⟩)).trans
        (h.others (by grind) f hf)).symm]

/-- After any events, FRR holds the tuple of the last row, and nothing if the required attribute is not in it. -/
theorem frr_holds_tuple (upperVals : List Str) (k₀ : Attr) (fs : List (Bool × Attr)) (render : Command → Str)
    (es : List (Option RowData)) (e : Option RowData) :
    ((es ++ [e]).foldl (bgpTableHandlerCommon upperVals (keyMap k₀ fs) render) init).frr =
      expected upperVals k₀ fs (rowOf e) := by
  have hrun : ∀ es : List (Option RowData), ∃ row,
      Inv upperVals k₀ fs (es.foldl (bgpTableHandlerCommon upperVals (keyMap k₀ fs) render) init) row := by
    intro es
    induction es using List.reverseRecOn with
    | nil => exact ⟨[], inv_init⟩
    | append_singleton es e ih =>
      obtain ⟨row, hrow⟩ := ih
      rw [List.foldl_concat]
      exact ⟨_, hrow.step render e⟩
  obtain ⟨row, hrow⟩ := hrun es
  rw [List.foldl_concat]
  exact (hrow.step render e).frr

end

end Sonic.FrrKeyMap
