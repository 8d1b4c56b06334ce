import Mathlib
import Sonic.IccpStream
import Sonic.Mlacp

/-! # MAC, ARP and ND entries on the wire

The entries that wait for the peer are put into the global buffer one by one, with the header
written again for each, and sent when there are enough of them. The receiver checks the lengths and
reads the entries back. -/

namespace Sonic.IccpSync

open IccpStream (Buf csmBufferSize)
open Mlacp (batches maxMacEntryNum maxNeighEntryNum)

def htons (n : Nat) : List UInt8 := [UInt8.ofNat (n / 256), UInt8.ofNat n]

def htonl (n : Nat) : List UInt8 := htons (n / 65536) ++ htons n

def ntohsAt (l : List UInt8) (off : Nat) : Nat := (l.getD off 0).toNat * 256 + (l.getD (off + 1) 0).toNat

def fieldAt (l : List UInt8) (off n : Nat) : Vector UInt8 n := Vector.ofFn fun i => l.getD (off + i) 0

def nameAt (l : List UInt8) (off : Nat) : List UInt8 := (l.drop off).takeWhile (· ≠ 0)

/-! ## Entries -/

structure MacMsg where
  opType : UInt8
  fdbType : UInt8
  macAddr : Vector UInt8 6
  vid : UInt16
  originIfname : List UInt8
  deriving DecidableEq

structure NeighMsg (n : Nat) where
  opType : UInt8
  flag : UInt8
  ifname : List UInt8
  addr : Vector UInt8 n
  macAddr : Vector UInt8 6
  deriving DecidableEq

abbrev ArpMsg := NeighMsg 4
abbrev NdiscMsg := NeighMsg 16

def maxLPortName : Nat := 20

/-- A string that fits into a `char` array of `MAX_L_PORT_NAME`. -/
def IsName (name : List UInt8) : Prop := name.length < maxLPortName ∧ (0 : UInt8) ∉ name

instance (name : List UInt8) : Decidable (IsName name) := inferInstanceAs (Decidable (_ ∧ _))

structure Layout (α : Type) where
  tlv : Nat
  size : Nat
  maxEntries : Nat
  checksLen : Bool
  writes : α → List (Nat × List UInt8)
  parse : List UInt8 → α

def tlvMlacpArpInfo : Nat := 0x1036
def tlvMlacpMacInfo : Nat := 0x1038
def tlvMlacpNdiscInfo : Nat := 0x103A

def macLayout : Layout MacMsg where
  tlv := tlvMlacpMacInfo
  size := 30
  maxEntries := maxMacEntryNum
  checksLen := false
  writes m :=
    [(0, [m.opType]), (1, [m.fdbType]), (2, m.macAddr.toList), (10, m.originIfname ++ [0]), (8, htons m.vid.toNat)]
  parse l := ⟨l.getD 0 0, l.getD 1 0, fieldAt l 2 6, UInt16.ofNat (ntohsAt l 8), nameAt l 10⟩

def neighLayout (n tlv : Nat) : Layout (NeighMsg n) where
  tlv := tlv
  size := n + 32
  maxEntries := maxNeighEntryNum
  checksLen := true
  writes m :=
    [(0, [m.opType]), (1, [m.flag]), (3, m.ifname ++ [0]), (24, m.addr.toList), (24 + n, m.macAddr.toList)]
  parse l := ⟨l.getD 0 0, l.getD 1 0, nameAt l 3, fieldAt l 24 n, fieldAt l (24 + n) 6⟩

def arpLayout : Layout ArpMsg := neighLayout 4 tlvMlacpArpInfo
def ndiscLayout : Layout NdiscMsg := neighLayout 16 tlvMlacpNdiscInfo

/-! ## The sender -/

def sizeofIccHdr : Nat := 16
def sizeofIccParameter : Nat := 4
def sizeofInfoTlv : Nat := 6
def sizeofNumOfEntry : Nat := 2
def msgTRgAppData : Nat := 0x0703
def tlvIccRgId : Nat := 0x0005
def tlvLIccRgId : Nat := 4

structure Sender where
  iccRgId : Nat
  iccpMsgId : Nat
  buf : Buf
  out : List (List UInt8)

namespace Sender

def iccHdr (s : Sender) (msgLen : Nat) : List UInt8 :=
  htons msgTRgAppData ++ htons (msgLen - IccpStream.msgLIncludUBitMsgTLFields) ++ htonl s.iccpMsgId ++
    htons tlvIccRgId ++ htons tlvLIccRgId ++ htonl s.iccRgId

def mlacpFillIccHeader (s : Sender) (msgLen : Nat) : Sender :=
  { s with buf := s.buf.store 0 (s.iccHdr msgLen), iccpMsgId := s.iccpMsgId + 1 }

def prepare {α : Type} (L : Layout α) (s : Sender) (e : α) (count : Nat) : Sender × Option Nat :=
  let tlvLen := sizeofInfoTlv + L.size * (count + 1)
  let msgLen := sizeofIccHdr + tlvLen
  if csmBufferSize < msgLen then (s, none)
  else
    let s := s.mlacpFillIccHeader msgLen
    let buf := (s.buf.store 18 (htons (tlvLen - sizeofIccParameter))).store 20 (htons (count + 1))
    -- u_bit and f_bit are above the type and zero
    let buf := if count = 0 then buf.store 16 (htons L.tlv) else buf
    let base := sizeofIccHdr + sizeofInfoTlv + L.size * count
    ({ s with buf := (L.writes e).foldl (fun buf w => buf.store (base + w.1) w.2) buf }, some msgLen)

def iccpCsmSend (s : Sender) : Option Nat → Sender
  | some msgLen => { s with out := s.out ++ [s.buf.read msgLen] }
  | none => s

def memset (s : Sender) : Sender := { s with buf := s.buf.memset }

def sendAll {α : Type} (L : Layout α) : Sender → Nat → Option Nat → List α → Sender
  | s, count, msgLen, [] => if count = 0 then s else s.iccpCsmSend msgLen
  | s, count, _, e :: es =>
    let (s, msgLen) := s.prepare L e count
    if L.maxEntries ≤ count + 1 then sendAll L (s.iccpCsmSend msgLen).memset 0 msgLen es
    else sendAll L s (count + 1) msgLen es

def mlacpSyncSend {α : Type} (L : Layout α) (s : Sender) (queue : List α) : Sender :=
  sendAll L s.memset 0 (some 0) queue

def mlacpSyncSendSyncMacInfo (s : Sender) (queue : List MacMsg) : Sender := s.mlacpSyncSend macLayout queue
def mlacpSyncSendSyncArpInfo (s : Sender) (queue : List ArpMsg) : Sender := s.mlacpSyncSend arpLayout queue
def mlacpSyncSendSyncNdiscInfo (s : Sender) (queue : List NdiscMsg) : Sender := s.mlacpSyncSend ndiscLayout queue

end Sender

/-! ## The receiver -/

def recv {α : Type} (L : Layout α) (msg : List UInt8) : Option (List α) :=
  if msg.length < sizeofIccHdr + sizeofInfoTlv then none
  else
    let count := ntohsAt msg 20
    if msg.length < sizeofIccHdr + sizeofInfoTlv + count * L.size then none
    else if L.checksLen = true ∧ ntohsAt msg 18 < sizeofNumOfEntry + count * L.size then none
    else some ((List.range count).map fun i => L.parse (msg.drop (sizeofIccHdr + sizeofInfoTlv + L.size * i)))

def mlacpSyncRecvMacInfo (msg : List UInt8) : Option (List MacMsg) := recv macLayout msg
def mlacpSyncRecvArpInfo (msg : List UInt8) : Option (List ArpMsg) := recv arpLayout msg
def mlacpSyncRecvNdiscInfo (msg : List UInt8) : Option (List NdiscMsg) := recv ndiscLayout msg

inductive Received where
  | mac (entries : List MacMsg)
  | arp (entries : List ArpMsg)
  | ndisc (entries : List NdiscMsg)
  deriving DecidableEq

def mlacpSyncReceiverHandler (msg : List UInt8) : Option Received :=
  if ntohsAt msg 0 % 2 ^ 15 ≠ msgTRgAppData then none
  else
    let type := ntohsAt msg sizeofIccHdr % 2 ^ 14
    if type = tlvMlacpMacInfo then (mlacpSyncRecvMacInfo msg).map .mac
    else if type = tlvMlacpArpInfo then (mlacpSyncRecvArpInfo msg).map .arp
    else if type = tlvMlacpNdiscInfo then (mlacpSyncRecvNdiscInfo msg).map .ndisc
    else none

theorem length_htons (n : Nat) : (htons n).length = 2 := rfl

theorem getD_append_length (xs l : List UInt8) (i : Nat) : (xs ++ l).getD (xs.length + i) 0 = l.getD i 0 := by grind

section
variable (off : Nat) (xs rest : List UInt8) (hoff : xs.length = off)
include hoff

theorem ntohsAt_append {n : Nat} (hn : n < 65536) : ntohsAt (xs ++ (htons n ++ rest)) off = n := by
  subst hoff
  have h0 := getD_append_length xs (htons n ++ rest) 0
  have h1 := getD_append_length xs (htons n ++ rest) 1
  rw [Nat.add_zero] at h0
  rw [ntohsAt, h0, h1]
  show (UInt8.ofNat (n / 256)).toNat * 256 + (UInt8.ofNat n).toNat = n
  grind [UInt8.toNat_ofNat']

theorem fieldAt_append {n : Nat} (v : Vector UInt8 n) : fieldAt (xs ++ (v.toList ++ rest)) off n = v := by
  subst hoff
  apply Vector.ext
  grind [fieldAt]

theorem nameAt_append {name : List UInt8} (hname : (0 : UInt8) ∉ name) :
    nameAt (xs ++ (name ++ 0 :: rest)) off = name := by
  subst hoff
  rw [nameAt, List.drop_left, List.takeWhile_append_of_pos]
  · simp
  · grind

end

def Filled (buf : Buf) (bs : List UInt8) : Prop := ∀ a, a < csmBufferSize → buf.mem a = bs.getD a 0

theorem filled_memset (buf : Buf) : Filled buf.memset [] := by
  intro a ha
  exact if_pos ha

theorem Filled.zeros {buf : Buf} {bs : List UInt8} (h : Filled buf bs) (n : Nat) :
    Filled buf (bs ++ List.replicate n 0) := by
  intro a ha
  rw [h a ha]
  grind

theorem Filled.store {buf : Buf} {xs ys zs : List UInt8} (h : Filled buf (xs ++ (ys ++ zs))) {w : List UInt8}
    (hw : w.length = ys.length) : Filled (buf.store xs.length w) (xs ++ (w ++ zs)) := by
  intro a ha
  have hold := h a ha
  show (if xs.length ≤ a then (w[a - xs.length]?).getD (buf.mem a) else buf.mem a) = _
  rcases Nat.lt_or_ge a xs.length with hlt | hge <;> grind

theorem Filled.cut {buf : Buf} {bs : List UInt8} (h : Filled buf bs) (ls : List Nat) :
    Filled buf (bs :: ls.map (List.replicate · 0)).flatten := by
  have hflat : (ls.map (List.replicate · (0 : UInt8))).flatten = List.replicate ls.sum 0 := by
    induction ls <;> grind [List.replicate_add]
  simp_all [zeros]

theorem Filled.set {buf : Buf} {segs : List (List UInt8)} (h : Filled buf segs.flatten) (i pos : Nat) (w : List UInt8)
    {ys : List UInt8} (hi : segs[i]? = some ys) (hpos : (segs.take i).flatten.length = pos)
    (hw : w.length = ys.length) :
    Filled (buf.store pos w) (segs.set i w).flatten := by
  obtain ⟨hlt, rfl⟩ := List.getElem?_eq_some_iff.mp hi <;> grind [List.drop_eq_getElem_cons, List.take_append_drop,
    List.set_eq_take_append_cons_drop, store]

theorem Filled.read {buf : Buf} {bs : List UInt8} (h : Filled buf bs) {n : Nat} (hn : bs.length = n)
    (hle : n ≤ csmBufferSize) : buf.read n = bs := by
  subst hn
  apply List.ext_getElem
  · simp [Buf.read]
  · intro i h1 h2
    have hmem := h i (by omega)
    simp_all [Buf.read]

/-! ## The bytes of an entry -/

structure Lawful {α : Type} (L : Layout α) (Wf : α → Prop) where
  bytes : α → List UInt8
  length : ∀ {e}, Wf e → (bytes e).length = L.size
  filled : ∀ {e}, Wf e → ∀ {buf : Buf} {pre : List UInt8}, Filled buf pre →
    Filled ((L.writes e).foldl (fun buf w => buf.store (pre.length + w.1) w.2) buf) (pre ++ bytes e)
  parse : ∀ {e}, Wf e → ∀ rest, L.parse (bytes e ++ rest) = e

def MacMsg.Wf (m : MacMsg) : Prop := IsName m.originIfname
def NeighMsg.Wf {n : Nat} (m : NeighMsg n) : Prop := IsName m.ifname

instance (m : MacMsg) : Decidable m.Wf := inferInstanceAs (Decidable (IsName _))
instance {n : Nat} (m : NeighMsg n) : Decidable m.Wf := inferInstanceAs (Decidable (IsName _))

def padding (name : List UInt8) : List UInt8 := List.replicate (maxLPortName - 1 - name.length) 0

theorem IsName.length_padding {name : List UInt8} (h : IsName name) :
    name.length + 1 + (padding name).length = maxLPortName := by
  have := h.1
  rw [padding, List.length_replicate]
  omega

def MacMsg.bytes (m : MacMsg) : List UInt8 :=
  [[m.opType], [m.fdbType], m.macAddr.toList, htons m.vid.toNat, m.originIfname ++ [0], padding m.originIfname].flatten

theorem MacMsg.filled (m : MacMsg) {buf : Buf} {pre : List UInt8} (h : Filled buf pre) :
    Filled ((macLayout.writes m).foldl (fun buf w => buf.store (pre.length + w.1) w.2) buf) (pre ++ m.bytes) := by
  have h0 := h.cut [1, 1, 6, 2, m.originIfname.length + 1, maxLPortName - 1 - m.originIfname.length]
  have h1 := h0.set 1 (pre.length + 0) [m.opType] rfl (by simp) rfl
  have h2 := h1.set 2 (pre.length + 1) [m.fdbType] rfl (by simp) rfl
  have h3 := h2.set 3 (pre.length + 2) m.macAddr.toList rfl (by simp) (by simp)
  -- the VLAN is written after the name that follows it
  have h5 := h3.set 5 (pre.length + 10) (m.originIfname ++ [0]) rfl (by simp) (by simp)
  exact h5.set 4 (pre.length + 8) (htons m.vid.toNat) rfl (by simp) rfl

theorem MacMsg.length_bytes {m : MacMsg} (hm : m.Wf) : m.bytes.length = macLayout.size := by
  have hname := IsName.length_padding hm
  simp only [MacMsg.bytes, List.flatten_cons, List.flatten_nil, List.length_append, List.length_cons, List.length_nil,
    Vector.length_toList, length_htons]
  show _ = 10 + maxLPortName
  omega

theorem MacMsg.parse_bytes {m : MacMsg} (hm : m.Wf) (rest : List UInt8) : macLayout.parse (m.bytes ++ rest) = m := by
  obtain ⟨op, fdb, mac, vid, name⟩ := m
  have hmac := fieldAt_append 2 [op, fdb] (htons vid.toNat ++ (name ++ 0 :: (padding name ++ rest))) rfl mac
  have hvid := ntohsAt_append 8 ([op, fdb] ++ mac.toList) (name ++ 0 :: (padding name ++ rest)) (by simp) vid.toNat_lt
  have hname := nameAt_append 10 ([op, fdb] ++ mac.toList ++ htons vid.toNat) (padding name ++ rest)
    (by simp [length_htons]) hm.2
  simp_all [macLayout, MacMsg.bytes]

def NeighMsg.bytes {n : Nat} (m : NeighMsg n) : List UInt8 :=
  [[m.opType], [m.flag], [0], m.ifname ++ [0], padding m.ifname ++ [0], m.addr.toList, m.macAddr.toList, [0, 0]].flatten

theorem NeighMsg.filled {n : Nat} (tlv : Nat) {m : NeighMsg n} (hm : m.Wf) {buf : Buf} {pre : List UInt8}
    (h : Filled buf pre) :
    Filled (((neighLayout n tlv).writes m).foldl (fun buf w => buf.store (pre.length + w.1) w.2) buf)
      (pre ++ m.bytes) := by
  have hlen := hm.1
  have hz := h.cut [1, 1, 1, m.ifname.length + 1, maxLPortName - 1 - m.ifname.length + 1, n, 6, 2]
  have h1 := hz.set 1 (pre.length + 0) [m.opType] rfl (by simp) rfl
  have h2 := h1.set 2 (pre.length + 1) [m.flag] rfl (by simp) rfl
  have h4 := h2.set 4 (pre.length + 3) (m.ifname ++ [0]) rfl (by simp) (by simp)
  have h6 := h4.set 6 (pre.length + 24) m.addr.toList rfl (by simp [maxLPortName] at hlen ⊢; omega) (by simp)
  have h7 := h6.set 7 (pre.length + (24 + n)) m.macAddr.toList rfl (by simp [maxLPortName] at hlen ⊢; omega) (by simp)
  have hpad : padding m.ifname ++ [0] = List.replicate (maxLPortName - 1 - m.ifname.length + 1) 0 :=
    List.replicate_succ'.symm
  rw [NeighMsg.bytes, hpad]
  exact h7

theorem NeighMsg.length_bytes {n : Nat} (tlv : Nat) {m : NeighMsg n} (hm : m.Wf) :
    m.bytes.length = (neighLayout n tlv).size := by
  have hname := IsName.length_padding hm
  simp only [NeighMsg.bytes, List.flatten_cons, List.flatten_nil, List.length_append, List.length_cons, List.length_nil,
    Vector.length_toList]
  show _ = n + (12 + maxLPortName)
  omega

theorem NeighMsg.parse_bytes {n : Nat} (tlv : Nat) {m : NeighMsg n} (hm : m.Wf) (rest : List UInt8) :
    (neighLayout n tlv).parse (m.bytes ++ rest) = m := by
  obtain ⟨op, flag, name, addr, mac⟩ := m
  have hpad : name.length + 1 + (padding name).length = maxLPortName := IsName.length_padding hm
  rw [maxLPortName] at hpad
  have hname := nameAt_append 3 [op, flag, 0] (padding name ++ 0 :: (addr.toList ++ (mac.toList ++ 0 :: 0 :: rest)))
    rfl hm.2
  have haddr := fieldAt_append 24 ([op, flag, 0] ++ (name ++ 0 :: (padding name ++ [0])))
    (mac.toList ++ 0 :: 0 :: rest) (by simp; omega) addr
  have hmac := fieldAt_append (24 + n) ([op, flag, 0] ++ (name ++ 0 :: (padding name ++ 0 :: addr.toList)))
    (0 :: 0 :: rest) (by simp; omega) mac
  simp_all [neighLayout, NeighMsg.bytes]

def macLawful : Lawful macLayout MacMsg.Wf where
  bytes := MacMsg.bytes
  length := MacMsg.length_bytes
  filled _ := MacMsg.filled _
  parse := MacMsg.parse_bytes

def neighLawful (n tlv : Nat) : Lawful (neighLayout n tlv) NeighMsg.Wf where
  bytes := NeighMsg.bytes
  length := NeighMsg.length_bytes tlv
  filled := NeighMsg.filled tlv
  parse := NeighMsg.parse_bytes tlv

section
variable {α : Type*} {max : Nat}

theorem batches_flatten : ∀ acc q : List α, (batches max acc q).flatten = acc ++ q
  | acc, [] => by grind [batches]
  | acc, x :: xs => by
    rw [batches]
    split
    · rw [List.flatten_cons, batches_flatten, List.append_assoc]
      rfl
    · rw [batches_flatten, List.append_assoc]
      rfl

theorem mem_batches (hmax : 0 < max) : ∀ {acc q : List α}, acc.length < max →
    ∀ b ∈ batches max acc q, b ≠ [] ∧ b.length ≤ max
  | acc, [], hacc, b, hb => by grind [batches]
  | acc, x :: xs, hacc, b, hb => by
    have hlen : (acc ++ [x]).length = acc.length + 1 := List.length_append
    rw [batches] at hb
    split at hb
    · rcases List.mem_cons.mp hb with rfl | hb
      · grind
      · exact mem_batches hmax (show ([] : List α).length < max from hmax) b hb
    · exact mem_batches hmax (by omega) b hb

end

/-! ## Messages -/

section
variable {α : Type} {L : Layout α} {Wf : α → Prop} (law : Lawful L Wf)

def frame (hdr : List UInt8) (b : List α) : List UInt8 :=
  [hdr, htons L.tlv, htons (sizeofNumOfEntry + L.size * b.length), htons b.length, b.flatMap law.bytes].flatten

def msgLen (L : Layout α) (count : Nat) : Nat := sizeofIccHdr + sizeofInfoTlv + L.size * count

def IsHdr (hdr : List UInt8) : Prop := hdr.length = sizeofIccHdr ∧ ∃ rest, hdr = htons msgTRgAppData ++ rest

theorem isHdr_iccHdr (s : Sender) (len : Nat) : IsHdr (s.iccHdr len) := by
  refine ⟨rfl, ?_⟩
  simp [Sender.iccHdr]

theorem length_flatMap_bytes : ∀ {b : List α}, (∀ e ∈ b, Wf e) → (b.flatMap law.bytes).length = L.size * b.length
  | [], _ => rfl
  | e :: b, h => by
    rw [List.flatMap_cons, List.length_append, law.length (h e List.mem_cons_self),
      length_flatMap_bytes fun e' he' => h e' (List.mem_cons_of_mem _ he'), List.length_cons,
      Nat.mul_succ, Nat.add_comm]

theorem length_frame {hdr : List UInt8} {b : List α} (hhdr : hdr.length = sizeofIccHdr) (hb : ∀ e ∈ b, Wf e) :
    (frame law hdr b).length = msgLen L b.length := by
  simp only [frame, List.flatten_cons, List.flatten_nil, List.length_append, List.length_nil, length_htons, hhdr,
    length_flatMap_bytes law hb, msgLen]
  show _ = sizeofIccHdr + (2 + (2 + 2)) + _
  omega

theorem parse_entries : ∀ {b : List α}, (∀ e ∈ b, Wf e) →
    ((List.range b.length).map fun i => L.parse ((b.flatMap law.bytes).drop (L.size * i))) = b
  | [], _ => rfl
  | e :: b, h => by
    have he := h e List.mem_cons_self
    rw [List.length_cons, List.range_succ_eq_map, List.map_cons, List.map_map, List.flatMap_cons]
    refine congrArg₂ _ (law.parse he _) ?_
    refine Eq.trans (List.map_congr_left fun i _ => ?_) (parse_entries fun e' he' => h e' (List.mem_cons_of_mem _ he'))
    show L.parse ((law.bytes e ++ b.flatMap law.bytes).drop (L.size * (i + 1))) = _
    grind [Nat.mul_succ, List.drop_drop, law.length, List.drop_left]

theorem frame_eq (hdr : List UInt8) (b : List α) : frame law hdr b =
    hdr ++ (htons L.tlv ++ (htons (sizeofNumOfEntry + L.size * b.length) ++
      (htons b.length ++ b.flatMap law.bytes))) := by
  simp [frame]

section
variable {hdr : List UInt8} {b : List α} (hhdr : IsHdr hdr) (hlen : msgLen L b.length ≤ csmBufferSize)
include hhdr

theorem msgType_frame : ntohsAt (frame law hdr b) 0 = msgTRgAppData := by
  obtain ⟨-, rest, rfl⟩ := hhdr
  rw [frame_eq, List.append_assoc]
  exact ntohsAt_append 0 [] _ rfl (by decide)

theorem tlvType_frame (htlv : L.tlv < 65536) : ntohsAt (frame law hdr b) sizeofIccHdr = L.tlv := by
  rw [frame_eq]
  exact ntohsAt_append _ hdr _ hhdr.1 htlv

include hlen

theorem tlvLen_frame : ntohsAt (frame law hdr b) 18 = sizeofNumOfEntry + L.size * b.length := by
  have hlt : sizeofNumOfEntry + L.size * b.length < 65536 := by
    grind [msgLen, sizeofIccHdr, csmBufferSize, sizeofNumOfEntry]
  rw [frame_eq, ← List.append_assoc]
  refine ntohsAt_append 18 _ _ ?_ hlt
  rw [List.length_append, hhdr.1]
  rfl

theorem numOfEntry_frame (hsize : 0 < L.size) : ntohsAt (frame law hdr b) 20 = b.length := by
  have hlt : b.length < 65536 := by
    have := Nat.le_mul_of_pos_left b.length hsize
    grind [msgLen, sizeofIccHdr, csmBufferSize]
  rw [frame_eq, ← List.append_assoc, ← List.append_assoc]
  refine ntohsAt_append 20 _ _ ?_ hlt
  rw [List.length_append, List.length_append, hhdr.1]
  rfl

theorem recv_frame (hsize : 0 < L.size) (hb : ∀ e ∈ b, Wf e) : recv L (frame law hdr b) = some b := by
  have hlength := length_frame law hhdr.1 hb
  have hentries (i : Nat) : (frame law hdr b).drop (sizeofIccHdr + sizeofInfoTlv + i) =
      (b.flatMap law.bytes).drop i := by
    have hpre : (hdr ++ htons L.tlv ++ htons (sizeofNumOfEntry + L.size * b.length) ++ htons b.length).length =
        sizeofIccHdr + sizeofInfoTlv := by
      simp only [List.length_append, hhdr.1, length_htons]
      rfl
    rw [← List.drop_drop, ← hpre, frame_eq, ← List.append_assoc, ← List.append_assoc, ← List.append_assoc,
      List.drop_left]
  rw [msgLen] at hlength
  rw [recv, if_neg (by rw [hlength]; omega)]
  simp only [numOfEntry_frame law hhdr hlen hsize, tlvLen_frame law hhdr hlen, hlength, Nat.mul_comm b.length L.size,
    Nat.lt_irrefl, and_false, if_false, hentries, parse_entries law hb]

end

def Ready (s : Sender) (acc : List α) (len : Option Nat) : Prop :=
  acc = [] ∧ Filled s.buf [] ∨
    acc ≠ [] ∧ len = some (msgLen L acc.length) ∧ ∃ hdr, IsHdr hdr ∧ Filled s.buf (frame law hdr acc)

theorem Ready.segments {s : Sender} {acc : List α} {len : Option Nat} (h : Ready law s acc len) :
    ∃ hdr type tlvLen num, hdr.length = 16 ∧ type.length = 2 ∧ tlvLen.length = 2 ∧ num.length = 2 ∧
      (acc ≠ [] → type = htons L.tlv) ∧ Filled s.buf [hdr, type, tlvLen, num, acc.flatMap law.bytes].flatten := by
  rcases h with ⟨rfl, h⟩ | ⟨hne, -, hdr, hhdr, h⟩
  · exact ⟨_, _, _, _, List.length_replicate, List.length_replicate, List.length_replicate, List.length_replicate,
      fun h => absurd rfl h, h.cut [16, 2, 2, 2, 0]⟩
  · exact ⟨hdr, _, _, _, hhdr.1, rfl, rfl, rfl, fun _ => rfl, h⟩

theorem Ready.prepare {s : Sender} {acc : List α} {len : Option Nat} (h : Ready law s acc len) {e : α} (he : Wf e)
    (hacc : ∀ e ∈ acc, Wf e) (hle : msgLen L (acc.length + 1) ≤ csmBufferSize) :
    ∃ s', s.prepare L e acc.length = (s', some (msgLen L (acc.length + 1))) ∧ s'.out = s.out ∧
      Ready law s' (acc ++ [e]) (some (msgLen L (acc.length + 1))) := by
  obtain ⟨hdr, type, tlvLen, num, hhdr, htype, htlv, hnum, htype', hfill⟩ := h.segments law
  have hcount : (acc ++ [e]).length = acc.length + 1 := List.length_append
  have hmsg : sizeofIccHdr + (sizeofInfoTlv + L.size * (acc.length + 1)) = msgLen L (acc.length + 1) :=
    (Nat.add_assoc _ _ _).symm
  have htlvLen : sizeofInfoTlv + L.size * (acc.length + 1) - sizeofIccParameter =
      sizeofNumOfEntry + L.size * (acc.length + 1) := by
    show 6 + _ - 4 = 2 + _
    omega
  -- the header and the lengths are written over those for the entries so far
  have h0 := hfill.set 0 0 (s.iccHdr (msgLen L (acc.length + 1))) rfl rfl hhdr.symm
  have h2 := h0.set 2 18 (htons (sizeofNumOfEntry + L.size * (acc.length + 1))) rfl (by simp [htype]; rfl) htlv.symm
  have h3 := h2.set 3 20 (htons (acc.length + 1)) rfl (by simp [htype, length_htons]; rfl) hnum.symm
  rw [Sender.prepare]
  simp only [hmsg, if_neg (Nat.not_lt.mpr hle), Sender.mlacpFillIccHeader, htlvLen]
  refine ⟨_, rfl, rfl,
    .inr ⟨List.concat_ne_nil e acc, by rw [hcount], _, isHdr_iccHdr s (msgLen L (acc.length + 1)), ?_⟩⟩
  generalize hbuf : (if acc.length = 0 then _ else _) = buf
  have hset : Filled buf [s.iccHdr (msgLen L (acc.length + 1)), htons L.tlv,
      htons (sizeofNumOfEntry + L.size * (acc.length + 1)), htons (acc.length + 1), acc.flatMap law.bytes].flatten := by
    subst hbuf
    split
    · exact h3.set 1 16 (htons L.tlv) rfl rfl htype.symm
    simp_all
  have hpre : ([s.iccHdr (msgLen L (acc.length + 1)), htons L.tlv, htons (sizeofNumOfEntry + L.size * (acc.length + 1)),
      htons (acc.length + 1), acc.flatMap law.bytes].flatten).length =
        sizeofIccHdr + sizeofInfoTlv + L.size * acc.length := by
    have hflat := length_flatMap_bytes law hacc
    simp only [List.flatten_cons, List.flatten_nil, List.length_append, List.length_nil, length_htons, hflat,
      (isHdr_iccHdr s _).1]
    show _ = sizeofIccHdr + (2 + (2 + 2)) + _
    omega
  have hfilled := law.filled he hset
  simp_all [frame]

theorem sendAll_frames (hle : msgLen L L.maxEntries ≤ csmBufferSize) : ∀ (q : List α) {s : Sender} {acc : List α}
    {len : Option Nat}, Ready law s acc len → acc.length < L.maxEntries → (∀ e ∈ acc ++ q, Wf e) →
    ∃ ms, (s.sendAll L acc.length len q).out = s.out ++ ms ∧
      List.Forall₂ (fun m b => ∃ hdr, IsHdr hdr ∧ m = frame law hdr b) ms (batches L.maxEntries acc q)
  | [], s, acc, len, h, hacc, hwf => by
    rw [batches, Sender.sendAll]
    rcases h with ⟨rfl, -⟩ | ⟨hne, rfl, hdr, hhdr, hfill⟩
    · simp
    · rw [if_neg hne, if_neg (fun h => hne (List.length_eq_zero_iff.mp h))]
      rw [List.append_nil] at hwf
      have hlen := length_frame law hhdr.1 hwf
      have hmono : msgLen L acc.length ≤ csmBufferSize :=
        (Nat.add_le_add_left (Nat.mul_le_mul_left _ hacc.le) _).trans hle
      refine ⟨[frame law hdr acc], ?_, .cons ⟨hdr, hhdr, rfl⟩ .nil⟩ <;> grind [Sender.iccpCsmSend, Filled.read]
  | e :: q, s, acc, len, h, hacc, hwf => by
    have hcount : (acc ++ [e]).length = acc.length + 1 := List.length_append
    have hmono : msgLen L (acc.length + 1) ≤ csmBufferSize :=
      (Nat.add_le_add_left (Nat.mul_le_mul_left _ hacc) _).trans hle
    have hwf' : ∀ e' ∈ acc ++ [e], Wf e' := fun e' he' => hwf e' (by simp at he' ⊢; tauto)
    obtain ⟨s', hs', hout, hready⟩ := h.prepare law (hwf e (by simp)) (fun e' he' => hwf e' (by simp [he'])) hmono
    rw [Sender.sendAll, hs', batches, hcount]
    dsimp only
    split
    · -- a full message goes out and the buffer is cleared
      obtain ⟨hdr, hhdr, hfill⟩ := (hready.resolve_left fun h => List.concat_ne_nil e acc h.1).2.2
      have hnil : Ready law (s'.iccpCsmSend (some (msgLen L (acc.length + 1)))).memset []
          (some (msgLen L (acc.length + 1))) :=
        .inl ⟨rfl, filled_memset _⟩
      obtain ⟨ms, hms, hframes⟩ := sendAll_frames hle q hnil (Nat.zero_lt_of_lt hacc)
        (fun e' he' => hwf e' (by simp at he' ⊢; tauto))
      refine ⟨frame law hdr (acc ++ [e]) :: ms, ?_, .cons ⟨hdr, hhdr, rfl⟩ hframes⟩
      refine hms.trans ?_
      show (s'.out ++ [s'.buf.read (msgLen L (acc.length + 1))]) ++ ms = _
      rw [hfill.read (hcount ▸ length_frame law hhdr.1 hwf') hmono, hout, List.append_assoc]
      rfl
    next hlt =>
      obtain ⟨ms, hms, hframes⟩ := sendAll_frames hle q hready (by omega)
        (fun e' he' => hwf e' (by simp at he' ⊢; tauto))
      grind

/-- The messages are received as the queue, in its order, with at most `max` entries each. -/
def Delivered (wrap : List α → Received) (max : Nat) (queue : List α) (msgs : List (List UInt8)) : Prop :=
  (∀ m ∈ msgs, m.length ≤ csmBufferSize) ∧
    ∃ bs : List (List α), bs.flatten = queue ∧ (∀ b ∈ bs, b ≠ [] ∧ b.length ≤ max) ∧
      msgs.map mlacpSyncReceiverHandler = bs.map fun b => some (wrap b)

section
variable (hsize : 0 < L.size) (hle : msgLen L L.maxEntries ≤ csmBufferSize) (htlv : L.tlv < 65536)
  {wrap : List α → Received} (hhandler : ∀ msg, ntohsAt msg 0 = msgTRgAppData → ntohsAt msg sizeofIccHdr = L.tlv →
    mlacpSyncReceiverHandler msg = (recv L msg).map wrap)
include hsize hle htlv hhandler

theorem frames_received {ms : List (List UInt8)} {bs : List (List α)}
    (h : List.Forall₂ (fun m b => ∃ hdr, IsHdr hdr ∧ m = frame law hdr b) ms bs)
    (hmax : ∀ b ∈ bs, b.length ≤ L.maxEntries) (hwf : ∀ b ∈ bs, ∀ e ∈ b, Wf e) :
    (∀ m ∈ ms, m.length ≤ csmBufferSize) ∧ ms.map mlacpSyncReceiverHandler = bs.map fun b => some (wrap b) := by
  induction h with
  | nil => exact ⟨nofun, rfl⟩
  | @cons m b ms bs hm _ ih =>
    obtain ⟨hdr, hhdr, rfl⟩ := hm
    obtain ⟨hbmax, hmax⟩ := List.forall_mem_cons.mp hmax
    obtain ⟨hb, hwf⟩ := List.forall_mem_cons.mp hwf
    obtain ⟨hlens, hmap⟩ := ih hmax hwf
    have hlen : msgLen L b.length ≤ csmBufferSize :=
      (Nat.add_le_add_left (Nat.mul_le_mul_left _ hbmax) _).trans hle
    refine ⟨List.forall_mem_cons.mpr ⟨(length_frame law hhdr.1 hb).le.trans hlen, hlens⟩, ?_⟩
    grind [msgType_frame, tlvType_frame, recv_frame]

include law

theorem send_delivered (hmax : 0 < L.maxEntries) (s : Sender) {queue : List α} (hwf : ∀ e ∈ queue, Wf e) :
    ∃ msgs, (s.mlacpSyncSend L queue).out = s.out ++ msgs ∧ Delivered wrap L.maxEntries queue msgs := by
  have hready : Ready law s.memset [] (some 0) := .inl ⟨rfl, filled_memset _⟩
  obtain ⟨msgs, hmsgs, hframes⟩ := sendAll_frames law hle queue hready hmax hwf
  have hbatch : ∀ b ∈ batches L.maxEntries [] queue, b ≠ [] ∧ b.length ≤ L.maxEntries := mem_batches hmax hmax
  have hentry : ∀ b ∈ batches L.maxEntries [] queue, ∀ e ∈ b, Wf e := by grind [batches_flatten, List.mem_flatten]
  obtain ⟨hlens, hmap⟩ := frames_received law hsize hle htlv hhandler hframes (fun b hb => (hbatch b hb).2) hentry
  exact ⟨msgs, hmsgs, hlens, batches L.maxEntries [] queue, batches_flatten _ _, hbatch, hmap⟩

end

end

theorem handler_mac {msg : List UInt8} (h : ntohsAt msg 0 = msgTRgAppData)
    (ht : ntohsAt msg sizeofIccHdr = macLayout.tlv) :
    mlacpSyncReceiverHandler msg = (recv macLayout msg).map .mac := by
  rw [mlacpSyncReceiverHandler, h, ht]
  rfl

theorem handler_arp {msg : List UInt8} (h : ntohsAt msg 0 = msgTRgAppData)
    (ht : ntohsAt msg sizeofIccHdr = arpLayout.tlv) :
    mlacpSyncReceiverHandler msg = (recv arpLayout msg).map .arp := by
  rw [mlacpSyncReceiverHandler, h, ht]
  rfl

theorem handler_ndisc {msg : List UInt8} (h : ntohsAt msg 0 = msgTRgAppData)
    (ht : ntohsAt msg sizeofIccHdr = ndiscLayout.tlv) :
    mlacpSyncReceiverHandler msg = (recv ndiscLayout msg).map .ndisc := by
  rw [mlacpSyncReceiverHandler, h, ht]
  rfl

theorem sync_roundTrip (s : Sender) {macs : List MacMsg} {arps : List ArpMsg} {ndiscs : List NdiscMsg}
    (hmacs : ∀ m ∈ macs, IsName m.originIfname) (harps : ∀ m ∈ arps, IsName m.ifname)
    (hndiscs : ∀ m ∈ ndiscs, IsName m.ifname) :
    (∃ msgs, (s.mlacpSyncSendSyncMacInfo macs).out = s.out ++ msgs ∧ Delivered .mac maxMacEntryNum macs msgs) ∧
    (∃ msgs, (s.mlacpSyncSendSyncArpInfo arps).out = s.out ++ msgs ∧ Delivered .arp maxNeighEntryNum arps msgs) ∧
    (∃ msgs, (s.mlacpSyncSendSyncNdiscInfo ndiscs).out = s.out ++ msgs ∧
      Delivered .ndisc maxNeighEntryNum ndiscs msgs) :=
  ⟨send_delivered macLawful (by decide) (by decide) (by decide) (fun _ => handler_mac) (by decide) s hmacs,
    send_delivered (neighLawful 4 tlvMlacpArpInfo) (by decide) (by decide) (by decide)
      (fun _ => handler_arp) (by decide) s harps,
    send_delivered (neighLawful 16 tlvMlacpNdiscInfo) (by decide) (by decide) (by decide)
      (fun _ => handler_ndisc) (by decide) s hndiscs⟩

def firstSender : Sender := ⟨1, 1, ⟨fun _ => 0, 0⟩, []⟩

def po1Mac : MacMsg := ⟨1, 2, #v[0, 17, 34, 51, 68, 85], 100, [80, 111, 49]⟩
def po1Arp : ArpMsg := ⟨1, 0, [80, 111, 49], #v[10, 0, 0, 1], #v[0, 17, 34, 51, 68, 85]⟩
def po1Ndisc : NdiscMsg :=
  ⟨1, 0, [80, 111, 49], #v[32, 1, 13, 184, 0, 0, 0, 0, 0, 0, 0, 0, 0, 0, 0, 1], #v[0, 17, 34, 51, 68, 85]⟩

/-- More entries than two messages hold, each for a VLAN of its own. -/
def po1Macs : List MacMsg := (List.range 65).map fun i => { po1Mac with vid := i.toUInt16 }

def po1Arps : List ArpMsg := (List.range 85).map fun i => { po1Arp with addr := #v[10, 0, 0, i.toUInt8] }

def po1Ndiscs : List NdiscMsg := List.replicate 85 po1Ndisc

theorem isName_po1 : IsName po1Mac.originIfname := by decide

theorem sync_roundTrip_po1 :
    (2 * maxMacEntryNum < po1Macs.length ∧ 2 * maxNeighEntryNum < po1Arps.length) ∧
    (∃ msgs, (firstSender.mlacpSyncSendSyncMacInfo po1Macs).out = firstSender.out ++ msgs ∧
      Delivered .mac maxMacEntryNum po1Macs msgs) ∧
    (∃ msgs, (firstSender.mlacpSyncSendSyncArpInfo po1Arps).out = firstSender.out ++ msgs ∧
      Delivered .arp maxNeighEntryNum po1Arps msgs) ∧
    (∃ msgs, (firstSender.mlacpSyncSendSyncNdiscInfo po1Ndiscs).out = firstSender.out ++ msgs ∧
      Delivered .ndisc maxNeighEntryNum po1Ndiscs msgs) :=
  ⟨by decide, sync_roundTrip firstSender (List.forall_mem_map.mpr fun _ _ => isName_po1)
    (List.forall_mem_map.mpr fun _ _ => isName_po1) fun m hm => by
      rw [List.eq_of_mem_replicate hm]
      exact isName_po1⟩

end Sonic.IccpSync
