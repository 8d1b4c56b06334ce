import Mathlib.Data.List.Basic
import Mathlib.Order.Nat

/-! # Frames of the ICCP stream

`scheduler_csm_read_callback` reads one message of the peer into the global buffer: the LDP header,
then as many bytes as its length says. The socket gives the bytes in pieces of any size. -/

namespace Sonic.IccpStream
open List

variable {s bs : List UInt8} {as pre rest : List Arrival}

inductive Arrival where
  | bytes (b : UInt8) (bs : List UInt8)
  | pause
  | error
  | closed
  deriving DecidableEq

def Arrival.data : Arrival → List UInt8
  | bytes b bs => b :: bs
  | _ => []

def stream (as : List Arrival) : List UInt8 := as.flatMap Arrival.data

def pauses (as : List Arrival) : Nat := as.count .pause

/-- The arrivals byte by byte. -/
def singles (as : List Arrival) : List Arrival :=
  as.flatMap fun
    | .bytes b bs => (b :: bs).map (.bytes · [])
    | a => [a]

inductive Recv where
  | got (b : UInt8) (bs : List UInt8)
  | again
  | error
  | closed

def recv (dontWait : Bool) (n : Nat) : List Arrival → Option (Recv × List Arrival)
  | [] => none
  | .bytes b bs :: as =>
    some (.got b (bs.take (n - 1)), match bs.drop (n - 1) with
      | [] => as
      | c :: cs => .bytes c cs :: as)
  | .pause :: as => if dontWait then some (.again, as) else recv dontWait n as
  | .error :: as => some (.error, as)
  | .closed :: as => some (.closed, as)

/-- What a failed read is put down to: the connection went away. -/
def broken (as : List Arrival) : Prop := .closed ∈ as ∨ .error ∈ as

def csmBufferSize : Nat := 65536

structure Buf where
  mem : Nat → UInt8
  extent : Nat

namespace Buf

def memset (buf : Buf) : Buf :=
  { buf with mem := fun a => if a < csmBufferSize then 0 else buf.mem a }

def store (buf : Buf) (pos : Nat) (bs : List UInt8) : Buf where
  mem a := if pos ≤ a then (bs[a - pos]?).getD (buf.mem a) else buf.mem a
  extent := max buf.extent (pos + bs.length)

def read (buf : Buf) (len : Nat) : List UInt8 := (List.range len).map buf.mem

def msgLen (buf : Buf) : Nat := (buf.mem 2).toNat * 256 + (buf.mem 3).toNat

end Buf

/-! ## One call -/

def sizeofLdpHdr : Nat := 8
def msgLIncludUBitMsgTLFields : Nat := 4
def recvRetryMax : Nat := 10

inductive Ending where
  | done
  | waits
  | failure

structure Read where
  ending : Ending
  buf : Buf
  rest : List Arrival

theorem recv_got_length {w : Bool} {n : Nat} {b : UInt8} :
    ∀ {as rest : List Arrival}, recv w n as = some (.got b bs, rest) → bs.length ≤ n - 1
  | .bytes c cs :: as, rest, h => by
    cases h
    exact length_take_le _ _
  | .pause :: as, rest, h => by
    rw [recv] at h
    split at h
    · cases h
    · exact recv_got_length h

def readHeader (buf : Buf) (recvLen : Nat) (as : List Arrival) : Read :=
  if sizeofLdpHdr ≤ recvLen then ⟨.done, buf, as⟩
  else match recv false (sizeofLdpHdr - recvLen) as with
    | some (.got b bs, rest) =>
      readHeader (buf.store recvLen (b :: bs)) (recvLen + (b :: bs).length) rest
    | some (_, rest) => ⟨.failure, buf, rest⟩
    | none => ⟨.waits, buf, []⟩
termination_by sizeofLdpHdr - recvLen
decreasing_by
  simp only [List.length_cons]
  omega

def readData (buf : Buf) (pos dataLen numRetry : Nat) (as : List Arrival) : Read :=
  if dataLen = 0 then ⟨.done, buf, as⟩
  else match recv true dataLen as with
    | some (.got b bs, rest) =>
      readData (buf.store (sizeofLdpHdr + pos) (b :: bs)) (pos + (b :: bs).length)
        (dataLen - (b :: bs).length) numRetry rest
    | some (.again, rest) =>
      -- the count is of the whole message, data in between does not reset it
      if recvRetryMax < numRetry + 1 then ⟨.failure, buf, rest⟩
      else readData buf pos dataLen (numRetry + 1) rest
    | some (_, rest) => ⟨.failure, buf, rest⟩
    | none => ⟨.waits, buf, []⟩
termination_by (dataLen, recvRetryMax - numRetry)
decreasing_by
  · grind
  · grind

inductive Cause where
  | invalidPeerMsg
  | readFailure
  deriving DecidableEq

inductive Session where
  | up
  | waiting
  | disconnected (c : Cause)
  deriving DecidableEq

structure Csm where
  session : Session
  buf : Buf
  queue : List (List UInt8)
  socket : List Arrival

def schedulerCsmReadCallback (csm : Csm) : Csm :=
  if csm.session = .up then
    let hdr := readHeader csm.buf.memset 0 csm.socket
    match hdr.ending with
    | .waits => { csm with session := .waiting, buf := hdr.buf, socket := hdr.rest }
    | .failure => { csm with session := .disconnected .readFailure, buf := hdr.buf, socket := hdr.rest }
    | .done =>
      if msgLIncludUBitMsgTLFields ≤ hdr.buf.msgLen then
        let data := readData hdr.buf 0 (hdr.buf.msgLen - msgLIncludUBitMsgTLFields) 0 hdr.rest
        match data.ending with
        | .waits => { csm with session := .waiting, buf := data.buf, socket := data.rest }
        | .failure => { csm with session := .disconnected .readFailure, buf := data.buf, socket := data.rest }
        | .done =>
          { csm with
            buf := data.buf
            queue := csm.queue ++ [data.buf.read (data.buf.msgLen + msgLIncludUBitMsgTLFields)]
            socket := data.rest }
      else { csm with session := .disconnected .invalidPeerMsg, buf := hdr.buf, socket := hdr.rest }
  else csm

def calls : Nat → Csm → Csm
  | 0, csm => csm
  | n + 1, csm => calls n (schedulerCsmReadCallback csm)

/-! ## The frames of a stream -/

def msgLen (s : List UInt8) : Nat := (s.getD 2 0).toNat * 256 + (s.getD 3 0).toNat

def frameLen (s : List UInt8) : Nat := msgLen s + msgLIncludUBitMsgTLFields

def Malformed (s : List UInt8) : Prop :=
  sizeofLdpHdr ≤ s.length ∧ msgLen s < msgLIncludUBitMsgTLFields

def Complete (s : List UInt8) : Prop :=
  sizeofLdpHdr ≤ s.length ∧ msgLIncludUBitMsgTLFields ≤ msgLen s ∧ frameLen s ≤ s.length

instance (s : List UInt8) : Decidable (Malformed s) := inferInstanceAs (Decidable (_ ∧ _))
instance (s : List UInt8) : Decidable (Complete s) := inferInstanceAs (Decidable (_ ∧ _ ∧ _))

theorem Complete.drop_length_lt (h : Complete s) :
    (s.drop (frameLen s)).length < s.length := by
  have h4 : 0 < msgLIncludUBitMsgTLFields := by decide
  have h8 : 0 < sizeofLdpHdr := by decide
  have := h.1
  rw [length_drop, frameLen]
  omega

def frames (s : List UInt8) : List (List UInt8) :=
  if h : Complete s then s.take (frameLen s) :: frames (s.drop (frameLen s)) else []
termination_by s.length
decreasing_by exact h.drop_length_lt

def leftover (s : List UInt8) : List UInt8 :=
  if h : Complete s then leftover (s.drop (frameLen s)) else s
termination_by s.length
decreasing_by exact h.drop_length_lt

theorem frames_of_complete (h : Complete s) :
    frames s = s.take (frameLen s) :: frames (s.drop (frameLen s)) := by rw [frames, dif_pos h]

theorem frames_of_not_complete (h : ¬ Complete s) : frames s = [] := by rw [frames, dif_neg h]

theorem leftover_of_complete (h : Complete s) :
    leftover s = leftover (s.drop (frameLen s)) := by rw [leftover, dif_pos h]

theorem leftover_of_not_complete (h : ¬ Complete s) : leftover s = s := by rw [leftover, dif_neg h]

theorem Malformed.not_complete (h : Malformed s) : ¬ Complete s := by
  intro hc
  have := h.2
  have := hc.2.1
  omega

/-! ## What `recv` gives -/

theorem stream_append (as bs : List Arrival) : stream (as ++ bs) = stream as ++ stream bs := flatMap_append

theorem pauses_append (as bs : List Arrival) : pauses (as ++ bs) = pauses as + pauses bs := count_append

theorem broken_append {bs : List Arrival} : broken (as ++ bs) ↔ broken as ∨ broken bs := by
  simp only [broken, mem_append]
  tauto

theorem stream_bytes (bs : List UInt8) : stream (bs.map (.bytes · [])) = bs := by
  induction bs with
  | nil => rfl
  | cons b bs ih => rw [map_cons, stream, flatMap_cons, ← stream, ih]; rfl

theorem not_broken_bytes (bs : List UInt8) : ¬ broken (bs.map (.bytes · [])) := by simp [broken]

theorem pauses_bytes (bs : List UInt8) : pauses (bs.map (.bytes · [])) = 0 := by simp [pauses, count_eq_zero]

theorem singles_cons (a : Arrival) (as : List Arrival) : singles (a :: as) = singles [a] ++ singles as := by
    simp [singles]

theorem stream_singles : ∀ as : List Arrival, stream (singles as) = stream as
  | [] => rfl
  | a :: as => by
    rw [singles_cons, stream_append, stream_singles as]
    cases a with
    | bytes b bs =>
      rw [show singles [.bytes b bs] = (b :: bs).map (.bytes · []) from append_nil _, stream_bytes]
      rfl
    | pause => rfl
    | error => rfl
    | closed => rfl

theorem broken_singles : ∀ as : List Arrival, broken (singles as) ↔ broken as
  | [] => Iff.rfl
  | a :: as => by
    rw [singles_cons, broken_append, broken_singles as, show a :: as = [a] ++ as from rfl, broken_append]
    refine or_congr_left ?_
    cases a with
    | bytes b bs =>
      rw [show singles [.bytes b bs] = (b :: bs).map (.bytes · []) from append_nil _]
      exact iff_of_false (not_broken_bytes _) (by simp [broken])
    | pause => exact Iff.rfl
    | error => exact Iff.rfl
    | closed => exact Iff.rfl

/-- The arrivals `pre` were taken from the socket, which the peer did not close meanwhile. -/
structure Took (as rest pre : List Arrival) : Prop where
  singles : singles as = pre ++ singles rest
  alive : ¬ broken pre

theorem took_pause (as : List Arrival) : Took (.pause :: as) as [.pause] := ⟨rfl, by simp [broken]⟩

theorem Took.trans {bs cs post : List Arrival} (h : Took as bs pre) (h' : Took bs cs post) :
    Took as cs (pre ++ post) where
  singles := by rw [h.singles, h'.singles, append_assoc]
  alive := by rw [broken_append]; exact fun hb => hb.elim h.alive h'.alive

theorem Took.stream (h : Took as rest pre) :
    stream as = IccpStream.stream pre ++ IccpStream.stream rest := by
  rw [← stream_singles as, h.singles, stream_append, stream_singles]

theorem Took.drop {n : Nat} (h : Took as rest pre)
    (hn : IccpStream.stream pre = (IccpStream.stream as).take n) :
    IccpStream.stream rest = (IccpStream.stream as).drop n := by
  have hs := h.stream
  rw [hn] at hs
  exact append_cancel_left (hs.symm.trans (take_append_drop n _).symm)

theorem Took.broken (h : Took as rest pre) : broken rest ↔ broken as := by
  rw [← broken_singles as, h.singles, broken_append, broken_singles]
  exact (or_iff_right h.alive).symm

theorem recv_got {w : Bool} {n : Nat} {b : UInt8} :
    ∀ {as rest : List Arrival}, recv w n as = some (.got b bs, rest) →
      ∃ pre, Took as rest pre ∧ stream pre = b :: bs ∧ (w = true → pauses pre = 0)
  | .bytes c cs :: as, rest, h => by
    cases h
    have hcs := take_append_drop (n - 1) cs
    refine ⟨(b :: cs.take (n - 1)).map (.bytes · []), ⟨?_, not_broken_bytes _⟩, stream_bytes _, fun _ => pauses_bytes _⟩
    rw [singles_cons, show singles [.bytes b cs] = (b :: cs).map (.bytes · []) from append_nil _]
    conv_lhs => rw [← hcs]
    generalize cs.drop (n - 1) = ds
    cases ds with
    | nil => rw [append_nil]
    | cons d ds =>
      rw [← cons_append, map_append, append_assoc]
      rfl
  | .pause :: as, rest, h => by
    rw [recv] at h
    split at h
    · cases h
    · rename_i hw
      obtain ⟨pre, hp, hs, -⟩ := recv_got h
      exact ⟨.pause :: pre, (took_pause as).trans hp, hs, fun h => absurd h hw⟩

theorem recv_none {w : Bool} {n : Nat} : ∀ {as : List Arrival}, recv w n as = none →
    stream as = [] ∧ ¬ broken as
  | [], _ => ⟨rfl, by simp [broken]⟩
  | .pause :: as, h => by
    rw [recv] at h
    split at h
    · cases h
    · obtain ⟨hs, hb⟩ := recv_none h
      exact ⟨hs, fun h => hb ((took_pause as).broken.mpr h)⟩

theorem recv_again {w : Bool} {n : Nat} : ∀ {as rest : List Arrival},
    recv w n as = some (.again, rest) → w = true ∧ as = .pause :: rest
  | .pause :: as, rest, h => by
    rw [recv] at h
    split at h
    · rename_i hw
      cases h
      exact ⟨hw, rfl⟩
    · rename_i hw
      exact absurd (recv_again h).1 hw

/-- The read met the end of the connection. -/
def Ends (x : Arrival) : Prop := x = .closed ∨ x = .error

theorem recv_broken {w : Bool} {n : Nat} {r : Recv} : ∀ {as rest : List Arrival},
    recv w n as = some (r, rest) → r = .error ∨ r = .closed →
      ∃ pre x, singles as = pre ++ x :: singles rest ∧ ¬ broken pre ∧ stream pre = [] ∧ Ends x
  | .bytes c cs :: as, rest, h, hr => by
    cases h
    rcases hr with hr | hr <;> cases hr
  | .pause :: as, rest, h, hr => by
    rw [recv] at h
    split at h
    · cases h
      rcases hr with hr | hr <;> cases hr
    · obtain ⟨pre, x, hs, hb, he, hx⟩ := recv_broken h hr
      refine ⟨.pause :: pre, x, by rw [singles_cons, hs]; rfl, fun h => ?_, he, hx⟩
      rw [show Arrival.pause :: pre = [.pause] ++ pre from rfl, broken_append] at h
      exact h.elim (took_pause []).alive hb
  | .error :: as, rest, h, hr => by
    cases h
    exact ⟨[], .error, rfl, by simp [broken], rfl, .inr rfl⟩
  | .closed :: as, rest, h, hr => by
    cases h
    exact ⟨[], .closed, rfl, by simp [broken], rfl, .inl rfl⟩

structure Loaded (e : Nat) (buf : Buf) (bs : List UInt8) : Prop where
  extent : buf.extent = max e bs.length
  mem : ∀ i, i < bs.length → bs[i]? = some (buf.mem i)

theorem loaded_memset (buf : Buf) : Loaded buf.extent buf.memset [] :=
  ⟨(Nat.max_zero _).symm, fun _ h => absurd h (Nat.not_lt_zero _)⟩

theorem Loaded.store {e : Nat} {buf : Buf} (h : Loaded e buf bs) (cs : List UInt8) :
    Loaded e (buf.store bs.length cs) (bs ++ cs) where
  extent := by
    show max buf.extent (bs.length + cs.length) = _
    rw [h.extent, length_append]
    omega
  mem i hi := by
    rw [length_append] at hi
    by_cases hb : i < bs.length
    · rw [List.getElem?_append_left hb, h.mem i hb, Buf.store]
      simp only [Nat.not_le.mpr hb, if_false]
    · have hc : i - bs.length < cs.length := by omega
      simp_all [Buf.store]

theorem Loaded.read {e : Nat} {buf : Buf} (h : Loaded e buf bs) :
    buf.read bs.length = bs := by
  apply ext_getElem?
  intro i
  by_cases hi : i < bs.length <;> grind [h.mem, Buf.read]

theorem Loaded.msgLen {e : Nat} {buf : Buf} (h : Loaded e buf bs)
    (hl : sizeofLdpHdr ≤ bs.length) : buf.msgLen = msgLen bs := by
  grind [sizeofLdpHdr, Buf.msgLen, IccpStream.msgLen, h.mem]

theorem msgLen_append (t : List UInt8) (hl : sizeofLdpHdr ≤ s.length) :
    msgLen (s ++ t) = msgLen s := by grind [sizeofLdpHdr, msgLen]

/-- A loop that wants `total` bytes, with `bs` there already and `retries` pauses counted, took the arrivals `pre`. -/
structure Reads (e total retries : Nat) (bs : List UInt8) (as : List Arrival) (r : Read) (pre : List Arrival) :
    Prop where
  loaded : Loaded e r.buf (bs ++ stream pre)
  alive : ¬ broken pre
  length : (bs ++ stream pre).length ≤ total
  done : r.ending = .done → (bs ++ stream pre).length = total ∧ Took as r.rest pre
  waits : r.ending = .waits → (bs ++ stream pre).length < total ∧ IccpStream.stream r.rest = [] ∧ ¬ broken r.rest ∧
    Took as r.rest pre
  failure : r.ending = .failure → (bs ++ stream pre).length < total ∧
    ∃ x, singles as = pre ++ x :: singles r.rest ∧ (Ends x ∨ x = .pause ∧ recvRetryMax ≤ retries + pauses pre)

section Loop

variable {e total retries : Nat} {buf : Buf} {bs : List UInt8} {as : List Arrival}

theorem not_broken_nil : ¬ broken [] := by simp [broken]

theorem took_nil (as : List Arrival) : Took as as [] := ⟨rfl, not_broken_nil⟩

theorem reads_done (h : Loaded e buf bs) (hl : bs.length = total) :
    Reads e total retries bs as ⟨.done, buf, as⟩ [] := by
  refine ⟨?_, not_broken_nil, ?_, fun _ => ⟨?_, took_nil as⟩, nofun, nofun⟩ <;> rw
    [show stream [] = [] from rfl, append_nil]
  · exact h
  · exact hl.le
  · exact hl

theorem reads_waits (h : Loaded e buf bs) (hl : bs.length < total) (hs : stream as = []) (hb : ¬ broken as) :
    Reads e total retries bs as ⟨.waits, buf, []⟩ (singles as) := by
  have hnil : stream (singles as) = [] := by rw [stream_singles, hs]
  refine ⟨?_, fun h => hb ((broken_singles as).mp h), ?_, nofun, fun _ => ⟨?_, rfl, not_broken_nil, ?_⟩, nofun⟩
  · rwa [hnil, append_nil]
  · rw [hnil, append_nil]
    exact hl.le
  · rwa [hnil, append_nil]
  · exact ⟨(append_nil _).symm, fun h => hb ((broken_singles as).mp h)⟩

theorem reads_failure {x : Arrival} (h : Loaded e buf bs) (hl : bs.length < total)
    (hs : singles as = pre ++ x :: singles rest) (hb : ¬ broken pre) (hn : stream pre = [])
    (hx : Ends x ∨ x = .pause ∧ recvRetryMax ≤ retries + pauses pre) :
    Reads e total retries bs as ⟨.failure, buf, rest⟩ pre := by
  refine ⟨?_, hb, ?_, nofun, nofun, fun _ => ⟨?_, x, hs, hx⟩⟩ <;> rw [hn, append_nil]
  · exact h
  · exact hl.le
  · exact hl

theorem Reads.step {retries' : Nat} {post : List Arrival} {r : Read}
    (h : Reads e total retries' (bs ++ stream pre) rest r post) (hp : Took as rest pre)
    (hr : retries' ≤ retries + pauses pre) : Reads e total retries bs as r (pre ++ post) := by
  obtain ⟨hload, halive, hlen, hdone, hwait, hfail⟩ := h
  rw [append_assoc, ← stream_append] at hload hlen hdone hwait hfail
  refine ⟨hload, ?_, hlen, fun he => ?_, fun he => ?_, fun he => ?_⟩
  · rw [broken_append]
    exact fun hb => hb.elim hp.alive halive
  · exact ⟨(hdone he).1, hp.trans (hdone he).2⟩
  · obtain ⟨hlt, hrest, hb, htook⟩ := hwait he
    exact ⟨hlt, hrest, hb, hp.trans htook⟩
  · obtain ⟨hlt, x, hs, hx⟩ := hfail he
    refine ⟨hlt, x, by rw [hp.singles, hs, append_assoc], hx.imp_right fun ⟨hpause, hmax⟩ => ⟨hpause, ?_⟩⟩
    rw [pauses_append]
    omega

end Loop

theorem readHeader_reads {e : Nat} (buf : Buf) (recvLen : Nat) (as : List Arrival) :
    ∀ bs, Loaded e buf bs → bs.length = recvLen → recvLen ≤ sizeofLdpHdr →
      ∃ pre, Reads e sizeofLdpHdr 0 bs as (readHeader buf recvLen as) pre ∧
        ((readHeader buf recvLen as).ending = .failure → ∃ x, Ends x ∧
          singles as = pre ++ x :: singles (readHeader buf recvLen as).rest) := by
  fun_induction readHeader buf recvLen as with
  | case1 buf recvLen as hl =>
    intro bs h hb hle
    exact ⟨[], reads_done h (by omega), nofun⟩
  | case2 buf recvLen as hl b cs rest hrecv ih =>
    intro bs h hb hle
    subst hb
    obtain ⟨pre, hp, hs, -⟩ := recv_got hrecv
    have hcs := recv_got_length hrecv
    have hlen : bs.length + (b :: cs).length ≤ sizeofLdpHdr := by
      rw [length_cons]
      omega
    obtain ⟨post, hpost, hend⟩ := ih (bs ++ b :: cs) (h.store _) length_append hlen
    generalize readHeader _ _ rest = r at hpost hend ⊢
    rw [← hs] at hpost
    refine ⟨pre ++ post, hpost.step hp (Nat.zero_le _), fun he => ?_⟩
    obtain ⟨x, hx, hsing⟩ := hend he
    exact ⟨x, hx, by rw [hp.singles, hsing, append_assoc]⟩
  | case3 buf recvLen as hl r rest hgot hrecv =>
    intro bs h hb hle
    subst hb
    have hbad : r = .error ∨ r = .closed := by
      cases r with
      | got b cs => exact absurd rfl (hgot b cs)
      | again => exact absurd (recv_again hrecv).1 Bool.false_ne_true
      | error => exact .inl rfl
      | closed => exact .inr rfl
    obtain ⟨pre, x, hs, hb, hn, hx⟩ := recv_broken hrecv hbad
    exact ⟨pre, reads_failure h (by omega) hs hb hn (.inl hx), fun _ => ⟨x, hx, hs⟩⟩
  | case4 buf recvLen as hl hrecv =>
    intro bs h hb hle
    obtain ⟨hs, hb'⟩ := recv_none hrecv
    exact ⟨_, reads_waits h (by omega) hs hb', nofun⟩

theorem readData_reads {e : Nat} (buf : Buf) (pos dataLen numRetry : Nat) (as : List Arrival) :
    ∀ bs, Loaded e buf bs → bs.length = sizeofLdpHdr + pos →
      ∃ pre, Reads e (sizeofLdpHdr + pos + dataLen) numRetry bs as (readData buf pos dataLen numRetry as) pre := by
  fun_induction readData buf pos dataLen numRetry as with
  | case1 buf pos numRetry as =>
    intro bs h hb
    exact ⟨[], reads_done h hb⟩
  | case2 buf pos dataLen numRetry as hl b cs rest hrecv ih =>
    intro bs h hb
    obtain ⟨pre, hp, hs, -⟩ := recv_got hrecv
    have hcs := recv_got_length hrecv
    have hload := h.store (b :: cs)
    have hlen : (bs ++ b :: cs).length = sizeofLdpHdr + (pos + (b :: cs).length) := by
      rw [length_append, hb, Nat.add_assoc]
    rw [hb] at hload
    obtain ⟨post, hpost⟩ := ih (bs ++ b :: cs) hload hlen
    have htotal : sizeofLdpHdr + (pos + (b :: cs).length) + (dataLen - (b :: cs).length) =
        sizeofLdpHdr + pos + dataLen := by
      rw [length_cons]
      omega
    rw [htotal] at hpost
    generalize readData _ _ _ _ rest = r at hpost ⊢
    rw [← hs] at hpost
    exact ⟨_, hpost.step hp (Nat.le_add_right _ _)⟩
  | case3 buf pos dataLen numRetry as hl rest hrecv hmax =>
    intro bs h hb
    obtain ⟨-, rfl⟩ := recv_again hrecv
    exact ⟨[], reads_failure h (by omega) rfl not_broken_nil rfl (.inr ⟨rfl, by omega⟩)⟩
  | case4 buf pos dataLen numRetry as hl rest hrecv hmax ih =>
    intro bs h hb
    obtain ⟨-, rfl⟩ := recv_again hrecv
    obtain ⟨post, hpost⟩ := ih bs h hb
    rw [show bs = bs ++ stream [.pause] from (append_nil bs).symm] at hpost
    exact ⟨_, hpost.step (took_pause rest) (Nat.le_refl _)⟩
  | case5 buf pos dataLen numRetry as hl r rest hgot hagain hrecv =>
    intro bs h hb
    have hbad : r = .error ∨ r = .closed := by
      cases r with
      | got b cs => exact absurd rfl (hgot b cs)
      | again => exact absurd rfl hagain
      | error => exact .inl rfl
      | closed => exact .inr rfl
    obtain ⟨pre, x, hs, hb', hn, hx⟩ := recv_broken hrecv hbad
    exact ⟨pre, reads_failure h (by omega) hs hb' hn (.inl hx)⟩
  | case6 buf pos dataLen numRetry as hl hrecv =>
    intro bs h hb
    obtain ⟨hs, hb'⟩ := recv_none hrecv
    exact ⟨_, reads_waits h (by omega) hs hb'⟩

/-- Where a read failed: all of `before` had arrived, the connection was up, and then it ended, or the data of the
message that `before` stops in paused once more than it may. -/
structure Stopped (as before : List Arrival) : Prop where
  alive : ¬ broken before
  cause : ∃ x after, singles as = before ++ x :: after ∧
    (Ends x ∨ x = .pause ∧ ∃ p q, before = p ++ q ∧ (frames (stream p)).length = (frames (stream before)).length ∧
      recvRetryMax ≤ pauses q)

inductive Outcome (csm csm' : Csm) : Prop where
  | message (pre : List Arrival) (complete : Complete (stream csm.socket)) (session : csm'.session = .up)
      (queue : csm'.queue = csm.queue ++ [(stream csm.socket).take (frameLen (stream csm.socket))])
      (took : Took csm.socket csm'.socket pre)
      (frame : stream pre = (stream csm.socket).take (frameLen (stream csm.socket)))
      (extent : csm'.buf.extent = max csm.buf.extent (frameLen (stream csm.socket)))
  | waits (complete : ¬ Complete (stream csm.socket)) (malformed : ¬ Malformed (stream csm.socket))
      (alive : ¬ broken csm.socket) (session : csm'.session = .waiting) (queue : csm'.queue = csm.queue)
      (extent : csm'.buf.extent = max csm.buf.extent (stream csm.socket).length)
  | malformed (malformed : Malformed (stream csm.socket))
      (session : csm'.session = .disconnected .invalidPeerMsg) (queue : csm'.queue = csm.queue)
      (extent : csm'.buf.extent = max csm.buf.extent sizeofLdpHdr)
  | failure (len : Nat) (before : List Arrival) (arrived : len ≤ (stream csm.socket).length)
      (wanted : len ≤ sizeofLdpHdr ∨ ¬ Malformed (stream csm.socket) ∧ len ≤ frameLen (stream csm.socket))
      (stopped : Stopped csm.socket before) (incomplete : ¬ Complete (stream before))
      (wellFormed : ¬ Malformed (stream before))
      (session : csm'.session = .disconnected .readFailure) (queue : csm'.queue = csm.queue)
      (extent : csm'.buf.extent = max csm.buf.extent len)

theorem Complete.append (h : Complete s) (t : List UInt8) : Complete (s ++ t) := by
  obtain ⟨h8, h4, hlen⟩ := h
  refine ⟨?_, by rwa [msgLen_append t h8], ?_⟩
  · rw [length_append]
    omega
  · rw [frameLen, msgLen_append t h8, length_append]
    rw [frameLen] at hlen
    omega

theorem callback_outcome {csm : Csm} (hup : csm.session = .up) :
    Outcome csm (schedulerCsmReadCallback csm) := by
  obtain ⟨pre, hcs, hend⟩ := readHeader_reads csm.buf.memset 0 csm.socket [] (loaded_memset _) rfl (Nat.zero_le _)
  rw [schedulerCsmReadCallback, if_pos hup]
  generalize readHeader csm.buf.memset 0 csm.socket = hdr at hcs hend ⊢
  obtain ⟨ending, buf, rest⟩ := hdr
  obtain ⟨hload, halive, hlen, hdone, hwait, hfail⟩ := hcs
  rw [nil_append] at hload hlen hdone hwait hfail
  dsimp only at hload hdone hwait hfail hend ⊢
  cases ending with
  | waits =>
    obtain ⟨hlt, hrest, hb, htook⟩ := hwait rfl
    have hstream := htook.stream
    rw [hrest, append_nil] at hstream
    have hshort : ¬ sizeofLdpHdr ≤ (stream csm.socket).length := by rw [hstream]; omega
    exact .waits (fun h => hshort h.1) (fun h => hshort h.1) (fun h => hb (htook.broken.mpr h)) rfl rfl
      (by rw [hstream]; exact hload.extent)
  | failure =>
    obtain ⟨hlt, -⟩ := hfail rfl
    obtain ⟨x, hx, hs⟩ := hend rfl
    have hstream : stream csm.socket = stream pre ++ stream (x :: singles rest) := by
      rw [← stream_singles csm.socket, hs, stream_append]
    refine .failure (stream pre).length pre ?_ (.inl hlen) ⟨halive, x, _, hs, .inl hx⟩ (fun h => ?_)
      (fun h => ?_) rfl rfl
      hload.extent
    · rw [hstream, length_append]
      omega
    · exact absurd h.1 (Nat.not_le.mpr hlt)
    · exact absurd h.1 (Nat.not_le.mpr hlt)
  | done =>
    obtain ⟨h8, htook⟩ := hdone rfl
    have hstream := htook.stream
    have hle : (stream pre).length ≤ (stream csm.socket).length := by
      rw [hstream, length_append]
      omega
    have hmsg : buf.msgLen = msgLen (stream csm.socket) := by
      rw [hstream, msgLen_append _ h8.ge, hload.msgLen h8.ge]
    dsimp only
    rw [hmsg]
    split
    next hge =>
      have hwf : ¬ Malformed (stream csm.socket) := fun h => absurd h.2 (Nat.not_lt.mpr hge)
      obtain ⟨post, hds⟩ := readData_reads buf 0 (msgLen (stream csm.socket) - msgLIncludUBitMsgTLFields) 0 rest
        (stream pre) hload h8
      generalize readData buf 0 _ 0 rest = data at hds ⊢
      obtain ⟨ending, buf', rest'⟩ := data
      obtain ⟨hload', halive', hlen', hdone', hwait', hfail'⟩ := hds
      -- the header has 8 bytes and the length counts 4 of them
      have htotal : sizeofLdpHdr + 0 + (msgLen (stream csm.socket) - msgLIncludUBitMsgTLFields) =
          frameLen (stream csm.socket) := by
        simp only [sizeofLdpHdr, msgLIncludUBitMsgTLFields, frameLen] at hge ⊢
        omega
      rw [htotal] at hlen' hdone' hwait' hfail'
      rw [← stream_append] at hload' hlen' hdone' hwait' hfail'
      dsimp only at hload' hdone' hwait' hfail' ⊢
      have h8' : sizeofLdpHdr ≤ (stream (pre ++ post)).length := by
        rw [stream_append, length_append]
        omega
      cases ending with
      | waits =>
        obtain ⟨hlt, hrest, hb, htook'⟩ := hwait' rfl
        have hall := (htook.trans htook').stream
        rw [hrest, append_nil] at hall
        refine .waits (fun h => ?_) hwf (fun h => hb ((htook.trans htook').broken.mpr h)) rfl rfl
          (by rw [hall]; exact hload'.extent)
        have := h.2.2
        rw [hall] at this hlt
        omega
      | failure =>
        obtain ⟨hlt, x, hs, hx⟩ := hfail' rfl
        have hsing : singles csm.socket = (pre ++ post) ++ x :: singles rest' := by rw [htook.singles, hs, append_assoc]
        have hall : stream csm.socket = stream (pre ++ post) ++ stream (x :: singles rest') := by
          rw [← stream_singles csm.socket, hsing, stream_append]
        have hmsg' : msgLen (stream (pre ++ post)) = msgLen (stream csm.socket) := by rw [hall, msgLen_append _ h8']
        have hinc : ¬ Complete (stream (pre ++ post)) := fun h => by
          have := h.2.2
          rw [frameLen, hmsg', ← frameLen] at this
          omega
        have hpre : ¬ Complete (stream pre) := fun h => hinc (by rw [stream_append]; exact h.append _)
        refine .failure (stream (pre ++ post)).length (pre ++ post) ?_ (.inr ⟨hwf, hlen'⟩)
          ⟨?_, x, _, hsing, hx.imp_right fun ⟨hp, hmax⟩ => ⟨hp, pre, post, rfl,
            ?_, by omega⟩⟩ hinc (fun h => ?_) rfl rfl
          hload'.extent
        · rw [hall, length_append]
          omega
        · rw [broken_append]
          exact fun hb => hb.elim halive halive'
        · have := h.2
          rw [hmsg'] at this
          omega
        · rw [frames_of_not_complete hpre, frames_of_not_complete hinc]
      | done =>
        obtain ⟨hframe, htook'⟩ := hdone' rfl
        have hall := (htook.trans htook').stream
        have hmsg' : buf'.msgLen = msgLen (stream csm.socket) := by rw [hall, msgLen_append _ h8', hload'.msgLen h8']
        have htake : (stream csm.socket).take (frameLen (stream csm.socket)) = stream (pre ++ post) := by
          rw [← hframe]
          conv_lhs => rw [hall]
          exact take_left
        have hread : buf'.read (buf'.msgLen + msgLIncludUBitMsgTLFields) = stream (pre ++ post) := by
          rw [hmsg', ← frameLen, ← hframe]
          exact hload'.read
        have hfit : frameLen (stream csm.socket) ≤ (stream csm.socket).length := by
          rw [← hframe]
          conv_rhs => rw [hall]
          rw [length_append]
          omega
        refine .message (pre ++ post) ⟨by omega, hge, hfit⟩ hup ?_ (htook.trans htook') htake.symm ?_
        · rw [htake, ← hread]
        · rw [← hframe]
          exact hload'.extent
    next hge => exact .malformed ⟨h8 ▸ hle, Nat.not_le.mp hge⟩ rfl rfl (by rw [← h8]; exact hload.extent)

theorem calls_stopped {csm : Csm} (h : csm.session ≠ .up) : ∀ n, calls n csm = csm
  | 0 => rfl
  | n + 1 => by rw [calls, schedulerCsmReadCallback, if_neg h, calls_stopped h n]

def sessionAfter (n : Nat) (s : List UInt8) : Session :=
  if n ≤ (frames s).length then .up
  else if Malformed (leftover s) then .disconnected .invalidPeerMsg
  else .waiting

/-- What `n` calls made of the arrivals is what the stream has, however it was cut. A read that fails comes after all
frames of what had arrived before. -/
structure Framed (as : List Arrival) (n : Nat) (session : Session) (msgs : List (List UInt8)) : Prop where
  whole : session ≠ .disconnected .readFailure →
    msgs = (frames (stream as)).take n ∧ session = sessionAfter n (stream as)
  failure : session = .disconnected .readFailure → ∃ before, Stopped as before ∧ msgs = frames (stream before) ∧
    msgs.length < n ∧ ¬ Malformed (leftover (stream before))
  alive : session = .waiting → ¬ broken as

theorem frames_append {m : List UInt8} (hc : Complete (m ++ s)) (hm : frameLen (m ++ s) = m.length) :
    frames (m ++ s) = m :: frames s ∧ leftover (m ++ s) = leftover s := by
  rw [frames_of_complete hc, leftover_of_complete hc, hm, take_left, drop_left]
  exact ⟨rfl, rfl⟩

theorem Framed.message {n : Nat} {session : Session} {msgs : List (List UInt8)}
    (h : Framed rest n session msgs) (hc : Complete (stream as)) (htook : Took as rest pre)
    (hpre : stream pre = (stream as).take (frameLen (stream as))) :
    Framed as (n + 1) session ((stream as).take (frameLen (stream as)) :: msgs) := by
  obtain ⟨hwhole, hfail, halive⟩ := h
  have hlen : (stream pre).length = frameLen (stream as) := by rw [hpre, length_take_of_le hc.2.2]
  have hself : Complete (stream pre) := by
    have h8 : sizeofLdpHdr ≤ (stream pre).length := by
      rw [hlen]
      have := hc.2.1
      simp only [frameLen, sizeofLdpHdr, msgLIncludUBitMsgTLFields] at this ⊢
      omega
    have hmsg : msgLen (stream pre) = msgLen (stream as) := by rw [htook.stream, msgLen_append _ h8]
    exact ⟨h8, by rw [hmsg]; exact hc.2.1, by rw [frameLen, hmsg, hlen, frameLen]⟩
  have hmsg : frameLen (stream pre) = (stream pre).length := by
    rw [hlen, frameLen, frameLen, htook.stream, msgLen_append _ hself.1]
  have happend (s : List UInt8) : frames (stream pre ++ s) = stream pre :: frames s ∧
      leftover (stream pre ++ s) = leftover s :=
    frames_append (hself.append s) (by rw [frameLen, msgLen_append _ hself.1, ← frameLen, hmsg])
  obtain ⟨hf, hl⟩ := happend (stream rest)
  rw [← htook.stream] at hf hl
  rw [← hpre]
  refine ⟨fun hne => ?_, fun he => ?_, fun he hb => halive he (htook.broken.mpr hb)⟩
  · obtain ⟨hmsgs, hsession⟩ := hwhole hne
    rw [hf, take_succ_cons, hmsgs, hsession, sessionAfter, sessionAfter, hf, hl, length_cons]
    simp only [Nat.add_le_add_iff_right, and_self]
  · obtain ⟨before, hstop, hmsgs, hn, hmal⟩ := hfail he
    obtain ⟨x, after, hs, hx⟩ := hstop.cause
    refine ⟨pre ++ before, ⟨?_, x, after, by rw [htook.singles, hs, append_assoc], hx.imp_right ?_⟩, ?_, ?_, ?_⟩
    · rw [broken_append]
      exact fun hb => hb.elim htook.alive hstop.alive
    · rintro ⟨hpause, p, q, rfl, hsame, hmax⟩
      refine ⟨hpause, pre ++ p, q, (append_assoc _ _ _).symm, ?_, hmax⟩
      rw [stream_append, stream_append pre, (happend _).1, (happend _).1, length_cons, length_cons, hsame]
    · rw [stream_append, (happend _).1, hmsgs]
    · rw [length_cons]
      omega
    · rwa [stream_append, (happend _).2]

theorem framed_nil {n : Nat} (hc : ¬ Complete (stream as)) {session : Session}
    (hs : session = if Malformed (stream as) then .disconnected .invalidPeerMsg else .waiting)
    (ha : session = .waiting → ¬ broken as) : Framed as (n + 1) session [] := by
  have hne : session ≠ .disconnected .readFailure := by
    rw [hs]
    split <;> exact nofun
  refine ⟨fun _ => ?_, fun he => absurd he hne, ha⟩
  rw [sessionAfter, frames_of_not_complete hc, leftover_of_not_complete hc, hs]
  exact ⟨rfl, by simp⟩

theorem calls_framed (n : Nat) : ∀ {csm : Csm}, csm.session = .up →
    ∃ msgs, (calls n csm).queue = csm.queue ++ msgs ∧ Framed csm.socket n (calls n csm).session msgs := by
  induction n with
  | zero =>
    intro csm hup
    refine ⟨[], (append_nil _).symm, fun _ => ⟨rfl, ?_⟩, fun he => ?_, fun he => ?_⟩
    · rw [calls, hup, sessionAfter, if_pos (Nat.zero_le _)]
    · rw [calls, hup] at he
      cases he
    · rw [calls, hup] at he
      cases he
  | succ n ih =>
    intro csm hup
    rw [calls]
    cases callback_outcome hup with
    | message pre hc hsession hqueue htook hframe hextent =>
      obtain ⟨msgs, hmsgs, hframed⟩ := ih hsession
      refine ⟨_, ?_, hframed.message hc htook hframe⟩
      rw [hmsgs, hqueue, append_assoc]
      rfl
    | waits hc hm halive hsession hqueue hextent =>
      rw [calls_stopped (by rw [hsession]; exact nofun), hqueue, hsession]
      exact ⟨[], (append_nil _).symm, framed_nil hc (by rw [if_neg hm]) fun _ => halive⟩
    | malformed hm hsession hqueue hextent =>
      rw [calls_stopped (by rw [hsession]; exact nofun), hqueue, hsession]
      exact ⟨[], (append_nil _).symm, framed_nil hm.not_complete (by rw [if_pos hm]) nofun⟩
    | failure len before harrived hwanted hstop hinc hwf hsession hqueue hextent =>
      rw [calls_stopped (by rw [hsession]; exact nofun), hqueue, hsession]
      refine ⟨[], (append_nil _).symm, fun hne => absurd rfl hne, fun _ => ⟨before, hstop, ?_, Nat.succ_pos n, ?_⟩,
        nofun⟩
      · rw [frames_of_not_complete hinc]
      · rwa [leftover_of_not_complete hinc]

/-! ## How far the buffer is written -/

/-- Every frame of the stream goes into the buffer, and so does the start of one that is not there yet. -/
def Fits (s : List UInt8) : Prop :=
  (∀ m ∈ frames s, m.length ≤ csmBufferSize) ∧
    (Malformed (leftover s) ∨ (leftover s).length ≤ csmBufferSize)

theorem fits_of_complete (h : Complete s) :
    Fits s ↔ frameLen s ≤ csmBufferSize ∧ Fits (s.drop (frameLen s)) := by
  rw [Fits, Fits, frames_of_complete h, leftover_of_complete h, forall_mem_cons,
    length_take_of_le h.2.2, and_assoc]

theorem fits_of_not_complete (h : ¬ Complete s) :
    Fits s ↔ Malformed s ∨ s.length ≤ csmBufferSize := by
  simp_all [Fits, frames_of_not_complete, leftover_of_not_complete]

theorem sizeofLdpHdr_le : sizeofLdpHdr ≤ csmBufferSize := by decide

theorem len_le_of_fits {len : Nat} (hs : Fits s) (ha : len ≤ s.length)
    (hw : len ≤ sizeofLdpHdr ∨ ¬ Malformed s ∧ len ≤ frameLen s) : len ≤ csmBufferSize := by
  grind [fits_of_complete, sizeofLdpHdr_le, fits_of_not_complete]

theorem calls_inside (n : Nat) : ∀ {csm : Csm}, csm.session = .up → Fits (stream csm.socket) →
    csm.buf.extent ≤ csmBufferSize → (calls n csm).buf.extent ≤ csmBufferSize := by
  induction n with
  | zero => exact fun _ _ h => h
  | succ n ih =>
    intro csm hup hfits hext
    rw [calls]
    cases callback_outcome hup with
    | message pre hc hsession hqueue htook hframe hextent =>
      have hrest := htook.drop hframe
      grind [fits_of_complete]
    | waits hc hm halive hsession hqueue hextent => grind [calls_stopped, fits_of_not_complete]
    | malformed hm hsession hqueue hextent => grind [calls_stopped, sizeofLdpHdr_le]
    | failure len before harrived hwanted hstop hinc hwf hsession hqueue hextent => grind
        [calls_stopped, len_le_of_fits]

theorem extent_le_callback (csm : Csm) : csm.buf.extent ≤ (schedulerCsmReadCallback csm).buf.extent := by
  by_cases hup : csm.session = .up
  · cases callback_outcome hup with
    | message _ _ _ _ _ _ hextent => exact hextent ▸ le_max_left _ _
    | waits _ _ _ _ _ hextent => exact hextent ▸ le_max_left _ _
    | malformed _ _ _ hextent => exact hextent ▸ le_max_left _ _
    | failure _ _ _ _ _ _ _ _ _ hextent => exact hextent ▸ le_max_left _ _
  · rw [schedulerCsmReadCallback, if_neg hup]

theorem extent_le_calls : ∀ (n : Nat) (csm : Csm), csm.buf.extent ≤ (calls n csm).buf.extent
  | 0, _ => Nat.le_refl _
  | n + 1, csm => (extent_le_callback csm).trans (extent_le_calls n _)

theorem fits_of_inside (n : Nat) : ∀ {csm : Csm}, csm.session = .up → (frames (stream csm.socket)).length < n →
    (calls n csm).session ≠ .disconnected .readFailure → (calls n csm).buf.extent ≤ csmBufferSize →
    Fits (stream csm.socket) := by
  induction n with
  | zero => simp
  | succ n ih =>
    intro csm hup hn hne hext
    rw [calls] at hne hext
    have hstep := (extent_le_calls n _).trans hext
    cases callback_outcome hup with
    | message pre hc hsession hqueue htook hframe hextent =>
      have hrest := htook.drop hframe
      grind [frames_of_complete, fits_of_complete]
    | waits hc hm halive hsession hqueue hextent => grind [fits_of_not_complete]
    | malformed hm hsession hqueue hextent => exact (fits_of_not_complete hm.not_complete).mpr (.inl hm)
    | failure len before harrived hwanted hstop hinc hwf hsession hqueue hextent => grind [calls_stopped]

def connected (mem : Nat → UInt8) (as : List Arrival) : Csm := ⟨.up, ⟨mem, 0⟩, [], as⟩

def arrive : List UInt8 → List Arrival
  | [] => []
  | b :: bs => [.bytes b bs]

theorem stream_arrive (s : List UInt8) : stream (arrive s) = s := by
  cases s with
  | nil => rfl
  | cons b bs => exact append_nil _

theorem arrive_alive {before : List Arrival} : ¬ Stopped (arrive s) before := by
  rintro ⟨-, x, after, hs, hx⟩
  have hmem : x ∈ singles (arrive s) := by
    rw [hs]
    exact mem_append_right _ mem_cons_self
  have hbyte : ∃ b, x = .bytes b [] := by
    cases s with
    | nil => cases hmem
    | cons b bs =>
      rw [arrive, singles, flatMap_cons, flatMap_nil, append_nil] at hmem
      obtain ⟨c, -, rfl⟩ := mem_map.mp hmem
      exact ⟨c, rfl⟩
  obtain ⟨b, rfl⟩ := hbyte
  rcases hx with (hx | hx) | ⟨hx, -⟩ <;> cases hx

theorem connected_framed (mem : Nat → UInt8) (as : List Arrival) (n : Nat) :
    Framed as n (calls n (connected mem as)).session (calls n (connected mem as)).queue := by
  obtain ⟨msgs, hmsgs, hframed⟩ := calls_framed n (show (connected mem as).session = .up from rfl)
  grind [connected]

theorem framed_inside_iff (s : List UInt8) :
    (∀ (mem : Nat → UInt8) (as : List Arrival) (n : Nat), stream as = s →
      Framed as n (calls n (connected mem as)).session (calls n (connected mem as)).queue ∧
        (calls n (connected mem as)).buf.extent ≤ csmBufferSize) ↔ Fits s := by
  constructor
  · intro h
    -- one read that gets everything, and a call more than there are frames
    obtain ⟨hframed, hext⟩ := h (fun _ => 0) (arrive s) ((frames s).length + 1) (stream_arrive s)
    have hup : (connected (fun _ => 0) (arrive s)).session = .up := rfl
    have hs : stream (connected (fun _ => 0) (arrive s)).socket = s := stream_arrive s
    rw [← hs]
    refine fits_of_inside ((frames s).length + 1) hup ?_ ?_ hext
    · rw [hs]
      exact Nat.lt_succ_self _
    · exact fun he => arrive_alive (hframed.failure he).choose_spec.1
  · intro hfits mem as n hs
    refine ⟨connected_framed mem as n, calls_inside n rfl ?_ (Nat.zero_le _)⟩
    rw [show stream (connected mem as).socket = s from hs]
    exact hfits

def longest : List UInt8 := [0, 0, 255, 255, 0, 0, 0, 0] ++ List.replicate 65531 0

theorem length_longest : longest.length = 65539 := by
  rw [longest, length_append, length_replicate]
  rfl

theorem msgLen_longest : msgLen longest = 65535 := by
  rw [longest, msgLen_append _ (Nat.le_refl _)]
  rfl

theorem complete_longest : Complete longest := by
  rw [Complete, frameLen, length_longest, msgLen_longest]
  decide

theorem longest_outside :
    ¬ (calls 1 (connected (fun _ => 0) (arrive longest))).buf.extent ≤ csmBufferSize := by
  have hs : stream (connected (fun _ => 0) (arrive longest)).socket = longest := stream_arrive longest
  have hup : (connected (fun _ => 0) (arrive longest)).session = .up := rfl
  rw [calls, calls]
  cases callback_outcome hup with
  | message _ _ _ _ _ _ hextent =>
    rw [hextent, hs, frameLen, msgLen_longest]
    decide
  | waits hc => exact absurd complete_longest (hs ▸ hc)
  | malformed hm => exact absurd complete_longest (hs ▸ hm).not_complete
  | failure _ _ _ _ hstop => exact (arrive_alive (s := longest) hstop).elim

end Sonic.IccpStream
