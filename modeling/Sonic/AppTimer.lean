import Mathlib.Data.Nat.ModEq
import Mathlib.Logic.Function.Basic
import Mathlib.Tactic.Common
import Sonic.Run
import Sonic.Sll

/-! # Application timers of PAC

Timers live in two ordered lists: those that expire before the 32-bit clock wraps and those that
expire after. `appTimerProcess` runs the expiry functions of the first list and swaps the lists when
it sees that the clock has wrapped since `prevTime`, the time of its last return. -/

namespace Sonic.AppTimer

/-! ## The library -/

structure TimerNode where
  handle : Nat
  expiryFn : Option Nat
  pParam : Option Nat
  expiryTime : Nat
  deriving DecidableEq

def appTimerCompare (a b : TimerNode) : Int :=
  let diff : Nat := (a.expiryTime + 2 ^ 32 - b.expiryTime) % 2 ^ 32
  if diff < 2 ^ 31 then diff else (diff : Int) - 2 ^ 32

inductive Granularity where
  | msec1
  | msec10
  | msec100
  | sec1
  deriving DecidableEq

def Granularity.msec : Granularity → Nat
  | .msec1 => 1
  | .msec10 => 10
  | .msec100 => 100
  | .sec1 => 1000

structure CtrlBlk where
  type : Granularity
  tmrList : List TimerNode
  wrapTmrList : List TimerNode
  prevTime : Nat

def placeNode (blk : CtrlBlk) (currTime : Nat) (node : TimerNode) : CtrlBlk :=
  if node.expiryTime < currTime ∨ currTime < blk.prevTime then
    { blk with wrapTmrList := Sll.add appTimerCompare node blk.wrapTmrList }
  else { blk with tmrList := Sll.add appTimerCompare node blk.tmrList }

def expiryTime (blk : CtrlBlk) (currTime timeOut : Nat) : Nat := (currTime + timeOut * blk.type.msec) % 2 ^ 32

def appTimerAddNode (blk : CtrlBlk) (currTime handle : Nat) (pFunc pParam : Option Nat) (timeOut : Nat) : CtrlBlk :=
  placeNode blk currTime ⟨handle, pFunc, pParam, expiryTime blk currTime timeOut⟩

def takeNode (blk : CtrlBlk) (handle : Nat) : Option (TimerNode × CtrlBlk) :=
  match Sll.nodeRemove (·.handle = handle) blk.tmrList with
  | some (node, l) => some (node, { blk with tmrList := l })
  | none =>
    match Sll.nodeRemove (·.handle = handle) blk.wrapTmrList with
    | some (node, l) => some (node, { blk with wrapTmrList := l })
    | none => none

def appTimerDelete (blk : CtrlBlk) (handle : Nat) : CtrlBlk := ((takeNode blk handle).map Prod.snd).getD blk

def appTimerUpdate (blk : CtrlBlk) (currTime fresh : Nat) (timerHandle pFunc pParam : Option Nat) (timeOut : Nat) :
    CtrlBlk × Nat :=
  match timerHandle.bind (takeNode blk) with
  | none => (appTimerAddNode blk currTime fresh pFunc pParam timeOut, fresh)
  | some (node, blk') =>
    let node' := ⟨node.handle, pFunc.or node.expiryFn, pParam.or node.pParam, expiryTime blk currTime timeOut⟩
    (placeNode blk' currTime node', node.handle)

inductive Phase where
  | idle
  | loop
  | wrapped
  deriving DecidableEq

def processWrapped (blk : CtrlBlk) : CtrlBlk × Phase × Option TimerNode :=
  match blk.tmrList with
  | node :: l => ({ blk with tmrList := l }, .wrapped, some node)
  | [] => ({ blk with tmrList := blk.wrapTmrList, wrapTmrList := [], prevTime := 0 }, .loop, none)

def processLoop (blk : CtrlBlk) (currTime : Nat) : CtrlBlk × Phase × Option TimerNode :=
  if blk.prevTime ≤ currTime then
    match blk.tmrList with
    | node :: l =>
      if currTime < node.expiryTime then
        ({ blk with tmrList := Sll.atStartPush appTimerCompare node l, prevTime := currTime }, .idle, none)
      else ({ blk with tmrList := l }, .loop, some node)
    | [] => ({ blk with prevTime := currTime }, .idle, none)
  else processWrapped blk

/-! ## Timers in real time -/

structure Expiry where
  handle : Nat
  pFunc : Nat
  pParam : Option Nat
  time : Nat
  deadline : Option Nat

structure Sys where
  blk : CtrlBlk
  phase : Phase
  now : Nat
  fresh : Nat
  pending : Nat → Option Nat
  expired : List Expiry
  deleted : List Nat
  -- when `appTimerProcess` last took the time, and when it last returned
  sampled : Nat
  returned : Nat

def Sys.new (type : Granularity) (now : Nat) : Sys :=
  ⟨⟨type, [], [], now % 2 ^ 32⟩, .idle, now, 0, fun _ => none, [], [], now, now⟩

inductive Event where
  | advance (msec : Nat)
  | add (pFunc pParam : Option Nat) (timeOut : Nat)
  | update (timerHandle pFunc pParam : Option Nat) (timeOut : Nat)
  | delete (handle : Nat)
  | process

def Sys.currTime (s : Sys) : Nat := s.now % 2 ^ 32

def Sys.deadline (s : Sys) (timeOut : Nat) : Nat := s.now + timeOut * s.blk.type.msec

def Sys.expire (s : Sys) (node : TimerNode) : Sys :=
  { s with
    pending := Function.update s.pending node.handle none
    expired := match node.expiryFn with
      | some pFunc => s.expired ++ [⟨node.handle, pFunc, node.pParam, s.now, s.pending node.handle⟩]
      | none => s.expired }

def Sys.turn (s : Sys) (sampled : Nat) (t : CtrlBlk × Phase × Option TimerNode) : Sys :=
  let s' := { s with
    blk := t.1
    phase := t.2.1
    sampled := sampled
    returned := if t.2.1 = .idle then s.now else s.returned }
  match t.2.2 with
  | some node => s'.expire node
  | none => s'

def Sys.process (s : Sys) : Sys :=
  match s.phase with
  | .wrapped => s.turn s.sampled (processWrapped s.blk)
  | _ => s.turn s.now (processLoop s.blk s.currTime)

def step (s : Sys) : Event → Option Sys
  | .advance msec => some { s with now := s.now + msec }
  | .add pFunc pParam timeOut =>
    if pFunc = none then some s
    else some { s with
      blk := appTimerAddNode s.blk s.currTime s.fresh pFunc pParam timeOut
      fresh := s.fresh + 1
      pending := Function.update s.pending s.fresh (some (s.deadline timeOut)) }
  | .update timerHandle pFunc pParam timeOut =>
    let turn := appTimerUpdate s.blk s.currTime s.fresh timerHandle pFunc pParam timeOut
    some { s with
      blk := turn.1
      fresh := s.fresh + 1
      pending := Function.update s.pending turn.2 (some (s.deadline timeOut)) }
  | .delete handle => some { s with
      blk := appTimerDelete s.blk handle
      pending := Function.update s.pending handle none
      deleted := s.deleted ++ [handle] }
  | .process => some s.process

/-- Timers are of at least one tick and at most `timeOutMax`, calls are on pending timers, and no more than `gapMax`
passes from `since` on. -/
def callOk (timeOutMax gapMax : Nat) (since : Sys → Nat) (s : Sys) : Event → Prop
  | .advance msec => s.now + msec ≤ since s + gapMax
  | .add _ _ timeOut => 1 ≤ timeOut ∧ timeOut * s.blk.type.msec ≤ timeOutMax
  | .update timerHandle _ _ timeOut =>
    (∀ handle, timerHandle = some handle → (s.pending handle).isSome) ∧
    1 ≤ timeOut ∧ timeOut * s.blk.type.msec ≤ timeOutMax
  | .delete handle => (s.pending handle).isSome
  | .process => True

instance (timeOutMax gapMax : Nat) (since : Sys → Nat) (s : Sys) :
    ∀ e, Decidable (callOk timeOutMax gapMax since s e)
  | .advance _ => inferInstanceAs (Decidable (_ ≤ _))
  | .add _ _ _ => inferInstanceAs (Decidable (_ ∧ _))
  | .update none _ _ timeOut =>
    decidable_of_iff (1 ≤ timeOut ∧ timeOut * s.blk.type.msec ≤ timeOutMax) (by simp [callOk])
  | .update (some handle) _ _ timeOut =>
    decidable_of_iff ((s.pending handle).isSome ∧ 1 ≤ timeOut ∧ timeOut * s.blk.type.msec ≤ timeOutMax)
      (by simp [callOk])
  | .delete _ => inferInstanceAs (Decidable (_ = true))
  | .process => inferInstanceAs (Decidable True)

end Sonic.AppTimer
