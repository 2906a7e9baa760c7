import Mathlib.Data.Int.Notation
import Mathlib.Logic.Relation
import Lampi.Lib.MessagePassing

/-!
# The point-to-point barrier

`ulm_barrier_p2p` lets the processes exchange empty messages by recursive doubling.  With `nproc2`
the largest power of two up to the number of processes, the processes from `nproc2` on tell process
`self - nproc2` that they are here, the others exchange messages with `self ^ mask` for growing
masks, and then the former are told that all are here.

A process runs the program once it has entered the barrier; it has returned when its program is
done.
-/

namespace Lampi

open MessagePassing

/-- A process that sends and receives empty messages. -/
abbrev BarrierProc := Proc ℕ ℤ PUnit.{1} PUnit.{1}

namespace UlmBarrierP2p

/-- The loop that computes `nproc2`, with a bound on the number of its rounds. -/
def doubleUp : ℕ → ℕ → ℕ → ℕ
  | 0, _, nproc2 => nproc2
  | rounds + 1, n, nproc2 =>
    if n >>> 1 ≠ 0 then doubleUp rounds (n >>> 1) (nproc2 <<< 1) else nproc2

/-- `nproc2`. -/
def nproc2 (nproc : ℕ) : ℕ := doubleUp nproc nproc 1

/-- The setup phase on process `self`. -/
def setupPhase (nproc self : ℕ) (tag : ℤ) : BarrierProc := do
  if nproc ≠ nproc2 nproc then
    if self < nproc2 nproc ∧ self + nproc2 nproc < nproc then
      Proc.recvFrom (self + nproc2 nproc) tag
    else if self ≥ nproc2 nproc then
      Proc.sendTo (self - nproc2 nproc) tag ⟨⟩

/-- The loop of the main phase, with a bound on its rounds.  The receive is posted before the
send. -/
def mainPhase (nproc self : ℕ) (tag : ℤ) : ℕ → ℕ → BarrierProc
  | 0, _ => pure ⟨⟩
  | rounds + 1, mask =>
    if mask < nproc2 nproc then do
      Proc.sendTo (self ^^^ mask) tag ⟨⟩
      Proc.recvFrom (self ^^^ mask) tag
      mainPhase nproc self tag rounds (mask <<< 1)
    else pure ⟨⟩

def finalPhase (nproc self : ℕ) (tag : ℤ) : BarrierProc := do
  if nproc ≠ nproc2 nproc then
    if self < nproc2 nproc ∧ self + nproc2 nproc < nproc then
      Proc.sendTo (self + nproc2 nproc) tag ⟨⟩
    else if self ≥ nproc2 nproc then
      Proc.recvFrom (self - nproc2 nproc) tag

end UlmBarrierP2p

open UlmBarrierP2p in
/-- `ulm_barrier_p2p` on process `self`. -/
def ulmBarrierP2p (nproc self : ℕ) (tag : ℤ) : BarrierProc := do
  setupPhase nproc self tag
  if self < nproc2 nproc then
    mainPhase nproc self tag nproc 1
  finalPhase nproc self tag

/-- Who has entered the barrier, and what the processes are doing. -/
structure BarrierState where
  entered : ℕ → Bool
  net : Net ℕ ℤ PUnit.{1} PUnit.{1}

namespace BarrierState

def init (nproc : ℕ) (tag : ℤ) : BarrierState where
  entered _ := false
  net :=
    { procs := fun self => if self < nproc then ulmBarrierP2p nproc self tag else pure ⟨⟩
      chan := Chan.empty }

/-- A process enters, or a process that has entered takes a step. -/
inductive Step (nproc : ℕ) : BarrierState → BarrierState → Prop
  | enter (s : BarrierState) (self : ℕ) (hself : self < nproc) (h : s.entered self = false) :
      Step nproc s { s with entered := Function.update s.entered self true }
  | step (s : BarrierState) (self : ℕ) (h : s.entered self = true)
      (net' : Net ℕ ℤ PUnit.{1} PUnit.{1}) (hstep : stepOf self s.net = some net') :
      Step nproc s { s with net := net' }

/-- Some run from the start leads to the state. -/
def Reachable (nproc : ℕ) (tag : ℤ) (s : BarrierState) : Prop :=
  Relation.ReflTransGen (Step nproc) (init nproc tag) s

def Returned (s : BarrierState) (self : ℕ) : Prop :=
  s.entered self = true ∧ s.net.procs self = .done ⟨⟩

end BarrierState

end Lampi
