import Mathlib.Data.Int.Notation
import Mathlib.Data.Nat.Notation
import Mathlib.Logic.Function.Basic

/-!
# Context IDs

A new communicator needs a number that no other communicator has.  Each process hands out numbers
from blocks of its own (`contextIDCtl_t`); `Communicator::getNewContextID` decides which member of a
communicator does so, and distributes the number.

Only the local part of `getNewContextID` is here: who generates the number, and how.
-/

namespace Lampi

/-- `ULM_COMM_SELF`. -/
def ulmCommSelf : ℤ := 2

/-- `CTXIDBLOCKSIZE`. -/
def ctxIdBlockSize : ℤ := 10

/-- `contextIDCtl_t`, without the lock. -/
structure ContextIDCtl where
  nextID : ℤ
  outOfBounds : ℤ
  cycleSize : ℤ
  deriving DecidableEq, Repr

namespace ContextIDCtl

/-- The initial values of process `myproc` of `nprocs`. -/
def init (nprocs myproc : ℕ) : ContextIDCtl where
  nextID := ulmCommSelf + 1 + myproc * ctxIdBlockSize
  outOfBounds := ulmCommSelf + 1 + myproc * ctxIdBlockSize + ctxIdBlockSize
  cycleSize := ctxIdBlockSize * nprocs

/-- The number that is handed out, and what remains. -/
def generate (ctl : ContextIDCtl) : ℤ × ContextIDCtl :=
  let nextID := ctl.nextID + 1
  -- out of this process's range, so on to the next stripe
  if nextID = ctl.outOfBounds then
    (ctl.nextID, { ctl with
      nextID := nextID + (ctl.cycleSize - ctxIdBlockSize)
      outOfBounds := ctl.outOfBounds + ctl.cycleSize })
  else (ctl.nextID, { ctl with nextID := nextID })

end ContextIDCtl

/-- `Communicator::communicatorType`. -/
inductive CommunicatorType
  | intra
  | inter
  deriving DecidableEq, Repr

/-- The fields of `Communicator` that say who is in it: its type, the rank of the process, and the
global ranks of the members of both groups. -/
structure CommGroups where
  communicatorType : CommunicatorType
  procID : ℕ
  localGroup : List ℕ
  remoteGroup : List ℕ
  deriving DecidableEq, Repr

namespace CommGroups

/-- The process is the one that gets the new context ID. -/
def generateNewContextID (comm : CommGroups) : Bool :=
  match comm.communicatorType with
  | .intra => comm.procID == 0
  | .inter =>
    let localRoot := comm.localGroup.getD 0 0
    let remoteRoot := comm.remoteGroup.getD 0 0
    -- the comparison takes the larger of the two
    let minRoot := if remoteRoot > localRoot then remoteRoot else localRoot
    comm.procID == 0 && minRoot == localRoot

/-- `getNewContextID` up to the point where the number is distributed. -/
def getNewContextID (comm : CommGroups) (ctl : ContextIDCtl) : Option ℤ × ContextIDCtl :=
  if comm.generateNewContextID then (some ctl.generate.1, ctl.generate.2) else (none, ctl)

end CommGroups

/-- The counters of all processes, and the numbers handed out so far with who did so (history). -/
structure ContextIDs (nprocs : ℕ) where
  ctl : Fin nprocs → ContextIDCtl
  generated : List (Fin nprocs × ℤ)

namespace ContextIDs

variable {nprocs : ℕ}

def init (nprocs : ℕ) : ContextIDs nprocs where
  ctl myproc := ContextIDCtl.init nprocs myproc
  generated := []

def step (s : ContextIDs nprocs) (call : Fin nprocs × CommGroups) : ContextIDs nprocs :=
  let result := call.2.getNewContextID (s.ctl call.1)
  { ctl := Function.update s.ctl call.1 result.2
    generated := s.generated ++ (result.1.map fun id => (call.1, id)).toList }

def run (s : ContextIDs nprocs) (calls : List (Fin nprocs × CommGroups)) : ContextIDs nprocs :=
  calls.foldl step s

end ContextIDs

end Lampi
