import Mathlib.Data.Int.Notation
import Mathlib.Data.Nat.Notation

/-!
# Groups of new communicators

`ulm_comm_split` divides the members of a communicator by color and orders them by key;
`ulm_intercomm_merge` puts the two groups of an inter-communicator one after the other.  Both give
the list of members to `ulm_group_incl`.

What other processes contribute (through `ulm_gather`, `ulm_bcast` and `peerExchange`) is an
argument here.  A group is the list of the global ranks of its members
(`mapGroupProcIDToGlobalProcID`).  Failing allocations are left out.
-/

namespace Lampi

/-- The error codes that the functions return. -/
inductive MpiErr
  | arg
  | rank
  | other
  deriving DecidableEq, Repr

/-- `MPI_UNDEFINED`. -/
def mpiUndefined : ℤ := -1

/-! ### Groups -/

/-- The loop of `ulm_group_incl`.  An entry is `none` where the source reads one element past the
end of the table. -/
def inclRanks (group : List ℕ) : List ℤ → Except MpiErr (List (Option ℕ))
  | [] => .ok []
  | rank :: ranks =>
    if rank < 0 ∨ rank > group.length then .error .rank
    else (inclRanks group ranks).map (group[rank.toNat]? :: ·)

/-- `ulm_group_incl`.  The empty list stands for `MPI_GROUP_EMPTY`. -/
def ulmGroupIncl (group : List ℕ) (ranks : List ℤ) : Except MpiErr (List (Option ℕ)) :=
  if group = [] ∨ ranks.length = 0 then .ok []
  else if ranks.length > group.length then .error .rank
  else inclRanks group ranks

/-! ### `ulm_comm_split` -/

/-- What a process contributes to the gather. -/
def splitPair (color key : ℤ) : ℤ × ℤ := (color, if color = mpiUndefined then mpiUndefined else key)

/-- The loop that condenses the list of processes to those with this color, from process `proc`
on. -/
def condense (color : ℤ) : ℕ → List (ℤ × ℤ) → List ℕ
  | _, [] => []
  | proc, pair :: pairs =>
    if pair.1 = color then proc :: condense color (proc + 1) pairs
    else condense color (proc + 1) pairs

/-- The loop that finds the first available element.  The source has -1 for `none`. -/
def firstAvailable (listDone : List Bool) : Option ℕ := listDone.findIdx? (!·)

/-- The loop that finds the smallest value, over these elements. -/
def findSmallest (keys : List ℤ) (listDone : List Bool) : List ℕ → ℤ → ℕ → ℕ
  | [], _, minElement => minElement
  | i :: is, minValue, minElement =>
    if listDone.getD i false then findSmallest keys listDone is minValue minElement
    else if minValue > keys.getD i 0 then findSmallest keys listDone is (keys.getD i 0) i
    else findSmallest keys listDone is minValue minElement

/-- One round of the sort: the element it takes.  `keys` are those of the elements of `list`. -/
def selectElement (keys : List ℤ) (listDone : List Bool) : Option ℕ :=
  (firstAvailable listDone).map fun min =>
    findSmallest keys listDone (List.range' min (keys.length - min)) (keys.getD min 0) min

/-- The rounds of the sort that are left: the elements of `list` they take, in order. -/
def sortElements (list : List ℕ) (keys : List ℤ) : ℕ → List Bool → Option (List ℕ)
  | 0, _ => some []
  | rounds + 1, listDone =>
    (selectElement keys listDone).bind fun minElement =>
      (sortElements list keys rounds (listDone.set minElement true)).map
        (list.getD minElement 0 :: ·)

/-- `sortedList`, for this color. -/
def sortedList (allPairs : List (ℤ × ℤ)) (color : ℤ) : Option (List ℕ) :=
  let list := condense color 0 allPairs
  let keys := list.map fun proc => (allPairs.getD proc (0, 0)).2
  sortElements list keys list.length (List.replicate list.length false)

/-- `ulm_comm_split`, once all pairs are there: the group of the new communicator, or `none` for
`MPI_COMM_NULL`. -/
def ulmCommSplit (localGroup : List ℕ) (allPairs : List (ℤ × ℤ)) (color : ℤ) :
    Except MpiErr (Option (List (Option ℕ))) :=
  if color = mpiUndefined then .ok none
  else if color < 0 then .error .other
  else match sortedList allPairs color with
    -- never the case: some element is available in every round
    | none => .error .other
    | some ranks => (ulmGroupIncl localGroup (ranks.map Int.ofNat)).map some

/-! ### `ulm_intercomm_merge` -/

/-- All members of the local group gave the same value. -/
def allSame : List ℤ → Bool
  | [] => true
  | compareValue :: highs => highs.all (· == compareValue)

/-- The value of `high` once it is decided which group is first on the list. -/
def decideHigh (localGroup remoteGroup : List ℕ) (high remoteHigh : ℤ) : ℤ :=
  if high = remoteHigh then
    if localGroup.getD 0 0 > remoteGroup.getD 0 0 then 1 else 0
  else high

/-- `newGroup`. -/
def mergedGroup (localGroup remoteGroup : List ℕ) (high : ℤ) : List ℕ :=
  if high ≠ 0 then remoteGroup ++ localGroup else localGroup ++ remoteGroup

/-- `ulm_intercomm_merge` in a job of `nprocs` processes, once the values of the local group and
that of the remote leader are there: the group of the new communicator. -/
def ulmIntercommMerge (nprocs : ℕ) (localGroup remoteGroup : List ℕ) (allLocalHighs : List ℤ)
    (high remoteHigh : ℤ) : Except MpiErr (List (Option ℕ)) :=
  if allSame allLocalHighs then
    let high := decideHigh localGroup remoteGroup high remoteHigh
    ulmGroupIncl (List.range nprocs) ((mergedGroup localGroup remoteGroup high).map Int.ofNat)
  else .error .arg

end Lampi
