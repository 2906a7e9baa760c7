import Lampi.Queue.Group

/-!
# Operations on groups

`ulm_group_union`, `ulm_group_intersection` and `ulm_group_difference`.  A group is the list of the
global ranks of its members; one without members has the handle `MPI_GROUP_EMPTY`, which is
negative.  Reference counts and failing allocations are left out.
-/

namespace Lampi

open Lampi.Group

inductive GroupHandle
  | groupEmpty
  /-- A group of the pool, with its `mapGroupProcIDToGlobalProcID`. -/
  | pool (procIDs : List ℕ)
  deriving DecidableEq, Repr

/-- The inner loop, which looks for a process in a group. -/
def foundInGroup (group : List ℕ) (globalProcID : ℕ) : Bool := group.any (· == globalProcID)

/-- The loop over the members of a group: some of them go to the end of `procIDs`. -/
def collectProcs (take : ℕ → Bool) : List ℕ → List ℕ → List ℕ
  | procIDs, [] => procIDs
  | procIDs, globalProcID :: group =>
    collectProcs take (if take globalProcID then procIDs ++ [globalProcID] else procIDs) group

/-- `getGroupElement` and `Group::create`. -/
def createGroup (procIDs : List ℕ) : Option GroupHandle :=
  if hasDuplicate procIDs then none else some (.pool procIDs)

def ulmGroupUnion : GroupHandle → GroupHandle → Option GroupHandle
  | .groupEmpty, group2 => some group2
  | group1, .groupEmpty => some group1
  | .pool grp1, .pool grp2 =>
    if grp1.length + grp2.length = 0 then some (.pool [])
    else createGroup (collectProcs (!foundInGroup grp1 ·) grp1 grp2)

def restrictGroup (take : ℕ → Bool) (grp1 : List ℕ) : Option GroupHandle :=
  let procIDs := collectProcs take [] grp1
  if procIDs.length = 0 then some .groupEmpty else createGroup procIDs

/-- `ulm_group_intersection`: at the handle `MPI_GROUP_EMPTY` it reads in front of the pool, and
nothing is defined. -/
def ulmGroupIntersection : GroupHandle → GroupHandle → Option GroupHandle
  | .pool grp1, .pool grp2 =>
    -- `MPI_ERR_GROUP`
    if grp1.length = 0 ∨ grp2.length = 0 then none else restrictGroup (foundInGroup grp2) grp1
  | _, _ => none

def ulmGroupDifference : GroupHandle → GroupHandle → Option GroupHandle
  | .groupEmpty, _ => some .groupEmpty
  | group1, .groupEmpty => some group1
  | .pool grp1, .pool grp2 =>
    if grp1.length + grp2.length = 0 then some .groupEmpty
    else restrictGroup (!foundInGroup grp2 ·) grp1

end Lampi
