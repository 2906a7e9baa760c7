import Lampi.Collective.ReduceHosts
import Lampi.Mpi.TypePack

/-!
# The stripes of the collective operations, and allgather

`initializeCollectives` divides the shared buffer of a host among all places that the hosts may
need, as many for each host as there are processes on the largest one.  `ulm_allgather` collects the
data of all ranks in the shared buffer, in one stripe or in several, and every process then copies
each rank's part to its receive buffer.  The model says which part of the data of which rank a
process copies where.
-/

namespace Lampi

namespace ReduceComm

variable (comm : ReduceComm)

/-- `maxLocalProcs`. -/
def maxLocalProcs : ℕ := Table.maxOf UlmHostInfo.nGroupProcIDOnHost comm.group.groupHostData

/-- `perRankStripeSize`.  The number of places is an `int`. -/
def perRankStripeSize : ℤ :=
  let size :=
    (comm.maxLength : ℤ).tdiv (intT (comm.group.numberOfHostsInGroup * comm.maxLocalProcs))
  size.tdiv cacheAlignment * cacheAlignment

/-- `localStripeSize`, as a `size_t`. -/
def localStripeSize : ℕ := sizeT (comm.perRankStripeSize * comm.maxLocalProcs)

end ReduceComm

/-- The bytes of `rank` from `rankOffset` on, copied as part of data that begins at
`destination`. -/
structure GatherCopy where
  rank : ℕ
  destination : ℕ
  rankOffset : ℤ
  bytes : ℤ
  deriving DecidableEq, Repr

namespace ulmAllgather

variable (comm : ReduceComm) (dataHostOrder : List ℕ) (recvcount : ℕ) (recvtype : CommittedType)

/-- `recvcount * packed_size`. -/
def maxBytesPerProc : ℕ := sizeT (recvcount * recvtype.packedSize)

/-- `rank * recvcount * extent`: the first product is an `int`, the second a `size_t`. -/
def destination (rank : ℕ) : ℕ := sizeT (intT (rank * recvcount) * recvtype.extent)

/-- `copyDataFromSharedBufferGather1Stripe`. -/
def copyDataFromSharedBufferGather1Stripe : List GatherCopy :=
  (dataHostOrder.flatMap comm.group.procsOn).map fun sourceRank =>
    ⟨sourceRank, destination recvcount recvtype sourceRank, 0, maxBytesPerProc recvcount recvtype⟩

/-- `bytesToCopyNow`: what is left for this stripe, and at most what fits. -/
def bytesToCopyNow (stripeID : ℕ) : ℤ :=
  let left := maxBytesPerProc recvcount recvtype - stripeID * comm.perRankStripeSize
  if left > comm.perRankStripeSize then comm.perRankStripeSize else left

/-- `copyDataFromSharedBufferMultipleStripesAllGather`.  Contiguous data goes to
`destination + rankOffset`; each process begins with another rank of a host. -/
def copyDataFromSharedBufferMultipleStripesAllGather (stripeID : ℕ) : List GatherCopy :=
  let rankOffset := stripeID * comm.perRankStripeSize
  let bytes := bytesToCopyNow comm recvcount recvtype stripeID
  let copy groupRank : GatherCopy :=
    ⟨groupRank, destination recvcount recvtype groupRank, rankOffset, bytes⟩
  if recvtype.contiguous then
    (dataHostOrder.flatMap fun host =>
      let ranks := comm.group.procsOn host
      ranks.rotate (comm.group.onHostProcID % ranks.length)).map copy
  else if bytes > 0 then (dataHostOrder.flatMap comm.group.procsOn).map copy
  else []

/-- `numStripes`, from the numbers of processes on the hosts; none for a division by zero. -/
def numStripes : Option ℤ :=
  comm.group.groupHostData.foldlM (fun numStripes host =>
    let totalBytes := sizeT (intT (host.nGroupProcIDOnHost * recvcount) * recvtype.packedSize)
    if totalBytes = 0 then some 1
    else if comm.localStripeSize = 0 then none
    else
      let nStripesOnThisHost := intT ((totalBytes - 1) / comm.localStripeSize + 1 : ℕ)
      some (if nStripesOnThisHost > numStripes then nStripesOnThisHost else numStripes)) 0

end ulmAllgather

open ulmAllgather in
/-- The copies that `ulm_allgather` makes to the receive buffer; none for a division by zero. -/
def ulmAllgather (comm : ReduceComm) (dataHostOrder : List ℕ) (recvcount : ℕ)
    (recvtype : CommittedType) : Option (List GatherCopy) := do
  if (← numStripes comm recvcount recvtype) > 1 then
    let numStripes := intT (sizeT (maxBytesPerProc recvcount recvtype - 1) /
      sizeT comm.perRankStripeSize + 1 : ℕ)
    return (List.range numStripes.toNat).flatMap
      (copyDataFromSharedBufferMultipleStripesAllGather comm dataHostOrder recvcount recvtype)
  else return copyDataFromSharedBufferGather1Stripe comm dataHostOrder recvcount recvtype

end Lampi
