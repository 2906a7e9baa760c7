import Lampi.Collective.Reduce
import Lampi.Lib.SharedMemory
import Lampi.Mpi.Datatype
import Lampi.Queue.HostLayout

/-!
# Reduce for operations that commute

If the operation commutes, the processes combine their contributions in a logarithmic fan-in.
Without shared memory, or for objects that are too large for it, that is `ulm_reduce_p2p`, over all
processes.  Otherwise those of each host do so in the shared memory of the host first
(`ulm_reduce_intrahost`), and then one process of each host takes part in a fan-in over the hosts
(`ulm_reduce_interhost`).

On a host every process has a segment of the shared buffer, with two flag words and room for a block
of objects.  A process that is to be read puts the number of its reader in its flag and waits until
the reader has cleared it.  Which of the two flags is used alternates from round to round.

The first process that finds the buffer with an older tag clears the flags, under the lock of the
buffer and before anybody uses them; the model starts with the flags cleared.
-/

namespace Lampi

open MessagePassing SharedMemory

/-- A flag word in the shared buffer of a host: the segment and the parity. -/
structure ReduceFlag where
  host : ℕ
  proc : ℕ
  parity : ℕ
  deriving DecidableEq, Repr

/-- Room for one object in the shared buffer of a host: the segment and the place in it. -/
structure ReduceCell where
  host : ℕ
  proc : ℕ
  index : ℕ
  deriving DecidableEq, Repr

variable {α : Type}

/-- A process that uses the shared buffer of its host. -/
abbrev HostProg (α β : Type) := Prog ℕ ℤ (List α) ReduceFlag ReduceCell α β

/-- The datatype of the objects, with the extent that determines how many fit in a segment. -/
structure ReduceHostType extends ReduceType where
  extent : ℕ

/-! ### Fan-in by messages -/

/-- The loop of a fan-in over `nnode` nodes, on node `self`, with a bound on the number of its
rounds.  It ends when the node has sent its result. -/
def logFanIn (op : ULMOp α) (nnode self : ℕ) (peerOf : ℕ → ℕ) (tag : ℤ) :
    ℕ → ℕ → List α → RankProc α (List α)
  | 0, _, rBuf => pure rBuf
  | rounds + 1, mask, rBuf =>
    if mask < nnode then
      let peer := self ^^^ mask
      if peer ≥ nnode then logFanIn op nnode self peerOf tag rounds (mask <<< 1) rBuf
      else if self < peer then do
        let buf ← Proc.recvFrom (peerOf peer) tag
        logFanIn op nnode self peerOf tag rounds (mask <<< 1) (op.call buf rBuf)
      else do
        Proc.sendTo (peerOf peer) tag rBuf
        return rBuf
    else pure rBuf

/-- `ulm_reduce_p2p` on process `self`; the value of the receive buffer at the end. -/
def ulmReduceP2p (op : ULMOp α) (nproc self root : ℕ) (tag : ℤ) (count : ℕ)
    (sBuf : Option (List α)) (rBuf : List α) : RankProc α (List α) :=
  if count = 0 then pure rBuf
  else
    let rBuf := sBuf.getD rBuf
    if nproc = 1 then pure rBuf
    else
      let selfR := (self + nproc - root) % nproc
      logFanIn op nproc selfR (fun peerR => (peerR + root) % nproc) tag nproc 1 rBuf

/-- The process that represents a host: the root, or the first one on the host. -/
def ulmReduceInterhost.representative (group : Group) (root host : ℕ) : ℕ :=
  if host = group.hostOf root then root else (group.procsOn host).getD 0 0

/-- `ulm_reduce_interhost`; the value of the receive buffer at the end. -/
def ulmReduceInterhost (op : ULMOp α) (group : Group) (root : ℕ) (tag : ℤ) (count : ℕ)
    (sBuf : Option (List α)) (rBuf : List α) : RankProc α (List α) :=
  if count = 0 then pure rBuf
  else
    let rBuf := sBuf.getD rBuf
    let nhost := group.numberOfHostsInGroup
    if nhost = 1 then pure rBuf
    else
      let rootHost := group.hostOf root
      -- the others do not participate
      if group.self ≠ ulmReduceInterhost.representative group root group.selfHost then pure rBuf
      else
        let selfHostR := (group.selfHost + nhost - rootHost) % nhost
        logFanIn op nhost selfHostR
          (fun peerHostR =>
            ulmReduceInterhost.representative group root ((peerHostR + rootHost) % nhost))
          tag nhost 1 rBuf

/-! ### Fan-in in shared memory -/

namespace ulmReduceIntrahost

/-- The first `n` objects of a segment. -/
def cells (host proc n : ℕ) : List ReduceCell := (List.range n).map fun i => ⟨host, proc, i⟩

/-- One round of the fan-in on a host, for the process with number `self` relative to the root. -/
def phase (op : ULMOp α) (host nproc self n parity mask : ℕ) : HostProg α Unit :=
  let peer := self ^^^ mask
  if peer ≥ nproc then pure ()
  else if self < peer then do
    -- read from the peer
    Prog.setFlag ⟨host, self, parity⟩ peer
    Prog.waitFlag ⟨host, peer, parity⟩ (· == self)
    let invec ← Prog.loadAll (cells host peer n)
    let inoutvec ← Prog.loadAll (cells host self n)
    Prog.storeAll ((cells host self n).zip (op.call invec inoutvec))
    Prog.setFlag ⟨host, peer, parity⟩ (-1)
    Prog.setFlag ⟨host, self, parity⟩ (-1)
  else do
    -- signal the peer that the buffer is readable, and wait for it to finish reading
    Prog.setFlag ⟨host, self, parity⟩ peer
    Prog.waitFlag ⟨host, self, parity⟩ (· != peer)

/-- The loop over the masks, with a bound on the number of its rounds; the parity at the end. -/
def masks (op : ULMOp α) (host nproc self n : ℕ) : ℕ → ℕ → ℕ → HostProg α ℕ
  | 0, parity, _ => pure parity
  | rounds + 1, parity, mask =>
    if mask < nproc then do
      phase op host nproc self n parity mask
      masks op host nproc self n rounds (parity ^^^ 1) (mask <<< 1)
    else pure parity

/-- The loop over the blocks.  Each round takes at least one object, so `count` rounds are
enough. -/
def blocks (op : ULMOp α) (host nproc self blockCount : ℕ) :
    ℕ → ℕ → ℕ → List α → List α → HostProg α (List α)
  | 0, _, _, _, rp => pure rp
  | rounds + 1, parity, count, sp, rp =>
    if count > 0 then do
      let n := if blockCount < count then blockCount else count
      Prog.storeAll ((cells host self n).zip (sp.take n))
      let parity ← masks op host nproc self n nproc parity 1
      let front ← if self = 0 then Prog.loadAll (cells host self n) else pure (rp.take n)
      let rest ← blocks op host nproc self blockCount rounds parity (count - n)
        (sp.drop n) (rp.drop n)
      return front ++ rest
    else pure rp

end ulmReduceIntrahost

/-- The on-host number of the process that gets the result of its host: the root, or the first one
on the host. -/
def ulmReduceIntrahost.rootOnhost (group : Group) (root : ℕ) : ℕ :=
  if group.selfHost = group.hostOf root then group.onHost root
  else group.onHost ((group.procsOn group.selfHost).getD 0 0)

/-- `ulm_reduce_intrahost`; the value of the receive buffer at the end. -/
def ulmReduceIntrahost (op : ULMOp α) (group : Group) (root blockCount count : ℕ)
    (sBuf : Option (List α)) (rBuf : List α) : HostProg α (List α) :=
  if count = 0 then pure rBuf
  else
    let nproc := group.onHostGroupSize
    if nproc = 1 then pure (sBuf.getD rBuf)
    else
      let self := (group.onHostProcID + nproc - ulmReduceIntrahost.rootOnhost group root) % nproc
      ulmReduceIntrahost.blocks op group.selfHost nproc self blockCount count 0 count
        (sBuf.getD rBuf) rBuf

/-! ### The choice of the algorithm -/

/-- What `ulm_reduce` uses of a communicator; `nprocs` is the number of processes in the job. -/
structure ReduceComm where
  group : Group
  useSharedMemForCollectives : Bool
  nprocs : ℕ

namespace ReduceComm

/-- `CACHE_ALIGNMENT`, on Linux. -/
def cacheAlignment : ℕ := 128

/-- `SMPPAGESIZE`, on Linux. -/
def smpPageSize : ℕ := 4096

/-- `MIN_COLL_SHARED_WORKAREA`. -/
def minCollSharedWorkarea : ℕ := 524288

variable (comm : ReduceComm)

/-- `max_length` of the shared buffers, the `collectiveMem` computed at start-up: a `size_t` that is
set to a product of `int`s. -/
def maxLength : ℕ :=
  let collectiveMem := sizeT (intT (cacheAlignment * comm.nprocs))
  let collectiveMem := if collectiveMem < 4 * smpPageSize then 4 * smpPageSize else collectiveMem
  if collectiveMem < minCollSharedWorkarea then minCollSharedWorkarea else collectiveMem

/-- `reduceOffset`: the size of a segment, aligned to 8 bytes. -/
def reduceOffset : ℕ := comm.maxLength / comm.group.onHostGroupSize / 8 * 8

/-- `minReduceOffset`: the size of a segment on the host with most processes. -/
def minReduceOffset : ℕ := comm.maxLength / comm.group.maxOnHostGroupSize / 8 * 8

/-- `maxReduceExtent`; a segment begins with two flag words. -/
def maxReduceExtent : ℕ := comm.minReduceOffset - 2 * 4

/-- `block_count` on a host. -/
def blockCount (type : ReduceHostType) : ℕ := (comm.reduceOffset - 2 * 4) / type.extent

end ReduceComm

variable (op : ULMOp α)

/-- The call of an algorithm block by block, behind the division by `packed_size`. -/
def ulmReduce.blockwise (type : ReduceType)
    (algorithm : ℤ → ℕ → Option (List α) → List α → RankProc α (List α)) (tag : ℤ) (count : ℕ)
    (sBuf : Option (List α)) (rBuf : List α) : HostProg α (Except ReduceError (List α)) :=
  if type.packedSize = 0 then pure (.error .divisionByZero)
  else .ok <$> Prog.ofProc (ulmReduce.blocks algorithm (ulmReduce.blockCount type) count tag count
    sBuf rBuf)

/-- The intra-host and inter-host algorithms one after the other. -/
def ulmReduce.onHosts (type : ReduceHostType) (comm : ReduceComm) (root : ℕ) (baseTag : ℤ)
    (count : ℕ) (sBuf : Option (List α)) (rBuf : List α) :
    HostProg α (Except ReduceError (List α)) := do
  let group := comm.group
  -- the on-host algorithm divides by the extent
  if group.maxOnHostGroupSize > 1 ∧ count ≠ 0 ∧ group.onHostGroupSize ≠ 1 ∧ type.extent = 0 then
    return .error .divisionByZero
  let rBuf ←
    if group.maxOnHostGroupSize > 1 then
      ulmReduceIntrahost op group root (comm.blockCount type) count sBuf rBuf
    else pure rBuf
  if group.numberOfHostsInGroup = 1 then
    return .ok rBuf
  else
    -- the on-host algorithm has drawn a tag
    let tag := if group.maxOnHostGroupSize > 1 ∧ count ≠ 0 then baseTag - 1 else baseTag
    let sBuf := if group.onHostGroupSize > 1 then none else sBuf
    ulmReduce.blockwise type.toReduceType (ulmReduceInterhost op group root) tag count sBuf rBuf

/-- `ulm_reduce` with all its algorithms; the value of the receive buffer at the end. -/
def ulmReduceShared (type : ReduceHostType) (comm : ReduceComm) (root : ℕ) (baseTag : ℤ) (count : ℕ)
    (args : ReduceArgs α) : HostProg α (Except ReduceError (List α)) :=
  let nproc := comm.group.groupSize
  let self := comm.group.self
  if args.rBuf = none ∧ self = root then pure (.error .buffer)
  else
    let rBuf := args.rBuf.getD args.reduceBuffer
    if nproc = 1 then pure (.ok (args.sBuf.getD rBuf))
    else if op.commute = false then
      ulmReduce.blockwise type.toReduceType (ulmReduceLinear op nproc self root) baseTag count
        args.sBuf rBuf
    else if comm.useSharedMemForCollectives = false ∨ type.extent > comm.maxReduceExtent then
      ulmReduce.blockwise type.toReduceType (ulmReduceP2p op nproc self root) baseTag count
        args.sBuf rBuf
    else ulmReduce.onHosts op type comm root baseTag count args.sBuf rBuf

/-- The communicator when all its processes have entered `ulm_reduce`.  The shared buffers hold
anything; their flags are cleared. -/
def ulmReduceShared.start (type : ReduceHostType) (comms : ℕ → ReduceComm) (nproc root : ℕ)
    (baseTag : ℤ) (count : ℕ) (args : ℕ → ReduceArgs α) (mem : ReduceCell → α) :
    SharedMemory.Net ℕ ℤ (List α) ReduceFlag ReduceCell α (Except ReduceError (List α)) where
  procs self :=
    if self < nproc then ulmReduceShared op type (comms self) root baseTag count (args self)
    else pure (.ok [])
  shared := { chan := fun _ => [], mem := mem, flags := fun _ => -1 }

end Lampi
