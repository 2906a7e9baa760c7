import Lampi.Lib.Epochs
import Lampi.Mpi.Buffer
import Lampi.Mpi.TypePack
import Lampi.Queue.HostLayout

/-!
# Broadcast

`ulm_bcast` sends the data of the root to the other hosts first: `ulm_bcast_interhost` is a
logarithmic fan-out over one representative of each host, in blocks of some elements.  On each host
the data is then passed on through a shared buffer.  The representative packs as much as there is
room for and sets the flag of the buffer to 2; the others wait for that and unpack.  If there is
more to do, all of them reset the flag to 1 between two barriers.

`ulm_bcast_p2p` is the fan-out over all processes.

The log of a process records the messages that it has sent and received.

All processes have entered the function when the model starts, with a shared buffer whose flag is
cleared.  Its release, with the barriers that recycle the buffers, is not part of the model.  The
array lies in memory, so that its size is what `count * extent` says.
-/

namespace Lampi

open SharedMemory RunList

/-- A message has been sent to a process, or received from one. -/
inductive BcastEvent
  | sent (dst : ℕ) (tag : ℤ)
  | received (src : ℕ) (tag : ℤ)
  deriving DecidableEq, Repr

/-- What a process has in its buffer, and what it has done. -/
structure BcastState where
  buf : Buffer
  log : List BcastEvent

/-- A byte in the shared buffer of a host. -/
structure BcastCell where
  host : ℕ
  index : ℕ
  deriving DecidableEq, Repr

abbrev BcastProg (β : Type) := Prog ℕ ℤ (List UInt8) (Word ℕ) BcastCell UInt8 β

/-! ### Fan-out by messages -/

/-- The loop of a fan-out over `nnode` nodes, on node `self`, with a bound on its rounds.  The
message has the bytes at `positions`. -/
def logFanOut (nnode self : ℕ) (peerOf : ℕ → ℕ) (tag : ℤ) (positions : List ℤ) :
    ℕ → ℕ → BcastState → BcastProg BcastState
  | 0, _, s => pure s
  | rounds + 1, mask, s =>
    if mask < nnode then
      -- not participating yet
      if self ≥ 2 * mask then logFanOut nnode self peerOf tag positions rounds (mask <<< 1) s
      else
        let peer := self ^^^ mask
        -- all done
        if peer ≥ nnode then pure s
        else if self < peer then do
          Prog.sendTo (peerOf peer) tag (s.buf.read positions)
          logFanOut nnode self peerOf tag positions rounds (mask <<< 1)
            { s with log := s.log ++ [.sent (peerOf peer) tag] }
        else do
          let bytes ← Prog.recvFrom (peerOf peer) tag
          logFanOut nnode self peerOf tag positions rounds (mask <<< 1)
            ⟨s.buf.write positions bytes, s.log ++ [.received (peerOf peer) tag]⟩
    else pure s

/-- `ulm_bcast_p2p` on process `self`. -/
def ulmBcastP2p (nproc self root : ℕ) (tag : ℤ) (count : ℕ) (type : CommittedType)
    (s : BcastState) : BcastProg BcastState :=
  if count = 0 then pure s
  else if nproc = 1 then pure s
  else
    let selfR := (self + nproc - root) % nproc
    logFanOut nproc selfR (fun peerR => (peerR + root) % nproc) tag (type.data 0 count) nproc 1 s

/-- `ulm_bcast_interhost`, for the elements from `p` on. -/
def ulmBcastInterhost (group : Group) (root : ℕ) (tag : ℤ) (count : ℕ) (type : CommittedType)
    (p : ℤ) (s : BcastState) : BcastProg BcastState :=
  if count = 0 then pure s
  else
    let nhost := group.numberOfHostsInGroup
    if nhost = 1 then pure s
    else
      let rootHost := group.hostOf root
      let commRoot := if group.sameHost root group.self then root
        else (group.procsOn group.selfHost).getD 0 0
      -- the others do not participate
      if group.self ≠ commRoot then pure s
      else
        let selfHostR := (group.selfHost + nhost - rootHost) % nhost
        logFanOut nhost selfHostR
          (fun peerHostR =>
            let peerHost := (peerHostR + rootHost) % nhost
            if peerHost = rootHost then root else (group.procsOn peerHost).getD 0 0)
          tag (type.data p count) nhost 1 s

/-! ### Passing on the data on a host -/

/-- What a broadcast uses of a communicator: the group, the size of the shared buffers, and the
count of the next barrier. -/
structure BcastComm where
  group : Group
  maxLength : ℕ
  releaseCnt : ℤ

/-- A division by zero, or a loop that goes on after the bound on the number of its rounds. -/
inductive BcastFault
  | divisionByZero
  | unfinished
  deriving DecidableEq, Repr

/-- `SMPSWBarrier`; the new `releaseCnt`. -/
def smpSWBarrier (group : Group) (releaseCnt : ℤ) : BcastProg ℤ := do
  let releaseCnt := releaseCnt + group.onHostGroupSize
  Prog.barrier group.selfHost releaseCnt
  return releaseCnt

namespace ulmBcast

/-- `BLOCK_SIZE`. -/
def blockSize : ℕ := 128 * 1024

/-- `block_count`, for a type that has bytes. -/
def blockCount (type : CommittedType) : ℕ :=
  let blockCount := blockSize / type.packedSize
  if blockCount = 0 then 1 else blockCount

/-- The loop over the blocks for the other hosts.  Each round takes an element, so `count` are
enough. -/
def interhostBlocks (group : Group) (root : ℕ) (type : CommittedType) :
    ℕ → ℤ → ℕ → ℤ → BcastState → BcastProg BcastState
  | 0, _, _, _, s => pure s
  | rounds + 1, tag, cnt, p, s =>
    if cnt > 0 then do
      let n := if blockCount type < cnt then blockCount type else cnt
      let s ← ulmBcastInterhost group root tag n type p s
      interhostBlocks group root type rounds (tag - 1) (cnt - n) (p + n * type.extent) s
    else pure s

/-- The first `n` bytes of the shared buffer of a host. -/
def cells (host n : ℕ) : List BcastCell := (List.range n).map fun i => ⟨host, i⟩

/-- One call of `type_pack`, with the flag before or after it; the new cursor. -/
def passBlock (group : Group) (commRoot copyBufferSize count : ℕ) (type : CommittedType)
    (cursor : TypeCursor) (s : BcastState) :
    BcastProg (Except BcastFault (TypeCursor × BcastState)) :=
  if group.self = commRoot then
    match typePack type copyBufferSize 0 count cursor with
    | none => pure (.error .divisionByZero)
    | some (k, _) => do
      let bytes := s.buf.read (positions k.pieces)
      Prog.storeAll ((cells group.selfHost bytes.length).zip bytes)
      Prog.setFlag (.flag group.selfHost) 2
      return .ok (k.cursor, s)
  else do
    Prog.waitFlag (.flag group.selfHost) (· == 2)
    match typePack type copyBufferSize 0 count cursor with
    | none => return .error .divisionByZero
    | some (k, _) =>
      let bytes ← Prog.loadAll (cells group.selfHost (positions k.pieces).length)
      return .ok (k.cursor, { s with buf := s.buf.write (positions k.pieces) bytes })

/-- The loop that passes on the data of `commRoot`, with a bound on the number of its rounds. -/
def disperse (group : Group) (commRoot copyBufferSize count : ℕ) (type : CommittedType) :
    ℕ → ℤ → TypeCursor → BcastState → BcastProg (Except BcastFault BcastState)
  | 0, _, cursor, s => pure (if cursor.typeIndex < count then .error .unfinished else .ok s)
  | rounds + 1, releaseCnt, cursor, s =>
    if cursor.typeIndex < count then do
      match ← passBlock group commRoot copyBufferSize count type cursor s with
      | .error fault => return .error fault
      | .ok (cursor, s) =>
        if cursor.typeIndex ≠ count then do
          let releaseCnt ← smpSWBarrier group releaseCnt
          Prog.setFlag (.flag group.selfHost) 1
          let releaseCnt ← smpSWBarrier group releaseCnt
          disperse group commRoot copyBufferSize count type rounds releaseCnt cursor s
        else disperse group commRoot copyBufferSize count type rounds releaseCnt cursor s
    else pure (.ok s)

/-- A bound on the number of blocks on a host: each round copies a byte or passes a pair. -/
def rounds (count : ℕ) (type : CommittedType) : ℕ :=
  count * (type.extent + type.packedSize + type.typeMap.length) + 1

end ulmBcast

open ulmBcast in
/-- `ulm_bcast`; `baseTag` is the tag that is drawn first. -/
def ulmBcast (comm : BcastComm) (root : ℕ) (baseTag : ℤ) (count : ℕ) (type : CommittedType)
    (buf : Buffer) : BcastProg (Except BcastFault BcastState) :=
  let group := comm.group
  let s : BcastState := ⟨buf, []⟩
  let bcastSize := count * type.extent
  let copyBufferSize := if bcastSize < comm.maxLength then bcastSize else comm.maxLength
  if group.numberOfHostsInGroup = 1 then
    disperse group root copyBufferSize count type (rounds count type) comm.releaseCnt .init s
  else if type.packedSize = 0 then pure (.error .divisionByZero)
  else do
    let s ← interhostBlocks group root type count (baseTag - 1) count 0 s
    if group.groupSize = group.numberOfHostsInGroup then return .ok s
    else
      let releaseCnt ← smpSWBarrier group comm.releaseCnt
      let commRoot := if group.sameHost root group.self then root
        else (group.procsOn group.selfHost).getD 0 0
      disperse group commRoot copyBufferSize count type (rounds count type) releaseCnt .init s

/-- All members have entered `ulm_bcast`.  Barriers have been used before, and the buffers hold
anything. -/
def ulmBcast.start (groups : ℕ → Group) (maxLength : ℕ) (counter : ℕ → ℤ) (nproc root : ℕ)
    (baseTag : ℤ) (count : ℕ) (type : CommittedType) (bufs : ℕ → Buffer) (mem : BcastCell → UInt8) :
    Net ℕ ℤ (List UInt8) (Word ℕ) BcastCell UInt8 (Except BcastFault BcastState) where
  procs self :=
    if self < nproc then
      ulmBcast ⟨groups self, maxLength, counter (groups self).selfHost⟩ root baseTag count type
        (bufs self)
    else pure (.ok ⟨bufs self, []⟩)
  shared :=
    { chan := fun _ => []
      mem := mem
      flags := fun
        | .flag _ => 0
        | .counter host => counter host }

/-- All members of a group have entered `ulm_bcast_p2p`. -/
def ulmBcastP2p.start (nproc root : ℕ) (tag : ℤ) (count : ℕ) (type : CommittedType)
    (bufs : ℕ → Buffer) (mem : BcastCell → UInt8) :
    Net ℕ ℤ (List UInt8) (Word ℕ) BcastCell UInt8 BcastState where
  procs self :=
    if self < nproc then ulmBcastP2p nproc self root tag count type ⟨bufs self, []⟩
    else pure ⟨bufs self, []⟩
  shared := { chan := fun _ => [], mem := mem, flags := fun _ => 0 }

end Lampi
