import Mathlib.Algebra.Ring.Nat
import Lampi.Lib.MessagePassing

/-!
# Reduce for operations that do not commute

`ulm_reduce` combines one contribution of every process with an operation.  If the operation does
not commute it uses `ulm_reduce_linear`, a chain: each process folds its contribution into what
its inferior sends and passes the result on to its superior.  The chain is run block by block.

A buffer of `count` objects is the list of these objects.  The processes are programs over
messages of such lists, named by their ranks.
-/

namespace Lampi

open MessagePassing

/-- The datatype of the objects; `ulm_reduce` divides by its packed size. -/
structure ReduceType where
  packedSize : ℕ

/-- `ULMOp_t`: whether the operation commutes, and what its function computes on one object,
`func(in, inout)` storing `func in inout` in `inout`. -/
structure ULMOp (α : Type) where
  commute : Bool
  func : α → α → α

/-- The call of the operation's function on two buffers; the value of `inout` after it. -/
def ULMOp.call {α : Type} (op : ULMOp α) (invec inoutvec : List α) : List α :=
  List.zipWith op.func invec inoutvec

/-- What a process passes to `ulm_reduce`: no `sBuf` for `MPI_IN_PLACE`, no `rBuf` for `NULL`.
Without `rBuf`, the communicator's `reduceBuffer` is used. -/
structure ReduceArgs (α : Type) where
  sBuf : Option (List α)
  rBuf : Option (List α)
  reduceBuffer : List α

/-- Error results of `ulm_reduce`, and that it divided by zero. -/
inductive ReduceError
  | buffer
  | divisionByZero
  deriving DecidableEq, Repr

variable {α : Type}

abbrev RankProc (α : Type) := Proc ℕ ℤ (List α)

/-- `ulm_reduce_linear` on process `self`; the value of the receive buffer at the end. -/
def ulmReduceLinear (op : ULMOp α) (nproc self root : ℕ) (tag : ℤ) (count : ℕ)
    (sBuf : Option (List α)) (rBuf : List α) : RankProc α (List α) := do
  if count = 0 then
    return rBuf
  -- copy the contribution to the receive buffer unless it is there already
  let rBuf := sBuf.getD rBuf
  -- get the result so far from my inferior
  let rBuf ←
    if self > 0 then do
      let buf ← Proc.recvFrom (self - 1) tag
      pure (op.call buf rBuf)
    else pure rBuf
  -- send my result to my superior
  if self < nproc - 1 then
    Proc.sendTo (self + 1) tag rBuf
  -- result at nproc - 1: send the result to the root
  if root ≠ nproc - 1 then
    if self = nproc - 1 then
      Proc.sendTo root tag rBuf
    if self = root then
      let _buf ← Proc.recvFrom (nproc - 1) tag
  return rBuf

/-- `BLOCK_SIZE`. -/
def ulmReduce.blockSize : ℕ := 2 ^ 20

/-- `block_count`. -/
def ulmReduce.blockCount (type : ReduceType) : ℕ :=
  if blockSize / type.packedSize = 0 then 1 else blockSize / type.packedSize

/-- The loop of `ulm_reduce` over the blocks.  Every call of the algorithm draws the next base tag
and takes at least one object, so `count` rounds are enough. -/
def ulmReduce.blocks (algorithm : ℤ → ℕ → Option (List α) → List α → RankProc α (List α))
    (blockCount : ℕ) : ℕ → ℤ → ℕ → Option (List α) → List α → RankProc α (List α)
  | 0, _, _, _, rp => pure rp
  | rounds + 1, tag, count, sp, rp =>
    if count > 0 then do
      let n := if blockCount < count then blockCount else count
      let front ← algorithm tag n (sp.map (List.take n)) (rp.take n)
      let rest ← blocks algorithm blockCount rounds (tag - 1) (count - n)
        (sp.map (List.drop n)) (rp.drop n)
      return front ++ rest
    else pure rp

/-- `ulm_reduce` on process `self`; the value of the receive buffer at the end.  `commuting` is
what it does for an operation that commutes. -/
def ulmReduce (op : ULMOp α) (type : ReduceType) (nproc self root : ℕ) (baseTag : ℤ) (count : ℕ)
    (args : ReduceArgs α) (commuting : RankProc α (Except ReduceError (List α))) :
    RankProc α (Except ReduceError (List α)) :=
  if args.rBuf = none ∧ self = root then pure (.error .buffer)
  else
    let rBuf := args.rBuf.getD args.reduceBuffer
    if nproc = 1 then pure (.ok (args.sBuf.getD rBuf))
    else if op.commute then commuting
    else if type.packedSize = 0 then pure (.error .divisionByZero)
    else do
      let result ← ulmReduce.blocks (ulmReduceLinear op nproc self root)
        (ulmReduce.blockCount type) count baseTag count args.sBuf rBuf
      return .ok result

/-- The communicator when all its processes have entered `ulm_reduce`. -/
def ulmReduce.start (op : ULMOp α) (type : ReduceType) (nproc root : ℕ) (baseTag : ℤ)
    (count : ℕ) (args : ℕ → ReduceArgs α)
    (commuting : ℕ → RankProc α (Except ReduceError (List α))) :
    Net ℕ ℤ (List α) (Except ReduceError (List α)) where
  procs self :=
    if self < nproc then
      ulmReduce op type nproc self root baseTag count (args self) (commuting self)
    else pure (.ok [])
  chan := Chan.empty

end Lampi
