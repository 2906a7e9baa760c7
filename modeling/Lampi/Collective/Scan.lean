import Lampi.Collective.Reduce

/-!
# Scan

`ulm_scan` leaves with every process the contributions of the processes up to it, combined in rank
order.  In the round with distance `shift` a process sends what it has to the process `shift` above
it, receives from the one `shift` below it, and combines the two; the distances double.

A standard mode send may end at once, because the library keeps the data, or only when the receiver
has taken the message.  `waits` says which of the two it is, for each round of each process; a
message says it to the receiver, whose library then gives notice.

Messages also carry the round in which they were sent, and processes keep a record of their sends
and receives.  The program itself looks at neither.
-/

namespace Lampi

open MessagePassing

/-- A message, and the notice that it has been taken. -/
inductive ScanTag
  | data (tag : ℤ)
  | taken (tag : ℤ)
  deriving DecidableEq, Repr

/-- A message of `ulm_scan`. -/
structure ScanMessage (α : Type) where
  round : ℕ
  waits : Bool
  buf : List α

/-- The receive buffer of a process; the destinations and rounds of its sends; the sources and
rounds of its receives, with the rounds of these sends. -/
structure ScanState (α : Type) where
  recvbuf : List α
  sent : List (ℕ × ℕ)
  received : List (ℕ × ℕ × ℕ)

abbrev ScanProc (α : Type) := Proc ℕ ScanTag (ScanMessage α)

variable {α : Type}

namespace UlmScan

/-- `ulm_isend` in standard mode, and `ulm_wait`. -/
def isendWait (dst : ℕ) (tag : ℤ) (msg : ScanMessage α) : ScanProc α PUnit := do
  Proc.sendTo dst (.data tag) msg
  if msg.waits then
    let _ ← Proc.recvFrom dst (.taken tag)

/-- `ulm_irecv`, and `ulm_wait`. -/
def irecvWait (src : ℕ) (tag : ℤ) : ScanProc α (ScanMessage α) := do
  let msg ← Proc.recvFrom src (.data tag)
  if msg.waits then
    Proc.sendTo src (.taken tag) { msg with buf := [] }
  return msg

/-- The process at `peer_r`, a rank relative to the scan, if there is one. -/
def peer (nproc root : ℕ) (peer_r : ℤ) : Option ℕ :=
  if peer_r ≥ 0 ∧ peer_r < nproc then some ((peer_r + nproc - root) % nproc).toNat else none

/-- The send of a round, if there is a process to send to. -/
def sendTo (tag : ℤ) (waits : Bool) (shift : ℕ) (send_peer : Option ℕ) (s : ScanState α) :
    ScanProc α (ScanState α) :=
  match send_peer with
  | some send_peer => do
    isendWait send_peer tag { round := shift, waits, buf := s.recvbuf }
    pure { s with sent := s.sent ++ [(send_peer, shift)] }
  | none => pure s

/-- The receive of a round, if there is a process to receive from. -/
def recvFrom (op : ULMOp α) (tag : ℤ) (shift : ℕ) (recv_peer : Option ℕ) (s : ScanState α) :
    ScanProc α (ScanState α) :=
  match recv_peer with
  | some recv_peer => do
    let msg ← irecvWait recv_peer tag
    pure { s with
      recvbuf := op.call msg.buf s.recvbuf
      received := s.received ++ [(recv_peer, shift, msg.round)] }
  | none => pure s

/-- The body of the loop of `_ulm_scan`, on process `self`. -/
def round (op : ULMOp α) (nproc self root : ℕ) (sense tag : ℤ) (waits : ℕ → Bool) (shift : ℕ)
    (s : ScanState α) : ScanProc α (ScanState α) := do
  let self_r : ℤ := (self - root + nproc) % nproc
  let send_peer_r := if sense ≥ 0 then self_r + shift else self_r - shift
  let recv_peer_r := if sense ≥ 0 then self_r - shift else self_r + shift
  let s ← sendTo tag (waits shift) shift (peer nproc root send_peer_r) s
  recvFrom op tag shift (peer nproc root recv_peer_r) s

def loop (op : ULMOp α) (nproc self root : ℕ) (sense tag : ℤ) (waits : ℕ → Bool) :
    ℕ → ℕ → ScanState α → ScanProc α (ScanState α)
  | 0, _, s => pure s
  | rounds + 1, shift, s =>
    if shift < nproc then do
      let s ← round op nproc self root sense tag waits shift s
      loop op nproc self root sense tag waits rounds (shift <<< 1) s
    else pure s

/-- `_ulm_scan` on process `self`, with a root and a direction. -/
def scanFrom (op : ULMOp α) (nproc self root : ℕ) (sense tag : ℤ) (waits : ℕ → Bool) (count : ℕ)
    (sendbuf recvbuf : List α) : ScanProc α (ScanState α) :=
  if count = 0 then pure { recvbuf, sent := [], received := [] }
  else
    loop op nproc self root sense tag waits nproc 1
      { recvbuf := sendbuf, sent := [], received := [] }

end UlmScan

/-- `ulm_scan` on process `self`. -/
def ulmScan (op : ULMOp α) (nproc self : ℕ) (tag : ℤ) (waits : ℕ → Bool) (count : ℕ)
    (sendbuf recvbuf : List α) : ScanProc α (ScanState α) :=
  UlmScan.scanFrom op nproc self 0 1 tag waits count sendbuf recvbuf

/-- The communicator when all its processes have entered `ulm_scan`. -/
def ulmScan.start (op : ULMOp α) (nproc : ℕ) (tag : ℤ) (waits : ℕ → ℕ → Bool) (count : ℕ)
    (sendbuf recvbuf : ℕ → List α) : Net ℕ ScanTag (ScanMessage α) (ScanState α) where
  procs self :=
    if self < nproc then
      ulmScan op nproc self tag (waits self) count (sendbuf self) (recvbuf self)
    else pure { recvbuf := [], sent := [], received := [] }
  chan := Chan.empty

end Lampi
