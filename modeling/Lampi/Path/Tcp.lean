import Mathlib.Algebra.Ring.Int.Defs
import Mathlib.Algebra.Ring.Nat

/-!
# The TCP path: connecting, writing and reading

Sockets do not block.  `sendConnectAck` and `recvConnectAck` move the rank of a process, a `long`,
in one loop over `send` or `recv`; `TCPSendFrag::sendEventHandler` writes a fragment with `writev`,
and `TCPRecvFrag::recvEventHandler` reads one; they are called again until the fragment is gone.  An
`int` has 32 bits.
-/

namespace Lampi

/-! ### Connecting -/

/-- What a call of `send` or `recv` returns: a number of bytes, or `-1` and an `errno`. -/
inductive CallResult
  | moved (n : ℕ)
  | eintr
  /-- `EAGAIN` or `EWOULDBLOCK`. -/
  | eagain
  | failed
  deriving DecidableEq, Repr

def sizeofLong : ℕ := 8

/-- The loop of `sendConnectAck` and `recvConnectAck`, which make the calls with these results.
`transfer cnt n` is what a call for `n` bytes at `ptr + cnt` does. -/
def connectAckLoop {σ : Type} (transfer : ℤ → ℕ → σ → σ) : ℤ → List CallResult → σ → Option σ
  | cnt, [], s => if cnt < sizeofLong then none else some s
  | cnt, result :: results, s =>
    if cnt < sizeofLong then
      match result with
      | .moved n =>
        if 0 < n ∧ n ≤ sizeofLong - cnt then
          connectAckLoop transfer (cnt + n) results (transfer cnt n s)
        else none
      | .eintr => connectAckLoop transfer cnt results s
      -- the result is added to the counter all the same
      | .eagain => connectAckLoop transfer (cnt - 1) results s
      | .failed => none
    else none

/-- The `n` bytes at `ptr + cnt`. -/
def bytesAt (ptr : ℤ → UInt8) (cnt : ℤ) (n : ℕ) : List UInt8 :=
  (List.range n).map fun i : ℕ => ptr (cnt + i)

/-- `TCPPeer::sendConnectAck`, for the memory at and around `thisProc`: what the socket takes. -/
def sendConnectAck (ptr : ℤ → UInt8) (results : List CallResult) : Option (List UInt8) :=
  connectAckLoop (fun cnt n sent => sent ++ bytesAt ptr cnt n) 0 results []

/-- `TCPPeer::recvConnectAck`, for the bytes that come from the socket: the memory at and around
`peer`, before it is compared with `peerProc`. -/
def recvConnectAck (stream : ℕ → UInt8) (results : List CallResult) : Option (ℤ → UInt8) :=
  (connectAckLoop (fun cnt n (peer, taken) =>
      (fun i => if cnt ≤ i ∧ i < cnt + n then stream (taken + (i - cnt).toNat) else peer i,
        taken + n))
    0 results (fun _ => 0, 0)).map Prod.fst

/-! ### Writing a fragment -/

/-- A `tcp_msg_header`. -/
structure TcpMsgHeader where
  bytes : List UInt8
  size : bytes.length = 64

/-- What a call of `writev` returns; other errors end the fragment. -/
inductive WritevResult
  | accepted (n : ℕ)
  | eintr
  | ewouldblock
  deriving DecidableEq, Repr

/-- A `TCPSendFrag`: the vectors from `fragVecPtr` on, `fragVecCnt` of them.  The bytes that the
socket accepted and the calls of `sendComplete` are kept for reference. -/
structure TcpSendFrag where
  fragVecs : List (List UInt8)
  accepted : List UInt8
  completed : ℕ
  deriving DecidableEq, Repr

namespace TcpSendFrag

/-- `TCPSendFrag::init`, for the data that the second vector points to. -/
def init (header : TcpMsgHeader) (payload : List UInt8) : TcpSendFrag where
  fragVecs := if payload.length = 0 then [header.bytes] else [header.bytes, payload]
  accepted := []
  completed := 0

/-- The value of a number as an `int`. -/
def toInt (n : ℤ) : ℤ := n.bmod (2 ^ 32)

/-- The loop that removes `cnt` bytes from the vectors. -/
def advance : ℤ → List (List UInt8) → List (List UInt8)
  | _, [] => []
  | cnt, vec :: vecs =>
    if toInt vec.length ≤ cnt then advance (toInt (cnt - vec.length)) vecs
    else vec.drop cnt.toNat :: vecs

/-- `sendEventHandler`, whose calls of `writev` have these results. -/
def sendEventHandler (frag : TcpSendFrag) : List WritevResult → Option TcpSendFrag
  | [] => none
  | .eintr :: results => frag.sendEventHandler results
  | .ewouldblock :: _ => some frag
  | .accepted n :: _ =>
    if 0 < n ∧ n ≤ frag.fragVecs.flatten.length ∧ n < 2 ^ 31 then
      let vecs := advance n frag.fragVecs
      some
        { fragVecs := vecs
          accepted := frag.accepted ++ frag.fragVecs.flatten.take n
          completed := if vecs.length = 0 then frag.completed + 1 else frag.completed }
    else none

def run (frag : TcpSendFrag) (calls : List (List WritevResult)) : Option TcpSendFrag :=
  calls.foldlM sendEventHandler frag

end TcpSendFrag

/-! ### Reading a fragment -/

/-- The sizes of fragments; defaults replace zeros before the first message. -/
structure TcpSizes where
  maxEagerSendSize : ℕ
  maxFragmentSize : ℕ
  eager_pos : 0 < maxEagerSendSize
  fragment_pos : 0 < maxFragmentSize

/-- `TCPRecvFrag::dataOffset`, and the offset that `TCPSendFrag::init` sets. -/
def TcpSizes.dataOffset (sizes : TcpSizes) (fragIndex : ℕ) : ℕ :=
  if fragIndex = 0 then 0 else sizes.maxEagerSendSize + (fragIndex - 1) * sizes.maxFragmentSize

/-- The length that `TCPSendFrag::init` sets. -/
def TcpSizes.fragLength (sizes : TcpSizes) (msgLength fragIndex : ℕ) : ℕ :=
  min (if fragIndex = 0 then sizes.maxEagerSendSize else sizes.maxFragmentSize)
    (msgLength - sizes.dataOffset fragIndex)

/-- What `recvHeader` sets in a `TCPRecvFrag` that a receive into a contiguous buffer matches. -/
structure TcpRecvFrag where
  dataOffset : ℕ
  length : ℕ
  fragLen : ℕ

/-- A fragment while its data comes: where its bytes were written, from the start of the posted
buffer, and the bytes stored and discarded that `DeliveredToAppLock` was told. -/
structure TcpRecvState where
  fragCnt : ℕ
  written : List ℕ
  delivered : Option (ℕ × ℕ)
  deriving DecidableEq, Repr

namespace TcpRecvFrag

/-- The end of `recvHeader`, for the length of the posted buffer; a `size_t` has 64 bits. -/
def recvHeader (posted dataOffset length : ℕ) : TcpRecvFrag where
  dataOffset := dataOffset
  length := length
  fragLen :=
    let appLength := (2 ^ 64 + posted - dataOffset) % 2 ^ 64
    if appLength < length then appLength else length

/-- The loop over `recv` for `n` bytes: how many come, none if the call would block.  Other results
end the fragment. -/
def recvLoop (n : ℕ) : List CallResult → Option (ℕ × List CallResult)
  | .moved cnt :: results => if 0 < cnt ∧ cnt ≤ n ∧ cnt < 2 ^ 31 then some (cnt, results) else none
  | .eintr :: results => recvLoop n results
  | .eagain :: results => some (0, results)
  | _ => none

/-- A part of the fragment, up to its byte `len`; `cnt` bytes from `fragCnt` on go to
`places fragCnt cnt`. -/
def recvPart (len : ℕ) (places : ℕ → ℕ → List ℕ) (s : TcpRecvState) (results : List CallResult) :
    Option (TcpRecvState × List CallResult) :=
  if s.fragCnt < len then
    (recvLoop (len - s.fragCnt) results).map fun (cnt, results) =>
      (⟨s.fragCnt + cnt, s.written ++ places s.fragCnt cnt, s.delivered⟩, results)
  else some (s, results)

def recvData (frag : TcpRecvFrag) :=
  recvPart frag.fragLen fun fragCnt cnt => List.range' (frag.dataOffset + fragCnt) cnt

def recvDiscard (frag : TcpRecvFrag) :=
  recvPart frag.length fun _ _ => []

/-- `recvEventHandler`, whose calls of `recv` have these results.  It is not called again when the
fragment is complete. -/
def recvEventHandler (frag : TcpRecvFrag) (s : TcpRecvState) (results : List CallResult) :
    Option TcpRecvState :=
  if s.delivered.isSome then none
  else do
    let (s, results) ← frag.recvData s results
    if s.fragCnt < frag.fragLen then some s
    else do
      let (s, _) ← frag.recvDiscard s results
      if s.fragCnt < frag.length then some s
      else some { s with delivered := some (frag.fragLen, frag.length - frag.fragLen) }

/-- Successive calls of `recvEventHandler`. -/
def run (frag : TcpRecvFrag) (s : TcpRecvState) (calls : List (List CallResult)) :
    Option TcpRecvState :=
  calls.foldlM frag.recvEventHandler s

end TcpRecvFrag

end Lampi
