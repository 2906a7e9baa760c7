import Lampi.Path.Reliability
import Lampi.Path.TypedCopy
import Lampi.Mpi.Buffer
import Mathlib.Data.Int.ModEq

/-!
# Posted sends on the UDP path

The messages a process sends over UDP, on the sending side of the reliability protocol.
`udpPath::send` takes descriptors from the pool for the fragments of a message and tries to send
what is on `FragsToSend`.  A message is on `IncompletePostedSends` while it has fragments to send,
and on `UnackedPostedSends` while it waits for acknowledgements; which of the two is decided by
comparing `NumSent` with `numfrags`.

What the surroundings decide is part of the event: which descriptors the pool hands out, whether
`sendmsg` succeeds, which fragments have timed out, and which acknowledgements arrive.  A fatal lack
of memory is left out, and so is a descriptor that is lost because there was no buffer for its data.

`none` stands for `ulm_exit`, for an assertion that fails, and for an event that is not possible.
-/

namespace Lampi

/-- `WhichQueue` of a message. -/
inductive SendQueue
  | onNoList
  -- `INCOMPLETEISENDQUEUE`
  | incomplete
  -- `UNACKEDISENDQUEUE`
  | unacked
  deriving DecidableEq, Repr

/-- The fields of `SendDesc_t` that are not in `SendDesc`. -/
structure PostedSend where
  length : ℕ
  numfrags : ℕ
  numFragDescAllocated : ℕ
  clearToSend : Bool
  whichQueue : SendQueue
  deriving DecidableEq, Repr

/-- `maxShortPayloadSize_g`, `maxPayloadSize_g`, and `maxOutstandingUDPFrags` unless it is `-1`. -/
structure UdpSettings where
  maxShortPayloadSize : ℕ
  maxPayloadSize : ℕ
  maxOutstandingUDPFrags : Option ℕ

/-- What a round of the allocation loop in `udpPath::send` gets. -/
inductive Allocation
  /-- Descriptor `d`, and a buffer for the data if there is any. -/
  | frag (d : ℕ)
  /-- No descriptor at the moment. -/
  | noFrag
  /-- A descriptor, but no buffer at the moment. -/
  | noBuffer
  deriving DecidableEq, Repr

/-- The sending side of a process, and its messages. -/
structure UdpSender where
  sender : Sender
  posted : ℕ → PostedSend

namespace UdpSender

def setPosted (u : UdpSender) (m : ℕ) (f : PostedSend → PostedSend) : UdpSender :=
  { u with posted := Function.update u.posted m (f (u.posted m)) }

/-- Puts the message at `m` on a list. -/
def setQueue (u : UdpSender) (m : ℕ) (q : SendQueue) : UdpSender :=
  u.setPosted m fun p => { p with whichQueue := q }

/-- The message at `m` may send its next fragment if `b` is true. -/
def clearIf (u : UdpSender) (m : ℕ) (b : Bool) : UdpSender :=
  u.setPosted m fun p => { p with clearToSend := p.clearToSend || b }

/-! ### `udpPath::send` -/

variable (cfg : UdpSettings)

/-- `udpPath::init`: the number of fragments, an `unsigned`. -/
def numfrags (length : ℕ) : ℕ :=
  (if length > cfg.maxShortPayloadSize then
    1 + (length - cfg.maxShortPayloadSize + cfg.maxPayloadSize - 1) / cfg.maxPayloadSize
  else 1) % 2 ^ 32

/-- `seqOffset_m` of the next fragment of a message. -/
def offset (p : PostedSend) : ℕ :=
  if p.numFragDescAllocated = 0 then 0
  else cfg.maxShortPayloadSize + cfg.maxPayloadSize * (p.numFragDescAllocated - 1)

/-- `payloadSize` of the next fragment. -/
def payloadSize (p : PostedSend) : ℕ := min (p.length - offset cfg p)
    (if p.numFragDescAllocated = 0 then cfg.maxShortPayloadSize else cfg.maxPayloadSize)

/-- Whether the message has to wait for acknowledgements before its next fragment. -/
def slowDown (u : UdpSender) (m : ℕ) : Bool :=
  match cfg.maxOutstandingUDPFrags with
  | some most => decide
    (((u.posted m).numFragDescAllocated - (u.sender.messages m).numAcked) % 2 ^ 32 ≥ (most : ℤ))
  | none => false

/-- The first fragment of a long message asks for a clear-to-send acknowledgement. -/
def holdBack (p : PostedSend) : PostedSend :=
  if p.numFragDescAllocated = 0 ∧ cfg.maxShortPayloadSize ≤ p.length then
    { p with clearToSend := false }
  else p

def countFrag (p : PostedSend) : PostedSend :=
  { holdBack cfg p with numFragDescAllocated := p.numFragDescAllocated + 1 }

/-- The allocation loop, in round `nDesc`.  The result is false if `send` returns from it. -/
def allocate (cfg : UdpSettings) (m : ℕ) (alloc : ℕ → Allocation) :
    ℕ → ℕ → UdpSender → Option (Bool × UdpSender)
  | 0, _, u => some (true, u)
  | rounds + 1, nDesc, u =>
    let p := u.posted m
    if !p.clearToSend then some (true, u)
    else if u.slowDown cfg m then
      some (true, u.setPosted m fun p => { p with clearToSend := false })
    else
      match alloc nDesc with
      | .noFrag => allocate cfg m alloc rounds (nDesc + 1) u
      | .noBuffer =>
        if payloadSize cfg p = 0 then none else some (false, u.setPosted m (holdBack cfg))
      | .frag d =>
        (u.sender.initFrag .udp d m (offset cfg p) (payloadSize cfg p)).bind fun sender =>
          allocate cfg m alloc rounds (nDesc + 1) <|
            UdpSender.setPosted { u with sender } m (countFrag cfg)

/-- `nDescToAllocate`, the difference of two `unsigned` as an `int`; the loop does not run if it is
negative. -/
def nDescToAllocate (p : PostedSend) : ℕ :=
  (Int.bmod (p.numfrags - p.numFragDescAllocated) (2 ^ 32)).toNat

/-- The loop over `FragsToSend`.  `sent` tells for which fragments the data could be packed and
`sendmsg` succeeds. -/
def sendLoop (sent : ℕ → Bool) (s : Sender) (m : ℕ) : Option Sender :=
  (s.messages m).fragsToSend.foldlM
    (fun s d => if sent d then (s.send .udp d).map fun result => result.1 else some s) s

variable (u : UdpSender)

/-- `NumSent == numfrags`, compared as `unsigned`. -/
def allSent (m : ℕ) : Bool :=
  decide ((u.sender.messages m).numSent % 2 ^ 32 = (u.posted m).numfrags)

/-- `udpPath::send`.  The result is `incomplete`. -/
def send (m : ℕ) (alloc : ℕ → Allocation) (sent : ℕ → Bool) : Option (Bool × UdpSender) :=
  let u := u.clearIf m (decide ((u.posted m).numFragDescAllocated = 0))
  (allocate cfg m alloc (nDescToAllocate (u.posted m)) 0 u).bind fun (goOn, u) =>
    if goOn then
      (sendLoop sent u.sender m).map fun sender =>
        let u : UdpSender := { u with sender }
        (!u.allSent m, u)
    else some (true, u)

/-! ### The fragments of a message -/

/-- What a fragment says about its data: `fragIndex_m` and `length` in the header, and `seqOffset_m`
in the descriptor. -/
structure Fragment where
  fragIndex : ℕ
  seqOffset : ℕ
  length : ℕ
  deriving DecidableEq, Repr

/-- The fragments the allocation loop has created for the message at `m`, from `u` on: `FragsToSend`
gets their descriptors in turn, with the value of `NumFragDescAllocated` as index. -/
def newFrags (m : ℕ) (u u' : UdpSender) : List Fragment :=
  let descs := (u'.sender.messages m).fragsToSend.drop (u.sender.messages m).fragsToSend.length
  descs.mapIdx fun i d =>
    let header := (u'.sender.frags d).header
    ⟨(u.posted m).numFragDescAllocated + i, header.seqOffset, header.length⟩

/-- The fragments a call of `udpPath::send` creates. -/
def sendFrags (m : ℕ) (alloc : ℕ → Allocation) : List Fragment :=
  let u := u.clearIf m (decide ((u.posted m).numFragDescAllocated = 0))
  match allocate cfg m alloc (nDescToAllocate (u.posted m)) 0 u with
  | some (_, u') => newFrags m u u'
  | none => []

/-- The data of a fragment of a message of `length` bytes in `buf`, of type `t`. -/
def payload (t : CommittedType) (buf : Buffer) (length : ℕ) (f : Fragment) : List UInt8 :=
  if f.length = 0 then []
  else if t.contiguous then buf.read (RunList.Run.positions ⟨f.length, f.seqOffset⟩)
  else buf.read
    (RunList.positions (packData t length (t.tmapIndex f.seqOffset) f.seqOffset f.length).2)

/-! ### The lists of messages -/

/-- `isend_start`, for a message at `m`. -/
def isend (cfg : UdpSettings) (u : UdpSender) (m peer isendSeq length : ℕ) (synchronous : Bool)
    (alloc : ℕ → Allocation) (sent : ℕ → Bool) : Option UdpSender :=
  if (u.posted m).whichQueue = .onNoList then
    (u.sender.isend m peer isendSeq synchronous).bind fun sender =>
      let u := UdpSender.setPosted { u with sender } m fun _ =>
        { length, numfrags := numfrags cfg length, numFragDescAllocated := 0
          clearToSend := !synchronous, whichQueue := .onNoList }
      (u.send cfg m alloc sent).map fun (incomplete, u) =>
        u.setQueue m (if incomplete then .incomplete else .unacked)
  else none

/-- `push_frags_into_network`, for the message at `m`. -/
def pushFrags (m : ℕ) (alloc : ℕ → Allocation) (sent : ℕ → Bool) : Option UdpSender :=
  if (u.posted m).whichQueue = .incomplete then
    (u.send cfg m alloc sent).map fun (incomplete, u) =>
      if incomplete then u
      else
        let numfrags := (u.posted m).numfrags
        let msg := u.sender.messages m
        u.setQueue m <|
          if msg.numAcked % 2 ^ 32 ≥ numfrags ∧ msg.numSent ≥ Int.bmod numfrags (2 ^ 32) then
            .onNoList
          else .unacked
  else none

/-- `CheckForAckedMessages`, for a message at `m` that is to be freed. -/
def freeAcked (m : ℕ) : Option UdpSender :=
  let numfrags := (u.posted m).numfrags
  let msg := u.sender.messages m
  -- `sendDone`, and the assertions of `ReturnDesc`
  if (u.posted m).whichQueue = .unacked ∧
      (msg.numAcked % 2 ^ 32 ≥ numfrags ∧ msg.numSent % 2 ^ 32 ≥ numfrags ∧ msg.numSent ≥ 0) ∧
      msg.fragsToSend = [] ∧ msg.fragsToAck = [] then
    some (u.setQueue m .onNoList)
  else none

/-! ### Sending again, and acknowledgements -/

/-- The body of the loop in `resend`, with the value `resend` is to return. -/
def resendFrag (m : ℕ) (timedOut : ℕ → Bool) (acc : Bool × UdpSender) (d : ℕ) :
    Option (Bool × UdpSender) :=
  let (returnValue, u) := acc
  let frag := u.sender.frags d
  let delivered := decide
    ((u.sender.ackInfo frag.globalDestProc).deliveredLargestInorderSeq ≥ frag.fragSeq)
  (u.sender.resendFrag .udp m timedOut d).map fun sender =>
    (returnValue || (!delivered && timedOut d), UdpSender.clearIf { u with sender } m delivered)

variable (u : UdpSender)

/-- `BasePath_t::resend`. -/
def resend (m : ℕ) (timedOut : ℕ → Bool) : Option (Bool × UdpSender) :=
  (u.sender.messages m).fragsToAck.foldlM (resendFrag m timedOut) (false, u)

/-- `CheckForRetransmits`, for a message at `m`. -/
def checkForRetransmits (m : ℕ) (timedOut : ℕ → Bool) : Option UdpSender :=
  match (u.posted m).whichQueue with
  | .unacked => (u.resend m timedOut).map fun (resent, u) =>
      if resent then u.setQueue m .incomplete else u
  | .incomplete => (u.resend m timedOut).map fun (_, u) => u
  | .onNoList => none

/-- What `handlePt2PtMessageAck` does to the message at `m`, apart from its counters and lists.
Everything depends on the state `u` before the acknowledgement. -/
def handlePt2PtMessageAck (m : ℕ) (sender : Sender) : AckStatus → Option UdpSender
  | .dataGood => some (UdpSender.clearIf { u with sender } m true)
  | .dataCorrupt =>
    if u.allSent m then
      if (u.posted m).whichQueue ≠ .unacked then none
      else some (UdpSender.setQueue { u with sender } m .incomplete)
    else some { u with sender }
  | .aggInfoOnly => some { u with sender }

/-- The message at `m` has the fragment that the acknowledgement names. -/
def Names (ack : Ack) (m : ℕ) : Prop :=
  (u.sender.frags ack.sendFragDesc).parentSendDesc = some m ∧
    (u.sender.frags ack.sendFragDesc).fragSeq = ack.thisFragSeq

instance (ack : Ack) (m : ℕ) : Decidable (u.Names ack m) := inferInstanceAs (Decidable (_ ∧ _))

/-- `processAck`. -/
def processAck (u : UdpSender) (ack : Ack) : Option UdpSender :=
  (u.sender.processAck .udp ack).bind fun sender =>
    match (u.sender.frags ack.sendFragDesc).parentSendDesc with
    | some m =>
      if u.Names ack m then u.handlePt2PtMessageAck m sender ack.ackStatus
      else some { u with sender }
    | none => some { u with sender }

/-! ### Runs -/

/-- The events of a run. -/
inductive Event
  /-- A message of `length` bytes to process `peer` is started, with its descriptor at `m`. -/
  | isend (m peer isendSeq length : ℕ) (synchronous : Bool) (alloc : ℕ → Allocation)
      (sent : ℕ → Bool)
  /-- The message at `m`, on the list of incomplete sends, is pushed on. -/
  | push (m : ℕ) (alloc : ℕ → Allocation) (sent : ℕ → Bool)
  /-- The message at `m` is checked for fragments that have timed out. -/
  | retransmit (m : ℕ) (timedOut : ℕ → Bool)
  /-- An acknowledgement arrives. -/
  | ack (ack : Ack)
  /-- The message at `m` is found to be done, and freed. -/
  | free (m : ℕ)

def step : Event → Option UdpSender
  | .isend m peer isendSeq length synchronous alloc sent =>
    u.isend cfg m peer isendSeq length synchronous alloc sent
  | .push m alloc sent => u.pushFrags cfg m alloc sent
  | .retransmit m timedOut => u.checkForRetransmits m timedOut
  | .ack ack => u.processAck ack
  | .free m => u.freeAcked m

def init : UdpSender where
  sender := Reliability.init.sender
  posted := fun _ => ⟨0, 0, 0, true, .onNoList⟩

end UdpSender

end Lampi
