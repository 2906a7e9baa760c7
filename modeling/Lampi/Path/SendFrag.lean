import Lampi.Path.RecvFrag

/-!
# The sending side of the reliability protocol

A message (`SendDesc_t`) is cut into fragments, each held by a descriptor taken from a pool.
Descriptors wait on `FragsToSend`, move to `FragsToAck` when they are sent, and go back when they
are acknowledged: by an acknowledgement that names them (`msgDataAck` of GM, `processAck` of UDP),
or in `BasePath_t::resend`, if the cumulative number the destination has acknowledged covers them.
`resend` also puts fragments that have timed out back on `FragsToSend`.

Pointers to messages and to fragment descriptors are numbers.  The queues of messages are left out.
The lists of fragments are modelled by their contents; taking a descriptor off a list that it is not
on changes nothing here.  With the links and lengths of the lists it does (`LinkedMessage.resend`);
`LinkedMessage.Represents.resend` says when that makes no difference.

`none` stands for `ulm_exit`.
-/

namespace Lampi

/-- The lists a fragment descriptor can be on, as `WhichQueue` names them. -/
inductive FragQueue
  | freeList
  | fragsToSend
  | fragsToAck
  deriving DecidableEq, Repr

/-- `gmSendFragDesc` and `udpSendFragDesc`.  `header` is the header as it is sent, `gmSends` the
number of sends GM has not reported back yet. -/
structure SendFragDesc where
  parentSendDesc : Option ℕ
  globalDestProc : ℕ
  header : DataHeader
  fragSeq : ℕ
  whichQueue : FragQueue
  sendDidComplete : Bool
  didRecvAck : Bool
  gmSends : ℕ

/-- `SendDesc_t`. -/
structure SendDesc where
  peer : ℕ
  isendSeq : ℕ
  synchronous : Bool
  numSent : ℤ
  numAcked : ℤ
  fragsToSend : List ℕ
  fragsToAck : List ℕ

/-- `sender_ackinfo_t`: what one destination has acknowledged. -/
structure AckInfo where
  deliveredLargestInorderSeq : ℕ
  receivedLargestInorderSeq : ℕ

/-- The sending side of a process.  The last three fields record what has happened: destinations and
numbers of the fragments each descriptor has carried; source, destination and number of each
acknowledgement counted in `NumAcked`; destination and number of what `resend` has treated as
delivered. -/
structure Sender where
  nextFragSeqs : ℕ → ℕ
  ackInfo : ℕ → AckInfo
  frags : ℕ → SendFragDesc
  messages : ℕ → SendDesc
  carried : ℕ → List (ℕ × ℕ)
  credited : List (ℕ × ℕ × ℕ)
  treatedAsDelivered : List (ℕ × ℕ)

/-- What GM reports about a send. -/
inductive GmStatus
  | success
  -- `GM_SEND_TIMED_OUT` and `GM_SEND_DROPPED`
  | dropped
  deriving DecidableEq, Repr

namespace Sender

def setFrag (s : Sender) (d : ℕ) (f : SendFragDesc → SendFragDesc) : Sender :=
  { s with frags := Function.update s.frags d (f (s.frags d)) }

def setMessage (s : Sender) (m : ℕ) (f : SendDesc → SendDesc) : Sender :=
  { s with messages := Function.update s.messages m (f (s.messages m)) }

/-! ### Messages and their fragments -/

/-- A message to process `peer` at `m`, a place not in use: `ReturnDesc` gives back messages with
no fragments on their lists. -/
def isend (s : Sender) (m peer isendSeq : ℕ) (synchronous : Bool) : Option Sender :=
  if (s.messages m).fragsToSend = [] ∧ (s.messages m).fragsToAck = [] then
    some <| s.setMessage m fun _ =>
      { peer, isendSeq, synchronous, numSent := 0, numAcked := 0
        fragsToSend := [], fragsToAck := [] }
  else none

variable (path : Path)

variable (s : Sender)

/-- `initFragSeq`: the number the next fragment of a message gets, and the counters. -/
def initFragSeq (message : SendDesc) (seqOffset : ℕ) : ℕ × (ℕ → ℕ) :=
  if !path.doAck && (!message.synchronous || seqOffset ≠ 0) then (0, s.nextFragSeqs)
  else
    let n := s.nextFragSeqs message.peer
    (n, Function.update s.nextFragSeqs message.peer (n + 1))

/-- Descriptor `d` with fragment number `n` of message `m`. -/
def newFrag (message : SendDesc) (d m n seqOffset length : ℕ) (old : SendFragDesc) : SendFragDesc :=
  { parentSendDesc := some m
    globalDestProc := message.peer
    header :=
      { fragSeq := n, isendSeq := message.isendSeq, seqOffset, length
        msgType := match path with
          | .gm _ _ => if message.synchronous then .pt2ptSync else .pt2pt
          | .udp => .pt2pt
        sendFragDesc := d }
    fragSeq := n
    whichQueue := .fragsToSend
    -- UDP does not reset it
    sendDidComplete := match path with
      | .gm _ _ => false
      | .udp => old.sendDidComplete
    didRecvAck := false
    gmSends := 0 }

/-- Descriptor `d` from the pool gets the next fragment of message `m`, as in `gmSendFragDesc::init`
and `udpPath::send`. -/
def initFrag (d m seqOffset length : ℕ) : Option Sender :=
  if (s.frags d).whichQueue = .freeList then
    let message := s.messages m
    let numbered := s.initFragSeq path message seqOffset
    let s := { s with
      nextFragSeqs := numbered.2
      carried := Function.update s.carried d (s.carried d ++ [(message.peer, numbered.1)]) }
    let s := s.setFrag d (newFrag path message d m numbered.1 seqOffset length)
    some <| s.setMessage m fun msg => { msg with fragsToSend := msg.fragsToSend ++ [d] }
  else none

/-- The loops in `gmPath::send` and `udpPath::send` send descriptor `d`, on `FragsToSend`.  Returns
the destination and the header. -/
def send (d : ℕ) : Option (Sender × ℕ × DataHeader) :=
  let frag := s.frags d
  frag.parentSendDesc.bind fun m =>
    if d ∈ (s.messages m).fragsToSend then
      let s := s.setFrag d fun frag => { frag with
        whichQueue := .fragsToAck
        sendDidComplete := match path with
          | .gm _ _ => frag.sendDidComplete
          | .udp => true
        gmSends := match path with
          | .gm _ _ => frag.gmSends + 1
          | .udp => frag.gmSends }
      let s := s.setMessage m fun msg => { msg with
        fragsToSend := msg.fragsToSend.erase d
        fragsToAck := msg.fragsToAck ++ [d]
        -- GM counts the send in its callback
        numSent := match path with
          | .gm _ _ => msg.numSent
          | .udp => msg.numSent + 1 }
      some (s, frag.globalDestProc, frag.header)
    else none

/-! ### Freeing descriptors -/

/-- Takes `d` off the list it is on, before it goes back to the pool. -/
def takeOff (d m : ℕ) : Option Sender :=
  match (s.frags d).whichQueue with
  | .fragsToAck => some <| s.setMessage m fun msg =>
      { msg with fragsToAck := msg.fragsToAck.erase d }
  | .fragsToSend => some <| s.setMessage m fun msg =>
      -- counted as sent since it was going to be sent again
      { msg with fragsToSend := msg.fragsToSend.erase d, numSent := msg.numSent + 1 }
  | .freeList => none

/-- `gmSendFragDesc::freeResources`.  The parent pointer stays. -/
def freeResourcesGm (d : ℕ) (bsd : Option ℕ) : Option Sender :=
  if (s.frags d).whichQueue = .freeList then some s
  else if (s.frags d).gmSends ≠ 0 then some s
  else
    let taken : Option Sender := match bsd with
      | some m => s.takeOff d m
      | none => some s
    taken.map fun s => s.setFrag d fun frag => { frag with fragSeq := 0, whichQueue := .freeList }

/-- `udpSendFragDesc::freeResources`. -/
def freeResourcesUdp (d m : ℕ) : Option Sender :=
  (s.takeOff d m).map fun s =>
    s.setFrag d fun frag =>
      { frag with fragSeq := 0, parentSendDesc := none, whichQueue := .freeList }

/-- `freeResources` of a fragment descriptor, for its message `m`. -/
def freeResources (d m : ℕ) : Option Sender :=
  match path with
  | .gm _ _ => s.freeResourcesGm d (some m)
  | .udp => s.freeResourcesUdp d m

/-! ### Acknowledgements -/

/-- The part of `checkForDuplicateAndNonSpecificAck` that updates what is known about the process
that sent the acknowledgement. -/
def updateAckInfo (ack : Ack) : Sender :=
  let info := s.ackInfo ack.srcProc
  { s with
    ackInfo := Function.update s.ackInfo ack.srcProc
      { deliveredLargestInorderSeq :=
          if ack.deliveredFragSeq > info.deliveredLargestInorderSeq then ack.deliveredFragSeq
          else info.deliveredLargestInorderSeq
        -- received is not guaranteed to be an increasing series
        receivedLargestInorderSeq := ack.receivedFragSeq } }

/-- Counts the acknowledgement of descriptor `d` for message `m`. -/
def countAck (d m : ℕ) (ack : Ack) : Sender :=
  let s := s.setMessage m fun msg => { msg with numAcked := msg.numAcked + 1 }
  let frag := s.frags d
  { s with credited := s.credited ++ [(ack.srcProc, frag.globalDestProc, frag.fragSeq)] }

/-- Descriptor `d` has to be sent again. -/
def requeue (d m : ℕ) : Sender :=
  s.setMessage m fun msg =>
    { msg with fragsToAck := msg.fragsToAck.erase d, fragsToSend := msg.fragsToSend ++ [d] }

/-- `handlePt2PtMessageAck` of `BaseRecvFragDesc_t`, and of `udpRecvFragDesc`. -/
def handlePt2PtMessageAck (d m : ℕ) (ack : Ack) : Option Sender :=
  let whichQueue := (s.frags d).whichQueue
  if ack.ackStatus = .dataGood then
    let s := s.countAck d m ack
    match path with
    | .gm _ _ => if (s.frags d).sendDidComplete then s.freeResourcesGm d (some m) else some s
    | .udp => s.freeResourcesUdp d m
  else
    let s := s.setFrag d fun frag => { frag with
      whichQueue := match path with
        | .gm _ _ => .fragsToSend
        | .udp => if whichQueue = .fragsToAck then .fragsToSend else whichQueue
      sendDidComplete := false }
    let s := if whichQueue = .fragsToAck then s.requeue d m else s
    some <| s.setMessage m fun msg => { msg with numSent := msg.numSent - 1 }

/-- `msgDataAck` notes in the descriptor that good data was acknowledged. -/
def noteAck (d : ℕ) (ack : Ack) : Sender :=
  match path with
  | .gm _ _ =>
    if ack.ackStatus = .dataGood then s.setFrag d fun frag => { frag with didRecvAck := true }
    else s
  | .udp => s

/-- `msgDataAck` of GM and `processAck` of UDP. -/
def processAck (ack : Ack) : Option Sender :=
  let d := ack.sendFragDesc
  match (s.frags d).parentSendDesc with
  | none => some s
  | some m =>
    let stale := match path with
      | .gm _ _ => decide ((s.messages m).isendSeq ≠ ack.isendSeq)
      | .udp => false
    if stale then some s
    else
      let s := s.updateAckInfo ack
      if ack.ackStatus = .aggInfoOnly then some s
      else if (s.frags d).fragSeq ≠ ack.thisFragSeq then some s
      else (s.noteAck path d ack).handlePt2PtMessageAck path d m ack

/-- `gmPath::callback` for a send that timed out or was dropped. -/
def sendDropped (d : ℕ) : Sender :=
  match (s.frags d).parentSendDesc with
  | some m =>
    if (s.frags d).whichQueue = .fragsToAck then
      (s.setFrag d fun frag => { frag with whichQueue := .fragsToSend }).requeue d m
    else s
  | none => s

/-- `gmPath::callback` for a send that was successful. -/
def sendSucceeded (doAck : Bool) (s : Sender) (d : ℕ) : Option Sender :=
  match (s.frags d).parentSendDesc with
  | some m =>
    let s := s.setMessage m fun msg => { msg with numSent := msg.numSent + 1 }
    let s := s.setFrag d fun frag => { frag with sendDidComplete := true }
    if (s.messages m).synchronous ∧ (s.frags d).header.seqOffset = 0 then
      if (s.frags d).didRecvAck then s.freeResourcesGm d (some m) else some s
    else if doAck = false then
      (s.setMessage m fun msg => { msg with numAcked := msg.numAcked + 1 }).freeResourcesGm d
        (some m)
    else if (s.frags d).didRecvAck then s.freeResourcesGm d (some m)
    else some s
  | none => s.freeResourcesGm d none

/-- `gmPath::callback`. -/
def callback (doAck : Bool) (s : Sender) (d : ℕ) (status : GmStatus) : Option Sender :=
  if (s.frags d).gmSends = 0 then none
  else
    let s := s.setFrag d fun frag => { frag with gmSends := frag.gmSends - 1 }
    match status with
    | .dropped => some (s.sendDropped d)
    | .success => s.sendSucceeded doAck d

/-! ### Sending again -/

/-- `BasePath_t::freeResources`: descriptor `d` of message `m` was delivered, but the
acknowledgement was lost. -/
def freeDelivered (d m : ℕ) : Option Sender :=
  let s := s.setMessage m fun msg => { msg with numAcked := msg.numAcked + 1 }
  if (s.frags d).sendDidComplete then
    let freed : Option Sender := match (s.frags d).parentSendDesc with
      | some parent => s.freeResources path d parent
      | none => some s
    freed.map fun s => s.setFrag d fun frag => { frag with fragSeq := 0, parentSendDesc := none }
  else some s

/-- The body of the loop in `resend`. -/
def resendFrag (m : ℕ) (timedOut : ℕ → Bool) (s : Sender) (d : ℕ) : Option Sender :=
  let frag := s.frags d
  if (s.ackInfo frag.globalDestProc).deliveredLargestInorderSeq ≥ frag.fragSeq then
    let s := { s with
      treatedAsDelivered := s.treatedAsDelivered ++ [(frag.globalDestProc, frag.fragSeq)] }
    let s := s.setMessage m fun msg => { msg with fragsToAck := msg.fragsToAck.erase d }
    s.freeDelivered path d m
  else if timedOut d then
    let s := s.setFrag d fun frag => { frag with
      whichQueue := .fragsToSend, sendDidComplete := false }
    let s := s.requeue d m
    some <| s.setMessage m fun msg => { msg with numSent := msg.numSent - 1 }
  else some s

/-- `BasePath_t::resend` for message `m`.  `retransmitP` only has it called with `doAck`. -/
def resend (m : ℕ) (timedOut : ℕ → Bool) : Option Sender :=
  if path.doAck then (s.messages m).fragsToAck.foldlM (resendFrag path m timedOut) s else none

end Sender

end Lampi
