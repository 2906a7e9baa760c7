import Lampi.Queue.SeqTrackingList

/-!
# The receiving side of the reliability protocol

A process keeps two sequence tracking lists for each process that sends to it: the numbers of the
fragments received, and the numbers of the fragments delivered to the application.  An arriving
fragment is checked against them (the first part of `Communicator::handleReceivedFrag`), its data is
copied once a receive is matched (`RecvDesc_t::CopyToApp`, `ProcessMatchedData`), and `AckData`
updates the lists and builds the acknowledgement (`BaseRecvFragDesc_t::processRecvDataSeqs`).  An
acknowledgement that cannot be sent is queued, and `SendUnsentAcks` calls `AckData` again.

Matching is modelled elsewhere.  Here a fragment that has passed the check is `pending` until it is
processed with the length of the receive it was matched with.

`none` stands for `ulm_exit`.
-/

namespace Lampi

/-- The paths with acknowledgements, with the settings in `gmState` that they depend on. -/
inductive Path
  | gm (doAck doChecksum : Bool)
  | udp
  deriving DecidableEq, Repr

/-- `doAck` of the path. -/
def Path.doAck : Path → Bool
  | .gm doAck _ => doAck
  | .udp => true

/-- `MSGTYPE_PT2PT` and `MSGTYPE_PT2PT_SYNC`. -/
inductive MsgType
  | pt2pt
  | pt2ptSync
  deriving DecidableEq, Repr

/-- `UNIQUE_FRAG`, `DUPLICATE_RECEIVED` and `DUPLICATE_DELIVERD`. -/
inductive Duplicate
  | unique
  | received
  | delivered
  deriving DecidableEq, Repr

/-- `ACKSTATUS_DATAGOOD`, `ACKSTATUS_DATACORRUPT` and `ACKSTATUS_AGGINFO_ONLY`. -/
inductive AckStatus
  | dataGood
  | dataCorrupt
  | aggInfoOnly
  deriving DecidableEq, Repr

/-- The header of a data fragment.  `sendFragDesc` is the sender's descriptor of the fragment, a
pointer that the receiver only echoes. -/
structure DataHeader where
  fragSeq : ℕ
  isendSeq : ℕ
  seqOffset : ℕ
  length : ℕ
  msgType : MsgType
  sendFragDesc : ℕ
  deriving DecidableEq, Repr

/-- `BaseRecvFragDesc_t`.  `intact` tells whether the data as it arrived has the checksum that the
sender stored. -/
structure RecvFragDesc where
  header : DataHeader
  intact : Bool
  isDuplicate : Duplicate
  dataOK : Bool
  deriving DecidableEq, Repr

/-- The header of an acknowledgement. -/
structure Ack where
  srcProc : ℕ
  sendFragDesc : ℕ
  isendSeq : ℕ
  thisFragSeq : ℕ
  receivedFragSeq : ℕ
  deliveredFragSeq : ℕ
  ackStatus : AckStatus
  deriving DecidableEq, Repr

/-- `receivedDataSeqs` and `deliveredDataSeqs` for one source. -/
structure DataSeqs where
  received : SeqTrackingList
  delivered : SeqTrackingList

/-- What `AckData` needs to send: a fragment buffer and a send token for GM; for UDP only the second
counts, whether `sendmsg` succeeds. -/
structure Resources where
  buffer : Bool
  token : Bool
  deriving DecidableEq, Repr

/-- The receiving side of a process, for one source.  `accepted` and `built` record the numbers
whose data was accepted and the acknowledgements built. -/
structure Receiver where
  seqs : DataSeqs
  pending : List RecvFragDesc
  unprocessedAcks : List RecvFragDesc
  accepted : List ℕ
  built : List Ack

namespace RecvFragDesc

/-! ### Arrival -/

/-- The descriptor of a fragment that has just arrived. -/
def init (path : Path) (header : DataHeader) (intact : Bool) : RecvFragDesc :=
  { header, intact, isDuplicate := .unique
    -- GM waits for `CheckData`; UDP trusts what the network delivers
    dataOK := match path with
      | .gm _ _ => false
      | .udp => true }

/-! ### Copying to the application -/

/-- `CheckData`: the answer and the descriptor.  UDP only fails if the data could not be copied, and
leaves `DataOK` as it is. -/
def checkData (path : Path) (frag : RecvFragDesc) (length : ℕ) (copyError : Bool) :
    Option (Bool × RecvFragDesc) :=
  match path with
  | .gm doAck doChecksum =>
    if length = 0 ∨ doChecksum = false then some (true, { frag with dataOK := true })
    else if frag.intact then some (true, { frag with dataOK := true })
    else if doAck then some (false, { frag with dataOK := false })
    else none
  | .udp => some (!copyError, frag)

/-- `CopyToApp` and `CopyToAppLock`: whether the data was accepted (the result is not `-1`), and the
descriptor.  `postedLength` is the length of the receive. -/
def copyToApp (path : Path) (frag : RecvFragDesc) (postedLength : ℕ) (copyError : Bool) :
    Option (Bool × RecvFragDesc) :=
  let appBufferLen : ℤ := postedLength - frag.header.seqOffset
  if appBufferLen ≤ 0 then
    -- `MarkDataOK` does something for GM only, where `DataOK` is not set yet
    some (true, { frag with dataOK := true })
  else frag.checkData path (min appBufferLen frag.header.length).toNat copyError

/-! ### Acknowledging -/

/-- `processRecvDataSeqs`: the acknowledgement's status, number and cumulative fields, and the
lists. -/
def processRecvDataSeqs (frag : RecvFragDesc) (ack : Ack) (seqs : DataSeqs) :
    Option (Ack × DataSeqs) :=
  let n := frag.header.fragSeq
  let result : Option (Ack × DataSeqs) :=
    match frag.isDuplicate with
    | .unique =>
      if frag.dataOK then
        let (_, recorded, delivered) := seqs.delivered.recordIfNotRecorded n n
        if recorded then some ({ ack with ackStatus := .dataGood }, { seqs with delivered })
        else none
      else
        let (erased, received) := seqs.received.erase n n
        if erased then some ({ ack with ackStatus := .dataCorrupt }, { seqs with received })
        else none
    | .delivered => some ({ ack with ackStatus := .dataGood }, seqs)
    | .received => some ({ ack with thisFragSeq := 0, ackStatus := .aggInfoOnly }, seqs)
  result.map fun (ack, seqs) =>
    ({ ack with
       receivedFragSeq := seqs.received.largestInOrder
       deliveredFragSeq := seqs.delivered.largestInOrder }, seqs)

end RecvFragDesc

/-- Whether `AckData` acknowledges the fragment at all: GM without `doAck` only acknowledges the
first fragment of a synchronous send. -/
def DataHeader.wantsAck (path : Path) (header : DataHeader) : Bool :=
  path.doAck || (header.msgType == .pt2ptSync && header.seqOffset == 0)

/-- Whether `AckData` gets a buffer to build the acknowledgement in.  UDP builds it on the stack. -/
def Resources.haveBuffer (path : Path) (res : Resources) : Bool :=
  match path with
  | .gm _ _ => res.buffer
  | .udp => true

/-- The result of `AckData`: whether it returns true, the lists, and the acknowledgement if one was
built. -/
structure AckResult where
  acked : Bool
  seqs : DataSeqs
  ack : Option Ack

/-- The acknowledgement that `AckData` starts from. -/
def RecvFragDesc.blankAck (frag : RecvFragDesc) (me : ℕ) : Ack :=
  { srcProc := me
    sendFragDesc := frag.header.sendFragDesc
    isendSeq := frag.header.isendSeq
    thisFragSeq := frag.header.fragSeq
    receivedFragSeq := 0
    deliveredFragSeq := 0
    ackStatus := .aggInfoOnly }

/-- `AckData` in process `me`. -/
def RecvFragDesc.ackData (path : Path) (me : ℕ) (frag : RecvFragDesc) (seqs : DataSeqs)
    (res : Resources) : Option AckResult :=
  if !frag.header.wantsAck path then some { acked := true, seqs, ack := none }
  else if !res.haveBuffer path then some { acked := false, seqs, ack := none }
  else
    (frag.processRecvDataSeqs (frag.blankAck me) seqs).map fun (ack, seqs) =>
      { acked := res.token, seqs, ack := some ack }

namespace Receiver

/-! ### The steps of the receiver -/

/-- `AckData` for a descriptor that is not queued; it goes to `UnprocessedAcks` if the
acknowledgement could not be sent.  Also returns the one that was sent. -/
def acknowledge (path : Path) (me : ℕ) (r : Receiver) (frag : RecvFragDesc) (res : Resources) :
    Option (Receiver × List Ack) :=
  (frag.ackData path me r.seqs res).map fun result =>
    let r := { r with seqs := result.seqs, built := r.built ++ result.ack.toList }
    if result.acked then (r, result.ack.toList)
    else ({ r with unprocessedAcks := r.unprocessedAcks ++ [frag] }, [])

/-- The part of `handleReceivedFrag` that checks for duplicates. -/
def handleReceivedFrag (path : Path) (me : ℕ) (r : Receiver) (frag : RecvFragDesc)
    (res : Resources) : Option (Receiver × List Ack) :=
  let n := frag.header.fragSeq
  if n = 0 then some ({ r with pending := r.pending ++ [frag] }, [])
  else
    let (answer, recorded, received) := r.seqs.received.recordIfNotRecorded n n
    let r := { r with seqs := { r.seqs with received } }
    if answer ≠ .no then
      let (answer, delivered) := r.seqs.delivered.isRecorded n n
      let r := { r with seqs := { r.seqs with delivered } }
      if answer ≠ .no then
        r.acknowledge path me { frag with isDuplicate := .delivered, dataOK := true } res
      else if r.seqs.received.largestInOrder ≥ n then
        r.acknowledge path me { frag with isDuplicate := .received } res
      else some (r, [])
    else if !recorded then none
    else some ({ r with pending := r.pending ++ [frag] }, [])

/-- `ProcessMatchedData` for the `i`-th pending fragment, matched with a receive of length
`postedLength`. -/
def processMatchedData (path : Path) (me : ℕ) (r : Receiver) (i postedLength : ℕ)
    (copyError : Bool) (res : Resources) : Option (Receiver × List Ack) :=
  r.pending[i]?.bind fun frag =>
    (frag.copyToApp path postedLength copyError).bind fun (accepted, frag) =>
      let r := { r with
        pending := r.pending.eraseIdx i
        accepted := if accepted then r.accepted ++ [frag.header.fragSeq] else r.accepted }
      r.acknowledge path me frag res

/-- The loop of `SendUnsentAcks`, `res i` being what is available to call `i` of `AckData`.  Those
that could not be sent stay. -/
def sendUnsentAcks (path : Path) (me : ℕ) (res : ℕ → Resources) :
    ℕ → List RecvFragDesc → Receiver → Option (Receiver × List Ack)
  | _, [], r => some ({ r with unprocessedAcks := [] }, [])
  | i, frag :: frags, r =>
    (frag.ackData path me r.seqs (res i)).bind fun result =>
      let r := { r with seqs := result.seqs, built := r.built ++ result.ack.toList }
      (sendUnsentAcks path me res (i + 1) frags r).map fun (r, sent) =>
        if result.acked then (r, result.ack.toList ++ sent)
        else ({ r with unprocessedAcks := frag :: r.unprocessedAcks }, sent)

end Receiver

end Lampi
