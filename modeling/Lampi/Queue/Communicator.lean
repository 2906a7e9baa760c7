import Mathlib.Algebra.Ring.Nat
import Mathlib.Logic.Function.Basic
import Lampi.Queue.RecvDesc

/-!
# The receive queues of a communicator

Arriving fragments (`Communicator::handleReceivedFrag`, behind its check for duplicates) and posted
receives (`Communicator::irecv_start`) meet in five kinds of lists:

* `AheadOfSeqRecvFrags`: fragments whose message is not the next expected one of its source;
* `OkToMatchRecvFrags`: fragments that could be matched, but no receive was posted for them;
* `PostedSpecificRecv` and `PostedWildRecv`: receives that no message was matched with;
* `MatchedRecv`: receives with a message some fragments of which are missing.

This is the single-threaded build, without the lists for shared memory.  A receive is named by the
number that `irecv_start` gives it.  The lists are the contents of the linked lists: a loop that
removes the element it is at goes on with the predecessor's successor, so it carries the part of the
list it has passed and kept, and the part that is left.  Acknowledgements are modelled with the
reliability protocol.
-/

namespace Lampi

/-- Which function copied the data of a fragment. -/
inductive Handler
  | processMatchedData
  | irecvStart
  deriving DecidableEq, Repr

/-- A fragment whose data was copied, with the receive and the bytes that were counted. -/
structure Processed where
  recv : ℕ
  frag : BaseRecvFragDesc
  counted : ℕ
  handler : Handler
  deriving DecidableEq, Repr

/-- The parts of `Communicator` for receiving.  `processed` is history. -/
structure Communicator where
  groupSize : ℕ
  nextExpectedIsendSeqs : ℕ → ℕ
  nextIrecvIdCounter : ℕ
  recvs : ℕ → RecvDesc
  aheadOfSeqRecvFrags : ℕ → List BaseRecvFragDesc
  okToMatchRecvFrags : ℕ → List BaseRecvFragDesc
  postedSpecificRecv : ℕ → List ℕ
  postedWildRecv : List ℕ
  matchedRecv : ℕ → List ℕ
  processed : List Processed

namespace Communicator

variable (s : Communicator)

def setRecv (id : ℕ) (f : RecvDesc → RecvDesc) : Communicator :=
  { s with recvs := Function.update s.recvs id (f (s.recvs id)) }

def setAheadOfSeq (proc : ℕ) (frags : List BaseRecvFragDesc) : Communicator :=
  { s with aheadOfSeqRecvFrags := Function.update s.aheadOfSeqRecvFrags proc frags }

def setOkToMatch (proc : ℕ) (frags : List BaseRecvFragDesc) : Communicator :=
  { s with okToMatchRecvFrags := Function.update s.okToMatchRecvFrags proc frags }

def setMatched (proc : ℕ) (ids : List ℕ) : Communicator :=
  { s with matchedRecv := Function.update s.matchedRecv proc ids }

def setPostedSpecific (proc : ℕ) (ids : List ℕ) : Communicator :=
  { s with postedSpecificRecv := Function.update s.postedSpecificRecv proc ids }

/-- `privateQueues.OkToMatchRecvFrags[proc]->AppendNoLock(frag)`. -/
def appendOkToMatch (proc : ℕ) (frag : BaseRecvFragDesc) : Communicator :=
  s.setOkToMatch proc (s.okToMatchRecvFrags proc ++ [frag])

/-- `++next_expected_isendSeqs[proc]`. -/
def advance (proc : ℕ) : Communicator :=
  { s with
    nextExpectedIsendSeqs :=
      Function.update s.nextExpectedIsendSeqs proc (s.nextExpectedIsendSeqs proc + 1) }

/-- `messageDone = REQUEST_COMPLETE`. -/
def complete (id : ℕ) : Communicator := s.setRecv id fun r => { r with messageDone := true }

/-- Note in the history that the data of a fragment was copied. -/
def record (id : ℕ) (frag : BaseRecvFragDesc) (handler : Handler) : Communicator :=
  { s with processed := s.processed ++ [⟨id, frag, (s.recvs id).bytesCounted frag, handler⟩] }

/-! ### Copying -/

/-- `DeliveredToAppLock`.  Returns `recvDone`. -/
def deliveredToAppLock (id bytesCopied bytesDiscarded : ℕ) : Communicator × Bool :=
  let s := s.setRecv id fun r => { r with
    dataReceived := r.dataReceived + bytesCopied
    dataInBitBucket := r.dataInBitBucket + bytesDiscarded }
  let r := s.recvs id
  if r.counted ≥ r.resltsLength then
    if r.whichQueue = .matchedIrecv then
      (s.setMatched r.resltsPeer ((s.matchedRecv r.resltsPeer).erase id), true)
    else (s, true)
  else (s, false)

/-- `DeliveredToApp` marks the request as complete itself. -/
def deliveredToApp (id bytesCopied bytesDiscarded : ℕ) : Communicator :=
  let delivered := s.deliveredToAppLock id bytesCopied bytesDiscarded
  if delivered.2 then delivered.1.complete id else delivered.1

/-- `CopyToAppLock`.  Returns `recvDone`. -/
def copyToAppLock (id : ℕ) (frag : BaseRecvFragDesc) : Communicator × Bool :=
  match (s.recvs id).copyData frag with
  | some bytes => s.deliveredToAppLock id bytes.1 bytes.2
  | none => (s, false)

/-- `CopyToApp`. -/
def copyToApp (id : ℕ) (frag : BaseRecvFragDesc) : Communicator :=
  match (s.recvs id).copyData frag with
  | some bytes => s.deliveredToApp id bytes.1 bytes.2
  | none => s

/-- `ProcessMatchedData`.  Returns `recvDone`. -/
def processMatchedData (s : Communicator) (id : ℕ) (frag : BaseRecvFragDesc) :
    Communicator × Bool :=
  let copied := s.copyToAppLock id frag
  (copied.1.record id frag .processMatchedData, copied.2)

/-! ### Matching a fragment with the posted receives -/

/-- The posted tag of a receive matches the tag of a fragment. -/
def wants (frag : BaseRecvFragDesc) (id : ℕ) : Bool :=
  RecvDesc.tagMatches (s.recvs id).postedTag frag.tag

/-- A receive is moved to the matched ones, with the data of the fragment filled in. -/
def fillIn (id : ℕ) (frag : BaseRecvFragDesc) : Communicator :=
  let s := s.setRecv id fun r => { r with
    isendSeq := frag.isendSeq
    resltsLength := frag.msgLength
    resltsPeer := frag.srcProcID
    whichQueue := .matchedIrecv }
  s.setMatched frag.srcProcID (s.matchedRecv frag.srcProcID ++ [id])

/-- The tag of the fragment is filled in too. -/
def fillInTag (id : ℕ) (frag : BaseRecvFragDesc) : Communicator :=
  s.setRecv id fun r => { r with resltsTag := frag.tag }

/-- A receive on `PostedWildRecv` was found for the fragment. -/
def matchWild (id : ℕ) (frag : BaseRecvFragDesc) : Communicator :=
  ({ s with postedWildRecv := s.postedWildRecv.erase id }.fillIn id frag).fillInTag id frag

/-- A receive on `PostedSpecificRecv` was found for the fragment. -/
def matchSpecific (id : ℕ) (frag : BaseRecvFragDesc) : Communicator :=
  (s.setPostedSpecific frag.srcProcID
    ((s.postedSpecificRecv frag.srcProcID).erase id)).fillIn id frag

/-- `checkWildPostedRecvListForMatch`. -/
def checkWildPostedRecvListForMatch (frag : BaseRecvFragDesc) : Communicator × Option ℕ :=
  match s.postedWildRecv.find? (s.wants frag) with
  | some id => (s.matchWild id frag, some id)
  | none => (s, none)

/-- `checkSpecificPostedRecvListForMatch`. -/
def checkSpecificPostedRecvListForMatch (frag : BaseRecvFragDesc) : Communicator × Option ℕ :=
  match (s.postedSpecificRecv frag.srcProcID).find? (s.wants frag) with
  | some id => ((s.matchSpecific id frag).fillInTag id frag, some id)
  | none => (s, none)

/-- The loop of `checkSpecificAndWildPostedRecvListForMatch`, at `SpecificDesc` and `WildDesc`, with
what follows them in the two lists.  The tag of a specific receive is not filled in here. -/
def scanSpecificAndWild (s : Communicator) (frag : BaseRecvFragDesc) :
    ℕ → ℕ → List ℕ → ℕ → List ℕ → Communicator × Option ℕ
  | 0, _, _, _, _ => (s, none)
  | fuel + 1, specific, specifics, wild, wilds =>
    if (s.recvs wild).irecvSeq < (s.recvs specific).irecvSeq then
      if s.wants frag wild then (s.matchWild wild frag, some wild)
      else
        match wilds with
        | [] => s.checkSpecificPostedRecvListForMatch frag
        | wild :: wilds => s.scanSpecificAndWild frag fuel specific specifics wild wilds
    else
      if s.wants frag specific then (s.matchSpecific specific frag, some specific)
      else
        match specifics with
        | [] => s.checkWildPostedRecvListForMatch frag
        | specific :: specifics => s.scanSpecificAndWild frag fuel specific specifics wild wilds

/-- `checkPostedRecvListForMatch`. -/
def checkPostedRecvListForMatch (frag : BaseRecvFragDesc) : Communicator × Option ℕ :=
  match s.postedSpecificRecv frag.srcProcID, s.postedWildRecv with
  | [], _ => s.checkWildPostedRecvListForMatch frag
  | _ :: _, [] => s.checkSpecificPostedRecvListForMatch frag
  | specific :: specifics, wild :: wilds =>
    -- each round passes one of the receives
    s.scanSpecificAndWild frag (specifics.length + wilds.length + 1) specific specifics wild wilds

/-! ### Arriving fragments -/

/-- `isThisMissingFrag`. -/
def isThisMissingFrag (frag : BaseRecvFragDesc) : Option ℕ :=
  (s.matchedRecv frag.srcProcID).find? fun id =>
    frag.isendSeq == (s.recvs id).isendSeq && frag.srcProcID == (s.recvs id).resltsPeer

/-- The loop of `SearchForFragsWithSpecifiedISendSeqNum`. -/
def searchOkToMatch (id sendingProc sendingSequenceNumber : ℕ) :
    List BaseRecvFragDesc → List BaseRecvFragDesc → Communicator → Communicator × Bool
  | _, [], s => (s, false)
  | kept, frag :: rest, s =>
    if frag.isendSeq = sendingSequenceNumber then
      let processed := (s.setOkToMatch sendingProc (kept ++ rest)).processMatchedData id frag
      if processed.2 then processed
      else searchOkToMatch id sendingProc sendingSequenceNumber kept rest processed.1
    else searchOkToMatch id sendingProc sendingSequenceNumber (kept ++ [frag]) rest s

/-- `SearchForFragsWithSpecifiedISendSeqNum`.  Returns `recvDone`. -/
def searchForFragsWithSpecifiedISendSeqNum (id : ℕ) : Communicator × Bool :=
  let sendingProc := (s.recvs id).resltsPeer
  searchOkToMatch id sendingProc (s.recvs id).isendSeq [] (s.okToMatchRecvFrags sendingProc) s

/-- A fragment in sequence is processed with the receive that was found for it, or put on
`OkToMatchRecvFrags`. -/
def place (proc : ℕ) (frag : BaseRecvFragDesc) : Option ℕ → Communicator × Bool
  | some id => s.processMatchedData id frag
  | none => (s.appendOkToMatch proc frag, false)

/-- `if (recvDone) messageDone = REQUEST_COMPLETE`, for the receive that was found. -/
def completeIf (recvDone : Bool) : Option ℕ → Communicator
  | some id => if recvDone then s.complete id else s
  | none => s

/-- The inner loop of `matchFragsInAheadOfSequenceList`: the other fragments of the message. -/
def takeSameMessage (proc nextSeqIDToMatch : ℕ) (matched : Option ℕ) :
    List BaseRecvFragDesc → List BaseRecvFragDesc → Communicator → Communicator
  | _, [], s => s
  | kept, frag :: rest, s =>
    if frag.isendSeq = nextSeqIDToMatch then
      let placed := (s.setAheadOfSeq proc (kept ++ rest)).place proc frag matched
      let s := placed.1.completeIf placed.2 matched
      if placed.2 then s else takeSameMessage proc nextSeqIDToMatch matched kept rest s
    else takeSameMessage proc nextSeqIDToMatch matched (kept ++ [frag]) rest s

/-- The loop of `matchFragsInAheadOfSequenceList`, with a bound on the number of its rounds. -/
def matchAheadOfSeq (proc : ℕ) : ℕ → Communicator → Communicator
  | 0, s => s
  | fuel + 1, s =>
    let nextSeqIDToMatch := s.nextExpectedIsendSeqs proc
    match (s.aheadOfSeqRecvFrags proc).span fun frag => frag.isendSeq != nextSeqIDToMatch with
    | (_, []) => s
    | (kept, frag :: rest) =>
      let found := s.checkPostedRecvListForMatch frag
      let placed := (found.1.setAheadOfSeq proc (kept ++ rest)).place proc frag found.2
      let s := placed.1.completeIf placed.2 found.2
      let s := if placed.2 then s else takeSameMessage proc nextSeqIDToMatch found.2 kept rest s
      matchAheadOfSeq proc fuel (s.advance proc)

/-- `matchFragsInAheadOfSequenceList`.  Each round takes a fragment off the list. -/
def matchFragsInAheadOfSequenceList (proc : ℕ) : Communicator :=
  matchAheadOfSeq proc (s.aheadOfSeqRecvFrags proc).length s

/-- `handleReceivedFrag`, behind the check for duplicates. -/
def handleReceivedFrag (frag : BaseRecvFragDesc) : Communicator :=
  let fragSrc := frag.srcProcID
  let nextSeqIDToProcess := s.nextExpectedIsendSeqs fragSrc
  if frag.isendSeq = nextSeqIDToProcess then
    let found := s.checkPostedRecvListForMatch frag
    let placed := found.1.place fragSrc frag found.2
    let searched := match found.2 with
      | some id =>
        if placed.2 then placed else placed.1.searchForFragsWithSpecifiedISendSeqNum id
      | none => placed
    let s := searched.1.advance fragSrc
    let s :=
      if (s.aheadOfSeqRecvFrags fragSrc).length > 0 then s.matchFragsInAheadOfSequenceList fragSrc
      else s
    -- marked this late because other threads may wait for it
    s.completeIf searched.2 found.2
  else if frag.isendSeq < nextSeqIDToProcess then
    let matched := s.isThisMissingFrag frag
    let placed := s.place fragSrc frag matched
    placed.1.completeIf placed.2 matched
  else
    s.setAheadOfSeq fragSrc (s.aheadOfSeqRecvFrags fragSrc ++ [frag])

/-- `isendSeq_m` of the fragments of message `seq`: the number is kept with 64 bits, but this is an
`unsigned long`. -/
def isendSeqOf (width seq : ℕ) : ℕ := seq % 2 ^ width

/-- How `handleReceivedFrag` takes a fragment of message `seq`: as current, old or ahead. -/
def fragOrder (width seq nextSeqIDToProcess : ℕ) : Ordering :=
  if isendSeqOf width seq = nextSeqIDToProcess then .eq
  else if isendSeqOf width seq < nextSeqIDToProcess then .lt
  else .gt

/-- Whether `matchFragsInAheadOfSequenceList` takes it for one of the next message;
`nextSeqIDToMatch` is an `unsigned long` too. -/
def isNextMessage (width seq nextExpected : ℕ) : Bool :=
  isendSeqOf width seq == nextExpected % 2 ^ width

/-! ### Posted receives -/

/-- The loop of `checkSpecifiedFragListsForMatch` after a fragment was found: the other fragments of
its message. -/
def copySameMessage (id procWithData : ℕ) (first : BaseRecvFragDesc) :
    List BaseRecvFragDesc → List BaseRecvFragDesc → Communicator → Communicator
  | _, [], s => s
  | kept, frag :: rest, s =>
    if frag.isendSeq = first.isendSeq ∧ frag.srcProcID = first.srcProcID ∧ frag.tag = first.tag then
      let copied := s.copyToAppLock id frag
      let s := if copied.2 then copied.1.complete id else copied.1
      let s := (s.setOkToMatch procWithData (kept ++ rest)).record id frag .irecvStart
      if (s.recvs id).messageDone then s else copySameMessage id procWithData first kept rest s
    else copySameMessage id procWithData first (kept ++ [frag]) rest s

/-- `checkSpecifiedFragListsForMatch`.  Returns `FragFound`. -/
def checkSpecifiedFragListsForMatch (s : Communicator) (id procWithData : ℕ) :
    Communicator × Bool :=
  match (s.okToMatchRecvFrags procWithData).span fun frag => !s.wants frag id with
  | (_, []) => (s, false)
  | (kept, frag :: rest) =>
    let s := s.setRecv id fun r => { r with
      isendSeq := frag.isendSeq
      resltsLength := frag.msgLength
      resltsTag := frag.tag
      resltsPeer := frag.srcProcID }
    let s := s.copyToApp id frag
    let s := (s.setOkToMatch procWithData (kept ++ rest)).record id frag .irecvStart
    if (s.recvs id).messageDone then (s, true)
    else
      let s := s.setRecv id fun r => { r with whichQueue := .matchedIrecv }
      let peer := (s.recvs id).resltsPeer
      let s := s.setMatched peer (s.matchedRecv peer ++ [id])
      (copySameMessage id procWithData frag kept rest s, true)

/-- The loop of `checkFragListsForWildMatch` over the processes, and what follows it. -/
def checkProcsForWildMatch (id : ℕ) : List ℕ → Communicator → Communicator
  | [], s =>
    let s := s.setRecv id fun r => { r with whichQueue := .postedWildIrecv }
    { s with postedWildRecv := s.postedWildRecv ++ [id] }
  | procWithData :: procs, s =>
    if (s.okToMatchRecvFrags procWithData).length = 0 then checkProcsForWildMatch id procs s
    else
      let checked := s.checkSpecifiedFragListsForMatch id procWithData
      if checked.2 then checked.1 else checkProcsForWildMatch id procs checked.1

/-- `checkFragListsForWildMatch`. -/
def checkFragListsForWildMatch (id : ℕ) : Communicator :=
  checkProcsForWildMatch id (List.range s.groupSize) s

/-- `privateQueues.PostedSpecificRecv[sourceProc]->AppendNoLock(IRDesc)`. -/
def postSpecific (id sourceProc : ℕ) : Communicator :=
  let s := s.setRecv id fun r => { r with whichQueue := .postedIrecv }
  s.setPostedSpecific sourceProc (s.postedSpecificRecv sourceProc ++ [id])

/-- `checkFragListsForSpecificMatch`. -/
def checkFragListsForSpecificMatch (id sourceProc : ℕ) : Communicator :=
  if (s.okToMatchRecvFrags sourceProc).length = 0 then s.postSpecific id sourceProc
  else
    let checked := s.checkSpecifiedFragListsForMatch id sourceProc
    if checked.2 then checked.1 else checked.1.postSpecific id sourceProc

/-- `irecv_start`, for a receive with these parameters. -/
def irecvStart (peer : Option ℕ) (tag : ℤ) (length : ℕ) (datatype : Option CommittedType) :
    Communicator :=
  let seq := s.nextIrecvIdCounter
  let s := { s with nextIrecvIdCounter := seq + 1 }
  let s := s.setRecv seq fun r => { r with
    postedPeer := peer
    postedTag := tag
    postedLength := length
    datatype := datatype
    irecvSeq := seq
    resltsLength := 0
    dataReceived := 0
    dataInBitBucket := 0
    messageDone := false
    whichQueue := .onNoList }
  match peer with
  | none => s.checkFragListsForWildMatch seq
  | some sourceProc => s.checkFragListsForSpecificMatch seq sourceProc

/-! ### Probing -/

/-- `ULMStatus_t`, as `iprobe` fills it in: `length_m` is an `int`. -/
structure Status where
  peer : ℕ
  tag : ℤ
  length : ℤ
  deriving DecidableEq, Repr

/-- The loops of `iprobe` over the fragments of one process. -/
def probeSource (tag : ℤ) (srcIndex : ℕ) : Option Status :=
  let found :=
    if tag = anyTag then
      -- do not match on a negative tag
      (s.okToMatchRecvFrags srcIndex).find? fun rfd => !decide (rfd.tag < 0)
    else (s.okToMatchRecvFrags srcIndex).find? fun rfd => tag == rfd.tag
  found.map fun rfd => { peer := srcIndex, tag := rfd.tag, length := intT rfd.msgLength }

/-- `iprobe`.  `ulm_make_progress` brings the fragments `arrived` first, and does not fail. -/
def iprobe (arrived : List BaseRecvFragDesc) (sourceProc : Option ℕ) (tag : ℤ) :
    Communicator × Option Status :=
  let s := arrived.foldl handleReceivedFrag s
  match sourceProc with
  | none =>
    (s, (List.range s.groupSize).findSome? fun srcIndex =>
      if (s.okToMatchRecvFrags srcIndex).length = 0 then none else s.probeSource tag srcIndex)
  | some srcIndex => (s, s.probeSource tag srcIndex)

/-! ### Runs -/

/-- What can happen to a communicator. -/
inductive Event
  | arrive (frag : BaseRecvFragDesc)
  | post (peer : Option ℕ) (tag : ℤ) (length : ℕ) (datatype : Option CommittedType)
  deriving DecidableEq, Repr

def step : Event → Communicator
  | .arrive frag => s.handleReceivedFrag frag
  | .post peer tag length datatype => s.irecvStart peer tag length datatype

def run (events : List Event) : Communicator := events.foldl step s

def blankRecv : RecvDesc where
  postedPeer := none
  postedTag := 0
  postedLength := 0
  datatype := none
  irecvSeq := 0
  isendSeq := 0
  resltsPeer := 0
  resltsTag := 0
  resltsLength := 0
  dataReceived := 0
  dataInBitBucket := 0
  messageDone := false
  whichQueue := .onNoList

/-- A new communicator, for a remote group of this size. -/
def init (groupSize : ℕ) : Communicator where
  groupSize := groupSize
  nextExpectedIsendSeqs _ := 0
  nextIrecvIdCounter := 1
  recvs _ := blankRecv
  aheadOfSeqRecvFrags _ := []
  okToMatchRecvFrags _ := []
  postedSpecificRecv _ := []
  postedWildRecv := []
  matchedRecv _ := []
  processed := []

end Communicator

end Lampi
