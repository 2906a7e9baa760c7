import Lampi.Path.SendFrag

/-!
# A process sending to others over an unreliable network

One process sends messages to any number of others.  The network may lose, repeat, delay and reorder
data fragments and acknowledgements: every packet ever sent stays in `data` or `acks`, and may be
delivered at any time and any number of times.  Data may be damaged on the way; a damaged header is
dropped by the header check, which is the same as a loss.

What the surroundings decide is part of the event: which packet arrives and whether its data is
intact, when a pending fragment is matched and with a receive of which length, which fragments have
timed out, and whether memory, buffers and send tokens are available.
-/

namespace Lampi

/-- The sender, the receiving side of every other process, and the packets sent so far; a data
packet comes with its destination. -/
structure Reliability where
  sender : Sender
  recv : ℕ → Receiver
  data : List (ℕ × DataHeader)
  acks : List Ack

namespace Reliability

/-- The events of a run. -/
inductive Event
  /-- A message to process `peer` is started, with its descriptor at `m`. -/
  | isend (m peer isendSeq : ℕ) (synchronous : Bool)
  /-- Descriptor `d` gets a fragment of message `m`. -/
  | initFrag (d m seqOffset length : ℕ)
  /-- Descriptor `d` is sent. -/
  | send (d : ℕ)
  /-- GM reports on a send of descriptor `d`. -/
  | callback (d : ℕ) (status : GmStatus)
  /-- `resend` is called for message `m`. -/
  | resend (m : ℕ) (timedOut : ℕ → Bool)
  /-- The `i`-th data packet arrives. -/
  | deliver (i : ℕ) (intact : Bool) (res : Resources)
  /-- The `i`-th pending fragment in `proc` is matched and processed. -/
  | processMatchedData (proc i postedLength : ℕ) (copyError : Bool) (res : Resources)
  /-- Process `proc` calls `SendUnsentAcks`. -/
  | sendUnsentAcks (proc : ℕ) (res : ℕ → Resources)
  /-- The `i`-th acknowledgement arrives. -/
  | deliverAck (i : ℕ)
  /-- From now on `malloc` succeeds in `proc`, or fails. -/
  | malloc (proc : ℕ) (ok : Bool)

/-- A new sequence tracking list, with the default arguments of the constructor. -/
def newList : SeqTrackingList := (SeqTrackingList.create 0 10 20 false true).get rfl

def init : Reliability where
  sender :=
    { nextFragSeqs := fun _ => 1
      ackInfo := fun _ => ⟨0, 0⟩
      frags := fun d =>
        { parentSendDesc := none, globalDestProc := 0, header := ⟨0, 0, 0, 0, .pt2pt, d⟩
          fragSeq := 0, whichQueue := .freeList, sendDidComplete := false, didRecvAck := false
          gmSends := 0 }
      messages := fun _ => ⟨0, 0, false, 0, 0, [], []⟩
      carried := fun _ => []
      credited := []
      treatedAsDelivered := [] }
  recv := fun _ =>
    { seqs := ⟨newList, newList⟩, pending := [], unprocessedAcks := []
      accepted := [], built := [] }
  data := []
  acks := []

/-- The receiver of `proc` has become `result.1` and has sent the acknowledgements `result.2`. -/
def received (s : Reliability) (proc : ℕ) (result : Receiver × List Ack) : Reliability :=
  { s with recv := Function.update s.recv proc result.1, acks := s.acks ++ result.2 }

def setSender (s : Reliability) (sender : Sender) : Reliability := { s with sender }

/-- One event.  `none` if it is not possible, or if a process calls `ulm_exit`. -/
def step (path : Path) (s : Reliability) : Event → Option Reliability
  | .isend m peer isendSeq synchronous =>
    (s.sender.isend m peer isendSeq synchronous).map s.setSender
  | .initFrag d m seqOffset length =>
    (s.sender.initFrag path d m seqOffset length).map s.setSender
  | .send d =>
    (s.sender.send path d).map fun (sender, dest, header) =>
      { s with sender, data := s.data ++ [(dest, header)] }
  | .callback d status =>
    match path with
    | .gm doAck _ => (s.sender.callback doAck d status).map s.setSender
    | .udp => none
  | .resend m timedOut => (s.sender.resend path m timedOut).map s.setSender
  | .deliver i intact res =>
    s.data[i]?.bind fun (dest, header) =>
      ((s.recv dest).handleReceivedFrag path dest (.init path header intact) res).map
        (s.received dest)
  | .processMatchedData proc i postedLength copyError res =>
    ((s.recv proc).processMatchedData path proc i postedLength copyError res).map (s.received proc)
  | .sendUnsentAcks proc res =>
    (Receiver.sendUnsentAcks path proc res 0 (s.recv proc).unprocessedAcks (s.recv proc)).map
      (s.received proc)
  | .deliverAck i => s.acks[i]?.bind fun ack => (s.sender.processAck path ack).map s.setSender
  | .malloc proc ok =>
    let r := s.recv proc
    let seqs : DataSeqs :=
      ⟨{ r.seqs.received with mallocOk := ok }, { r.seqs.delivered with mallocOk := ok }⟩
    some (s.received proc ({ r with seqs }, []))

def run (path : Path) (s : Reliability) (events : List Event) : Option Reliability :=
  events.foldlM (step path) s

end Reliability

end Lampi
