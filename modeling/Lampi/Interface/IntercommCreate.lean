import Lampi.Interface.CommCreate
import Lampi.Lib.MessagePassing
import Lampi.Queue.ContextID

/-!
# Making an inter-communicator

Every member of two groups calls `ulm_intercomm_create`.  The leaders exchange the groups through
the peer communicator and broadcast what they got; then one of the groups generates a context ID,
and the leaders pass it on to the other group.

The processes are named by their global ranks and exchange lists of integers.  A broadcast is the
root sending to the other members.  What a process has issued (the roots of its broadcasts, the
context IDs it has generated) is history: it is kept in queues of the process to itself that nobody
receives from.  The barriers at the end are left out.
-/

namespace Lampi

open MessagePassing

/-- What the messages are for: the tag given by the caller, `INTERCOMM_TAG`, broadcasts in the local
communicator, and the two kinds of history. -/
inductive CreateTag
  | user
  | intercomm
  | bcast
  | issued
  | generated
  deriving DecidableEq, Repr

/-- A process that exchanges lists of integers. -/
abbrev CreateProc := Proc ℕ CreateTag (List ℤ)

/-- What a process knows when it calls `ulm_intercomm_create`: the local members, its rank, the two
leaders, and the members of the peer communicator. -/
structure CreateArgs where
  members : List ℕ
  procID : ℕ
  localLeader : ℕ
  peer : List ℕ
  remoteLeader : ℕ
  deriving DecidableEq, Repr

namespace CreateArgs

variable (args : CreateArgs)

/-- `localGlobalRank`: the global rank of the process itself. -/
def localGlobalRank : ℕ := args.members.getD args.procID 0

/-- `remoteGlobalRank`: that of the other leader. -/
def remoteGlobalRank : ℕ := args.peer.getD args.remoteLeader 0

/-- `ulm_bcast` in the local communicator. -/
def ulmBcast (root : ℕ) (value : List ℤ) : CreateProc (List ℤ) := do
  Proc.sendTo args.localGlobalRank .issued [(root : ℤ)]
  if args.procID = root then do
    Proc.sendToAll .bcast value (args.members.filter (· ≠ args.localGlobalRank))
    pure value
  else Proc.recvFrom (args.members.getD root 0) .bcast

/-- `peerExchange`, with the length of the receive buffer.  Only the leader takes part. -/
def peerExchange (sendBuff : List ℤ) (lenRecvBuff : ℕ) : CreateProc (List ℤ) := do
  if args.procID = args.localLeader then do
    Proc.sendTo args.remoteGlobalRank .user sendBuff
    let recvBuff ← Proc.recvFrom args.remoteGlobalRank .user
    pure (recvBuff.take lenRecvBuff)
  else pure []

/-- `getNewContextID` for an intra-communicator. -/
def getNewContextID (ctl : ContextIDCtl) (outputContextID : List ℤ) : CreateProc (List ℤ) := do
  if args.procID = 0 then do
    Proc.sendTo args.localGlobalRank .generated [ctl.generate.1]
    args.ulmBcast 0 [ctl.generate.1]
  else args.ulmBcast 0 outputContextID

/-- How the processes get the new context ID. -/
def newContextID (ctl : ContextIDCtl) : CreateProc (List ℤ) := do
  -- the process's own rank is compared, not that of its leader
  if args.localGlobalRank < args.remoteGlobalRank then do
    let interCommContextID ← args.getNewContextID ctl [-1]
    if args.procID = args.localLeader then
      Proc.sendTo args.remoteGlobalRank .intercomm interCommContextID
    pure interCommContextID
  else do
    let interCommContextID ←
      if args.procID = args.localLeader then Proc.recvFrom args.remoteGlobalRank .intercomm
      else pure [-1]
    args.ulmBcast args.localLeader interCommContextID

def inBothGroups (remoteGroupList : List ℤ) : Bool :=
  args.members.any fun locProc => remoteGroupList.any (· == locProc)

def argsOk : Bool :=
  args.localLeader < args.members.length && args.remoteLeader < args.peer.length &&
    args.peer.idxOf args.localGlobalRank != args.remoteLeader

/-- `ulm_intercomm_create`: the context ID of the new communicator and its remote group. -/
def ulmIntercommCreate (ctl : ContextIDCtl) : CreateProc (Except MpiErr (ℤ × List ℤ)) := do
  if args.argsOk then do
    let remoteGroupSize ← args.peerExchange [(args.members.length : ℤ)] 1
    let remoteGroupSize ← args.ulmBcast args.localLeader remoteGroupSize
    let remoteGroupList ← args.peerExchange (args.members.map Int.ofNat)
      (remoteGroupSize.headD 0).toNat
    let remoteGroupList ← args.ulmBcast args.localLeader remoteGroupList
    if args.inBothGroups remoteGroupList then pure (.error .arg)
    else do
      let interCommContextID ← args.newContextID ctl
      pure (.ok (interCommContextID.headD (-1), remoteGroupList))
  else pure (.error .arg)

end CreateArgs

/-- One of the two groups: its members, the rank of its leader, and the rank of the other leader in
the peer communicator. -/
structure CreateSide where
  members : List ℕ
  localLeader : ℕ
  remoteLeader : ℕ
  deriving DecidableEq, Repr

/-- The arguments of member number `procID` of a group. -/
def CreateSide.args (side : CreateSide) (peer : List ℕ) (procID : ℕ) : CreateArgs :=
  ⟨side.members, procID, side.localLeader, peer, side.remoteLeader⟩

/-- All members of both groups call `ulm_intercomm_create`. -/
def ulmIntercommCreate.start (peer : List ℕ) (sides : Bool → CreateSide)
    (ctl : ℕ → ContextIDCtl) : Net ℕ CreateTag (List ℤ) (Except MpiErr (ℤ × List ℤ)) where
  procs p :=
    if p ∈ (sides false).members then
      ((sides false).args peer ((sides false).members.idxOf p)).ulmIntercommCreate (ctl p)
    else if p ∈ (sides true).members then
      ((sides true).args peer ((sides true).members.idxOf p)).ulmIntercommCreate (ctl p)
    else pure (.error .arg)
  chan := Chan.empty

end Lampi
