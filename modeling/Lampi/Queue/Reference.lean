import Mathlib.Data.Nat.Find
import Lampi.Lib.OrderedMatching
import Lampi.Queue.Communicator

/-!
# Message matching in order

What the receive queues are for.  Every process sends messages, numbered consecutively, each cut
into fragments.  A message becomes eligible when a fragment of it and of every earlier message of
its source has arrived.  An eligible message goes to the earliest receive that was posted for it; a
new receive takes the earliest eligible message it can, of the lowest rank that has one.

`Reference` says this in terms of messages and receives, with nothing about lists of fragments.
-/

namespace Lampi

open OrderedMatching

/-- A message: its tag and the lengths of its fragments.  An empty message has one fragment. -/
structure Message where
  tag : ℤ
  lengths : List ℕ
  valid : lengths = [0] ∨ lengths ≠ [] ∧ ∀ n ∈ lengths, 0 < n

/-- Fragment `k` of message number `seq` of process `src`. -/
def Message.frag (msg : Message) (src seq k : ℕ) (intact : Bool) : BaseRecvFragDesc where
  srcProcID := src
  tag := msg.tag
  isendSeq := seq
  seqOffset := (msg.lengths.take k).sum
  length := msg.lengths.getD k 0
  msgLength := msg.lengths.sum
  intact := intact

abbrev Messages := ℕ → ℕ → Message

variable (messages : Messages)

/-- A fragment of one of the messages. -/
def Messages.IsFrag (frag : BaseRecvFragDesc) : Prop :=
  ∃ k < (messages frag.srcProcID frag.isendSeq).lengths.length,
    frag = (messages frag.srcProcID frag.isendSeq).frag frag.srcProcID frag.isendSeq k frag.intact

instance (frag : BaseRecvFragDesc) : Decidable (messages.IsFrag frag) := by
  unfold Messages.IsFrag
  infer_instance

/-- What tells fragments apart. -/
def BaseRecvFragDesc.key (frag : BaseRecvFragDesc) : ℕ × ℕ × ℕ :=
  (frag.srcProcID, frag.isendSeq, frag.seqOffset)

def arrivals (events : List Communicator.Event) : List BaseRecvFragDesc := events.filterMap fun
    | .arrive frag => some frag
    | .post .. => none

/-- The events bring fragments of the messages, none of them twice. -/
structure Messages.Delivers (events : List Communicator.Event) : Prop where
  isFrag : ∀ frag ∈ arrivals events, messages.IsFrag frag
  nodup : ((arrivals events).map BaseRecvFragDesc.key).Nodup

/-- A receive: its number, the process it is for (or any) and its tag (or any). -/
structure Posting where
  id : ℕ
  peer : Option ℕ
  tag : ℤ
  deriving DecidableEq, Repr

/-- The receive takes messages of this process with this tag.  `ULM_ANY_TAG` stands for all tags
that are not negative. -/
def Posting.accepts (p : Posting) (src : ℕ) (tag : ℤ) : Bool :=
  (p.peer == none || p.peer == some src) &&
    if p.tag = anyTag then decide (0 ≤ tag) else tag == p.tag

/-- The receive takes message number `seq` of process `src`. -/
def Messages.compatible (p : Posting) (src seq : ℕ) : Bool := p.accepts src (messages src seq).tag

variable (arrived : List BaseRecvFragDesc)

/-- No fragment of message `n` of the process has arrived. -/
def Missing (src n : ℕ) : Prop := ∀ frag ∈ arrived, frag.srcProcID = src → frag.isendSeq ≠ n

instance (src n : ℕ) : Decidable (Missing arrived src n) := by
  unfold Missing
  infer_instance

lemma exists_missing (src : ℕ) : ∃ n, Missing arrived src n := by
  suffices h : ∃ n, ∀ frag ∈ arrived, frag.isendSeq < n by
    obtain ⟨n, hn⟩ := h
    exact ⟨n, fun frag hfrag _ => Nat.ne_of_lt (hn frag hfrag)⟩
  induction arrived with
  | nil => exact ⟨0, fun _ h => nomatch h⟩
  | cons frag arrived ih =>
    obtain ⟨n, hn⟩ := ih
    refine ⟨max n (frag.isendSeq + 1), List.forall_mem_cons.mpr ⟨by omega, fun g hg => ?_⟩⟩
    have := hn g hg
    omega

/-- The first message of the process that is not eligible. -/
def frontier (src : ℕ) : ℕ := Nat.find (exists_missing arrived src)

/-- What has arrived, the number of the next receive, and how things are matched. -/
structure Reference where
  arrived : List BaseRecvFragDesc
  nextId : ℕ
  matcher : Matcher Posting ℕ ℕ

namespace Reference

def init : Reference := ⟨[], 1, .empty⟩

/-- The processes a receive can get a message from. -/
def sources (groupSize : ℕ) : Option ℕ → List ℕ
  | none => List.range groupSize
  | some src => [src]

/-- The messages of a process from number `n` on are offered, `count` of them. -/
def offerAll (src n count : ℕ) (m : Matcher Posting ℕ ℕ) : Matcher Posting ℕ ℕ :=
  (List.range' n count).foldl (fun m seq => m.offer messages.compatible src seq) m

def step (groupSize : ℕ) (s : Reference) : Communicator.Event → Reference
  | .arrive frag =>
    let src := frag.srcProcID
    let arrived := s.arrived ++ [frag]
    let n := frontier s.arrived src
    { s with
      arrived := arrived
      matcher := offerAll messages src n (frontier arrived src - n) s.matcher }
  | .post peer tag _ _ =>
    { s with
      nextId := s.nextId + 1
      matcher := s.matcher.post messages.compatible ⟨s.nextId, peer, tag⟩
        (sources groupSize peer) }

def run (groupSize : ℕ) (events : List Communicator.Event) : Reference :=
  events.foldl (step messages groupSize) init

end Reference

end Lampi
