import Lampi.Path.TypedCopy

/-!
# Delivering the fragments of a message

A message is cut into fragments, which reach the receiver in any order.  Each one is copied to the
buffer of the receive and counted.  A fragment whose data is rejected comes again, as it is not
acknowledged; one that has been accepted is not processed a second time, as the lists of sequence
numbers see to it.
-/

namespace Lampi

/-- The fragments with these lengths, of a message of `msgLength` bytes, the first one at an
offset. -/
def fragsFrom (msgLength : ℕ) : ℕ → List ℕ → List CopyFrag
  | _, [] => []
  | offset, length :: lengths =>
    ⟨offset, length, msgLength⟩ :: fragsFrom msgLength (offset + length) lengths

/-- A message with fragments of these lengths. -/
def fragsOf (lengths : List ℕ) : List CopyFrag := fragsFrom lengths.sum 0 lengths

/-- A receive in progress: what it has counted, the memory of the process, which fragments have been
accepted, and whether `recvDone` has been set. -/
structure Delivery where
  counts : RecvCounts
  buf : Buffer
  accepted : List ℕ
  recvDone : Bool

namespace Delivery

/-- The receive has been matched with a message of `length` bytes. -/
def start (length : ℕ) (buf : Buffer) : Delivery := ⟨⟨length, 0, 0⟩, buf, [], false⟩

def deliver (s : Delivery) (i copied discarded : ℕ) (buf : Buffer) : Delivery :=
  let (counts, done) := s.counts.deliveredToAppLock copied discarded
  { counts, buf, accepted := s.accepted ++ [i], recvDone := s.recvDone || done }

/-- `CopyToAppLock` for fragment `i`, with descriptor `d`. -/
def copyToApp {δ : Type} (ops : FragOps δ) (datatype : Option CommittedType) (postedLength : ℕ)
    (frags : List CopyFrag) (s : Delivery) (i : ℕ) (d : δ) : Option Delivery :=
  if i ∈ s.accepted then none
  else
    frags[i]?.bind fun frag =>
      (copyToAppLock ops datatype postedLength frag (d, s.buf)).map fun (bytes, _, buf) =>
        match bytes with
        | none => { s with buf }
        | some (copied, discarded) => s.deliver i copied discarded buf

end Delivery

end Lampi
