import Lampi.Path.TypedCopy

/-!
# Receive descriptors and how fragments are copied into them

`RecvDesc::CopyToApp` copies the data of a fragment into the buffer of a receive, as far as the
buffer goes, and counts the bytes; the rest of the fragment goes into the bit bucket.  The queues
depend on the counts only, so that no bytes are copied here.
-/

namespace Lampi

/-- `ULM_ANY_TAG`. -/
def anyTag : ℤ := -1

/-- The fields of `BaseRecvFragDesc_t` that matching and copying read.  `intact` is what `CheckData`
answers once the data is copied. -/
structure BaseRecvFragDesc where
  srcProcID : ℕ
  tag : ℤ
  isendSeq : ℕ
  seqOffset : ℕ
  length : ℕ
  msgLength : ℕ
  intact : Bool
  deriving DecidableEq, Repr

/-- What copying reads. -/
def BaseRecvFragDesc.copyFrag (frag : BaseRecvFragDesc) : CopyFrag :=
  ⟨frag.seqOffset, frag.length, frag.msgLength⟩

/-- Copies that leave the buffer alone.  The descriptor is the answer of `CheckData`. -/
def lengthOps : FragOps Bool where
  copyFunction s _ _ := some s
  nonContigCopyFunction s call := (call.length, s)
  checkData intact _ := some (intact, intact)
  markDataOK intact := intact

/-! ### Receive descriptors -/

/-- The values of `WhichQueue` for receives. -/
inductive RecvQueue
  | onNoList
  | postedIrecv
  | postedWildIrecv
  | matchedIrecv
  deriving DecidableEq, Repr

/-- `RecvDesc_t`.  No posted peer stands for `ULM_ANY_PROC`. -/
structure RecvDesc where
  postedPeer : Option ℕ
  postedTag : ℤ
  postedLength : ℕ
  datatype : Option CommittedType
  irecvSeq : ℕ
  isendSeq : ℕ
  resltsPeer : ℕ
  resltsTag : ℤ
  resltsLength : ℕ
  dataReceived : ℕ
  dataInBitBucket : ℕ
  messageDone : Bool
  whichQueue : RecvQueue
  deriving DecidableEq, Repr

namespace RecvDesc

variable (r : RecvDesc)

/-- The copying part of `CopyToApp` and `CopyToAppLock`: the bytes that count as copied and those
that went into the bit bucket, or `none` if `CheckData` rejects the data. -/
def copyData (frag : BaseRecvFragDesc) : Option (ℕ × ℕ) :=
  (copyToAppLock lengthOps r.datatype r.postedLength frag.copyFrag
    (frag.intact, fun _ => 0)).bind Prod.fst

/-- The bytes that copying the fragment adds to the counts. -/
def bytesCounted (frag : BaseRecvFragDesc) : ℕ :=
  match r.copyData frag with
  | some bytes => bytes.1 + bytes.2
  | none => 0

/-- The tests of a posted tag against the tag of a fragment. -/
def tagMatches (postedTag fragTag : ℤ) : Bool :=
  (fragTag == postedTag || postedTag == anyTag) && !(postedTag == anyTag && decide (fragTag < 0))

/-- `DataReceived + DataInBitBucket`. -/
def counted : ℕ := r.dataReceived + r.dataInBitBucket

end RecvDesc

end Lampi
