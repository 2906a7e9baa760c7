import Lampi.Mpi.TypePack

/-!
# Copies between packed data and typed buffers

The data of a message is a packed stream of bytes, of which a fragment has a part.  Each copier
finds the element, the entry of the type map and the offset in it at which the part begins, copies
the rest of that entry, and goes on with the entries and elements that follow: `udpPath::packData`
from the buffer of the sender, `non_contiguous_copy` to the buffer of the receiver, and
`contiguous_to_noncontiguous_copy` from shared memory.

`non_contiguous_copy` leaves each piece to a copy function of the fragment; it and
`RecvDesc_t::CopyToAppLock` are modelled for any such function and any state it keeps.

The numbers of elements are `int`s, which wrap around, and in products with sizes they are
`size_t`s.  Offsets and lengths do not wrap around.  What the code reads in front of a type map or
behind it, with a number that has wrapped around, is not modelled.
-/

namespace Lampi

open RunList

/-- `seq_offset` of entry `i`, as `MPI_Type_commit` sets it. -/
def CommittedType.seqOffset (t : CommittedType) (i : ℕ) : ℕ := ((t.typeMap.take i).map Run.size).sum

/-- What a copy function is called with: `length` bytes, `src` bytes into the fragment, go to `dest`
in the buffer. -/
structure CopyCall where
  dest : ℤ
  src : ℕ
  length : ℕ
  firstCall : Bool
  lastCall : Bool
  deriving DecidableEq, Repr

/-- The positions a call copies to. -/
def CopyCall.positions (call : CopyCall) : List ℤ := Run.positions ⟨call.length, call.dest⟩

/-! ### The loops -/

/-- The loop that finds the starting typemap index, from entry `i` on: the entry at whose offset the
fragment begins, or the one before the first entry behind it. -/
def CommittedType.findStart (t : CommittedType) (initCnt fragSeqOff : ℕ) : ℕ → List Run → ℕ
  | _, [] => t.typeMap.length - 1
  | i, _ :: elts =>
    if initCnt * t.packedSize + t.seqOffset i = fragSeqOff then i
    else if initCnt * t.packedSize + t.seqOffset i > fragSeqOff then i - 1
    else t.findStart initCnt fragSeqOff (i + 1) elts

section Loops

variable {σ : Type} (copy : σ → CopyCall → ℕ × σ) (fragLen : ℕ)

/-- The loop over the entries that are left of an element at `start`; `last` tells whether it is the
last one.  Returns the length copied so far, and whether the function returns. -/
def copyEntries (start : ℤ) (last : Bool) : List Run → ℕ → σ → (ℕ × σ) × Bool
  | [], lenCopied, s => ((lenCopied, s), false)
  | elt :: elts, lenCopied, s =>
    let lenToCopy := if fragLen - lenCopied ≥ elt.size then elt.size else fragLen - lenCopied
    if lenToCopy = 0 then ((lenCopied, s), true)
    else
      let lastCall := decide (fragLen - lenCopied - lenToCopy = 0) || (elts.isEmpty && last)
      let (copied, s) := copy s ⟨start + elt.offset, lenCopied, lenToCopy, false, lastCall⟩
      copyEntries start last elts (lenCopied + copied) s

/-- The loop over the elements, with the number of rounds left and the entries of this round. -/
def copyElements (t : CommittedType) : ℕ → ℤ → List Run → ℕ → σ → ℕ × σ
  | 0, _, _, lenCopied, s => (lenCopied, s)
  | rounds + 1, start, elts, lenCopied, s =>
    let (result, returns) := copyEntries copy fragLen start (rounds == 0) elts lenCopied s
    if returns then result
    else copyElements t rounds (start + t.extent) t.typeMap result.1 result.2

end Loops

/-! ### `non_contiguous_copy` -/

/-- `seqOffset_m`, `length_m` and `msgLength_m` of a fragment. -/
structure CopyFrag where
  seqOffset : ℕ
  length : ℕ
  msgLength : ℕ
  deriving DecidableEq, Repr

/-- `non_contiguous_copy`: the length it has copied.  It does not look at the length it is given. -/
def nonContiguousCopy {σ : Type} (copy : σ → CopyCall → ℕ × σ) (t : CommittedType) (frag : CopyFrag)
    (s : σ) : ℕ × σ :=
  let initCnt := intT (frag.seqOffset / t.packedSize : ℕ)
  let totCnt := intT (frag.msgLength / t.packedSize : ℕ)
  -- in the products
  let elements := sizeT initCnt
  let tmapInit := t.findStart elements frag.seqOffset 0 t.typeMap
  let first := t.typeMap.getD tmapInit ⟨0, 0⟩
  let dest : ℤ := elements * t.extent + first.offset - elements * t.packedSize -
    t.seqOffset tmapInit + frag.seqOffset
  let lenToCopy :=
    if frag.length = 0 then 0
    else min
      (sizeSub (first.size + elements * t.packedSize + t.seqOffset tmapInit) frag.seqOffset)
      frag.length
  let (lenCopied, s) := copy s ⟨dest, 0, lenToCopy, true, decide (frag.length - lenToCopy = 0)⟩
  if frag.length - lenCopied ≠ 0 then
    copyElements copy frag.length t (totCnt - initCnt).toNat (elements * t.extent)
      (t.typeMap.drop (tmapInit + 1)) lenCopied s
  else (lenCopied, s)

/-! ### `RecvDesc_t::CopyToAppLock` -/

/-- The virtual functions that copying uses of a kind of fragments with descriptors in `δ`: `none`
stands for `ulm_exit`; the answers about checksums are part of the descriptor. -/
structure FragOps (δ : Type) where
  /-- `CopyFunction`, from the beginning of the data to this place in the buffer. -/
  copyFunction : δ × Buffer → ℤ → ℕ → Option (δ × Buffer)
  nonContigCopyFunction : δ × Buffer → CopyCall → ℕ × (δ × Buffer)
  checkData : δ → ℕ → Option (Bool × δ)
  markDataOK : δ → δ

/-- The copying part of `CopyToAppLock` and `CopyToApp`: the bytes that count as copied and those
that went into the bit bucket, or `none` for the result `-1`. -/
def copyToAppLock {δ : Type} (ops : FragOps δ) (datatype : Option CommittedType) (postedLength : ℕ)
    (frag : CopyFrag) (s : δ × Buffer) : Option (Option (ℕ × ℕ) × (δ × Buffer)) :=
  let appBufferLen : ℤ := postedLength - frag.seqOffset
  if appBufferLen ≤ 0 then some (some (0, frag.length), ops.markDataOK s.1, s.2)
  else
    let lengthToCopy :=
      if appBufferLen < frag.length then appBufferLen.toNat else frag.length
    let bytesIntoBitBucket := frag.length - lengthToCopy
    let contiguousCopy := (ops.copyFunction s frag.seqOffset lengthToCopy).map (lengthToCopy, ·)
    let copied := match datatype with
      | none => contiguousCopy
      | some t =>
        if t.contiguous then contiguousCopy
        else some (nonContiguousCopy ops.nonContigCopyFunction t frag s)
    copied.bind fun (lengthToCopy, d, buf) =>
      (ops.checkData d lengthToCopy).map fun (dataNotCorrupted, d) =>
        (if dataNotCorrupted then some (lengthToCopy, bytesIntoBitBucket) else none, d, buf)

/-- The fields of `RecvDesc_t` that count. -/
structure RecvCounts where
  resltsLength : ℕ
  dataReceived : ℕ
  dataInBitBucket : ℕ
  deriving DecidableEq, Repr

/-- `DeliveredToAppLock`: the counts, and whether the receive is done. -/
def RecvCounts.deliveredToAppLock (r : RecvCounts) (bytesCopied bytesDiscarded : ℕ) :
    RecvCounts × Bool :=
  let r := { r with
    dataReceived := r.dataReceived + bytesCopied
    dataInBitBucket := r.dataInBitBucket + bytesDiscarded }
  (r, decide (r.dataReceived + r.dataInBitBucket ≥ r.resltsLength))

/-! ### `udpPath::packData` -/

/-- `tmapIndex_m`, as `udpPath::send` computes it for a fragment with data. -/
def CommittedType.tmapIndex (t : CommittedType) (offset : ℕ) : ℕ :=
  let dtypeCnt := intT (offset / t.packedSize : ℕ)
  let dataRemaining := (offset - dtypeCnt * t.packedSize).toNat
  t.findStart 0 dataRemaining 0 t.typeMap

/-- `bcopy` into the buffer of the fragment, one piece after the other. -/
def packPiece (pieces : List Run) (call : CopyCall) : ℕ × List Run :=
  (call.length, pieces ++ [⟨call.length, call.dest⟩])

/-- `udpPath::packData`: `iov_len`, and the pieces of the sender's buffer that make up the data of a
fragment. -/
def packData (t : CommittedType) (length tmapIndex seqOffset payloadSize : ℕ) : ℕ × List Run :=
  let initCnt := intT (seqOffset / t.packedSize : ℕ)
  let totCnt := intT (length / t.packedSize : ℕ)
  let elements := sizeT initCnt
  let first := t.typeMap.getD tmapIndex ⟨0, 0⟩
  let src : ℤ := elements * t.extent + first.offset - elements * t.packedSize -
    t.seqOffset tmapIndex + seqOffset
  let lenToCopy := min payloadSize
    (sizeSub (first.size + elements * t.packedSize + t.seqOffset tmapIndex) seqOffset)
  copyElements packPiece payloadSize t (totCnt - initCnt).toNat (elements * t.extent)
    (t.typeMap.drop (tmapIndex + 1)) lenToCopy [⟨lenToCopy, src⟩]

/-! ### `contiguous_to_noncontiguous_copy` -/

namespace contiguousToNoncontiguousCopy

/-- The search for the last entry that has been copied, at least in part: it and the entries that
follow, and the bytes before it. -/
def findPartial (bytesCopied : ℕ) : List Run → ℕ → List Run × ℕ
  | [], partialSum => ([], partialSum)
  | elt :: elts, partialSum =>
    if elt.size + partialSum < bytesCopied then findPartial bytesCopied elts (partialSum + elt.size)
    else (elt :: elts, partialSum)

/-- The loops over the entries of an element that may not be copied to its end: the bytes that are
left, and the pieces. -/
def copyFitting (destination : ℤ) : List Run → ℕ → List Run → ℕ × List Run
  | [], bytesToRead, pieces => (bytesToRead, pieces)
  | elt :: elts, bytesToRead, pieces =>
    if elt.size ≤ bytesToRead then
      let pieces := pieces ++ [⟨elt.size, destination + elt.offset⟩]
      let bytesToRead := bytesToRead - elt.size
      if bytesToRead = 0 then (bytesToRead, pieces)
      else copyFitting destination elts bytesToRead pieces
    else (0, pieces ++ [⟨bytesToRead, destination + elt.offset⟩])

/-- The rest of an element of which `bytesCopied` bytes have been copied. -/
def finishElement (t : CommittedType) (destinationBuffer : ℤ) (bytesCopied bytesToRead : ℕ) :
    ℕ × List Run :=
  match findPartial bytesCopied t.typeMap 0 with
  | ([], _) => (bytesToRead, [])
  | (elt :: elts, partialSum) =>
    let tiAlreadyCopied := bytesCopied - partialSum
    let leftInTmapToCopy := elt.size - tiAlreadyCopied
    if leftInTmapToCopy > 0 then
      let leftInTmapToCopy :=
        if leftInTmapToCopy > bytesToRead then bytesToRead else leftInTmapToCopy
      copyFitting destinationBuffer elts (bytesToRead - leftInTmapToCopy)
        [⟨leftInTmapToCopy, destinationBuffer + elt.offset + tiAlreadyCopied⟩]
    else copyFitting destinationBuffer elts bytesToRead []

def copyWhole (t : CommittedType) (destination : ℤ) (nElementsToCopy : ℕ) : List Run :=
  (List.range nElementsToCopy).flatMap fun dtElement : ℕ =>
    t.typeMap.map (Run.shift (destination + dtElement * t.extent))

/-- The pieces that are copied, one after the other, with the `int` for the elements in front. -/
def copyFrom (t : CommittedType) (offsetIntoPackedData bytesToCopy : ℕ) (prevDtypeCnt : ℤ) :
    List Run :=
  let (prevDtypeCnt, bytesToRead, first) :=
    if prevDtypeCnt * t.packedSize ≠ offsetIntoPackedData then
      let finished := finishElement t (prevDtypeCnt * t.extent)
        (offsetIntoPackedData - prevDtypeCnt * t.packedSize).toNat bytesToCopy
      (intT (prevDtypeCnt + 1), finished)
    else (prevDtypeCnt, bytesToCopy, [])
  let nElementsToCopy := (intT (bytesToRead / t.packedSize : ℕ)).toNat
  let destination := prevDtypeCnt * t.extent
  let bytesToRead := bytesToRead - nElementsToCopy * t.packedSize
  let last :=
    if bytesToRead > 0 then
      (copyFitting (destination + nElementsToCopy * t.extent) t.typeMap bytesToRead []).2
    else []
  first ++ copyWhole t destination nElementsToCopy ++ last

end contiguousToNoncontiguousCopy

/-- `contiguous_to_noncontiguous_copy`. -/
def contiguousToNoncontiguousCopy (t : CommittedType) (offsetIntoPackedData bytesToCopy : ℕ) :
    List Run :=
  contiguousToNoncontiguousCopy.copyFrom t offsetIntoPackedData bytesToCopy
    (intT (offsetIntoPackedData / t.packedSize : ℕ))

/-! ### `RecvDesc_t::SMPCopyToApp` -/

variable (datatype : Option CommittedType)

/-- `posted_m.length_m` of a receive of `count` elements, or bytes if there is no datatype. -/
def postedLength (count : ℕ) : ℕ :=
  match datatype with
  | none => count
  | some t => t.packedSize * count

/-- `datatype == NULL || datatype->layout == CONTIGUOUS`. -/
def isContiguous : Bool :=
  match datatype with
  | none => true
  | some t => t.contiguous

/-- What `SMPCopyToApp` copies of a fragment: the pieces of the buffer, one after the other. -/
def smpPieces (postedLength seqOffset fragLen : ℕ) : List Run :=
  let contiguousPieces : List Run :=
    let appBufferLen : ℤ := postedLength - seqOffset
    if appBufferLen ≤ 0 then []
    else [⟨if appBufferLen < fragLen then appBufferLen.toNat else fragLen, seqOffset⟩]
  match datatype with
  | none => contiguousPieces
  | some t =>
    if t.contiguous then contiguousPieces
    else contiguousToNoncontiguousCopy t seqOffset fragLen

/-- `RecvDesc_t::SMPCopyToApp` for a fragment with this data: `DataReceived`, `DataInBitBucket` and
the buffer. -/
def smpCopyToApp (postedLength : ℕ) (s : (ℕ × ℕ) × Buffer) (frag : CopyFrag) (data : List UInt8) :
    (ℕ × ℕ) × Buffer :=
  let pieces := smpPieces datatype postedLength frag.seqOffset frag.length
  let length := (pieces.map Run.size).sum
  ((s.1.1 + length, s.1.2 + (frag.length - length)), s.2.write (positions pieces) data)

end Lampi
