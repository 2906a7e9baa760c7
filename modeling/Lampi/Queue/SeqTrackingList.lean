import Mathlib.Algebra.Order.Group.Int
import Mathlib.Algebra.Ring.Int.Defs
import Mathlib.Algebra.Ring.Nat

/-!
# Sequence tracking lists

`SeqTrackingList` records which sequence numbers have been seen.  It keeps the recorded numbers as
ranges in a circular doubly linked list, `headp`, and the unused elements of its storage array in a
second one, `freep`.  `hintp` remembers where the last search ended.

An element is named by its address; the address 0 is the null pointer.  `mem` holds the elements,
addresses from `brk` on have not been handed out yet.  Memory given back with `ulm_free` keeps its
contents.
-/

namespace Lampi

/-- `SeqRangeListElement`. -/
structure SeqRangeListElement where
  next : ℕ
  prev : ℕ
  lower : ℕ
  upper : ℕ
  deriving DecidableEq, Repr

/-- `SeqTrackingList`, with the memory its elements are in.  `mallocOk` says whether `ulm_malloc`
succeeds. -/
structure SeqTrackingList where
  mem : ℕ → SeqRangeListElement
  brk : ℕ
  mallocOk : Bool
  baseArray : ℕ
  arraySize : ℤ
  listSize : ℤ
  growBy : ℤ
  shrinkBy : ℤ
  headp : ℕ
  freep : ℕ
  hintp : ℕ

/-- `recorded_t`. -/
inductive Recorded
  | no
  | partially
  | complete
  deriving DecidableEq, Repr

namespace SeqTrackingList

/-- `x + 1` on `unsigned long long`. -/
def succ64 (x : ℕ) : ℕ := (x + 1) % 2 ^ 64

/-- `x - 1` on `unsigned long long`. -/
def pred64 (x : ℕ) : ℕ := (x + (2 ^ 64 - 1)) % 2 ^ 64

/-- Conversion of an `unsigned long` to `long`. -/
def toLong (x : ℕ) : ℤ :=
  if x % 2 ^ 64 < 2 ^ 63 then (x % 2 ^ 64 : ℕ) else ((x % 2 ^ 64 : ℕ) : ℤ) - 2 ^ 64

/-! ### Fields of the elements -/

variable (s : SeqTrackingList)

def next (p : ℕ) : ℕ := (s.mem p).next

def prev (p : ℕ) : ℕ := (s.mem p).prev

def lower (p : ℕ) : ℕ := (s.mem p).lower

def upper (p : ℕ) : ℕ := (s.mem p).upper

def setNext (p v : ℕ) : SeqTrackingList :=
  { s with mem := Function.update s.mem p { s.mem p with next := v } }

def setPrev (p v : ℕ) : SeqTrackingList :=
  { s with mem := Function.update s.mem p { s.mem p with prev := v } }

def setLower (p v : ℕ) : SeqTrackingList :=
  { s with mem := Function.update s.mem p { s.mem p with lower := v } }

def setUpper (p v : ℕ) : SeqTrackingList :=
  { s with mem := Function.update s.mem p { s.mem p with upper := v } }

/-! ### Giving an element back -/

/-- The first part of `freeSeqRangeListElement`: the element leaves the list it is in. -/
def unlink (ptr : ℕ) : SeqTrackingList :=
  if s.next ptr ≠ 0 then
    let s := s.setNext (s.prev ptr) (s.next ptr)
    let s := s.setPrev (s.next ptr) (s.prev ptr)
    if ptr = s.headp then
      if s.next ptr ≠ ptr then { s with headp := s.next ptr } else { s with headp := 0 }
    else s
  else s

/-- The second part: the element becomes the last one of the free list. -/
def appendFree (ptr : ℕ) : SeqTrackingList :=
  if s.freep = 0 then
    let s := { s with freep := ptr }
    let s := s.setPrev s.freep s.freep
    s.setNext s.freep s.freep
  else
    let last := s.prev s.freep
    let s := s.setNext last ptr
    let s := s.setNext ptr s.freep
    let s := s.setPrev s.freep ptr
    s.setPrev ptr last

/-- Copying the list at `tmp` into the elements of `newArray` from index `i` on. -/
def copyList (newArray listSize : ℕ) :
    ℕ → ℕ → ℕ → (ℕ → SeqRangeListElement) → (ℕ → SeqRangeListElement)
  | 0, _, _, mem => mem
  | rounds + 1, i, tmp, mem =>
    copyList newArray listSize rounds (i + 1) (mem tmp).next <| Function.update mem (newArray + i)
        { next := if i + 1 = listSize then newArray else newArray + i + 1
          prev := if i = 0 then newArray + (listSize - 1) else newArray + i - 1
          lower := (mem tmp).lower
          upper := (mem tmp).upper }

/-- Linking the elements of the storage array from index `i` on into the free list, as the
shrinking code does. -/
def rebuildFree : ℕ → ℕ → SeqTrackingList → SeqTrackingList
  | 0, _, s => s
  | rounds + 1, i, s =>
    let ptr := s.baseArray + i
    let s :=
      if s.freep = 0 then
        let s := { s with freep := ptr }
        let s := s.setPrev s.freep s.freep
        s.setNext s.freep s.freep
      else
        let last := s.prev s.freep
        let s := s.setPrev s.freep ptr
        let s := s.setNext last ptr
        let s := s.setNext ptr s.freep
        let s := s.setPrev ptr last
        let s := s.setUpper ptr 0
        s.setLower ptr 0
    rebuildFree rounds (i + 1) s

/-- The storage array gives up `shrinkBy` elements. -/
def shrink : SeqTrackingList :=
  if s.arraySize - s.shrinkBy = 0 then
    { s with freep := 0, hintp := 0, headp := 0, baseArray := 0, arraySize := 0 }
  else if !s.mallocOk then s
  else
    let newArray := s.brk
    let newSize := s.arraySize - s.shrinkBy
    let s :=
      { s with
        brk := s.brk + newSize.toNat
        freep := 0
        hintp := 0
        headp := if s.headp ≠ 0 then newArray else s.headp
        mem := if s.headp ≠ 0 then
            copyList newArray s.listSize.toNat s.listSize.toNat 0 s.headp s.mem
          else s.mem
        baseArray := newArray
        arraySize := newSize }
    rebuildFree (newSize - s.listSize).toNat s.listSize.toNat s

/-- `freeSeqRangeListElement`. -/
def freeSeqRangeListElement (ptr : ℕ) : SeqTrackingList :=
  let s := s.unlink ptr
  let s := s.appendFree ptr
  let s := (s.setUpper ptr 0).setLower ptr 0
  let s := { s with listSize := s.listSize - 1 }
  let s := if s.hintp = ptr then { s with hintp := 0 } else s
  if s.shrinkBy ≠ 0 ∧ s.arraySize - s.listSize > s.shrinkBy then s.shrink else s

/-! ### Getting an element -/

/-- Where the element at `p` of the list at `tmp` is after it has been copied to `newArray`. -/
def relocate (mem : ℕ → SeqRangeListElement) (newArray p : ℕ) : ℕ → ℕ → ℕ → ℕ
  | 0, _, _ => p
  | rounds + 1, i, tmp =>
    if p = tmp then newArray + i else relocate mem newArray p rounds (i + 1) (mem tmp).next

/-- The loop that puts the elements of a new array on the free list, from index `i` on. -/
def freeNew : ℕ → ℕ → SeqTrackingList → SeqTrackingList
  | 0, _, s => s
  | rounds + 1, i, s =>
    let ptr := s.baseArray + i
    let s := (s.setPrev ptr 0).setNext ptr 0
    freeNew rounds (i + 1) (s.freeSeqRangeListElement ptr)

/-- The storage array grows by `growBy` elements; `prevp` moves along. -/
def grow (prevp : ℕ) : ℕ × SeqTrackingList :=
  let newArray := s.brk
  let size := s.listSize.toNat
  let prevp' := relocate s.mem newArray prevp size 0 s.headp
  let s' :=
    { s with
      brk := s.brk + (s.arraySize + s.growBy).toNat
      freep := 0
      hintp := relocate s.mem newArray s.hintp size 0 s.headp
      headp := if s.listSize > 0 then newArray else 0
      mem := copyList newArray size size 0 s.headp s.mem
      baseArray := newArray
      listSize := s.listSize + s.growBy }
  let s' := freeNew s.growBy.toNat s.arraySize.toNat s'
  (prevp', { s' with arraySize := s'.arraySize + s'.growBy })

/-- The first element leaves the free list. -/
def takeFree : ℕ × SeqTrackingList :=
  let result := s.freep
  let s := s.setNext (s.prev s.freep) (s.next s.freep)
  let s := s.setPrev (s.next s.freep) (s.prev s.freep)
  let s := { s with freep := s.next s.freep }
  (result, if s.freep = result then { s with freep := 0 } else s)

/-- The element enters the list behind `prevp`, or in front if `prevp` is null. -/
def linkIn (prevp result : ℕ) : SeqTrackingList :=
  if prevp ≠ 0 then
    let tmp := s.next prevp
    let s := s.setNext prevp result
    let s := s.setNext result tmp
    let s := s.setPrev tmp result
    s.setPrev result prevp
  else if s.headp ≠ 0 then
    let s := s.setNext result s.headp
    let s := s.setPrev result (s.prev s.headp)
    let s := s.setPrev s.headp result
    let s := s.setNext (s.prev result) result
    { s with headp := result }
  else
    let s := { s with headp := result }
    let s := s.setPrev result result
    s.setNext result result

/-- `getSeqRangeListElement`; the result is null if there is no element to be had. -/
def getSeqRangeListElement (prevp : ℕ) : ℕ × SeqTrackingList :=
  let full := s.listSize + 1 > s.arraySize
  if full ∧ (s.growBy = 0 ∨ !s.mallocOk) then (0, s)
  else
    let (prevp, s) := if full then s.grow prevp else (prevp, s)
    let (result, s) := s.takeFree
    let s := s.linkIn prevp result
    (result, { s with listSize := s.listSize + 1 })

/-! ### Searching -/

/-- The loop of `findNearestLowerSeqRangeListElement`.  It runs around the list at most once. -/
def findLower (s : SeqTrackingList) (seqnum startp : ℕ) : ℕ → ℕ → ℕ
  | 0, tmp => tmp
  | rounds + 1, tmp =>
    if seqnum ≥ s.lower tmp then
      if s.next tmp = s.headp then tmp
      else if seqnum < s.lower (s.next tmp) then tmp
      else if s.next tmp ≠ startp then findLower s seqnum startp rounds (s.next tmp)
      else s.next tmp
    else if tmp = s.headp then tmp
    else if s.prev tmp ≠ startp then findLower s seqnum startp rounds (s.prev tmp)
    else s.prev tmp

/-- `findNearestLowerSeqRangeListElement`. -/
def findNearestLowerSeqRangeListElement (seqnum : ℕ) : ℕ × SeqTrackingList :=
  if s.listSize = 0 then (0, s)
  else
    let startp := if s.hintp = 0 then s.headp else s.hintp
    let tmp := s.findLower seqnum startp s.listSize.toNat startp
    (tmp, { s with hintp := tmp })

/-- The loop of `findNearestUpperSeqRangeListElement`. -/
def findUpper (s : SeqTrackingList) (seqnum startp : ℕ) : ℕ → ℕ → ℕ
  | 0, tmp => tmp
  | rounds + 1, tmp =>
    if seqnum ≤ s.upper tmp then
      if tmp = s.headp then tmp
      else if seqnum > s.upper (s.prev tmp) then tmp
      else if s.prev tmp ≠ startp then findUpper s seqnum startp rounds (s.prev tmp)
      else s.prev tmp
    else if s.next tmp = s.headp then tmp
    else if s.next tmp ≠ startp then findUpper s seqnum startp rounds (s.next tmp)
    else s.next tmp

/-- `findNearestUpperSeqRangeListElement`. -/
def findNearestUpperSeqRangeListElement (lower seqnum : ℕ) : ℕ :=
  if s.listSize = 0 then 0
  else
    let startp := if lower = 0 then s.headp else lower
    s.findUpper seqnum startp s.listSize.toNat startp

/-! ### Recording and erasing -/

/-- The loop that frees the elements from `tmp` up to `stop`. -/
def freeUntil (stop : ℕ) : ℕ → ℕ → SeqTrackingList → SeqTrackingList
  | 0, _, s => s
  | rounds + 1, tmp, s =>
    if tmp ≠ stop then
      let next := s.next tmp
      freeUntil stop rounds next (s.freeSeqRangeListElement tmp)
    else s

/-- `freeUntil` with as many rounds as the list can need. -/
def freeOverlapped (tmp stop : ℕ) : SeqTrackingList := freeUntil stop s.listSize.toNat tmp s

/-- A new element behind `prevp` for the range; the result tells whether there was one. -/
def addRange (prevp lower upper : ℕ) : Bool × SeqTrackingList :=
  let (p, s) := s.getSeqRangeListElement prevp
  if p = 0 then (false, s) else (true, (s.setLower p lower).setUpper p upper)

/-- `record`. -/
def record (lower upper : ℕ) : Bool × SeqTrackingList :=
  let (lnearest, s) := s.findNearestLowerSeqRangeListElement lower
  -- 0 should never actually be recorded
  if lower = 0 then (true, s)
  -- never record an invalid range
  else if lower > upper then (false, s)
  else if lnearest = 0 then s.addRange 0 lower upper
  else
    let unearest := s.findNearestUpperSeqRangeListElement lnearest upper
    if lnearest = unearest then
      -- new range spans a single entry
      if s.lower lnearest > succ64 upper then
        s.addRange (if lnearest = s.headp then 0 else s.prev lnearest) lower upper
      else if pred64 lower > s.upper lnearest then s.addRange lnearest lower upper
      else
        let s := if upper > s.upper lnearest then s.setUpper lnearest upper else s
        let s := if lower < s.lower lnearest then s.setLower lnearest lower else s
        (true, s)
    else if lower ≤ succ64 (s.upper lnearest) then
      -- consolidate with lower range element
      let s := s.setUpper lnearest upper
      let s := if lower < s.lower lnearest then s.setLower lnearest lower else s
      let s := s.freeOverlapped (s.next lnearest) unearest
      if succ64 upper ≥ s.lower unearest then
        let s := s.setUpper lnearest (if upper > s.upper unearest then upper else s.upper unearest)
        (true, s.freeSeqRangeListElement unearest)
      else (true, s)
    else if succ64 upper < s.lower unearest then
      -- disjoint range
      if s.next lnearest = unearest then s.addRange lnearest lower upper
      else
        -- use next overlapped element for this range
        let tmp := s.next lnearest
        let s := (s.setLower tmp lower).setUpper tmp upper
        (true, s.freeOverlapped (s.next tmp) unearest)
    else
      -- consolidate with upper range element
      let s := s.setLower unearest lower
      let s := if upper > s.upper unearest then s.setUpper unearest upper else s
      (true, s.freeOverlapped (s.next lnearest) unearest)

/-- `erase`. -/
def erase (lower upper : ℕ) : Bool × SeqTrackingList :=
  let (lnearest, s) := s.findNearestLowerSeqRangeListElement lower
  if lnearest = 0 then (true, s)
  -- can't erase invalid range
  else if lower = 0 ∨ lower > upper then (false, s)
  else
    let unearest := s.findNearestUpperSeqRangeListElement lnearest upper
    if lnearest ≠ unearest then
      let s := s.freeOverlapped (s.next lnearest) unearest
      let s :=
        if lower ≤ s.lower lnearest then s.freeSeqRangeListElement lnearest
        else if lower ≤ s.upper lnearest then
          let s := s.setUpper lnearest (pred64 lower)
          if s.upper lnearest < s.lower lnearest then s.freeSeqRangeListElement lnearest else s
        else s
      let s :=
        if upper ≥ s.upper unearest then s.freeSeqRangeListElement unearest
        else if upper ≥ s.lower unearest then
          let s := s.setLower unearest (succ64 upper)
          if s.upper unearest < s.lower unearest then s.freeSeqRangeListElement unearest else s
        else s
      (true, s)
    else if s.lower lnearest ≤ upper ∧ lower ≤ s.upper lnearest then
      -- partially or completely intersecting range
      if lower < s.lower lnearest then
        let s := s.setLower lnearest (succ64 upper)
        (true, if s.upper lnearest < s.lower lnearest then s.freeSeqRangeListElement lnearest
          else s)
      else if upper > s.upper lnearest then
        let s := s.setUpper lnearest (pred64 lower)
        (true, if s.upper lnearest < s.lower lnearest then s.freeSeqRangeListElement lnearest
          else s)
      else
        let (ok, s) :=
          if s.upper lnearest > upper then
            let (tmp, s) := s.getSeqRangeListElement lnearest
            if tmp = 0 then (false, s)
            else (true, (s.setUpper tmp (s.upper lnearest)).setLower tmp (succ64 upper))
          else (true, s)
        if !ok then (false, s)
        else
          let s := s.setUpper lnearest (pred64 lower)
          (true, if s.upper lnearest < s.lower lnearest then s.freeSeqRangeListElement lnearest
            else s)
    else (true, s)

/-- `recordIfNotRecorded`; the second component is `*recordStatus`. -/
def recordIfNotRecorded (lower upper : ℕ) : Recorded × Bool × SeqTrackingList :=
  let (lnearest, s) := s.findNearestLowerSeqRangeListElement lower
  if lower = 0 ∨ lower > upper then (.no, false, s)
  else if lnearest = 0 then (.no, s.addRange 0 lower upper)
  else
    let unearest := s.findNearestUpperSeqRangeListElement lnearest upper
    if lnearest = unearest then
      if s.lower lnearest > succ64 upper then
        (.no, s.addRange (if lnearest = s.headp then 0 else s.prev lnearest) lower upper)
      else if pred64 lower > s.upper lnearest then (.no, s.addRange lnearest lower upper)
      else if upper ≥ s.lower lnearest ∧ lower ≤ s.upper lnearest then
        if lower ≥ s.lower lnearest ∧ upper ≤ s.upper lnearest then (.complete, true, s)
        else (.partially, true, s)
      else
        let s := if upper > s.upper lnearest then s.setUpper lnearest upper else s
        let s := if lower < s.lower lnearest then s.setLower lnearest lower else s
        (.no, true, s)
    else if lower ≤ s.upper lnearest ∨ upper ≥ s.lower unearest ∨ s.next lnearest ≠ unearest then
      (.partially, true, s)
    else if lower ≤ succ64 (s.upper lnearest) then
      let s := s.setUpper lnearest upper
      if succ64 upper ≥ s.lower unearest then
        let s := s.setUpper lnearest (s.upper unearest)
        (.no, true, s.freeSeqRangeListElement unearest)
      else (.no, true, s)
    else if succ64 upper < s.lower unearest then (.no, s.addRange lnearest lower upper)
    else (.no, true, s.setLower unearest lower)

/-- `isRecorded`. -/
def isRecorded (lower upper : ℕ) : Recorded × SeqTrackingList :=
  let (lnearest, s) := s.findNearestLowerSeqRangeListElement lower
  if lnearest = 0 then (.no, s)
  else
    let unearest := s.findNearestUpperSeqRangeListElement lnearest upper
    if lnearest ≠ unearest then
      if s.next lnearest ≠ unearest then (.partially, s)
      else if lower > s.upper lnearest ∧ upper < s.lower unearest then (.no, s)
      else (.partially, s)
    else if s.lower lnearest ≤ upper ∧ lower ≤ s.upper lnearest then
      if lower ≥ s.lower lnearest ∧ upper ≤ s.upper lnearest then (.complete, s)
      else (.partially, s)
    else (.no, s)

/-- `largestInOrder`. -/
def largestInOrder : ℕ :=
  if s.headp ≠ 0 then if s.lower s.headp = 1 then s.upper s.headp else 0 else 0

/-! ### Construction -/

/-- `sizeof(SeqRangeListElement)`. -/
def elementSize : ℕ := 32

/-- The constructor.  There is no list if its closing assertion fails, or if the number of bytes
of the storage array does not fit into a `size_t`. -/
def create (startSize startGrowBy startShrinkBy : ℕ) (shared mallocOk : Bool) :
    Option SeqTrackingList :=
  let startSize :=
    if startShrinkBy ≠ 0 ∧ startSize > startShrinkBy then startShrinkBy else startSize
  let requested := toLong startSize
  let baseArray := if requested > 0 ∧ mallocOk then 1 else 0
  let arraySize := if requested > 0 ∧ baseArray = 0 then 0 else requested
  if arraySize.toNat * elementSize ≥ 2 ^ 64 then none
  else
    let s : SeqTrackingList :=
      { mem := fun _ => ⟨0, 0, 0, 0⟩
        brk := 1 + arraySize.toNat
        mallocOk := mallocOk
        baseArray := baseArray
        arraySize := arraySize
        listSize := arraySize
        growBy := if shared then 0 else toLong startGrowBy
        shrinkBy := if shared then 0 else toLong startShrinkBy
        headp := 0
        freep := 0
        hintp := 0 }
    let s := freeNew arraySize.toNat 0 s
    if s.listSize = 0 then some s else none

/-! ### Runs -/

/-- A call of one of the recording functions. -/
inductive Call
  | record (lower upper : ℕ)
  | erase (lower upper : ℕ)
  | recordIfNotRecorded (lower upper : ℕ)
  deriving DecidableEq, Repr

def Call.lower : Call → ℕ
  | .record lower _ => lower
  | .erase lower _ => lower
  | .recordIfNotRecorded lower _ => lower

/-- The upper end of the range a call is about. -/
def Call.upper : Call → ℕ
  | .record _ upper => upper
  | .erase _ upper => upper
  | .recordIfNotRecorded _ upper => upper

def step : Call → SeqTrackingList
  | .record lower upper => (s.record lower upper).2
  | .erase lower upper => (s.erase lower upper).2
  | .recordIfNotRecorded lower upper => (s.recordIfNotRecorded lower upper).2.2

def run (calls : List Call) : SeqTrackingList := calls.foldl step s

end SeqTrackingList

end Lampi
