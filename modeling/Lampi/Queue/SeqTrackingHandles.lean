import Lampi.Queue.SeqTrackingList

/-!
# Handles into a storage array that moves

`record` and `erase` hold on to elements while they give others back or get a new one.  The list may
move to a smaller or a larger array meanwhile, and the old array is freed.  `recordChecked` and
`eraseChecked` are the two functions with a test wherever a handle is used after the list may have
moved: there is no result if a handle into an old array is read or written.
-/

namespace Lampi.SeqTrackingList

/-- The storage array, with the memory handed out so far: an array allocated later is another one,
wherever it lies. -/
def array (s : SeqTrackingList) : ℕ × ℕ := (s.baseArray, s.brk)

/-- Handles into the given array are used, which has to be the storage array still. -/
def withHandles {β : Type} (s : SeqTrackingList) (array : ℕ × ℕ) (k : Option β) : Option β :=
  if s.array = array then k else none

/-- `freeUntil`: the loop reads `tmp->next` and gives `tmp` back. -/
def freeUntilChecked (array : ℕ × ℕ) (stop : ℕ) : ℕ → ℕ → SeqTrackingList → Option SeqTrackingList
  | 0, _, s => some s
  | rounds + 1, tmp, s =>
    if tmp ≠ stop then
      s.withHandles array <|
        let next := s.next tmp
        freeUntilChecked array stop rounds next (s.freeSeqRangeListElement tmp)
    else some s

variable (s : SeqTrackingList)

/-- `freeOverlapped`. -/
def freeOverlappedChecked (array : ℕ × ℕ) (tmp stop : ℕ) : Option SeqTrackingList :=
  freeUntilChecked array stop s.listSize.toNat tmp s

/-- `record`. -/
def recordChecked (lower upper : ℕ) : Option (Bool × SeqTrackingList) :=
  let (lnearest, s) := s.findNearestLowerSeqRangeListElement lower
  let array := s.array
  if lower = 0 then some (true, s)
  else if lower > upper then some (false, s)
  else if lnearest = 0 then some (s.addRange 0 lower upper)
  else
    let unearest := s.findNearestUpperSeqRangeListElement lnearest upper
    if lnearest = unearest then
      if s.lower lnearest > succ64 upper then
        some (s.addRange (if lnearest = s.headp then 0 else s.prev lnearest) lower upper)
      else if pred64 lower > s.upper lnearest then some (s.addRange lnearest lower upper)
      else
        let s := if upper > s.upper lnearest then s.setUpper lnearest upper else s
        let s := if lower < s.lower lnearest then s.setLower lnearest lower else s
        some (true, s)
    else if lower ≤ succ64 (s.upper lnearest) then
      let s := s.setUpper lnearest upper
      let s := if lower < s.lower lnearest then s.setLower lnearest lower else s
      (s.freeOverlappedChecked array (s.next lnearest) unearest).bind fun s =>
        s.withHandles array <|
          if succ64 upper ≥ s.lower unearest then
            let s :=
              s.setUpper lnearest (if upper > s.upper unearest then upper else s.upper unearest)
            some (true, s.freeSeqRangeListElement unearest)
          else some (true, s)
    else if succ64 upper < s.lower unearest then
      if s.next lnearest = unearest then some (s.addRange lnearest lower upper)
      else
        let tmp := s.next lnearest
        let s := (s.setLower tmp lower).setUpper tmp upper
        (s.freeOverlappedChecked array (s.next tmp) unearest).map fun s => (true, s)
    else
      let s := s.setLower unearest lower
      let s := if upper > s.upper unearest then s.setUpper unearest upper else s
      (s.freeOverlappedChecked array (s.next lnearest) unearest).map fun s => (true, s)

/-- `erase`. -/
def eraseChecked (lower upper : ℕ) : Option (Bool × SeqTrackingList) :=
  let (lnearest, s) := s.findNearestLowerSeqRangeListElement lower
  let array := s.array
  if lnearest = 0 then some (true, s)
  else if lower = 0 ∨ lower > upper then some (false, s)
  else
    let unearest := s.findNearestUpperSeqRangeListElement lnearest upper
    if lnearest ≠ unearest then
      (s.freeOverlappedChecked array (s.next lnearest) unearest).bind fun s =>
        s.withHandles array <|
          let s :=
            if lower ≤ s.lower lnearest then s.freeSeqRangeListElement lnearest
            else if lower ≤ s.upper lnearest then
              let s := s.setUpper lnearest (pred64 lower)
              if s.upper lnearest < s.lower lnearest then s.freeSeqRangeListElement lnearest else s
            else s
          s.withHandles array <|
            let s :=
              if upper ≥ s.upper unearest then s.freeSeqRangeListElement unearest
              else if upper ≥ s.lower unearest then
                let s := s.setLower unearest (succ64 upper)
                if s.upper unearest < s.lower unearest then s.freeSeqRangeListElement unearest
                else s
              else s
            some (true, s)
    else if s.lower lnearest ≤ upper ∧ lower ≤ s.upper lnearest then
      if lower < s.lower lnearest then
        let s := s.setLower lnearest (succ64 upper)
        some (true, if s.upper lnearest < s.lower lnearest then s.freeSeqRangeListElement lnearest
          else s)
      else if upper > s.upper lnearest then
        let s := s.setUpper lnearest (pred64 lower)
        some (true, if s.upper lnearest < s.lower lnearest then s.freeSeqRangeListElement lnearest
          else s)
      else
        let (ok, s) :=
          if s.upper lnearest > upper then
            let (tmp, s) := s.getSeqRangeListElement lnearest
            -- `lnearest->upper` is read only if there is a new element
            if tmp = 0 then (false, s)
            else (true, (s.setUpper tmp (s.upper lnearest)).setLower tmp (succ64 upper))
          else (true, s)
        if !ok then some (false, s)
        else
          s.withHandles array <|
            let s := s.setUpper lnearest (pred64 lower)
            some (true, if s.upper lnearest < s.lower lnearest then
              s.freeSeqRangeListElement lnearest else s)
    else some (true, s)

/-! ### When the list moves too early -/

/-- Giving back `n` elements one after the other makes the list move to a smaller array. -/
def ShrinksBy (n : ℕ) : Prop :=
  0 < n ∧ s.shrinkBy ≠ 0 ∧ s.mallocOk = true ∧ s.arraySize - (s.listSize - n) > s.shrinkBy

instance (n : ℕ) : Decidable (s.ShrinksBy n) := inferInstanceAs (Decidable (_ ∧ _))

/-- Counts the elements from `tmp` up to `stop`. -/
def countUntil (s : SeqTrackingList) (stop : ℕ) : ℕ → ℕ → ℕ
  | 0, _ => 0
  | rounds + 1, tmp => if tmp ≠ stop then countUntil s stop rounds (s.next tmp) + 1 else 0

/-- The number of elements between two others. -/
def between (p q : ℕ) : ℕ := s.countUntil q s.listSize.toNat (s.next p)

/-- `record` would use a handle after the list has moved: while it still has to look at the element
at the upper end, or at elements that are to be given back. -/
def RecordMoves (lower upper : ℕ) : Prop :=
  let (lnearest, s) := s.findNearestLowerSeqRangeListElement lower
  let unearest := s.findNearestUpperSeqRangeListElement lnearest upper
  let n := s.between lnearest unearest
  lnearest ≠ unearest ∧
    if lower ≤ succ64 (s.upper lnearest) then s.ShrinksBy n
    else if succ64 upper < s.lower unearest then s.ShrinksBy (n - 2)
    else s.ShrinksBy (n - 1)

instance (lower upper : ℕ) : Decidable (s.RecordMoves lower upper) := by
  unfold RecordMoves
  infer_instance

/-- `erase` would use a handle after the list has moved: to a smaller array while it still has to
look at the elements at both ends, or to a larger one for the element it splits off. -/
def EraseMovesRange (lower upper : ℕ) : Prop :=
  let (lnearest, s) := s.findNearestLowerSeqRangeListElement lower
  let unearest := s.findNearestUpperSeqRangeListElement lnearest upper
  let n := s.between lnearest unearest
  if lnearest ≠ unearest then s.ShrinksBy (if lower ≤ s.lower lnearest then n + 1 else n)
  else
    lnearest ≠ 0 ∧ s.lower lnearest ≤ lower ∧ upper < s.upper lnearest ∧
      s.listSize = s.arraySize ∧ s.growBy ≠ 0 ∧ s.mallocOk = true

instance (lower upper : ℕ) : Decidable (s.EraseMovesRange lower upper) := by
  unfold EraseMovesRange
  infer_instance

/-- A call that uses no handle after the list has moved, about a range below the largest number of
64 bits.  Calls with an invalid range only search. -/
def InPlace : Call → Prop
  | .record lower upper =>
    upper < 2 ^ 64 - 1 ∧ (1 ≤ lower → lower ≤ upper → ¬s.RecordMoves lower upper)
  | .erase lower upper =>
    upper < 2 ^ 64 - 1 ∧ (1 ≤ lower → lower ≤ upper → ¬s.EraseMovesRange lower upper)
  | .recordIfNotRecorded _ upper => upper < 2 ^ 64 - 1

instance : DecidablePred s.InPlace
  | .record lower upper => inferInstanceAs (Decidable (upper < _ ∧ (1 ≤ lower → lower ≤ upper → _)))
  | .erase lower upper => inferInstanceAs (Decidable (upper < _ ∧ (1 ≤ lower → lower ≤ upper → _)))
  | .recordIfNotRecorded _ upper => inferInstanceAs (Decidable (upper < _))

end Lampi.SeqTrackingList
