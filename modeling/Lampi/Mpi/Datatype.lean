import Lampi.Lib.RunList

/-!
# The constructors of datatypes

`MPI_Type_vector`, `hvector`, `contiguous`, `struct` and `indexed` build the type map of a new type
from those of old ones, joining pairs that are adjacent.  Each does so in two passes over the same
three loops: the first counts the pairs of the new map, the second writes them into an array of that
length.  `MPI_Type_hindexed` makes one pair of each block if the old type is a basic one.

Allocations succeed.  Sizes and offsets are integers, except where the code turns a negative number
into an extent or adds up the end of a struct in a `ssize_t`.  What it puts into an `int` (strides,
displacements of markers, the number of pairs) wraps around.
-/

namespace Lampi

open RunList

/-- `MPI_ERR_INTERN`, the error for an invalid count. -/
inductive TypeError
  | intern
  deriving DecidableEq, Repr

/-- The fields of `ULMType_t` that constructors read and write.  The number of pairs is the length
of the map; `contiguous` is the layout. -/
structure Datatype where
  typeMap : List Run
  lowerBound : ℤ
  extent : ℕ
  opIndex : ℤ
  contiguous : Bool
  deriving DecidableEq, Repr

/-- The type that is returned for `count == 0`. -/
def Datatype.empty : Datatype := ⟨[], 0, 0, 0, true⟩

/-- A number that is put into a `size_t`. -/
def sizeT (x : ℤ) : ℕ := (x % 2 ^ 64).toNat

/-- A number that is put into a `ssize_t`. -/
def ssizeT (x : ℤ) : ℤ := Int.bmod x (2 ^ 64)

/-- A number that is put into an `int`. -/
def intT (x : ℤ) : ℤ := Int.bmod x (2 ^ 32)

lemma intT_eq {x : ℤ} (h : -2 ^ 31 ≤ x) (h' : x < 2 ^ 31) : intT x = x := by
  apply Int.bmod_eq_of_le <;> omega

lemma intT_natCast {n : ℕ} (h : n < 2 ^ 31) : intT n = n := by
  apply intT_eq <;> omega

lemma sizeT_natCast {n : ℕ} (h : n < 2 ^ 31) : sizeT n = n := by
  unfold sizeT
  omega

/-! ### The loops -/

section Loops

variable {σ : Type} (body : σ → Run → σ)

/-- The inner loop, over the pairs of the old type.  The body gets `new_size` and `new_offset`. -/
def pairLoop (oldtype : Datatype) (typemapOff : ℤ) (s : σ) : σ :=
  oldtype.typeMap.foldl (fun s pair => body s ⟨pair.size, pair.offset + typemapOff⟩) s

/-- The loop over the elements of a block, with `typemap_off`. -/
def elementLoop (oldtype : Datatype) : ℕ → σ × ℤ → σ × ℤ
  | 0, s => s
  | n + 1, (s, typemapOff) =>
    elementLoop oldtype n (pairLoop body oldtype typemapOff s, typemapOff + oldtype.extent)

/-- The loop over equal blocks, with a gap after each. -/
def blockLoop (oldtype : Datatype) (blocklen : ℕ) (gap : ℤ) : ℕ → σ × ℤ → σ × ℤ
  | 0, s => s
  | n + 1, s =>
    let s := elementLoop body oldtype blocklen s
    blockLoop oldtype blocklen gap n (s.1, s.2 + gap)

/-- The loops of `MPI_Type_vector`.  `stride - blocklen` is an `int`. -/
def vectorLoop (count blocklen stride : ℤ) (oldtype : Datatype) (s : σ) : σ :=
  (blockLoop body oldtype blocklen.toNat (oldtype.extent * intT (stride - blocklen)) count.toNat
    (s, 0)).1

def hvectorLoop (count blocklength stride : ℤ) (oldtype : Datatype) (s : σ) : σ :=
  (blockLoop body oldtype blocklength.toNat (stride - blocklength * oldtype.extent) count.toNat
    (s, 0)).1

def structLoop (count : ℤ) (blocklengths displacements : ℕ → ℤ) (types : ℕ → Datatype) (s : σ) :
    σ :=
  (List.range count.toNat).foldl (fun s i =>
    if (types i).extent > 0 then
      (elementLoop body (types i) (blocklengths i).toNat (s, displacements i)).1
    else s) s

end Loops

/-! ### The passes -/

/-- What the counting pass keeps. -/
structure CountPass where
  typemapI : ℕ
  currentSize : ℕ
  currentOffset : ℤ
  deriving DecidableEq, Repr

def CountPass.init : CountPass := ⟨0, 0, 0⟩

/-- `num_pairs`: `typemap_i` is an `int`. -/
def CountPass.numPairs (s : CountPass) : ℤ := intT s.typemapI

/-- What the filling pass keeps: the array and the next place. -/
structure FillPass where
  typeMap : List Run
  typemapI : ℕ
  deriving DecidableEq, Repr

/-- The start of the filling pass, with an array that has just been allocated. -/
def FillPass.init (numPairs : ℤ) : FillPass := ⟨List.replicate numPairs.toNat ⟨0, 0⟩, 0⟩

/-- The body of the counting pass of `MPI_Type_vector` and `MPI_Type_hvector`. -/
def countPair (s : CountPass) (new : Run) : CountPass :=
  if s.typemapI ≠ 0 ∧ s.currentSize + s.currentOffset = new.offset then
    { s with currentSize := s.currentSize + new.size }
  else ⟨s.typemapI + 1, new.size, new.offset⟩

/-- The body of their filling pass. -/
def fillPair (s : FillPass) (new : Run) : FillPass :=
  let last := s.typeMap.getD (s.typemapI - 1) ⟨0, 0⟩
  if s.typemapI ≠ 0 ∧ last.size + last.offset = new.offset then
    { s with typeMap := s.typeMap.set (s.typemapI - 1) ⟨last.size + new.size, last.offset⟩ }
  else ⟨s.typeMap.set s.typemapI new, s.typemapI + 1⟩

/-- `_MPI_DTYPE_TRIM`. -/
def mpiDtypeTrim : Bool := false

/-- The part of a pair between the bounds. -/
def trimPair (lb ub : ℤ) (new : Run) : Run :=
  let new := if mpiDtypeTrim && decide (new.offset < lb) then
    ⟨sizeT (new.size - (lb - new.offset)), lb⟩ else new
  if mpiDtypeTrim && decide (new.offset + new.size > ub) then
    ⟨sizeT (ub - new.offset), new.offset⟩ else new

/-- The size of a pair that has been consolidated, trimmed at the upper bound. -/
def trimSize (ub : ℤ) (size : ℕ) (offset : ℤ) : ℕ :=
  if mpiDtypeTrim && decide (size + offset > ub) then sizeT (ub - offset) else size

/-- There is something left of a pair after trimming. -/
def insideBounds (lb ub : ℤ) (new : Run) : Bool :=
  !mpiDtypeTrim || (decide (new.offset + new.size > lb) && decide (new.offset < ub))

/-- The body of the counting pass of `MPI_Type_struct`. -/
def structCountPair (lb ub : ℤ) (s : CountPass) (new : Run) : CountPass :=
  if s.typemapI ≠ 0 ∧ s.currentSize + s.currentOffset = new.offset then
    { s with currentSize := trimSize ub (s.currentSize + new.size) s.currentOffset }
  else if insideBounds lb ub new then
    let new := trimPair lb ub new
    if new.size > 0 then ⟨s.typemapI + 1, new.size, new.offset⟩ else s
  else s

/-- The body of its filling pass. -/
def structFillPair (lb ub : ℤ) (s : FillPass) (new : Run) : FillPass :=
  let last := s.typeMap.getD (s.typemapI - 1) ⟨0, 0⟩
  if s.typemapI ≠ 0 ∧ last.size + last.offset = new.offset then
    let size := trimSize ub (last.size + new.size) last.offset
    { s with typeMap := s.typeMap.set (s.typemapI - 1) ⟨size, last.offset⟩ }
  else if insideBounds lb ub new then
    let new := trimPair lb ub new
    if new.size > 0 then ⟨s.typeMap.set s.typemapI new, s.typemapI + 1⟩ else s
  else s

/-! ### `MPI_Type_vector`, `MPI_Type_hvector` and `MPI_Type_contiguous` -/

/-- `PMPI_Type_vector`. -/
def typeVector (count blocklen stride : ℤ) (oldtype : Datatype) : Except TypeError Datatype :=
  if count < 0 then .error .intern
  else if count = 0 then .ok Datatype.empty
  else
    let numPairs := (vectorLoop countPair count blocklen stride oldtype CountPass.init).numPairs
    let filled := vectorLoop fillPair count blocklen stride oldtype (FillPass.init numPairs)
    let stride := if stride < 0 then -stride else stride
    .ok
      { typeMap := filled.typeMap
        lowerBound := oldtype.lowerBound
        -- the number of elements is an `int`, too; it wraps around once for all the operations
        extent := sizeT
          (intT (stride * (count - 1) + blocklen) * oldtype.extent - oldtype.lowerBound)
        -- not set by the code
        opIndex := 0
        contiguous := false }

/-- `PMPI_Type_create_hvector`. -/
def typeHvector (count blocklength stride : ℤ) (oldtype : Datatype) : Except TypeError Datatype :=
  if count < 0 then .error .intern
  else if count = 0 then .ok Datatype.empty
  else
    let numPairs := (hvectorLoop countPair count blocklength stride oldtype CountPass.init).numPairs
    let filled := hvectorLoop fillPair count blocklength stride oldtype (FillPass.init numPairs)
    let stride := if stride < 0 then -stride else stride
    .ok
      { typeMap := filled.typeMap
        lowerBound := oldtype.lowerBound
        extent := sizeT ((count - 1) * stride + blocklength * oldtype.extent - oldtype.lowerBound)
        opIndex := 0
        contiguous := false }

/-- `PMPI_Type_contiguous`. -/
def typeContiguous (count : ℤ) (oldtype : Datatype) : Except TypeError Datatype :=
  if count < 0 then .error .intern
  else if count = 0 then .ok Datatype.empty
  else typeVector count 1 1 oldtype

/-! ### `MPI_Type_struct` and `MPI_Type_indexed` -/

/-- What the search for markers and for the smallest and largest displacements keeps. -/
structure StructBounds where
  mpiLbI : ℤ
  mpiUbI : ℤ
  minLb : ℤ
  maxUb : ℤ
  minDisp : ℤ
  maxDisp : ℤ
  minDispI : ℕ
  maxDispI : ℕ
  deriving DecidableEq, Repr

namespace StructBounds

def init (displacements : ℕ → ℤ) : StructBounds :=
  ⟨-1, -1, 0, 0, displacements 0, displacements 0, 0, 0⟩

/-- A marker for the lower or the upper bound. -/
def marker (displacement : ℤ) (type : Datatype) (s : StructBounds) (i : ℕ) : StructBounds :=
  if type.extent = 0 then
    if type.opIndex = -1 then
      if s.mpiLbI = -1 ∨ displacement < s.minLb then
        { s with minLb := intT displacement, mpiLbI := i }
      else s
    else if type.opIndex = -2 then
      -- the index of the lower marker is tested here too
      if s.mpiLbI = -1 ∨ displacement > s.maxUb then
        { s with maxUb := intT displacement, mpiUbI := i }
      else s
    else s
  else s

/-- One round of the search. -/
def step (displacements : ℕ → ℤ) (types : ℕ → Datatype) (s : StructBounds) (i : ℕ) : StructBounds :=
  let s := s.marker (displacements i) (types i) i
  let s :=
    if (types i).lowerBound > 0 ∧ (s.mpiLbI = -1 ∨ (types i).lowerBound < s.minLb) then
      { s with minLb := intT (types i).lowerBound, mpiLbI := i }
    else s
  let s := if displacements i < s.minDisp then
    { s with minDisp := displacements i, minDispI := i } else s
  if displacements i > s.maxDisp then { s with maxDisp := displacements i, maxDispI := i } else s

def lb (s : StructBounds) (displacements : ℕ → ℤ) : ℤ :=
  if s.mpiLbI ≠ -1 then s.minLb else displacements s.minDispI

def ub (s : StructBounds) (blocklengths displacements : ℕ → ℤ) (types : ℕ → Datatype) : ℤ :=
  let ub := if s.mpiUbI ≠ -1 then s.maxUb
    else ssizeT (displacements s.maxDispI + blocklengths s.maxDispI * (types s.maxDispI).extent)
  if ub < s.lb displacements then s.lb displacements else ub

end StructBounds

/-- `PMPI_Type_create_struct`. -/
def typeStruct (count : ℤ) (blocklengths displacements : ℕ → ℤ) (types : ℕ → Datatype) :
    Except TypeError Datatype :=
  if count < 0 then .error .intern
  else if count = 0 then .ok Datatype.empty
  else
    let bounds := (List.range count.toNat).foldl (StructBounds.step displacements types)
      (StructBounds.init displacements)
    let lb := bounds.lb displacements
    let ub := bounds.ub blocklengths displacements types
    let numPairs := (structLoop (structCountPair lb ub) count blocklengths displacements types
      CountPass.init).numPairs
    let typeMap :=
      if numPairs > 0 then
        (structLoop (structFillPair lb ub) count blocklengths displacements types
          (FillPass.init numPairs)).typeMap
      else []
    .ok
      { typeMap := typeMap
        lowerBound := lb
        extent := sizeT (ub - lb)
        opIndex := 0
        contiguous := false }

/-- `PMPI_Type_indexed`. -/
def typeIndexed (count : ℤ) (blocklengths disps : ℕ → ℤ) (oldtype : Datatype) :
    Except TypeError Datatype :=
  if count < 0 then .error .intern
  else if count = 0 then .ok Datatype.empty
  else typeStruct count blocklengths (fun i => disps i * oldtype.extent) fun _ => oldtype

/-! ### `MPI_Type_hindexed` -/

/-- Where a block begins and ends, in this order. -/
def blockBounds (blocklength disp : ℤ) (oldtype : Datatype) : ℤ × ℤ :=
  let l := disp
  let u := disp + blocklength * oldtype.extent
  if u < l then (u, l) else (l, u)

/-- `create_from_basic_type`: one pair for each block. -/
def createFromBasicType (count : ℤ) (blocklengths disps : ℕ → ℤ) (oldtype : Datatype) : Datatype :=
  let (lb, ub) := (List.range count.toNat).foldl (fun (lb, ub) i =>
      let (l, u) := blockBounds (blocklengths i) (disps i) oldtype
      (if lb > l then l else lb, if ub < u then u else ub))
    (blockBounds (blocklengths 0) (disps 0) oldtype)
  { typeMap := (List.range count.toNat).map fun i =>
      ⟨sizeT (blocklengths i * oldtype.extent), disps i⟩
    lowerBound := lb
    extent := sizeT (ub - lb)
    opIndex := 0
    contiguous := false }

/-- `PMPI_Type_create_hindexed`; `isbasic` is that of the old type. -/
def typeHindexed (count : ℤ) (blocklengths disps : ℕ → ℤ) (isbasic : Bool) (oldtype : Datatype) :
    Except TypeError Datatype :=
  if count < 0 then .error .intern
  else if count = 0 then .ok Datatype.empty
  else if isbasic then .ok (createFromBasicType count blocklengths disps oldtype)
  else typeStruct count blocklengths disps fun _ => oldtype

end Lampi
