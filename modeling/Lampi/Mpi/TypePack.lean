import Lampi.Mpi.Buffer
import Lampi.Mpi.Datatype

/-!
# Committed types and incremental packing

`MPI_Type_commit` computes the packed size of a type.  `type_pack` copies an array of elements of a
committed type to or from a buffer, as much as there is room for, and keeps where it has stopped in
three indices: the element, the pair of its map and the offset in that pair.  The next call goes on
from there.

The pieces that are copied do not depend on the direction: each is a number of bytes at a position
relative to the array, and they follow one another in the buffer.
-/

namespace Lampi

open RunList List

/-- In a contiguous type the bytes of an element are all those of its extent, in order.  This holds
of the basic types and of those for `count == 0`. -/
def Datatype.WellFormed (t : Datatype) : Prop :=
  t.contiguous = true → positions t.typeMap = (List.range t.extent).map fun i : ℕ => (i : ℤ)

/-- A committed type.  A type without bytes is contiguous, whatever its extent is. -/
structure CommittedType extends Datatype where
  packedSize : ℕ
  packedSize_eq : packedSize = (positions typeMap).length
  positions_eq : contiguous = true → positions typeMap = [] ∨
    positions typeMap = (List.range extent).map fun i : ℕ => (i : ℤ)
  positions_ne_nil : contiguous = false → positions typeMap ≠ []
  deriving DecidableEq, Repr

lemma length_positions (runs : List Run) : (positions runs).length = (runs.map Run.size).sum := by
  induction runs with
  | nil => rfl
  | cons r runs ih =>
    rw [positions_cons, length_append, ih, map_cons, sum_cons, Run.positions,
      length_map, length_range]

/-- The loop of `MPI_Type_commit`: what it puts into `seq_offset` of the pairs, and `p_sz`. -/
def commitLoop (typeMap : List Run) : List ℕ × ℕ :=
  typeMap.foldl (fun (seqOffsets, pSz) pair => (seqOffsets ++ [pSz], pSz + pair.size)) ([], 0)

/-- `MPI_Type_commit`, for a type that has not been committed before. -/
def typeCommit (t : Datatype) (h : t.WellFormed) : CommittedType :=
  if hlayout : t.contiguous = true then
    { t with
      packedSize := t.extent
      packedSize_eq := by rw [h hlayout, List.length_map, List.length_range]
      positions_eq := fun _ => Or.inr (h hlayout)
      positions_ne_nil := fun hfalse => absurd (hlayout.symm.trans hfalse) Bool.true_eq_false.mp }
  else
    -- the sum that `commitLoop` comes to
    let pSz := (t.typeMap.map Run.size).sum
    if hzero : pSz = 0 then
      -- special case for packed_size=0
      { t with
        contiguous := true
        packedSize := pSz
        packedSize_eq := (length_positions t.typeMap).symm
        positions_eq := fun _ => Or.inl
          (List.eq_nil_of_length_eq_zero ((length_positions t.typeMap).trans hzero))
        positions_ne_nil := fun hfalse => absurd hfalse Bool.true_eq_false.mp }
    else
      { t with
        packedSize := pSz
        packedSize_eq := (length_positions t.typeMap).symm
        positions_eq := fun htrue => absurd htrue hlayout
        positions_ne_nil := fun _ hnil => hzero
          ((length_positions t.typeMap).symm.trans (congrArg List.length hnil)) }

/-- The positions of the bytes of `n` elements from `p` on, in the order of the map. -/
def CommittedType.data (type : CommittedType) (p : ℤ) (n : ℕ) : List ℤ :=
  (List.range n).flatMap fun i : ℕ => (positions type.typeMap).map (· + (p + i * type.extent))

/-! ### `type_pack` -/

/-- Where `type_pack` has stopped: `type_index`, `map_index` and `map_offset`. -/
structure TypeCursor where
  typeIndex : ℕ
  mapIndex : ℕ
  mapOffset : ℕ
  deriving DecidableEq, Repr

/-- Before the first call. -/
def TypeCursor.init : TypeCursor := ⟨0, 0, 0⟩

/-- What `type_pack` returns. -/
inductive TypePackStatus
  | complete
  | incompleteVector
  | incompleteType
  | incompleteTypeMap
  deriving DecidableEq, Repr

/-- What `type_pack` keeps: the pieces it has copied, the room that is left in the buffer, the
offset in the buffer and the cursor. -/
structure Packing where
  pieces : List Run
  bufsize : ℕ
  offset : ℕ
  cursor : TypeCursor
  deriving DecidableEq, Repr

namespace typePack

/-- The loop over the pairs that are left of an element at `ptr`.  A status if the function returns
from within the loop. -/
def mapLoop (ptr : ℤ) : List Run → Packing → Packing × Option TypePackStatus
  | [], s => (s, none)
  | pair :: pairs, s =>
    let mapOffset := s.cursor.mapOffset
    let t := ptr + pair.offset
    let size := pair.size
    -- part of the pair has been copied by an earlier call
    let (t, size, mapOffset) :=
      if mapOffset > 0 then
        (t + mapOffset, size - mapOffset, if size - mapOffset ≤ s.bufsize then 0 else mapOffset)
      else (t, size, mapOffset)
    let (size, mapOffset) :=
      if size > s.bufsize then (s.bufsize, mapOffset + s.bufsize) else (size, mapOffset)
    let pieces := s.pieces ++ [⟨size, t⟩]
    let offset := s.offset + size
    if mapOffset > 0 then
      (⟨pieces, s.bufsize, offset, { s.cursor with mapOffset := mapOffset }⟩,
        some .incompleteTypeMap)
    else
      let s : Packing := ⟨pieces, s.bufsize - size, offset,
        { s.cursor with mapIndex := s.cursor.mapIndex + 1, mapOffset := mapOffset }⟩
      if s.bufsize = 0 ∧ pairs ≠ [] then (s, some .incompleteType) else mapLoop ptr pairs s

/-- The loop over the elements, with a bound on the number of its rounds. -/
def typeLoop (type : CommittedType) (ntype : ℕ) : ℕ → Packing → Packing × TypePackStatus
  | 0, s => (s, .complete)
  | rounds + 1, s =>
    if s.cursor.typeIndex < ntype then
      match mapLoop (s.cursor.typeIndex * type.extent) (type.typeMap.drop s.cursor.mapIndex) s with
      | (s, some status) => (s, status)
      | (s, none) =>
        let s := { s with cursor :=
          { s.cursor with typeIndex := s.cursor.typeIndex + 1, mapIndex := 0 } }
        if s.bufsize = 0 ∧ s.cursor.typeIndex < ntype then (s, .incompleteVector)
        else typeLoop type ntype rounds s
    else (s, .complete)

end typePack

/-- The difference of two numbers of type `size_t`. -/
def sizeSub (a b : ℕ) : ℕ := if b ≤ a then a - b else 2 ^ 64 + a - b

@[simp] lemma sizeSub_zero (a : ℕ) : sizeSub a 0 = a := if_pos (Nat.zero_le a)

lemma sizeSub_of_le {a b : ℕ} (h : b ≤ a) : sizeSub a b = a - b := if_pos h

/-- `type_pack`; there is no result if it divides by zero. -/
def typePack (type : CommittedType) (bufsize offset ntype : ℕ) (cursor : TypeCursor) :
    Option (Packing × TypePackStatus) :=
  let bufsize := sizeSub bufsize offset
  if type.contiguous then
    let copiedSoFar := cursor.typeIndex * type.extent + cursor.mapOffset
    let leftToCopy := ntype * type.extent - copiedSoFar
    let bytesToCopy := if bufsize > leftToCopy then leftToCopy else bufsize
    let piece : Run := ⟨bytesToCopy, cursor.typeIndex * type.extent + cursor.mapOffset⟩
    let copiedSoFar := copiedSoFar + bytesToCopy
    if type.extent = 0 then none
    else
      let typeIndex := copiedSoFar / type.extent
      some (⟨[piece], bufsize, offset + bytesToCopy,
          { cursor with
            typeIndex := typeIndex
            mapOffset := copiedSoFar - typeIndex * type.extent }⟩,
        if copiedSoFar ≠ ntype * type.extent then .incompleteVector else .complete)
  else
    some (typePack.typeLoop type ntype (ntype - cursor.typeIndex) ⟨[], bufsize, offset, cursor⟩)

/-! ### Sequences of calls -/

namespace typePack

/-- Calls for one array until one returns `TYPE_PACK_COMPLETE`, with a bound on their number.  Call
`i` has a buffer of `bufsize i` bytes, in use up to `offset i`. -/
def run (type : CommittedType) (ntype : ℕ) (bufsize offset : ℕ → ℕ) :
    ℕ → ℕ → TypeCursor → Option (List (Packing × TypePackStatus))
  | 0, _, _ => none
  | calls + 1, i, cursor =>
    (typePack type (bufsize i) (offset i) ntype cursor).bind fun call =>
      if call.2 = .complete then some [call]
      else (run type ntype bufsize offset calls (i + 1) call.1.cursor).map (call :: ·)

/-- What the calls put into the buffers, with `TYPE_PACK_PACK`. -/
def pack (array : Buffer) (calls : List (Packing × TypePackStatus)) : List UInt8 :=
  calls.flatMap fun call => array.read (positions call.1.pieces)

/-- The array after the calls with `TYPE_PACK_UNPACK`, from call `i` on, whose buffer has room for
`room i` bytes. -/
def unpack (room : ℕ → ℕ) : ℕ → List (Packing × TypePackStatus) → Buffer → List UInt8 → Buffer
  | _, [], array, _ => array
  | i, call :: calls, array, bytes =>
    unpack room (i + 1) calls (array.write (positions call.1.pieces) (bytes.take (room i)))
      (bytes.drop (room i))

end typePack

/-! ### `MPI_Pack` -/

/-- `MPI_SUCCESS` and `MPI_ERR_BUFFER`. -/
inductive PackResult
  | success
  | errBuffer
  deriving DecidableEq, Repr

/-- `PMPI_Pack`: what it returns, and what it has packed; the new position is the offset. -/
def mpiPack (count : ℕ) (type : CommittedType) (size position : ℕ) :
    Option (PackResult × Packing) :=
  (typePack type size position count .init).map fun (packing, rc) =>
    (if rc = .complete then .success else .errBuffer, packing)

end Lampi
