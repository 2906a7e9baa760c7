import Lampi.Mpi.Equiv.TypePack
import Lampi.Path.TypedCopy

/-!
# The packed stream of a type

The elements of a committed type, one after the other, have their bytes in a stream: element `c` has
the bytes from `c * packedSize` on, and entry `i` of its map those from `seqOffset i` on in the
element.  `CommittedType.positionAt` tells where byte `k` of the stream is in the buffer.  A part of
an entry is a part of the stream (**`entry_positions`**), and so are whole elements
(`data_eq_positionAt`).
-/

namespace Lampi

open RunList List Nat

namespace CommittedType

variable (t : CommittedType)

/-- Where byte `k` of the packed stream is in the buffer. -/
def positionAt (k : ℕ) : ℤ :=
  (positions t.typeMap).getD (k % t.packedSize) 0 + (k / t.packedSize : ℕ) * t.extent

variable {t} {i : ℕ}

lemma packedSize_pos (hlayout : t.contiguous = false) : 0 < t.packedSize := by
  rw [t.packedSize_eq, length_pos_iff]
  exact t.positions_ne_nil hlayout

/-! ### Offsets of entries -/

lemma seqOffset_zero : t.seqOffset 0 = 0 := rfl

lemma seqOffset_eq_length (i : ℕ) : t.seqOffset i = (positions (t.typeMap.take i)).length :=
  (length_positions _).symm

lemma seqOffset_length : t.seqOffset t.typeMap.length = t.packedSize := by
  rw [seqOffset_eq_length, take_length, t.packedSize_eq]

lemma seqOffset_succ (hi : i < t.typeMap.length) :
    t.seqOffset (i + 1) = t.seqOffset i + t.typeMap[i].size := by
  rw [seqOffset, seqOffset, take_succ_eq_append_getElem hi, map_append, List.sum_append,
    map_singleton, sum_singleton]

lemma seqOffset_le {j : ℕ} (hij : i ≤ j) : t.seqOffset i ≤ t.seqOffset j := by
  rw [seqOffset_eq_length, seqOffset_eq_length, ← add_sub_of_le hij, take_add,
    positions_append, length_append]
  exact le_add_right _ _

lemma seqOffset_le_packedSize (i : ℕ) : t.seqOffset i ≤ t.packedSize := by
  rcases le_total i t.typeMap.length with hi | hi
  · rw [← seqOffset_length]
    exact seqOffset_le hi
  · rw [seqOffset, take_of_length_le hi, ← length_positions, t.packedSize_eq]

/-! ### Positions -/

lemma positionAt_element (c : ℕ) {k : ℕ} (hk : k < t.packedSize) :
    t.positionAt (c * t.packedSize + k) = (positions t.typeMap).getD k 0 + c * t.extent := by
  have hpos : 0 < t.packedSize := zero_lt_of_lt hk
  rw [positionAt, mul_comm c, mul_add_mod, mod_eq_of_lt hk,
    mul_add_div hpos, div_eq_of_lt hk, add_zero]

/-- **A part of an entry** is a part of the stream. -/
theorem entry_positions {c o l : ℕ} (hi : i < t.typeMap.length)
    (hfits : o + l ≤ t.typeMap[i].size) :
    Run.positions ⟨l, c * t.extent + t.typeMap[i].offset + o⟩ =
      (range' (c * t.packedSize + t.seqOffset i + o) l).map t.positionAt := by
  have hsplit : positions t.typeMap = positions (t.typeMap.take i) ++
      (t.typeMap[i].positions ++ positions (t.typeMap.drop (i + 1))) := by
    rw [← positions_cons, ← drop_eq_getElem_cons hi, ← positions_append, take_append_drop]
  apply ext_getElem
  · rw [Run.length_positions, length_map, length_range']
  · intro k hk hk'
    have hkl : k < l := by rwa [Run.length_positions] at hk
    have hsize : o + k < t.typeMap[i].size := by omega
    have hbound : t.seqOffset i + (o + k) < t.packedSize := by
      have hsucc := seqOffset_succ hi
      have hle := seqOffset_le_packedSize (t := t) (i + 1)
      omega
    have hindex : c * t.packedSize + t.seqOffset i + o + k =
        c * t.packedSize + (t.seqOffset i + (o + k)) := by omega
    have hget : (positions t.typeMap).getD (t.seqOffset i + (o + k)) 0 =
        t.typeMap[i].offset + ((o + k : ℕ) : ℤ) := by
      rw [hsplit, seqOffset_eq_length, getD_eq_getElem?_getD,
        getElem?_append_right (le_add_right _ _), Nat.add_sub_cancel_left,
        getElem?_append_left (by rwa [Run.length_positions]), Run.positions,
        getElem?_map, getElem?_range hsize]
      rfl
    rw [getElem_map, getElem_range', one_mul, hindex, positionAt_element c hbound, hget]
    simp only [Run.positions, getElem_map, getElem_range]
    push_cast
    ring

lemma element_positions (c : ℕ) : (positions t.typeMap).map (· + (c : ℤ) * t.extent) =
    (range' (c * t.packedSize) t.packedSize).map t.positionAt := by
  apply ext_getElem
  · rw [length_map, length_map, length_range', t.packedSize_eq]
  · intro k hk hk'
    have hlt : k < t.packedSize := by
      rwa [length_map, length_range'] at hk'
    have hget : k < (positions t.typeMap).length := by rwa [length_map] at hk
    rw [getElem_map, getElem_map, getElem_range', one_mul,
      positionAt_element c hlt, getD_eq_getElem?_getD, getElem?_eq_getElem hget, Option.getD_some]

end CommittedType

end Lampi
