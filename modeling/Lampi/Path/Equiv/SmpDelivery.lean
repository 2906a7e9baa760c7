import Lampi.Mpi.Equiv.TypePackRuns
import Lampi.Path.Equiv.Delivery

/-!
# Delivery through shared memory

`contiguous_to_noncontiguous_copy` copies its part of the packed stream, wherever it begins and ends
in the elements that an `int` can count (**`contiguousToNoncontiguousCopy_positions`**, for any type
map).  `SMPCopyToApp` cuts a fragment at the posted length for contiguous data only, so that
messages through shared memory are delivered as they should, in any order of their fragments,
exactly if the data is contiguous or fits: **`smpDelivery_iff`**.

An address that a type map names more than once can get any of its bytes, depending on the order.
-/

namespace Lampi

open RunList List CommittedType Nat

variable {t : CommittedType} {k : ℕ}

/-! ### `contiguous_to_noncontiguous_copy` -/

namespace contiguousToNoncontiguousCopy

variable {c i : ℕ}

lemma piece_positions {l : ℕ} (hi : i < t.typeMap.length) (hl : l ≤ t.typeMap[i].size) :
    positions [⟨l, c * t.extent + t.typeMap[i].offset⟩] =
      (range' (c * t.packedSize + t.seqOffset i) l).map t.positionAt := by
  have hpart := entry_positions (c := c) (o := 0) (l := l) hi (by omega)
  rw [add_zero, cast_zero, add_zero] at hpart
  rw [← hpart]
  exact append_nil _

variable {elts : List Run}

/-- The loops over the entries of element `c` from entry `i` on: as much is copied as there is, and
as the element has left. -/
lemma copyFitting_spec (hdrop : t.typeMap.drop i = elts) (hi : i ≤ t.typeMap.length)
    (bytesToRead : ℕ) (pieces : List Run) :
    let r := copyFitting (c * t.extent) elts bytesToRead pieces
    let n := min bytesToRead (t.packedSize - t.seqOffset i)
    r.1 = bytesToRead - n ∧ positions r.2 = positions pieces ++
      (range' (c * t.packedSize + t.seqOffset i) n).map t.positionAt := by
  induction elts generalizing i bytesToRead pieces with
  | nil =>
    have hend : i = t.typeMap.length := le_antisymm hi (drop_eq_nil_iff.mp hdrop)
    rw [hend, seqOffset_length, Nat.sub_self, min_zero]
    exact ⟨rfl, (append_nil _).symm⟩
  | cons elt elts ih =>
    obtain ⟨hlt, rfl, hrest⟩ := drop_eq_cons hdrop
    have hsucc := seqOffset_succ hlt
    have hwithin := seqOffset_le_packedSize (t := t) (i + 1)
    simp only [copyFitting]
    split_ifs with hfits hzero
    · -- the data ends with the entry
      have hn : min bytesToRead (t.packedSize - t.seqOffset i) = t.typeMap[i].size := by omega
      rw [hn, positions_append, piece_positions hlt le_rfl]
      exact ⟨rfl, rfl⟩
    · have hn : min bytesToRead (t.packedSize - t.seqOffset i) = t.typeMap[i].size +
          min (bytesToRead - t.typeMap[i].size) (t.packedSize - t.seqOffset (i + 1)) := by omega
      obtain ⟨hleft, hpositions⟩ := ih hrest hlt (bytesToRead - t.typeMap[i].size)
        (pieces ++ [⟨t.typeMap[i].size, c * t.extent + t.typeMap[i].offset⟩])
      refine ⟨by omega, ?_⟩
      rw [hpositions, positions_append, piece_positions hlt le_rfl, append_assoc,
        ← map_append, hsucc, ← add_assoc, range'_append_1, ← hsucc, ← hn]
    · have hn : min bytesToRead (t.packedSize - t.seqOffset i) = bytesToRead := by omega
      rw [hn, positions_append, piece_positions hlt (not_le.mp hfits).le]
      exact ⟨(Nat.sub_self _).symm, rfl⟩

/-- The search finds the entry that has byte `k - 1` of the element. -/
lemma findPartial_spec (hk : k ≤ t.packedSize) (hdrop : t.typeMap.drop i = elts)
    (hi : i ≤ t.typeMap.length) (hbefore : t.seqOffset i < k) :
    ∃ (j : ℕ) (hj : j < t.typeMap.length),
      findPartial k elts (t.seqOffset i) = (t.typeMap[j] :: t.typeMap.drop (j + 1), t.seqOffset j) ∧
      t.seqOffset j < k ∧ k ≤ t.seqOffset (j + 1) := by
  induction elts generalizing i with
  | nil =>
    have hend : i = t.typeMap.length := le_antisymm hi (drop_eq_nil_iff.mp hdrop)
    rw [hend, seqOffset_length] at hbefore
    omega
  | cons elt elts ih =>
    obtain ⟨hlt, rfl, rfl⟩ := drop_eq_cons hdrop
    have hsucc := seqOffset_succ hlt
    rw [findPartial]
    split_ifs with hless
    · rw [← hsucc]
      exact ih rfl hlt (by omega)
    · exact ⟨i, hlt, rfl, hbefore, by omega⟩

/-- **The rest of element `c`**, of which `k` bytes have been copied before. -/
theorem finishElement_spec (hpos : 0 < k) (hk : k ≤ t.packedSize) (bytesToRead : ℕ) :
    let r := finishElement t (c * t.extent) k bytesToRead
    let n := min bytesToRead (t.packedSize - k)
    r.1 = bytesToRead - n ∧ positions r.2 = (range' (c * t.packedSize + k) n).map t.positionAt := by
  obtain ⟨j, hj, hfind, hfrom, hto⟩ := findPartial_spec hk (drop_zero (l := t.typeMap))
    (zero_le _) hpos
  have hsucc := seqOffset_succ hj
  have hwithin := seqOffset_le_packedSize (t := t) (j + 1)
  rw [seqOffset_zero] at hfind
  have hrest : t.typeMap[j].size - (k - t.seqOffset j) = t.seqOffset (j + 1) - k := by omega
  have hl : (if t.seqOffset (j + 1) - k > bytesToRead then bytesToRead
      else t.seqOffset (j + 1) - k) = min bytesToRead (t.seqOffset (j + 1) - k) := by
    split_ifs <;> omega
  simp only [finishElement, hfind, hrest, hl]
  split_ifs with hmore
  · set l := min bytesToRead (t.seqOffset (j + 1) - k)
    have hfirst := entry_positions (c := c) (o := k - t.seqOffset j) (l := l) hj
      (by omega)
    have hstart :
        c * t.packedSize + t.seqOffset j + (k - t.seqOffset j) = c * t.packedSize + k := by
      omega
    obtain ⟨hleft, hpositions⟩ := copyFitting_spec (c := c) (i := j + 1) rfl hj (bytesToRead - l)
      [⟨l, c * t.extent + t.typeMap[j].offset + (k - t.seqOffset j : ℕ)⟩]
    refine ⟨by omega, ?_⟩
    rw [hpositions]
    show (_ ++ []) ++ _ = _
    rw [append_nil, hfirst, hstart, ← map_append]
    congr 1
    -- the rest of the entry, and what follows if there is more data than that
    rcases lt_or_ge bytesToRead (t.seqOffset (j + 1) - k) with hshort | hlong
    · have hnone : min (bytesToRead - l) (t.packedSize - t.seqOffset (j + 1)) = 0 := by omega
      have hall : min bytesToRead (t.packedSize - k) = l := by omega
      rw [hnone, hall, range'_zero, append_nil]
    · have hnext : c * t.packedSize + t.seqOffset (j + 1) = c * t.packedSize + k + l := by omega
      have hall : min bytesToRead (t.packedSize - k) =
          l + min (bytesToRead - l) (t.packedSize - t.seqOffset (j + 1)) := by omega
      rw [hnext, range'_append_1, hall]
  · have hnext : t.seqOffset (j + 1) = k := by omega
    obtain ⟨hleft, hpositions⟩ := copyFitting_spec (c := c) (i := j + 1) rfl hj bytesToRead []
    rw [hnext] at hleft hpositions
    exact ⟨hleft, hpositions⟩

lemma copyWhole_positions (c n : ℕ) : positions (copyWhole t (c * t.extent) n) =
    (range' (c * t.packedSize) (n * t.packedSize)).map t.positionAt := by
  induction n with
  | zero =>
    rw [zero_mul]
    rfl
  | succ n ih =>
    have hone : copyWhole t (c * t.extent) (n + 1) = copyWhole t (c * t.extent) n ++
        t.typeMap.map (Run.shift ((c + n : ℕ) * t.extent)) := by
      rw [copyWhole, copyWhole, range_succ, flatMap_append, flatMap_singleton]
      push_cast
      rw [Int.add_mul]
    rw [hone, positions_append, ih, positions_map_shift, element_positions,
      ← map_append, add_mul c, range'_append_1, succ_mul]

/-- Whole elements and the beginning of another one, from element `c` on. -/
lemma copyRest_positions (hpacked : 0 < t.packedSize) (c m : ℕ) :
    positions (copyWhole t (c * t.extent) (m / t.packedSize)) ++ positions
      (if m - m / t.packedSize * t.packedSize > 0 then
        (copyFitting (c * t.extent + (m / t.packedSize : ℕ) * t.extent) t.typeMap
          (m - m / t.packedSize * t.packedSize) []).2
      else []) = (range' (c * t.packedSize) m).map t.positionAt := by
  have hm := offset_eq t m
  have hmod := mod_lt m hpacked
  have hleft : m - m / t.packedSize * t.packedSize = m % t.packedSize := by omega
  have hstart : (c : ℤ) * t.extent + (m / t.packedSize : ℕ) * t.extent =
      (c + m / t.packedSize : ℕ) * t.extent := by
    push_cast
    ring
  have hlast : positions (if m % t.packedSize > 0 then
      (copyFitting ((c + m / t.packedSize : ℕ) * t.extent) t.typeMap (m % t.packedSize) []).2
      else []) = (range' ((c + m / t.packedSize) * t.packedSize)
        (m % t.packedSize)).map t.positionAt := by
    split_ifs with hpos
    · obtain ⟨-, hpositions⟩ := copyFitting_spec (c := c + m / t.packedSize)
        (drop_zero (l := t.typeMap)) (zero_le _) (m % t.packedSize) []
      rw [hpositions, seqOffset_zero, Nat.sub_zero, add_zero, min_eq_left hmod.le]
      rfl
    · rw [Nat.eq_zero_of_not_pos hpos]
      rfl
  rw [hleft, hstart, copyWhole_positions, hlast, ← map_append, add_mul, range'_append_1, hm]

end contiguousToNoncontiguousCopy

open contiguousToNoncontiguousCopy in
/-- **The copier copies its part of the stream**, if that ends with the first 2³¹ - 1 elements. -/
theorem contiguousToNoncontiguousCopy_positions (hpacked : 0 < t.packedSize) {off n : ℕ}
    (hcnt : off + n ≤ (2 ^ 31 - 1) * t.packedSize) :
    positions (contiguousToNoncontiguousCopy t off n) = (range' off n).map t.positionAt := by
  have hoff := offset_eq t off
  have hmod := mod_lt off hpacked
  have hint : ∀ m ≤ off + n, intT (m / t.packedSize : ℕ) = (m / t.packedSize : ℕ) := by
    intro m hm
    apply intT_natCast
    rw [div_lt_iff_lt_mul hpacked]
    omega
  rw [contiguousToNoncontiguousCopy, hint off (le_add_right _ _)]
  set c := off / t.packedSize
  have hstarts : ((c : ℤ) * t.packedSize ≠ off) ↔ c * t.packedSize ≠ off := by
    rw [← Nat.cast_mul, ne_eq, Nat.cast_inj]
  have hcopied : ((off : ℤ) - c * t.packedSize).toNat = off - c * t.packedSize := by
    rw [← Nat.cast_mul, Int.toNat_sub]
  simp only [copyFrom, hstarts, hcopied]
  by_cases hwithin : c * t.packedSize ≠ off
  · -- an element is to be finished first
    have hnext : intT (c + 1) = (c + 1 : ℕ) := by
      rw [← Nat.cast_succ]
      apply intT_natCast
      by_contra hge
      have := Nat.mul_le_mul_right t.packedSize (show 2 ^ 31 - 1 ≤ c by omega)
      omega
    simp only [if_pos hwithin, positions_append, hnext]
    obtain ⟨hleft, hpositions⟩ := finishElement_spec (c := c) (t := t)
      (by omega : 0 < off - c * t.packedSize) (by omega) n
    have hrest := copyRest_positions hpacked (c + 1)
      (finishElement t (c * t.extent) (off - c * t.packedSize) n).1
    rw [hint (finishElement t (c * t.extent) (off - c * t.packedSize) n).1 (by omega),
      Int.toNat_natCast]
    have hstart : c * t.packedSize + (off - c * t.packedSize) = off := by omega
    have hsucc : (c + 1) * t.packedSize = c * t.packedSize + t.packedSize := succ_mul _ _
    rw [append_assoc, hrest, hpositions, hleft, hstart, ← map_append]
    apply congrArg
    rcases lt_or_ge n (t.packedSize - (off - c * t.packedSize)) with hshort | hlong
    · rw [min_eq_left hshort.le, Nat.sub_self, range'_zero, append_nil]
    · rw [min_eq_right hlong]
      have hnext : (c + 1) * t.packedSize = off + (t.packedSize - (off - c * t.packedSize)) := by
        omega
      rw [hnext, range'_append_1, add_sub_of_le hlong]
  · simp only [if_neg hwithin, positions_append, nil_append, hint n (le_add_left _ _),
      Int.toNat_natCast]
    rw [copyRest_positions hpacked, not_not.mp hwithin]

/-! ### `SMPCopyToApp` -/

variable {datatype : Option CommittedType} {stream : List UInt8} {frag : CopyFrag} {n : ℕ}
  {s : (ℕ × ℕ) × Buffer} {ks : List ℕ} {buf : Buffer}

/-- Where byte `k` of the packed stream belongs in the buffer. -/
def place (datatype : Option CommittedType) (k : ℕ) : ℤ :=
  match datatype with
  | none => k
  | some t => t.positionAt k

def smpLength (datatype : Option CommittedType) (postedLength : ℕ) (frag : CopyFrag) : ℕ :=
  if isContiguous datatype then min frag.length (postedLength - frag.seqOffset) else frag.length

lemma place_contiguous (hcontiguous : isContiguous datatype = true) {count : ℕ}
    (hk : k < postedLength datatype count) : place datatype k = k := by
  cases datatype with
  | none => rfl
  | some t =>
    have hpos : 0 < t.packedSize := by
      rw [pos_iff_ne_zero]
      intro hzero
      rw [postedLength, hzero, zero_mul] at hk
      exact absurd hk (not_lt_zero k)
    have hpositions : positions t.typeMap = (range t.extent).map fun i : ℕ => (i : ℤ) := by
      apply (t.positions_eq hcontiguous).resolve_left
      intro hnil
      rw [t.packedSize_eq, hnil] at hpos
      exact absurd hpos (lt_irrefl 0)
    have hextent : t.packedSize = t.extent := by
      rw [t.packedSize_eq, hpositions, length_map, length_range]
    have hmod := mod_lt k hpos
    have hk := offset_eq t k
    show (positions t.typeMap).getD (k % t.packedSize) 0 + (k / t.packedSize : ℕ) * t.extent = k
    rw [hpositions, getD_eq_getElem?_getD, getElem?_map,
      getElem?_range (hmod.trans_eq hextent), ← hextent]
    show ((k % t.packedSize : ℕ) : ℤ) + _ = k
    omega

/-- A stream of this length has fewer than 2³¹ elements, if they are not contiguous. -/
def ElementsFit (datatype : Option CommittedType) (length : ℕ) : Prop :=
  ∀ t ∈ datatype, t.contiguous = false → length ≤ (2 ^ 31 - 1) * t.packedSize

lemma ElementsFit.mono {m : ℕ} (h : ElementsFit datatype n) (hm : m ≤ n) :
    ElementsFit datatype m := fun t ht hlayout => hm.trans (h t ht hlayout)

/-- **The pieces of a fragment** are its part of the stream. -/
theorem smpPieces_positions (count : ℕ)
    (hfit : ElementsFit datatype (frag.seqOffset + frag.length)) :
    positions (smpPieces datatype (postedLength datatype count) frag.seqOffset frag.length) =
      (range' frag.seqOffset
        (smpLength datatype (postedLength datatype count) frag)).map (place datatype) := by
  by_cases hcontiguous : isContiguous datatype = true
  · -- a piece as long as fits
    set posted := postedLength datatype count with hposted
    have hpieces : smpPieces datatype posted frag.seqOffset frag.length =
        if (posted : ℤ) - frag.seqOffset ≤ 0 then []
        else [⟨if (posted : ℤ) - frag.seqOffset < frag.length then
          ((posted : ℤ) - frag.seqOffset).toNat else frag.length, frag.seqOffset⟩] := by
      cases datatype with
      | none => rfl
      | some t => exact if_pos hcontiguous
    have hlen : (if (posted : ℤ) - frag.seqOffset < frag.length then
        ((posted : ℤ) - frag.seqOffset).toNat else frag.length) =
        min frag.length (posted - frag.seqOffset) := by
      split_ifs <;> omega
    have hplace : ∀ k ∈ range' frag.seqOffset (min frag.length (posted - frag.seqOffset)),
        place datatype k = k := by
      intro k hk
      rw [mem_range'_1] at hk
      have hlt : k < posted := by omega
      exact place_contiguous hcontiguous hlt
    rw [hpieces, hlen, smpLength, if_pos hcontiguous, map_congr_left hplace]
    split_ifs with hbehind
    · have hnone : min frag.length (posted - frag.seqOffset) = 0 := by omega
      rw [hnone]
      rfl
    · show Run.positions _ ++ [] = _
      rw [append_nil, Run.positions, range'_eq_map_range, map_map]
      apply map_congr_left
      intro k _
      rfl
  · cases datatype with
    | none => exact absurd rfl hcontiguous
    | some t =>
      have hlayout : t.contiguous = false := Bool.eq_false_iff.mpr hcontiguous
      rw [smpLength, if_neg hcontiguous]
      show positions (if t.contiguous then _ else _) = _
      rw [if_neg (show ¬t.contiguous = true from hcontiguous)]
      exact contiguousToNoncontiguousCopy_positions (packedSize_pos hlayout) (hfit t rfl hlayout)

/-! ### Messages -/

/-- The data of a fragment of a message. -/
def CopyFrag.slice (frag : CopyFrag) (stream : List UInt8) : List UInt8 :=
  (stream.drop frag.seqOffset).take frag.length

/-- `SMPCopyToApp` for the fragments of a message, in this order. -/
def smpDeliver (datatype : Option CommittedType) (postedLength : ℕ) (stream : List UInt8)
    (order : List CopyFrag) (s : (ℕ × ℕ) × Buffer) : (ℕ × ℕ) × Buffer :=
  order.foldl (fun s frag => smpCopyToApp datatype postedLength s frag (frag.slice stream)) s

lemma smpLength_le (postedLength : ℕ) (frag : CopyFrag) :
    smpLength datatype postedLength frag ≤ frag.length := by
  unfold smpLength
  split_ifs
  · exact min_le_left _ _
  · exact le_rfl

lemma map_getD_of_isPrefix (hn : n ≤ frag.length)
    (hwithin : frag.seqOffset + frag.length ≤ stream.length) :
    (range' frag.seqOffset n).map (stream.getD · 0) <+: frag.slice stream := by
  have hslice : (range' frag.seqOffset n).map (stream.getD · 0) = (frag.slice stream).take n := by
    apply ext_getElem
    · rw [length_map, length_range', length_take, CopyFrag.slice, length_take, length_drop]
      omega
    · intro k hk hk'
      rw [length_map, length_range'] at hk
      have hlt : frag.seqOffset + k < stream.length := by omega
      simp only [CopyFrag.slice, getElem_map, getElem_range', getElem_take, getElem_drop, one_mul]
      rw [getD_eq_getElem?_getD, getElem?_eq_getElem hlt, Option.getD_some]
  rw [hslice]
  exact take_prefix _ _

/-- **One fragment**: it is counted, and its bytes are placed. -/
theorem smpCopyToApp_spec (count : ℕ) (hfit : ElementsFit datatype stream.length)
    (hwithin : frag.seqOffset + frag.length ≤ stream.length)
    (h : Buffer.Placed (place datatype) (stream.getD · 0) ks buf s.2) :
    let posted := postedLength datatype count
    let s' := smpCopyToApp datatype posted s frag (frag.slice stream)
    s'.1.1 + s'.1.2 = s.1.1 + s.1.2 + frag.length ∧ Buffer.Placed (place datatype) (stream.getD · 0)
        (ks ++ range' frag.seqOffset (smpLength datatype posted frag)) buf s'.2 := by
  intro posted s'
  have hle : smpLength datatype posted frag ≤ frag.length := smpLength_le posted frag
  have hpositions := smpPieces_positions count (hfit.mono hwithin)
  have hlen : ((smpPieces datatype posted frag.seqOffset frag.length).map Run.size).sum =
      smpLength datatype posted frag := by
    rw [← length_positions, hpositions, length_map, length_range']
  constructor
  · show s.1.1 + _ + (s.1.2 + (frag.length - _)) = _
    omega
  · show Buffer.Placed _ _ _ _ (s.2.write (positions _) _)
    rw [hpositions]
    exact h.write _ (map_getD_of_isPrefix hle hwithin)

/-- **The fragments of a message**, in any order. -/
theorem smpDeliver_spec (count : ℕ) (hfit : ElementsFit datatype stream.length)
    {order : List CopyFrag} (hwithin : ∀ frag ∈ order, frag.seqOffset + frag.length ≤ stream.length)
    (h : Buffer.Placed (place datatype) (stream.getD · 0) ks buf s.2) :
    let posted := postedLength datatype count
    let s' := smpDeliver datatype posted stream order s
    s'.1.1 + s'.1.2 = s.1.1 + s.1.2 + (order.map CopyFrag.length).sum ∧
      Buffer.Placed (place datatype) (stream.getD · 0)
        (ks ++ order.flatMap fun frag =>
          range' frag.seqOffset (smpLength datatype posted frag)) buf s'.2 := by
  induction order generalizing s ks with
  | nil =>
    refine ⟨rfl, ?_⟩
    rwa [flatMap_nil, append_nil]
  | cons frag order ih =>
    obtain ⟨hfrag, horder⟩ := forall_mem_cons.mp hwithin
    obtain ⟨hcount, hplaced⟩ := smpCopyToApp_spec count hfit hfrag h
    obtain ⟨hcount', hplaced'⟩ := ih horder hplaced
    refine ⟨?_, ?_⟩
    · rw [map_cons, sum_cons, ← add_assoc, ← hcount]
      exact hcount'
    · rw [flatMap_cons, ← append_assoc]
      exact hplaced'

/-- Zeros up to the posted length, and ones behind it. -/
lemma getD_zeros_ones {p : ℕ} (hk : k < p + n) :
    (replicate p (0 : UInt8) ++ replicate n 1).getD k 0 = if k < p then 0 else 1 := by
  rw [getD_eq_getElem?_getD]
  split_ifs with hp
  · rw [getElem?_append_left (by rwa [length_replicate]), getElem?_replicate_of_lt hp]
    rfl
  · rw [getElem?_append_right (by rw [length_replicate]; omega), length_replicate,
      getElem?_replicate_of_lt (by omega)]
    rfl

/-- **Delivery through shared memory** of fewer than 2³¹ elements, in any split into fragments and
any order of them. -/
theorem smpDelivery_iff {datatype : Option CommittedType} (count : ℕ) {msgLength : ℕ}
    (hfit : ElementsFit datatype msgLength) :
    (∀ (lengths : List ℕ) (order : List CopyFrag) (stream : List UInt8) (buf : Buffer),
      lengths.sum = msgLength → order.Perm (fragsOf lengths) → stream.length = msgLength →
      let posted := postedLength datatype count
      let s := smpDeliver datatype posted stream order ((0, 0), buf)
      s.1.1 + s.1.2 = msgLength ∧
        Buffer.Placed (place datatype) (stream.getD · 0) (range (min msgLength posted)) buf
          s.2) ↔ isContiguous datatype = true ∨ msgLength ≤ postedLength datatype count := by
  set posted := postedLength datatype count with hposted
  constructor
  · -- one fragment up to the posted length, and one with ones behind it
    intro h
    by_contra hnot
    obtain ⟨hlayout, hlong⟩ := not_or.mp hnot
    set stream : List UInt8 := replicate posted 0 ++ replicate (msgLength - posted) 1
      with hstream
    have hlength : stream.length = msgLength := by
      rw [hstream, length_append, length_replicate, length_replicate]
      omega
    have hsum : [posted, msgLength - posted].sum = msgLength := by
      rw [sum_cons, sum_singleton]
      omega
    obtain ⟨-, hplaced⟩ := h [posted, msgLength - posted] _ stream (fun _ => 0) hsum
      (Perm.refl _) hlength
    set second : CopyFrag := ⟨0 + posted, msgLength - posted, [posted, msgLength - posted].sum⟩
    set s := smpCopyToApp datatype posted ((0, 0), fun _ => 0)
      ⟨0, posted, [posted, msgLength - posted].sum⟩
      (CopyFrag.slice ⟨0, posted, [posted, msgLength - posted].sum⟩ stream)
    obtain ⟨-, hsecond⟩ := smpCopyToApp_spec (s := s) count (hlength ▸ hfit)
      (show second.seqOffset + second.length ≤ stream.length by
        show 0 + posted + (msgLength - posted) ≤ _
        omega) (Buffer.Placed.nil s.2)
    set last := (smpCopyToApp datatype posted s second (second.slice stream)).2
    have hlast : Buffer.Placed (place datatype) (stream.getD · 0)
        (range' posted (msgLength - posted)) s.2 last := by
      rw [nil_append, smpLength, if_neg hlayout,
        show second.seqOffset = posted from zero_add posted] at hsecond
      exact hsecond
    have hone : last (BitVec.ofInt 64 (place datatype posted)) = 1 := by
      rcases hlast (BitVec.ofInt 64 (place datatype posted)) with ⟨k, hk, -, hbyte⟩ | ⟨hnone, -⟩
      · rw [mem_range'_1] at hk
        rw [hbyte]
        show stream.getD k 0 = 1
        rw [hstream, getD_zeros_ones (by omega), if_neg (by omega)]
      · exact absurd rfl (hnone posted (mem_range'_1.mpr (by omega)))
    have hzero : last (BitVec.ofInt 64 (place datatype posted)) = 0 := by
      rcases hplaced (BitVec.ofInt 64 (place datatype posted)) with ⟨k, hk, -, hbyte⟩ | ⟨-, hsame⟩
      · rw [mem_range] at hk
        refine hbyte.trans ?_
        show stream.getD k 0 = 0
        rw [hstream, getD_zeros_ones (by omega), if_pos (by omega)]
      · exact hsame
    rw [hone] at hzero
    exact absurd hzero (by decide)
  · intro h lengths order stream buf hsum hperm hlength
    have hwithin : ∀ frag ∈ order, frag.seqOffset + frag.length ≤ stream.length := by
      intro frag hfrag
      rw [hlength, ← hsum]
      exact fragsOf_within (hperm.mem_iff.mp hfrag)
    obtain ⟨hcount, hplaced⟩ := smpDeliver_spec count (hlength ▸ hfit) hwithin
      (s := ((0, 0), buf)) (Buffer.Placed.nil buf)
    have htotal : (order.map CopyFrag.length).sum = msgLength := by
      rw [(hperm.map _).sum_eq, map_length_fragsOf, hsum]
    refine ⟨?_, hplaced.congr fun k => ?_⟩
    · rw [hcount, htotal]
      show 0 + 0 + msgLength = msgLength
      omega
    · -- the bytes of all fragments, as far as they are copied
      have hk : (∃ frag ∈ order, frag.seqOffset ≤ k ∧ k < frag.seqOffset + frag.length) ↔
          k < msgLength := by
        rw [← hsum, ← exists_mem_fragsOf]
        exact exists_congr fun frag => and_congr_left fun _ => hperm.mem_iff
      rw [nil_append, mem_flatMap, mem_range, lt_min_iff, ← hk]
      constructor
      · rintro ⟨frag, hfrag, hmem⟩
        rw [mem_range'_1, smpLength] at hmem
        have hend := hwithin frag hfrag
        refine ⟨⟨frag, hfrag, ?_⟩, ?_⟩
        · split_ifs at hmem <;> omega
        · split_ifs at hmem with hcontiguous
          · omega
          · have := h.resolve_left hcontiguous
            omega
      · rintro ⟨⟨frag, hfrag, hfrom, hto⟩, hbelow⟩
        refine ⟨frag, hfrag, mem_range'_1.mpr ⟨hfrom, ?_⟩⟩
        rw [smpLength]
        split_ifs <;> omega

/-- Two elements for a receive of two, in fragments that cut the integers, the last one first. -/
theorem smpDelivery_iff_gappedInts :
    let stream : List UInt8 := (range 16).map toUInt8
    let s := smpDeliver (some gappedInts) (postedLength (some gappedInts) 2) stream
      [⟨11, 5, 16⟩, ⟨0, 3, 16⟩, ⟨3, 8, 16⟩] ((0, 0), fun _ => 0)
    s.1.1 + s.1.2 = 16 ∧ Buffer.Placed gappedInts.positionAt (stream.getD · 0) (range 16)
      (fun _ => 0) s.2 := by
  have hperm : Perm [⟨11, 5, 16⟩, ⟨0, 3, 16⟩, ⟨3, 8, 16⟩] (fragsOf [3, 8, 5]) := by decide
  have hfit : ElementsFit (some gappedInts) 16 := by
    rintro t ⟨⟩ -
    decide
  exact (smpDelivery_iff 2 hfit).mpr (.inr (by decide)) [3, 8, 5] _ _ _ rfl hperm rfl

/-- Two elements in one fragment for a receive of one: both are written. -/
theorem smpDeliver_overrun :
    postedLength (some gappedInts) 1 = 8 ∧
    (smpDeliver (some gappedInts) 8 (replicate 16 1) (fragsOf [16])
      ((0, 0), fun _ => 0)).1 = (16, 0) ∧
    (smpDeliver (some gappedInts) 8 (replicate 16 1) (fragsOf [16])
      ((0, 0), fun _ => 0)).2 12 = 1 ∧
    12 ∉ ((range 8).map gappedInts.positionAt).map (BitVec.ofInt 64) :=
  ⟨by decide, by decide, by decide +kernel, by decide⟩

end Lampi
