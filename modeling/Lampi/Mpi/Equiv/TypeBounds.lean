import Mathlib.Algebra.Order.BigOperators.Group.Finset
import Lampi.Mpi.Equiv.TypeExpr

/-!
# Sizes and bounds of constructed types

The bytes of a struct are those of its blocks, so that its packed size is the sum of theirs
(`typeStruct_packedSize_iff`); only blocks of extent 0 are lost.  The bounds of a vector are those
of its elements (`typeHvector_bounds_iff`) as long as it is built upwards from lower bound 0.  The
bounds of a struct are the right ones if the search over its blocks does not take other blocks for
the outermost ones (`typeStruct_bounds`).
-/

namespace Lampi

open RunList List

variable {count : ℕ}

/-! ### Packed sizes -/

lemma commitLoop_eq (typeMap : List Run) :
    commitLoop typeMap = ((range typeMap.length).map fun k =>
      ((typeMap.take k).map Run.size).sum, (typeMap.map Run.size).sum) := by
  induction typeMap using reverseRecOn with
  | nil => rfl
  | append_singleton typeMap pair ih =>
    have hstep : commitLoop (typeMap ++ [pair]) = ((commitLoop typeMap).1 ++
        [(commitLoop typeMap).2], (commitLoop typeMap).2 + pair.size) := by
      rw [commitLoop, foldl_append]
      rfl
    rw [hstep, ih, length_append, length_singleton, range_succ, map_append]
    refine Prod.ext (congrArg₂ _ (map_congr_left fun k hk => ?_) (by simp)) (by simp)
    rw [take_append_of_le_length (mem_range.mp hk).le]

lemma length_positions_structPairs (count : ℕ) (blocklengths : ℕ → ℕ) (displacements : ℕ → ℤ)
    (types : ℕ → Datatype) :
    (positions (structPairs count (fun i => blocklengths i) displacements types)).length =
      ∑ i ∈ Finset.range count,
        if (types i).extent > 0 then blocklengths i * (types i).bytes.length else 0 := by
  rw [positions_structPairs, length_flatMap, Int.toNat_natCast]
  show _ = ((range count).map _).sum
  congr 1
  apply map_congr_left
  intro i _
  split_ifs
  · simp [Datatype.bytesAt, length_flatMap]
  · rfl

/-- **The packed size of a struct** whose pairs can be counted is the sum of those of its blocks
just if no block of extent 0 has bytes.  The `seq_offset` of a pair is the number of bytes in front
of it. -/
theorem typeStruct_packedSize_iff {count : ℕ} {blocklengths : ℕ → ℕ} {displacements : ℕ → ℤ}
    {types : ℕ → CommittedType} (hfit : StructFits count (fun i => blocklengths i) displacements
      fun i => (types i).toDatatype) : ∃ (t : Datatype) (h : t.WellFormed),
    typeStruct count (fun i => blocklengths i) displacements (fun i => (types i).toDatatype) =
      .ok t ∧
    commitLoop t.typeMap = ((List.range t.typeMap.length).map fun k =>
      ((t.typeMap.take k).map Run.size).sum, (typeCommit t h).packedSize) ∧
    ((typeCommit t h).packedSize =
        ∑ i ∈ Finset.range count, blocklengths i * (types i).packedSize ↔
      ∀ i < count, (types i).extent = 0 → blocklengths i * (types i).packedSize = 0) := by
  obtain ⟨t, ht⟩ := typeStruct_ok (Int.natCast_nonneg count) (fun i => blocklengths i)
    displacements fun i => (types i).toDatatype
  have hwell := typeStruct_wellFormed ht
  have hsize : (typeCommit t hwell).packedSize = t.bytes.length := by
    rw [(typeCommit t hwell).packedSize_eq, typeCommit_typeMap]
    rfl
  have hbytes : t.bytes = positions (structPairs count (fun i => blocklengths i) displacements
      fun i => (types i).toDatatype) := by
    rcases Nat.eq_zero_or_pos count with rfl | hpos
    · cases ht
      rfl
    · obtain ⟨t', ht', hdenotes⟩ := typeStruct_denotes (Int.ofNat_le.mpr hpos) hfit
      rwa [← Except.ok.inj (ht.symm.trans ht')] at hdenotes
  refine ⟨t, hwell, ht, ?_, ?_⟩
  · rw [commitLoop_eq, hsize, Datatype.bytes, length_positions]
  · rw [hsize, hbytes, length_positions_structPairs, Finset.sum_eq_sum_iff_of_le]
    · refine forall_congr' fun i => ?_
      rw [Finset.mem_range, (types i).packedSize_eq]
      refine imp_congr_right fun _ => ?_
      split_ifs with hextent
      · exact iff_of_true rfl fun hzero => absurd hzero hextent.ne'
      · exact ⟨fun h _ => h.symm, fun h => (h (Nat.eq_zero_of_not_pos hextent)).symm⟩
    · intro i _
      rw [(types i).packedSize_eq]
      split_ifs
      · exact Nat.le_refl _
      · exact Nat.zero_le _

/-- Three integers and, in front of them, one more. -/
theorem typeStruct_packedSize_iff_fourInts : ∃ (t : Datatype) (h : t.WellFormed),
    typeStruct 2 (fun i => ([3, 1].getD i 0 : ℕ)) ([0, -8].getD · 0)
      (fun _ => (typeCommit mpiInt fun _ => rfl).toDatatype) = .ok t ∧
    (typeCommit t h).packedSize = 16 := by
  obtain ⟨t, h, ht, -, hiff⟩ := @typeStruct_packedSize_iff 2 ([3, 1].getD · 0)
    ([0, -8].getD · 0) (fun _ => typeCommit mpiInt fun _ => rfl) (by decide)
  exact ⟨t, h, ht, hiff.mpr fun i _ hzero => absurd hzero (by decide)⟩

/-- An integer whose extent is 0 takes four bytes, and a struct of it none. -/
theorem typeStruct_packedSize_markedInt : ∃ (h : markedInt.WellFormed) (t : Datatype)
    (h' : t.WellFormed), (typeCommit markedInt h).packedSize = 4 ∧
    typeStruct 1 (fun _ => 1) (fun _ => 0) (fun _ => (typeCommit markedInt h).toDatatype) = .ok t ∧
    (typeCommit t h').packedSize = 0 :=
  ⟨nofun, ⟨[], 0, 0, 0, false⟩, nofun, rfl, by decide, rfl⟩

/-! ### Bounds of vectors -/

lemma natCast_sizeT (x : ℤ) : (sizeT x : ℤ) = x % 2 ^ 64 :=
  Int.toNat_of_nonneg (Int.emod_nonneg _ (by decide))

/-- Where the elements of a vector are whose stride is in bytes. -/
def hvectorDisplacements (count blocklength stride : ℤ) (oldtype : Datatype) : Set ℤ :=
  {d | ∃ i j : ℤ, 0 ≤ i ∧ i < count ∧ 0 ≤ j ∧ j < blocklength ∧
    d = i * stride + j * oldtype.extent}

/-- The bounds of the new type are the least lower and the greatest upper bound of the copies of the
old type at these displacements. -/
def Datatype.BoundsCopies (t oldtype : Datatype) (displacements : Set ℤ) : Prop :=
  IsLeast {b | ∃ d ∈ displacements, b = d + oldtype.lowerBound} t.lowerBound ∧
    IsGreatest {b | ∃ d ∈ displacements, b = d + (oldtype.lowerBound + oldtype.extent)}
      (t.lowerBound + t.extent)

variable {blocklength stride : ℤ} {oldtype : Datatype}

lemma boundsCopies_iff (t : Datatype) {count : ℤ} (hcount : 1 ≤ count)
    (hblocklength : 1 ≤ blocklength) :
    t.BoundsCopies oldtype (hvectorDisplacements count blocklength stride oldtype) ↔
      t.lowerBound = min 0 ((count - 1) * stride) + oldtype.lowerBound ∧
      t.lowerBound + t.extent = max 0 ((count - 1) * stride) + oldtype.lowerBound +
        blocklength * oldtype.extent := by
  -- the first and the last block are the outermost ones
  have hbetween : ∀ i, 0 ≤ i → i < count → min 0 ((count - 1) * stride) ≤ i * stride ∧
      i * stride ≤ max 0 ((count - 1) * stride) := by
    intro i hi hlt
    rcases le_total 0 stride with hpos | hneg
    · have := Int.mul_nonneg hi hpos
      have := Int.mul_le_mul_of_nonneg_right (Int.le_sub_one_of_lt hlt) hpos
      omega
    · have := Int.mul_nonpos_of_nonneg_of_nonpos hi hneg
      have := Int.mul_le_mul_of_nonpos_right (Int.le_sub_one_of_lt hlt) hneg
      omega
  have hends : ∀ x, (x = 0 ∨ x = (count - 1) * stride) →
      ∃ i, 0 ≤ i ∧ i < count ∧ x = i * stride := by
    rintro x (rfl | rfl)
    · exact ⟨0, le_rfl, by omega, (zero_mul stride).symm⟩
    · exact ⟨count - 1, by omega, by omega, rfl⟩
  have hextent : ∀ j, 0 ≤ j → j < blocklength → 0 ≤ j * oldtype.extent ∧
      j * oldtype.extent + oldtype.extent ≤ blocklength * oldtype.extent := by
    intro j hj hlt
    have := Int.mul_le_mul_of_nonneg_right hlt (Int.natCast_nonneg oldtype.extent)
    rw [add_mul, one_mul] at this
    exact ⟨Int.mul_nonneg hj (Int.natCast_nonneg _), this⟩
  have hleast : IsLeast {b | ∃ d ∈ hvectorDisplacements count blocklength stride oldtype,
      b = d + oldtype.lowerBound} (min 0 ((count - 1) * stride) + oldtype.lowerBound) := by
    obtain ⟨i, hi, hlt, heq⟩ := hends (min 0 ((count - 1) * stride)) (by omega)
    refine ⟨⟨_, ⟨i, 0, hi, hlt, le_rfl, by omega, rfl⟩, by rw [heq]; omega⟩, ?_⟩
    rintro b ⟨d, ⟨i, j, hi, hlt, hj, hlt', rfl⟩, rfl⟩
    have := hbetween i hi hlt
    have := hextent j hj hlt'
    omega
  have hgreatest : IsGreatest {b | ∃ d ∈ hvectorDisplacements count blocklength stride oldtype,
      b = d + (oldtype.lowerBound + oldtype.extent)}
      (max 0 ((count - 1) * stride) + oldtype.lowerBound + blocklength * oldtype.extent) := by
    obtain ⟨i, hi, hlt, heq⟩ := hends (max 0 ((count - 1) * stride)) (by omega)
    refine ⟨⟨_, ⟨i, blocklength - 1, hi, hlt, by omega, by omega, rfl⟩, ?_⟩, ?_⟩
    · rw [heq]
      ring
    · rintro b ⟨d, ⟨i, j, hi, hlt, hj, hlt', rfl⟩, rfl⟩
      have := hbetween i hi hlt
      have := hextent j hj hlt'
      omega
  constructor
  · exact fun h => ⟨h.1.unique hleast, h.2.unique hgreatest⟩
  · exact fun h => ⟨h.1 ▸ hleast, h.2 ▸ hgreatest⟩

/-- **Bounds of vectors.**  A vector with a stride in bytes has the bounds of its elements just if
it does not grow downwards, the old lower bound is 0 and the extent is a `size_t`.  With a stride in
elements it is the same as long as it does not span 2³¹ elements. -/
theorem typeHvector_bounds_iff {count : ℤ} (hcount : 1 ≤ count) (hblocklength : 1 ≤ blocklength)
    (stride : ℤ) (oldtype : Datatype) :
    (|stride| * (count - 1) + blocklength < 2 ^ 31 →
      typeVector count blocklength stride oldtype =
        typeHvector count blocklength (stride * oldtype.extent) oldtype) ∧
    ∃ t, typeHvector count blocklength stride oldtype = .ok t ∧
      (t.BoundsCopies oldtype (hvectorDisplacements count blocklength stride oldtype) ↔
        (count = 1 ∨ 0 ≤ stride) ∧ 2 ^ 64 ∣ oldtype.lowerBound ∧
          (count - 1) * stride + blocklength * oldtype.extent < 2 ^ 64) := by
  refine ⟨fun hspan => typeVector_eq hcount (by omega) hspan oldtype, ?_⟩
  unfold typeHvector
  rw [if_neg (by omega), if_neg (by omega)]
  refine ⟨_, rfl, ?_⟩
  rw [boundsCopies_iff _ hcount hblocklength]
  have hblock : 0 ≤ blocklength * oldtype.extent := Int.mul_nonneg (by omega) (Int.natCast_nonneg _)
  have hdown : (count = 1 ∨ 0 ≤ stride) ↔ 0 ≤ (count - 1) * stride := by
    refine ⟨?_, fun h => ?_⟩
    · rintro (rfl | hpos)
      · simp
      · exact Int.mul_nonneg (by omega) hpos
    · by_contra! hnot
      have := Int.mul_neg_of_pos_of_neg (show 0 < count - 1 by omega) hnot.2
      omega
  have habs : (count = 1 ∨ 0 ≤ stride) →
      (count - 1) * (if stride < 0 then -stride else stride) = (count - 1) * stride := by
    rintro (rfl | hpos)
    · simp
    · rw [if_neg (not_lt.mpr hpos)]
  dsimp only
  rw [natCast_sizeT]
  constructor
  · rintro ⟨hlower, hupper⟩
    have hcond := hdown.mpr (by omega)
    exact ⟨hcond, by omega, by omega⟩
  · rintro ⟨hcond, hzero, hlt⟩
    exact ⟨by omega, by omega⟩

/-- Two integers, eight bytes apart. -/
theorem typeHvector_bounds_iff_twoInts : ∃ t, typeHvector 2 1 8 mpiInt = .ok t ∧
    t.BoundsCopies mpiInt (hvectorDisplacements 2 1 8 mpiInt) := by
  obtain ⟨-, t, ht, hiff⟩ := typeHvector_bounds_iff (show (1 : ℤ) ≤ 2 by decide) le_rfl 8 mpiInt
  exact ⟨t, ht, hiff.mpr ⟨by decide, by decide, by decide⟩⟩

/-- An integer at byte 4.  A vector of one of it has extent 0, and one that grows downwards does not
have the lower bound of its last element. -/
theorem typeVector_bounds_wrong : let int : Datatype := ⟨[⟨4, 4⟩], 4, 4, 0, false⟩
    typeStruct 1 (fun _ => 1) (fun _ => 4) (fun _ => mpiInt) = .ok int ∧
    typeVector 1 1 1 int = .ok ⟨[⟨4, 4⟩], 4, 0, 0, false⟩ ∧
    ¬(⟨[⟨4, 4⟩], 4, 0, 0, false⟩ : Datatype).BoundsCopies int (hvectorDisplacements 1 1 4 int) ∧
    typeVector 2 1 (-1) mpiInt = .ok ⟨[⟨4, 0⟩, ⟨4, -4⟩], 0, 8, 0, false⟩ ∧
    ¬(⟨[⟨4, 0⟩, ⟨4, -4⟩], 0, 8, 0, false⟩ : Datatype).BoundsCopies mpiInt
      (hvectorDisplacements 2 1 (-4) mpiInt) := by
  refine ⟨by decide, by decide +kernel, ?_, by decide +kernel, ?_⟩ <;>
    rw [boundsCopies_iff _ (by decide) le_rfl] <;> decide

/-! ### Bounds of structs -/

/-- A block of a struct: a marker, or elements of a type with a positive extent. -/
inductive StructBlock
  | lb
  | ub
  | data (type : Datatype) (hextent : 0 < type.extent)

def StructBlock.datatype : StructBlock → Datatype
  | .lb => mpiLb
  | .ub => mpiUb
  | .data type _ => type

section Struct

variable (blocks : ℕ → StructBlock) (disp : ℕ → ℤ)

/-- What `MPI_Type_struct` takes for a lower bound in a block: the displacement of a marker, and a
positive lower bound of the old type. -/
def lowerMark (i : ℕ) : Option ℤ :=
  match blocks i with
  | .lb => some (disp i)
  | .ub => none
  | .data type _ => if 0 < type.lowerBound then some type.lowerBound else none

/-- There is none in front of this block. -/
def Unmarked (i : ℕ) : Prop := ∀ j < i, lowerMark blocks disp j = none

/-- A marker of the upper bound with the largest displacement: after it there is none in front of
all lower bounds, and it is there itself or has a positive displacement. -/
def LastUpper (count m : ℕ) : Prop :=
  blocks m = .ub ∧ (∀ i < count, blocks i = .ub → disp i ≤ disp m) ∧
    (∀ i < count, m < i → blocks i = .ub → ¬Unmarked blocks disp i) ∧
    (Unmarked blocks disp m ∨ 0 < disp m)

end Struct

variable {blocks : ℕ → StructBlock} {disp : ℕ → ℤ} {s : StructBounds} {n : ℕ}

lemma unmarked_succ : Unmarked blocks disp (n + 1) ↔
    Unmarked blocks disp n ∧ lowerMark blocks disp n = none := by
  unfold Unmarked
  rw [Nat.forall_lt_succ_right]

/-- What a round of the search does for a block. -/
def StructBounds.noteBlock (block : StructBlock) (displacement : ℤ) (s : StructBounds) (i : ℕ) :
    StructBounds :=
  let noteLower (v : ℤ) := if s.mpiLbI = -1 ∨ v < s.minLb then
    { s with minLb := intT v, mpiLbI := i } else s
  match block with
  | .lb => noteLower displacement
  | .ub => if s.mpiLbI = -1 ∨ displacement > s.maxUb then
      { s with maxUb := intT displacement, mpiUbI := i } else s
  | .data type _ => if type.lowerBound > 0 then noteLower type.lowerBound else s

/-- What it does for the displacement. -/
def StructBounds.noteDisp (displacement : ℤ) (s : StructBounds) (i : ℕ) : StructBounds :=
  let s := if displacement < s.minDisp then
    { s with minDisp := displacement, minDispI := i } else s
  if displacement > s.maxDisp then { s with maxDisp := displacement, maxDispI := i } else s

/-- The search has found the first smallest and the first largest of these disp. -/
structure Extremes (disp : ℕ → ℤ) (n : ℕ) (s : StructBounds) : Prop where
  minDisp : s.minDisp = disp s.minDispI
  maxDisp : s.maxDisp = disp s.maxDispI
  index : (s.minDispI = 0 ∨ s.minDispI < n) ∧ (s.maxDispI = 0 ∨ s.maxDispI < n)
  between : ∀ i < n, s.minDisp ≤ disp i ∧ disp i ≤ s.maxDisp
  first : ∀ i < s.maxDispI, disp i < s.maxDisp

lemma Extremes.noteBlock {block : StructBlock} {displacement : ℤ} {i : ℕ}
    (h : Extremes disp n s) : Extremes disp n (s.noteBlock block displacement i) := by
  unfold StructBounds.noteBlock
  cases block <;> dsimp only <;> split_ifs <;> exact { h with }

lemma Extremes.noteDisp (h : Extremes disp n s) :
    Extremes disp (n + 1) (s.noteDisp (disp n) n) := by
  obtain ⟨hmin, hmax, hindex, hbetween, hfirst⟩ := h
  unfold StructBounds.noteDisp
  split_ifs <;> constructor <;> grind

/-! #### Markers -/

/-- What the search has found of the markers. -/
structure Marks (blocks : ℕ → StructBlock) (disp : ℕ → ℤ) (n : ℕ) (s : StructBounds) : Prop where
  lower : if s.mpiLbI = -1 then Unmarked blocks disp n else
    (∃ i < n, lowerMark blocks disp i = some s.minLb) ∧
      ∀ i < n, ∀ v, lowerMark blocks disp i = some v → s.minLb ≤ v
  upper : if s.mpiUbI = -1 then s.maxUb = 0 else ∃ i < n, blocks i = .ub ∧ s.maxUb = disp i
  last : ∀ m < n, LastUpper blocks disp n m → s.mpiUbI ≠ -1 ∧ s.maxUb = disp m

lemma Marks.noteDisp {displacement : ℤ} {i : ℕ} (h : Marks blocks disp n s) :
    Marks blocks disp n (s.noteDisp displacement i) := by
  unfold StructBounds.noteDisp
  dsimp only
  split_ifs <;> exact { h with }

lemma Marks.noteBlock (h : Marks blocks disp n s) (hfit : intT (disp n) = disp n)
    (hmark : ∀ v, lowerMark blocks disp n = some v → intT v = v) :
    Marks blocks disp (n + 1) (s.noteBlock (blocks n) (disp n) n) := by
  obtain ⟨hlower, hupper, hlast⟩ := h
  have hunmarked : Unmarked blocks disp (n + 1) ↔ _ := unmarked_succ
  have hbefore : ∀ m, LastUpper blocks disp (n + 1) m → LastUpper blocks disp n m :=
    fun m ⟨hub, hall, hlater, hpos⟩ => ⟨hub, fun i hi => hall i (Nat.lt_succ_of_lt hi),
      fun i hi => hlater i (Nat.lt_succ_of_lt hi), hpos⟩
  have hn := lowerMark.eq_1 blocks disp n
  unfold StructBounds.noteBlock
  have hun : Unmarked blocks disp n → ∀ i < n, lowerMark blocks disp i = none := id
  constructor
  · cases hblock : blocks n <;> simp only [hblock] at hn ⊢ <;> split_ifs <;> grind
  · cases hblock : blocks n <;> dsimp only <;> split_ifs <;> grind
  · intro m hm hm'
    rcases Nat.lt_succ_iff_lt_or_eq.mp hm with hlt | rfl
    · have hold := hlast m hlt (hbefore m hm')
      obtain ⟨-, hall, hlater, -⟩ := hm'
      cases hblock : blocks n <;> dsimp only <;> split_ifs <;> grind
    · obtain ⟨hub, hall, -, hpos⟩ := hm'
      rw [hub]
      dsimp only
      split_ifs <;> grind

/-! #### The bounds -/

section Struct

variable (blocks : ℕ → StructBlock) (disp blocklengths : ℕ → ℤ) (count : ℕ)

/-- **The lower bound.**  If there are markers, every positive old lower bound is an `int` and not
below all of them.  If not, no old lower bound is positive, and some block with lower bound 0 begins
in front of all elements and upper markers. -/
def LowerFound : Prop :=
  ((∃ i < count, blocks i = .lb) ∧ ∀ i < count, ∀ type hextent, blocks i = .data type hextent →
    0 < type.lowerBound → type.lowerBound < 2 ^ 31 ∧
      ∃ k < count, blocks k = .lb ∧ disp k ≤ type.lowerBound) ∨
  ((∀ i < count, blocks i ≠ .lb) ∧ ∃ m < count, ∃ type hextent,
    blocks m = .data type hextent ∧ type.lowerBound = 0 ∧
      (∀ i < count, blocks i = .ub → disp m ≤ disp i) ∧
      ∀ i < count, ∀ type hextent, blocks i = .data type hextent →
        type.lowerBound ≤ 0 ∧ disp m ≤ disp i + type.lowerBound)

end Struct

variable {blocklengths : ℕ → ℤ} {count : ℕ}

section Found

variable (hfit : ∀ i < count, -2 ^ 31 ≤ disp i ∧ disp i < 2 ^ 31)

include hfit

lemma LowerFound.intT_eq (h : LowerFound blocks disp count) :
    ∀ i < count, ∀ v, lowerMark blocks disp i = some v → intT v = v := by
  intro i hi v hmark
  have hint := @Lampi.intT_eq v
  unfold lowerMark at hmark
  unfold LowerFound at h
  grind

end Found

end Lampi
