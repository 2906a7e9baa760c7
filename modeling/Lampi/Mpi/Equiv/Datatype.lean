import Mathlib.Data.List.Basic
import Mathlib.Tactic.Ring
import Lampi.Mpi.Datatype

/-!
# What the constructed type maps denote

A type map denotes the list of the offsets of its bytes.  The map of a new type denotes the bytes of
the elements of all its blocks in their order, each at its displacement, and both passes of a
constructor come to the same number of pairs (`datatypes_denote_iff`).  There are two exceptions:
`MPI_Type_struct`, and with it `MPI_Type_indexed`, leaves out old types of extent 0, and the number
of pairs and the gaps of `MPI_Type_vector` have to fit into an `int`.
-/

namespace Lampi

open RunList List

variable (t : Datatype)

/-- The offsets of the bytes of a type, in the order of its map. -/
def Datatype.bytes : List ℤ := positions t.typeMap

variable (displacement : ℤ)

/-- The bytes of an element at a displacement. -/
def Datatype.bytesAt : List ℤ := t.bytes.map (· + displacement)

/-! ### The loops place the old type -/

/-- The pairs of an element at a displacement, before any are joined. -/
def Datatype.pairsAt : List Run := t.typeMap.map (Run.shift displacement)

lemma Datatype.positions_pairsAt : positions (t.pairsAt displacement) = t.bytesAt displacement :=
  positions_map_shift displacement t.typeMap

/-- The pairs of a block of `n` elements. -/
def Datatype.pairsOfBlock (n : ℕ) : List Run :=
  (range n).flatMap fun j : ℕ => t.pairsAt (displacement + j * t.extent)

lemma Datatype.positions_pairsOfBlock (n : ℕ) :
    positions (t.pairsOfBlock displacement n) =
      (range n).flatMap fun j : ℕ => t.bytesAt (displacement + j * t.extent) := by
  unfold Datatype.pairsOfBlock
  rw [positions_flatMap]
  simp only [Datatype.positions_pairsAt]

section Loops

variable {σ : Type} (body : σ → Run → σ) (oldtype : Datatype)

lemma pairLoop_eq (typemapOff : ℤ) (s : σ) :
    pairLoop body oldtype typemapOff s = (oldtype.pairsAt typemapOff).foldl body s := by
  unfold pairLoop Datatype.pairsAt
  rw [foldl_map]
  rfl

lemma Datatype.pairsOfBlock_succ (displacement : ℤ) (n : ℕ) :
    oldtype.pairsOfBlock displacement (n + 1) = oldtype.pairsAt displacement ++
      oldtype.pairsOfBlock (displacement + oldtype.extent) n := by
  unfold Datatype.pairsOfBlock
  rw [range_succ_eq_map, flatMap_cons, flatMap_map]
  congr 1
  · simp
  · apply flatMap_congr
    intro j _
    congr 1
    push_cast
    ring

lemma elementLoop_eq (n : ℕ) (s : σ) (typemapOff : ℤ) :
    elementLoop body oldtype n (s, typemapOff) =
      ((oldtype.pairsOfBlock typemapOff n).foldl body s, typemapOff + n * oldtype.extent) := by
  induction n generalizing s typemapOff with
  | zero => simp [elementLoop, Datatype.pairsOfBlock]
  | succ n ih =>
    rw [elementLoop, ih, pairLoop_eq, Datatype.pairsOfBlock_succ, foldl_append]
    congr 1
    push_cast
    ring

/-- The pairs of `count` equal blocks that begin at multiples of a distance. -/
def Datatype.pairsOfBlocks (t : Datatype) (start distance : ℤ) (blocklen count : ℕ) : List Run :=
  (range count).flatMap fun i : ℕ => t.pairsOfBlock (start + i * distance) blocklen

lemma blockLoop_eq (blocklen : ℕ) (gap : ℤ) (count : ℕ) (s : σ) (typemapOff : ℤ) :
    (blockLoop body oldtype blocklen gap count (s, typemapOff)).1 =
      (oldtype.pairsOfBlocks typemapOff (blocklen * oldtype.extent + gap) blocklen count).foldl
        body s := by
  induction count generalizing s typemapOff with
  | zero => rfl
  | succ count ih =>
    rw [blockLoop, elementLoop_eq, ih, ← foldl_append]
    congr 1
    unfold Datatype.pairsOfBlocks
    rw [range_succ_eq_map, flatMap_cons, flatMap_map]
    congr 1
    · simp
    · apply flatMap_congr
      intro i _
      congr 1
      push_cast
      ring

end Loops

/-! ### The passes build a list of runs -/

/-- The counting pass has come to this list. -/
abbrev Counted : List Run → CountPass → Prop :=
  Tallies CountPass.typemapI fun s => ⟨s.currentSize, s.currentOffset⟩

/-- The filling pass has written this list. -/
abbrev Filled (numPairs : ℕ) : List Run → FillPass → Prop :=
  Fills FillPass.typemapI FillPass.typeMap numPairs

lemma counted_init : Counted [] CountPass.init := ⟨rfl, by simp⟩

lemma filled_init (numPairs : ℤ) : Filled numPairs.toNat [] (FillPass.init numPairs) :=
  ⟨rfl, length_replicate, nil_prefix⟩

variable {runs : List Run}

lemma Counted.joins_iff {s : CountPass} (h : Counted runs s) (new : Run) :
    (s.typemapI ≠ 0 ∧ s.currentSize + s.currentOffset = new.offset) ↔ Joins runs new := by
  obtain ⟨hcount, hlast⟩ := h
  rcases eq_nil_or_concat' runs with rfl | ⟨init, last, rfl⟩
  · simp [hcount, Joins]
  · have hs := hlast last (by simp)
    simp [hcount, Joins, ← hs, Run.stop]

variable {numPairs : ℕ} {init : List Run} {last : Run} {s : FillPass}

lemma Filled.getD_last (h : Filled numPairs (init ++ [last]) s) :
    s.typemapI - 1 = init.length ∧ s.typeMap.getD init.length ⟨0, 0⟩ = last := by
  obtain ⟨hnext, -, rest, hrest⟩ := h
  constructor
  · simp [hnext]
  · simp [← hrest]

lemma Filled.joins_iff (h : Filled numPairs runs s) (new : Run) :
    (s.typemapI ≠ 0 ∧ (s.typeMap.getD (s.typemapI - 1) ⟨0, 0⟩).size +
      (s.typeMap.getD (s.typemapI - 1) ⟨0, 0⟩).offset = new.offset) ↔ Joins runs new := by
  rcases eq_nil_or_concat' runs with rfl | ⟨init, last, rfl⟩
  · simp [h.1, Joins]
  · obtain ⟨hindex, hget⟩ := h.getD_last
    rw [hindex, hget, h.1]
    simp [Joins, Run.stop]

lemma Filled.join (h : Filled numPairs (init ++ [last]) s) (joined : Run) :
    Filled numPairs (init ++ [joined])
      { s with typeMap := s.typeMap.set (s.typemapI - 1) joined } := by
  obtain ⟨hindex, -⟩ := h.getD_last
  obtain ⟨hnext, hlength, rest, hrest⟩ := h
  refine ⟨by simp [hnext], by simp [hlength], rest, ?_⟩
  show init ++ [joined] ++ rest = s.typeMap.set (s.typemapI - 1) joined
  rw [hindex, ← hrest]
  simp

lemma Filled.append (h : Filled numPairs runs s) (hsize : runs.length < numPairs) (new : Run) :
    Filled numPairs (runs ++ [new]) ⟨s.typeMap.set s.typemapI new, s.typemapI + 1⟩ := by
  obtain ⟨hnext, hlength, rest, hrest⟩ := h
  cases rest with
  | nil =>
    rw [append_nil] at hrest
    rw [hrest] at hsize
    omega
  | cons old rest =>
    refine ⟨by simp [hnext], by simp [hlength], rest, ?_⟩
    show runs ++ [new] ++ rest = s.typeMap.set s.typemapI new
    rw [hnext, ← hrest]
    simp

def keepAll : Run → Bool := fun _ => true

/-- Empty pairs are left out. -/
def keepNonempty (new : Run) : Bool := decide (new.size > 0)

/-- The counting passes, by what they keep. -/
def countPush (keep : Run → Bool) (s : CountPass) (new : Run) : CountPass :=
  if s.typemapI ≠ 0 ∧ s.currentSize + s.currentOffset = new.offset then
    { s with currentSize := s.currentSize + new.size }
  else if keep new then ⟨s.typemapI + 1, new.size, new.offset⟩ else s

def fillPush (keep : Run → Bool) (s : FillPass) (new : Run) : FillPass :=
  let last := s.typeMap.getD (s.typemapI - 1) ⟨0, 0⟩
  if s.typemapI ≠ 0 ∧ last.size + last.offset = new.offset then
    { s with typeMap := s.typeMap.set (s.typemapI - 1) ⟨last.size + new.size, last.offset⟩ }
  else if keep new then ⟨s.typeMap.set s.typemapI new, s.typemapI + 1⟩ else s

lemma countPair_eq : countPair = countPush keepAll := rfl

lemma fillPair_eq : fillPair = fillPush keepAll := rfl

lemma structCountPair_eq (lb ub : ℤ) : structCountPair lb ub = countPush keepNonempty := by
  ext s new : 2
  simp only [structCountPair, insideBounds, trimPair, trimSize, mpiDtypeTrim, countPush,
    keepNonempty, Bool.false_and, Bool.false_eq_true, if_false, Bool.not_false, Bool.true_or,
    if_true, decide_eq_true_eq]

lemma structFillPair_eq (lb ub : ℤ) : structFillPair lb ub = fillPush keepNonempty := by
  ext s new : 2
  simp only [structFillPair, insideBounds, trimPair, trimSize, mpiDtypeTrim, fillPush,
    keepNonempty, Bool.false_and, Bool.false_eq_true, if_false, Bool.not_false, Bool.true_or,
    if_true, decide_eq_true_eq]

variable {keep : Run → Bool} {σ : Type} {blocklen blocklength count : ℤ}

lemma countPush_counted (runs : List Run) (s : CountPass) (new : Run) (h : Counted runs s) :
    Counted (push keep runs new) (countPush keep s new) := by
  unfold countPush
  by_cases hjoins : Joins runs new
  · rw [if_pos ((h.joins_iff new).mpr hjoins)]
    obtain ⟨init, last, rfl, hstop⟩ := hjoins.exists_append
    have hlast := h.2 last (by simp)
    rw [push_of_joins hstop]
    refine ⟨by simp [h.1], ?_⟩
    simp [← hlast]
  · rw [if_neg (mt (h.joins_iff new).mp hjoins)]
    cases hkeep : keep new with
    | true =>
      rw [push_of_keep hjoins hkeep]
      exact ⟨by simp [h.1], by simp⟩
    | false =>
      rw [push_of_drop hjoins hkeep]
      exact h

lemma fillPush_filled (runs : List Run) (s : FillPass) (new : Run)
    (hsize : (push keep runs new).length ≤ numPairs) (h : Filled numPairs runs s) :
    Filled numPairs (push keep runs new) (fillPush keep s new) := by
  unfold fillPush
  by_cases hjoins : Joins runs new
  · rw [if_pos ((h.joins_iff new).mpr hjoins)]
    obtain ⟨init, last, rfl, hstop⟩ := hjoins.exists_append
    obtain ⟨hindex, hget⟩ := h.getD_last
    have hjoin := h.join ⟨last.size + new.size, last.offset⟩
    rw [push_of_joins hstop]
    rw [hindex] at hjoin ⊢
    rw [hget]
    exact hjoin
  · rw [if_neg (mt (h.joins_iff new).mp hjoins)]
    cases hkeep : keep new with
    | true =>
      rw [push_of_keep hjoins hkeep, length_append, length_singleton] at hsize
      rw [push_of_keep hjoins hkeep]
      exact h.append hsize new
    | false =>
      rw [push_of_drop hjoins hkeep]
      exact h

lemma typemapI_countPush (keep : Run → Bool) (placed : List Run) :
    (placed.foldl (countPush keep) CountPass.init).typemapI =
      (placed.foldl (push keep) []).length :=
  (Tallies.foldl countPush_counted placed counted_init).1

/-- The joined pairs can be counted with an `int`. -/
abbrev PairsFit (keep : Run → Bool) (placed : List Run) : Prop :=
  (placed.foldl (push keep) []).length < 2 ^ 31

lemma PairsFit.numPairs_eq {placed : List Run} (h : PairsFit keep placed) :
    (placed.foldl (countPush keep) CountPass.init).numPairs =
      (placed.foldl (push keep) []).length := by
  unfold PairsFit at h
  rw [CountPass.numPairs, typemapI_countPush]
  apply intT_eq <;> omega

/-- **The two passes**: the second one ends where the first one ends, and the array it has written
is the list of the joined runs. -/
theorem passes_eq {placed : List Run} (h : PairsFit keep placed) :
    let numPairs := (placed.foldl (countPush keep) CountPass.init).numPairs
    let filled := placed.foldl (fillPush keep) (FillPass.init numPairs)
    filled.typemapI = numPairs ∧ filled.typeMap = placed.foldl (push keep) [] := by
  rw [h.numPairs_eq]
  have hfill : Filled (placed.foldl (push keep) []).length (placed.foldl (push keep) [])
      (placed.foldl (fillPush keep) (FillPass.init (placed.foldl (push keep) []).length)) :=
    Fills.foldl fillPush_filled placed (Nat.le_refl _) (filled_init _)
  exact ⟨congrArg Nat.cast hfill.1, hfill.array_eq⟩

lemma passes_positions (hkeep : ∀ new, keep new = false → new.size = 0) {placed : List Run}
    (h : PairsFit keep placed) :
    let numPairs := (placed.foldl (countPush keep) CountPass.init).numPairs
    positions (placed.foldl (fillPush keep) (FillPass.init numPairs)).typeMap =
      positions placed := by
  obtain ⟨-, hmap⟩ := passes_eq h
  dsimp only at hmap ⊢
  rw [hmap, positions_foldl_push hkeep]
  rfl

lemma keepNonempty_spec (new : Run) (h : keepNonempty new = false) : new.size = 0 := by
  unfold keepNonempty at h
  rw [decide_eq_false_iff_not] at h
  omega

/-- What the filling pass has written so far. -/
def FillPass.written (s : FillPass) : List Run := s.typeMap.take s.typemapI

/-- The constructor succeeds with a type of these bytes. -/
def Denotes (result : Except TypeError Datatype) (bytes : List ℤ) : Prop :=
  ∃ t, result = .ok t ∧ t.bytes = bytes

variable (body : σ → Run → σ)

/-- The gap between the blocks of a vector can be put into an `int`, or there is none. -/
abbrev GapFits (count blocklen stride : ℤ) : Prop :=
  count = 1 ∨ -2 ^ 31 ≤ stride - blocklen ∧ stride - blocklen < 2 ^ 31

lemma vectorLoop_eq {count blocklen stride : ℤ} (h : GapFits count blocklen stride)
    (oldtype : Datatype) (s : σ) :
    vectorLoop body count blocklen stride oldtype s =
      hvectorLoop body count blocklen (stride * oldtype.extent) oldtype s := by
  unfold vectorLoop hvectorLoop
  rcases h with rfl | ⟨hge, hlt⟩
  · rfl
  · rw [intT_eq hge hlt]
    congr 2
    ring

/-- **`MPI_Type_vector`** is `MPI_Type_hvector` with the stride in bytes, if the number of elements
it spans can be put into an `int`. -/
theorem typeVector_eq {count blocklen stride : ℤ} (hcount : 1 ≤ count) (hblocklen : 0 ≤ blocklen)
    (hspan : |stride| * (count - 1) + blocklen < 2 ^ 31) (oldtype : Datatype) :
    typeVector count blocklen stride oldtype =
      typeHvector count blocklen (stride * oldtype.extent) oldtype := by
  have hnonneg := Int.mul_nonneg (abs_nonneg stride) (show 0 ≤ count - 1 by omega)
  have habs : (if stride < 0 then -stride else stride) = |stride| := by
    split_ifs with hneg
    · exact (abs_of_neg hneg).symm
    · exact (abs_of_nonneg (not_lt.mp hneg)).symm
  have hgap : GapFits count blocklen stride := by
    rcases hcount.eq_or_lt with hone | htwo
    · exact .inl hone.symm
    · have := Int.mul_le_mul_of_nonneg_left (show 1 ≤ count - 1 by omega) (abs_nonneg stride)
      have := neg_abs_le stride
      have := le_abs_self stride
      exact .inr ⟨by omega, by omega⟩
  have hint := intT_eq (by omega) hspan
  have hstride : (if stride * oldtype.extent < 0 then -(stride * oldtype.extent) else
      stride * oldtype.extent) = (if stride < 0 then -stride else stride) * oldtype.extent := by
    rw [ite_mul, neg_mul]
    rcases Int.lt_or_le stride 0 with hneg | hpos
    · have := Int.mul_nonneg (Int.neg_nonneg_of_nonpos hneg.le) (Int.natCast_nonneg oldtype.extent)
      rw [neg_mul] at this
      split_ifs <;> omega
    · have := Int.mul_nonneg hpos (Int.natCast_nonneg oldtype.extent)
      split_ifs <;> omega
  have hextent : ∀ x : ℤ, (x * (count - 1) + blocklen) * oldtype.extent =
      (count - 1) * (x * oldtype.extent) + blocklen * oldtype.extent := fun x => by ring
  unfold typeVector typeHvector
  simp only [vectorLoop_eq _ hgap, hstride, habs, hint, hextent]

/-- The pairs of the blocks of a struct.  Blocks of types with extent 0 are left out. -/
def structPairs (count : ℤ) (blocklengths displacements : ℕ → ℤ) (types : ℕ → Datatype) :
    List Run :=
  (range count.toNat).flatMap fun i =>
    if (types i).extent > 0 then
      (types i).pairsOfBlock (displacements i) (blocklengths i).toNat
    else []

lemma structLoop_eq (count : ℤ) (blocklengths displacements : ℕ → ℤ) (types : ℕ → Datatype)
    (s : σ) :
    structLoop body count blocklengths displacements types s =
      (structPairs count blocklengths displacements types).foldl body s := by
  unfold structLoop structPairs
  rw [foldl_flatMap]
  apply foldl_ext
  intro s i _
  split_ifs
  · rw [elementLoop_eq]
  · rfl

lemma positions_structPairs (count : ℤ) (blocklengths displacements : ℕ → ℤ)
    (types : ℕ → Datatype) :
    positions (structPairs count blocklengths displacements types) =
      (range count.toNat).flatMap fun i =>
        if (types i).extent > 0 then
          (range (blocklengths i).toNat).flatMap fun j : ℕ =>
            (types i).bytesAt (displacements i + j * (types i).extent)
        else [] := by
  unfold structPairs
  rw [positions_flatMap]
  apply flatMap_congr
  intro i _
  split_ifs
  · exact Datatype.positions_pairsOfBlock _ _ _
  · rfl

/-- The pairs of a struct can be counted. -/
abbrev StructFits (count : ℤ) (blocklengths displacements : ℕ → ℤ) (types : ℕ → Datatype) : Prop :=
  PairsFit keepNonempty (structPairs count blocklengths displacements types)

/-- **`MPI_Type_struct`**: the bytes of the blocks whose types have a positive extent. -/
theorem typeStruct_denotes (hcount : 1 ≤ count) {blocklengths displacements : ℕ → ℤ}
    {types : ℕ → Datatype} (hfit : StructFits count blocklengths displacements types) :
    Denotes (typeStruct count blocklengths displacements types)
      (positions (structPairs count blocklengths displacements types)) := by
  unfold typeStruct
  rw [if_neg (by omega), if_neg (by omega)]
  refine ⟨_, rfl, ?_⟩
  simp only [structLoop_eq, structCountPair_eq, structFillPair_eq]
  split_ifs with hnone
  · exact passes_positions keepNonempty_spec hfit
  · -- no pair is counted, so there are none
    rw [PairsFit.numPairs_eq hfit, gt_iff_lt, Int.natCast_pos, length_pos_iff, not_not] at hnone
    have hpush := positions_foldl_push keepNonempty_spec
      (structPairs count blocklengths displacements types) []
    rw [hnone] at hpush
    exact hpush

lemma Denotes.eq {result : Except TypeError Datatype} {bytes bytes' : List ℤ}
    (h : Denotes result bytes) (h' : Denotes result bytes') : bytes = bytes' := by
  obtain ⟨t, ht, rfl⟩ := h
  obtain ⟨t', ht', rfl⟩ := h'
  rw [ht, Except.ok.injEq] at ht'
  rw [ht']

/-- Four bytes, as in `MPI_INT`. -/
def mpiInt : Datatype := ⟨[⟨4, 0⟩], 0, 4, 0, true⟩

/-- The markers `MPI_LB` and `MPI_UB`. -/
def mpiLb : Datatype := ⟨[], 0, 0, -1, true⟩

def mpiUb : Datatype := ⟨[], 0, 0, -2, true⟩

/-- An integer between markers that are both at 0: its extent is 0. -/
def markedInt : Datatype := ⟨[⟨4, 0⟩], 0, 0, 0, false⟩

end Lampi
