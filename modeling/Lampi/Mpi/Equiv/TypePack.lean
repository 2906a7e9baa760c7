import Mathlib.Tactic.Ring
import Mathlib.Tactic.Set
import Lampi.Mpi.TypePack

/-!
# What `type_pack` copies

`CommittedType.Left type ntype cursor rest` says that a cursor is one at which `type_pack` can have
stopped, and that `rest` are the positions that have not been copied yet.  If there is room in the
buffer, then a call copies the first of them, as many as there is room for, and stops at a cursor at
which just the others are left (**`typePack_spec`**).  So a sequence of calls copies all bytes of
the array in the order of the type map (**`calls_of_left`**, `data_subset_all`).

Without any room a call passes over a pair of the map, so that all calls together copy nothing
(`calls_noRoom`).
-/

namespace Lampi

open RunList typePack List Nat

/-! ### One pair -/

def headSize : List Run → ℕ
  | [] => 0
  | pair :: _ => pair.size

lemma Run.positions_take (r : Run) {m : ℕ} (hm : m ≤ r.size) :
    r.positions.take m = (⟨m, r.offset⟩ : Run).positions := by
  unfold Run.positions
  rw [← map_take, take_range, min_eq_left hm]

lemma Run.positions_drop (r : Run) (m : ℕ) :
    r.positions.drop m = (⟨r.size - m, r.offset + m⟩ : Run).positions := by
  unfold Run.positions
  apply ext_getElem
  · simp only [length_drop, length_map, length_range]
  · intro i hi hi'
    simp only [getElem_drop, getElem_map, getElem_range]
    push_cast
    rw [Int.add_assoc]

lemma Run.length_positions (r : Run) : r.positions.length = r.size := by
  rw [Run.positions, length_map, length_range]

section MapLoop

variable {ptr : ℤ} {pair : Run} {pairs : List Run} {s : Packing}

lemma mapLoop_cons_stop (hbuf : 0 < s.bufsize) (hlt : s.bufsize < pair.size - s.cursor.mapOffset) :
    mapLoop ptr (pair :: pairs) s =
      (⟨s.pieces ++ [⟨s.bufsize, ptr + pair.offset + s.cursor.mapOffset⟩], s.bufsize,
        s.offset + s.bufsize,
        { s.cursor with mapOffset := s.cursor.mapOffset + s.bufsize }⟩,
        some .incompleteTypeMap) := by
  rw [mapLoop]
  rcases Nat.eq_zero_or_pos s.cursor.mapOffset with hzero | hpos
  · rw [hzero, Nat.sub_zero] at hlt
    simp only [hzero, gt_iff_lt, lt_irrefl, if_false, hlt, if_true, zero_add, hbuf,
      Int.natCast_zero, Int.add_zero]
  · have hmore : s.cursor.mapOffset + s.bufsize > 0 := Nat.add_pos_left hpos _
    simp only [gt_iff_lt, hpos, if_true, not_le.mpr hlt, if_false, hlt, hmore]

/-- What is kept after the rest of a pair has been copied. -/
def nextPair (ptr : ℤ) (pair : Run) (s : Packing) : Packing :=
  ⟨s.pieces ++ [⟨pair.size - s.cursor.mapOffset, ptr + pair.offset + s.cursor.mapOffset⟩],
    s.bufsize - (pair.size - s.cursor.mapOffset), s.offset + (pair.size - s.cursor.mapOffset),
    { s.cursor with mapIndex := s.cursor.mapIndex + 1, mapOffset := 0 }⟩

lemma drop_nextPair (ptr : ℤ) {typeMap : List Run}
    (hdrop : typeMap.drop s.cursor.mapIndex = pair :: pairs) :
    typeMap.drop (nextPair ptr pair s).cursor.mapIndex = pairs := by
  show typeMap.drop (s.cursor.mapIndex + 1) = pairs
  rw [← drop_drop, hdrop]
  rfl

lemma mapLoop_cons_next (hle : pair.size - s.cursor.mapOffset ≤ s.bufsize) :
    mapLoop ptr (pair :: pairs) s =
      if (nextPair ptr pair s).bufsize = 0 ∧ pairs ≠ [] then
        (nextPair ptr pair s, some .incompleteType)
      else mapLoop ptr pairs (nextPair ptr pair s) := by
  rw [mapLoop]
  unfold nextPair
  rcases Nat.eq_zero_or_pos s.cursor.mapOffset with hzero | hpos
  · rw [hzero, Nat.sub_zero] at hle
    simp only [hzero, gt_iff_lt, lt_irrefl, if_false, not_lt.mpr hle, Nat.sub_zero,
      Int.natCast_zero, Int.add_zero]
  · simp only [gt_iff_lt, hpos, if_true, hle, not_lt.mpr hle, if_false, lt_irrefl]

lemma mapLoop_cons_within (hbuf : s.bufsize = 0) (hpos : 0 < s.cursor.mapOffset)
    (hlt : s.cursor.mapOffset < pair.size) :
    mapLoop ptr (pair :: pairs) s =
      (⟨s.pieces ++ [⟨0, ptr + pair.offset + s.cursor.mapOffset⟩], 0, s.offset, s.cursor⟩,
        some .incompleteTypeMap) := by
  have hmore : pair.size - s.cursor.mapOffset > 0 := Nat.sub_pos_of_lt hlt
  rw [mapLoop]
  simp only [hbuf, hpos, hmore, if_true, not_le.mpr hmore, if_false, add_zero]

/-- Without any room a pair is passed over, unless part of it has been copied. -/
lemma mapLoop_cons_noRoom (hbuf : s.bufsize = 0)
    (hout : s.cursor.mapOffset = 0 ∨ pair.size ≤ s.cursor.mapOffset) :
    mapLoop ptr (pair :: pairs) s =
      (⟨s.pieces ++ [⟨0, ptr + pair.offset + s.cursor.mapOffset⟩], 0, s.offset,
        ⟨s.cursor.typeIndex, s.cursor.mapIndex + 1, 0⟩⟩,
        if pairs ≠ [] then some .incompleteType else none) := by
  have hpairs : ∀ k : Packing, (if pairs ≠ [] then (k, some .incompleteType)
      else mapLoop ptr pairs k) = (k, if pairs ≠ [] then some .incompleteType else none) := by
    intro k
    cases pairs with
    | nil => rfl
    | cons next rest => rfl
  rw [mapLoop]
  rcases Nat.eq_zero_or_pos s.cursor.mapOffset with hzero | hpos
  · have hsize : (if pair.size > 0 then (0, 0) else (pair.size, 0)) = ((0, 0) : ℕ × ℕ) := by
      split_ifs with h
      · rfl
      · rw [Nat.eq_zero_of_not_pos h]
    simp only [hzero, hbuf, gt_iff_lt, lt_irrefl, if_false, add_zero]
    rw [hsize]
    simp only [lt_irrefl, if_false, add_zero, Int.natCast_zero, true_and]
    exact hpairs _
  · have hnone : pair.size - s.cursor.mapOffset = 0 :=
      Nat.sub_eq_zero_of_le (hout.resolve_left hpos.ne')
    simp only [hbuf, gt_iff_lt, hpos, if_true, hnone, le_refl, lt_irrefl, if_false,
      add_zero, true_and]
    exact hpairs _

end MapLoop

/-! ### One element -/

/-- The positions of the pairs of an element that begins at `ptr`. -/
def pairPositions (ptr : ℤ) (pairs : List Run) : List ℤ := positions (pairs.map (Run.shift ptr))

lemma pairPositions_cons (ptr : ℤ) (pair : Run) (pairs : List Run) :
    pairPositions ptr (pair :: pairs) =
      (Run.positions ⟨pair.size, ptr + pair.offset⟩) ++ pairPositions ptr pairs := by
  rw [pairPositions, map_cons, positions_cons, Run.shift, Int.add_comm]
  rfl

/-- The loop over the pairs has come to the end of the map. -/
structure MapDone (rest : List ℤ) (s s' : Packing) : Prop where
  room : rest.length ≤ s.bufsize
  pieces : positions s'.pieces = positions s.pieces ++ rest
  bufsize : s'.bufsize = s.bufsize - rest.length
  typeIndex : s'.cursor.typeIndex = s.cursor.typeIndex
  mapOffset : s'.cursor.mapOffset = 0

/-- The buffer is full before the end of the map. -/
structure MapStopped (ptr : ℤ) (typeMap : List Run) (rest : List ℤ) (s s' : Packing) : Prop where
  room : s.bufsize ≤ rest.length
  pieces : positions s'.pieces = positions s.pieces ++ rest.take s.bufsize
  typeIndex : s'.cursor.typeIndex = s.cursor.typeIndex
  mapOffset : s'.cursor.mapOffset ≤ headSize (typeMap.drop s'.cursor.mapIndex)
  left : (pairPositions ptr (typeMap.drop s'.cursor.mapIndex)).drop s'.cursor.mapOffset =
    rest.drop s.bufsize

/-- **The loop over the pairs** copies what is left of the element, as far as there is room. -/
theorem mapLoop_spec (ptr : ℤ) (typeMap pairs : List Run) (s : Packing)
    (hdrop : typeMap.drop s.cursor.mapIndex = pairs) (hbuf : 0 < s.bufsize)
    (hoffset : s.cursor.mapOffset ≤ headSize pairs) :
    ∃ s' status, mapLoop ptr pairs s = (s', status) ∧
      (status = none → MapDone ((pairPositions ptr pairs).drop s.cursor.mapOffset) s s') ∧
      (status ≠ none →
        MapStopped ptr typeMap ((pairPositions ptr pairs).drop s.cursor.mapOffset) s s') := by
  induction pairs generalizing s with
  | nil =>
    have hzero : s.cursor.mapOffset = 0 := eq_zero_of_le_zero hoffset
    refine ⟨s, none, rfl, fun _ => ⟨?_, ?_, ?_, rfl, hzero⟩, absurd rfl⟩
    · rw [pairPositions, map_nil, positions_nil, drop_nil]
      exact zero_le _
    · rw [pairPositions, map_nil, positions_nil, drop_nil, append_nil]
    · rw [pairPositions, map_nil, positions_nil, drop_nil]
      rfl
  | cons pair pairs ih =>
    have hpair : s.cursor.mapOffset ≤ pair.size := hoffset
    set m := s.cursor.mapOffset with hm
    -- what is left of the first pair, and what comes after it
    set piece : Run := ⟨pair.size - m, ptr + pair.offset + m⟩ with hpiece
    have hrest : (pairPositions ptr (pair :: pairs)).drop m =
        piece.positions ++ pairPositions ptr pairs := by
      rw [pairPositions_cons, drop_append_of_le_length
        (by rw [Run.length_positions]; exact hpair), Run.positions_drop]
    rw [hrest]
    by_cases hlt : s.bufsize < pair.size - m
    · refine ⟨_, _, mapLoop_cons_stop hbuf hlt, fun h => absurd h (by simp), fun _ =>
        ⟨?_, ?_, rfl, ?_, ?_⟩⟩
      · rw [length_append, Run.length_positions]
        exact hlt.le.trans (le_add_right _ _)
      · rw [positions_append, positions_cons, positions_nil, append_nil,
          take_append_of_le_length (by rw [Run.length_positions]; exact hlt.le),
          Run.positions_take _ hlt.le]
      · rw [hdrop]
        show m + s.bufsize ≤ pair.size
        omega
      · show (pairPositions ptr (typeMap.drop s.cursor.mapIndex)).drop (m + s.bufsize) = _
        rw [hdrop, ← drop_drop, hrest]
    · have hle : pair.size - m ≤ s.bufsize := not_lt.mp hlt
      have hnext := drop_nextPair ptr hdrop
      have hpieces : positions (nextPair ptr pair s).pieces = positions s.pieces ++
          piece.positions := by
        show positions (s.pieces ++ [piece]) = _
        rw [positions_append, positions_cons, positions_nil, append_nil]
      rw [mapLoop_cons_next hle]
      by_cases hfull : (nextPair ptr pair s).bufsize = 0 ∧ pairs ≠ []
      · rw [if_pos hfull]
        have hall : piece.positions.length = s.bufsize := by
          have hroom : s.bufsize - (pair.size - m) = 0 := hfull.1
          rw [Run.length_positions]
          show pair.size - m = s.bufsize
          omega
        refine ⟨_, _, rfl, fun h => absurd h (by simp), fun _ => ⟨?_, ?_, rfl, zero_le _, ?_⟩⟩
        · rw [length_append, hall]
          exact le_add_right _ _
        · rw [hpieces, take_left' hall]
        · rw [hnext, drop_left' hall]
          rfl
      · rw [if_neg hfull]
        have hroom : (nextPair ptr pair s).bufsize = s.bufsize - piece.positions.length := by
          rw [Run.length_positions]
          rfl
        have hfits : piece.positions.length ≤ s.bufsize := by
          rw [Run.length_positions]
          exact hle
        rcases Nat.eq_zero_or_pos (nextPair ptr pair s).bufsize with hzero | hpos
        · -- the last pair
          obtain rfl : pairs = [] := by
            by_contra hpairs
            exact hfull ⟨hzero, hpairs⟩
          refine ⟨_, _, rfl, fun _ => ⟨?_, ?_, ?_, rfl, rfl⟩, absurd rfl⟩
          all_goals rw [pairPositions, map_nil, positions_nil, append_nil]
          · exact hfits
          · exact hpieces
          · exact hroom
        · obtain ⟨s', status, hloop, hdone, hstopped⟩ := ih (nextPair ptr pair s) hnext hpos
            (zero_le _)
          have hzero : (nextPair ptr pair s).cursor.mapOffset = 0 := rfl
          rw [hzero, drop_zero] at hdone hstopped
          refine ⟨s', status, hloop, fun h => ?_, fun h => ?_⟩
          · have hd := hdone h
            have hlen := hd.room
            refine ⟨?_, ?_, ?_, hd.typeIndex, hd.mapOffset⟩
            · rw [length_append]
              omega
            · rw [hd.pieces, hpieces, append_assoc]
            · rw [hd.bufsize, length_append]
              omega
          · have hst := hstopped h
            have hlen := hst.room
            refine ⟨?_, ?_, hst.typeIndex, hst.mapOffset, ?_⟩
            · rw [length_append]
              omega
            · rw [hst.pieces, hpieces, append_assoc, take_append, take_of_length_le hfits, hroom]
            · rw [hst.left, drop_append, drop_of_length_le hfits, nil_append, hroom]

/-! ### All elements -/

namespace CommittedType

variable (type : CommittedType) (ntype : ℕ)

lemma data_zero (p : ℤ) : type.data p 0 = [] := rfl

lemma data_succ (p : ℤ) (n : ℕ) :
    type.data p (n + 1) = pairPositions p type.typeMap ++ type.data (p + type.extent) n := by
  rw [data, range_succ_eq_map, flatMap_cons, flatMap_map, pairPositions,
    positions_map_shift, cast_zero, Int.zero_mul, Int.add_zero]
  congr 2
  ext1 i
  have hshift : p + ((i.succ : ℕ) : ℤ) * type.extent = p + type.extent + i * type.extent := by
    push_cast
    ring
  rw [hshift]

/-- What is left of the elements from a cursor on, if the type is not contiguous. -/
def leftFrom (cursor : TypeCursor) : List ℤ :=
  if cursor.typeIndex < ntype then
    (pairPositions (cursor.typeIndex * type.extent) (type.typeMap.drop cursor.mapIndex)).drop
        cursor.mapOffset ++
      type.data ((cursor.typeIndex + 1 : ℕ) * type.extent) (ntype - (cursor.typeIndex + 1))
  else []

/-- `type_pack` can have stopped at this cursor, and these positions are left. -/
def Left (cursor : TypeCursor) (rest : List ℤ) : Prop :=
  if type.contiguous then
    cursor.mapOffset < type.extent ∧
      cursor.typeIndex * type.extent + cursor.mapOffset ≤ ntype * type.extent ∧
      rest = ((range (ntype * type.extent)).map fun i : ℕ => (i : ℤ)).drop
        (cursor.typeIndex * type.extent + cursor.mapOffset)
  else
    cursor.typeIndex ≤ ntype ∧
      cursor.mapOffset ≤ headSize (type.typeMap.drop cursor.mapIndex) ∧
      rest = type.leftFrom ntype cursor

variable {type ntype}

lemma leftFrom_start {i : ℕ} (hi : i ≤ ntype) :
    type.leftFrom ntype ⟨i, 0, 0⟩ = type.data (i * type.extent) (ntype - i) := by
  rcases hi.lt_or_eq with hlt | rfl
  · obtain ⟨n, hn⟩ : ∃ n, ntype - i = n + 1 := ⟨ntype - i - 1, by omega⟩
    have hn' : ntype - (i + 1) = n := by omega
    rw [leftFrom, if_pos hlt, hn, data_succ, drop_zero, drop_zero]
    congr 2
    push_cast
    ring
  · rw [leftFrom, if_neg (lt_irrefl _), Nat.sub_self]
    rfl

end CommittedType

open CommittedType

/-- The loop over the elements has copied what is left at `s`, up to the room there is. -/
structure TypeCopied (type : CommittedType) (ntype : ℕ) (s s' : Packing) : Prop where
  pieces : positions s'.pieces = positions s.pieces ++ (type.leftFrom ntype s.cursor).take s.bufsize
  typeIndex : s'.cursor.typeIndex ≤ ntype
  mapOffset : s'.cursor.mapOffset ≤ headSize (type.typeMap.drop s'.cursor.mapIndex)
  left : type.leftFrom ntype s'.cursor = (type.leftFrom ntype s.cursor).drop s.bufsize
  room : s'.cursor.typeIndex < ntype → s.bufsize ≤ (type.leftFrom ntype s.cursor).length

/-- **The loop over the elements.** -/
theorem typeLoop_spec (rounds : ℕ) (s : Packing) (hrounds : s.cursor.typeIndex + rounds = ntype)
    (hbuf : 0 < s.bufsize)
    (hoffset : s.cursor.mapOffset ≤ headSize (type.typeMap.drop s.cursor.mapIndex)) :
    TypeCopied type ntype s (typeLoop type ntype rounds s).1 := by
  induction rounds generalizing s with
  | zero =>
    have hend : ¬s.cursor.typeIndex < ntype := by omega
    have hnil : type.leftFrom ntype s.cursor = [] := if_neg hend
    show TypeCopied type ntype s s
    refine ⟨?_, by omega, hoffset, ?_, fun hlt => absurd hlt hend⟩
    · rw [hnil, take_nil, append_nil]
    · rw [hnil, drop_nil]
  | succ rounds ih =>
    have hlt : s.cursor.typeIndex < ntype := by omega
    obtain ⟨s1, status, hloop, hdone, hstopped⟩ := mapLoop_spec
      (s.cursor.typeIndex * type.extent) type.typeMap _ s rfl hbuf hoffset
    -- what is left of this element, and the elements after it
    set R := (pairPositions (s.cursor.typeIndex * type.extent)
      (type.typeMap.drop s.cursor.mapIndex)).drop s.cursor.mapOffset with hR
    set E := type.data ((s.cursor.typeIndex + 1 : ℕ) * type.extent)
      (ntype - (s.cursor.typeIndex + 1)) with hE
    have hleft : type.leftFrom ntype s.cursor = R ++ E := if_pos hlt
    rw [typeLoop, if_pos hlt, hloop]
    cases status with
    | some status =>
      have hst := hstopped (by simp)
      show TypeCopied type ntype s s1
      refine ⟨?_, ?_, hst.mapOffset, ?_, fun _ => ?_⟩
      · rw [hleft, hst.pieces, take_append_of_le_length hst.room]
      · rw [hst.typeIndex]
        exact hlt.le
      · rw [hleft, leftFrom, hst.typeIndex, if_pos hlt, hst.left, drop_append_of_le_length hst.room]
      · rw [hleft, length_append]
        exact hst.room.trans (le_add_right _ _)
    | none =>
      have hd := hdone rfl
      have hroom := hd.room
      have hindex : s1.cursor.typeIndex + 1 = s.cursor.typeIndex + 1 := by rw [hd.typeIndex]
      dsimp only
      set s2 : Packing := { s1 with cursor :=
        { s1.cursor with typeIndex := s1.cursor.typeIndex + 1, mapIndex := 0 } } with hs2
      have hcursor : s2.cursor = ⟨s.cursor.typeIndex + 1, 0, 0⟩ := by
        rw [hs2, ← hindex, ← hd.mapOffset]
      have hleft2 : type.leftFrom ntype s2.cursor = E := by
        rw [hcursor, leftFrom_start hlt]
      have hbufsize : s2.bufsize = s.bufsize - R.length := hd.bufsize
      have hoffset2 : s2.cursor.mapOffset ≤ headSize (type.typeMap.drop s2.cursor.mapIndex) := by
        rw [hcursor]
        exact zero_le _
      have hle2 : s2.cursor.typeIndex ≤ ntype := by
        rw [hcursor]
        exact hlt
      rcases Nat.eq_zero_or_pos s2.bufsize with hzero | hpos
      · -- the buffer is full
        have hall : s.bufsize = R.length := by omega
        have hend : TypeCopied type ntype s s2 := by
          refine ⟨?_, hle2, hoffset2, ?_, fun _ => ?_⟩
          · rw [hleft, hall, take_left]
            exact hd.pieces
          · rw [hleft2, hleft, hall, drop_left]
          · rw [hleft, length_append, hall]
            exact le_add_right _ _
        by_cases hmore : s2.cursor.typeIndex < ntype
        · rw [if_pos ⟨hzero, hmore⟩]
          exact hend
        · rw [if_neg fun h => hmore h.2]
          rw [hcursor] at hmore
          obtain rfl : rounds = 0 := by
            dsimp only at hmore
            omega
          exact hend
      · rw [if_neg fun h => hpos.ne' h.1]
        obtain ⟨hpieces, hle, hoff, hdrop, hmore⟩ := ih s2
          (by rw [hcursor]; dsimp only; omega) hpos hoffset2
        rw [hleft2] at hpieces hdrop hmore
        refine ⟨?_, hle, hoff, ?_, fun h => ?_⟩
        · rw [hpieces, hleft, take_append, take_of_length_le hroom, ← hbufsize, ← append_assoc]
          exact congrArg (· ++ _) hd.pieces
        · rw [hdrop, hleft, drop_append, drop_of_length_le hroom, nil_append, ← hbufsize]
        · have := hmore h
          rw [hleft, length_append]
          omega

/-! ### A call -/

lemma map_range_drop (n m : ℕ) :
    ((range n).map fun i : ℕ => (i : ℤ)).drop m = (⟨n - m, m⟩ : Run).positions := by
  have hall : (range n).map (fun i : ℕ => (i : ℤ)) = (⟨n, 0⟩ : Run).positions := by
    exact map_congr_left fun i _ => (Int.zero_add _).symm
  rw [hall, Run.positions_drop, Int.zero_add]

/-- What a call of `type_pack` has done. -/
structure TypePacked (type : CommittedType) (bufsize ntype : ℕ) (rest : List ℤ) (k : Packing) :
    Prop where
  pieces : positions k.pieces = rest.take bufsize
  left : type.Left ntype k.cursor (rest.drop bufsize)
  room : k.cursor.typeIndex < ntype → bufsize ≤ rest.length

variable {type : CommittedType} {ntype bufsize : ℕ} {cursor : TypeCursor} {rest : List ℤ}
  {s : Packing} {pair : Run} {pairs : List Run}

lemma typePack_contiguous (hcontiguous : type.contiguous = true) (hextent : 0 < type.extent)
    (hleft : type.Left ntype cursor rest) :
    ∃ k status, typePack type bufsize 0 ntype cursor = some (k, status) ∧
      TypePacked type bufsize ntype rest k := by
  rw [Left, if_pos hcontiguous] at hleft
  obtain ⟨-, hle, hrest⟩ := hleft
  rw [map_range_drop] at hrest
  set copied := cursor.typeIndex * type.extent + cursor.mapOffset with hcopied
  have hlen : rest.length = ntype * type.extent - copied := by
    rw [hrest, Run.length_positions]
  have hmin : (if bufsize > rest.length then rest.length else bufsize) =
      min bufsize rest.length := by
    split_ifs with h
    · exact (min_eq_right h.le).symm
    · exact (min_eq_left (not_lt.mp h)).symm
  set now := min bufsize rest.length with hnow
  set index := (copied + now) / type.extent with hindex
  have hcall : typePack type bufsize 0 ntype cursor =
      some (⟨[⟨now, cursor.typeIndex * type.extent + cursor.mapOffset⟩], bufsize, 0 + now,
          ⟨index, cursor.mapIndex, copied + now - index * type.extent⟩⟩,
        if copied + now ≠ ntype * type.extent then .incompleteVector else .complete) := by
    unfold typePack
    rw [if_pos hcontiguous]
    dsimp only
    rw [sizeSub_zero, ← hcopied, ← hlen, hmin, if_neg hextent.ne']
  have hnowle : copied + now ≤ ntype * type.extent := by omega
  have hdiv := div_add_mod' (copied + now) type.extent
  rw [← hindex] at hdiv
  have hmod := mod_lt (copied + now) hextent
  have hsum : index * type.extent + (copied + now - index * type.extent) = copied + now := by
    omega
  refine ⟨_, _, hcall, ?_, ?_, fun hmore => ?_⟩
  · show positions [_] = _
    have htake : rest.take bufsize = rest.take now := by
      rw [hnow, take_eq_take_min]
    rw [positions_cons, positions_nil, append_nil, htake, hrest,
      Run.positions_take _ (show now ≤ ntype * type.extent - copied by omega), hcopied]
    rfl
  · rw [Left, if_pos hcontiguous]
    dsimp only
    rw [hsum, ← drop_drop, map_range_drop, ← hrest]
    refine ⟨by omega, hnowle, ?_⟩
    rcases le_total bufsize rest.length with h | h
    · rw [hnow, min_eq_left h]
    · rw [hnow, min_eq_right h, drop_length, drop_of_length_le h]
  · -- otherwise everything would have been copied
    by_contra hlt
    have hall : copied + now = ntype * type.extent := by omega
    have hend : index = ntype := by rw [hindex, hall, Nat.mul_div_cancel _ hextent]
    exact absurd hmore (by rw [hend]; exact lt_irrefl _)

/-- **A call copies what is left, as far as there is room.** -/
theorem typePack_spec (hbuf : 0 < bufsize) (hextent : type.contiguous = true → 0 < type.extent)
    (hleft : type.Left ntype cursor rest) :
    ∃ k status, typePack type bufsize 0 ntype cursor = some (k, status) ∧
      TypePacked type bufsize ntype rest k := by
  cases hlayout : type.contiguous with
  | true => exact typePack_contiguous hlayout (hextent hlayout) hleft
  | false =>
    have hnot : ¬type.contiguous = true := by
      rw [hlayout]
      exact Bool.false_ne_true
    rw [Left, if_neg hnot] at hleft
    obtain ⟨hle, hoffset, rfl⟩ := hleft
    have hcopied : TypeCopied type ntype ⟨[], bufsize, 0, cursor⟩ _ :=
      typeLoop_spec (ntype - cursor.typeIndex) _ (Nat.add_sub_cancel' hle) hbuf hoffset
    refine ⟨_, _, if_neg hnot, hcopied.pieces, ?_, hcopied.room⟩
    rw [Left, if_neg hnot]
    exact ⟨hcopied.typeIndex, hcopied.mapOffset, hcopied.left.symm⟩

/-! ### All calls -/

/-- All positions that are copied in the end.  A contiguous type without bytes has gaps that are
copied too. -/
def CommittedType.all (type : CommittedType) (ntype : ℕ) : List ℤ :=
  if type.contiguous then (range (ntype * type.extent)).map fun i : ℕ => (i : ℤ)
  else type.data 0 ntype

lemma left_init (hextent : type.contiguous = true → 0 < type.extent) :
    type.Left ntype TypeCursor.init (type.all ntype) := by
  rw [CommittedType.Left, CommittedType.all]
  split_ifs with hcontiguous
  · refine ⟨hextent hcontiguous, ?_, ?_⟩
    · simp only [TypeCursor.init, zero_mul, add_zero, zero_le]
    · simp only [TypeCursor.init, zero_mul, add_zero, drop_zero]
  · refine ⟨zero_le _, zero_le _, ?_⟩
    rw [TypeCursor.init, leftFrom_start (zero_le _), Int.natCast_zero, Int.zero_mul, Nat.sub_zero]

lemma left_end (hextent : type.contiguous = true → 0 < type.extent)
    (hleft : type.Left ntype cursor rest) : cursor.typeIndex ≤ ntype ∧
      (cursor.typeIndex = ntype → rest = []) := by
  rw [Left] at hleft
  split_ifs at hleft with hcontiguous
  · obtain ⟨-, hle, rfl⟩ := hleft
    have hindex : cursor.typeIndex ≤ ntype :=
      le_of_mul_le_mul_right ((le_add_right _ _).trans hle) (hextent hcontiguous)
    refine ⟨hindex, fun heq => drop_of_length_le ?_⟩
    rw [length_map, length_range, heq]
    exact le_add_right _ _
  · obtain ⟨hle, -, rfl⟩ := hleft
    exact ⟨hle, fun heq => if_neg heq.not_lt⟩

/-- `n` calls take the cursor behind the last element, and copy these positions. -/
inductive typePack.Calls (type : CommittedType) (bufsize ntype : ℕ) : ℕ → TypeCursor → List ℤ → Prop
  | done {cursor : TypeCursor} (hend : cursor.typeIndex = ntype) :
      Calls type bufsize ntype 0 cursor []
  | call {n : ℕ} {cursor : TypeCursor} {k : Packing} {status : TypePackStatus} {rest : List ℤ}
      (hlt : cursor.typeIndex < ntype)
      (hcall : typePack type bufsize 0 ntype cursor = some (k, status))
      (hrest : Calls type bufsize ntype n k.cursor rest) :
      Calls type bufsize ntype (n + 1) cursor (positions k.pieces ++ rest)

/-- **If there is room, then everything is copied.** -/
theorem calls_of_left (hbuf : 0 < bufsize) (hextent : type.contiguous = true → 0 < type.extent)
    (hleft : type.Left ntype cursor rest) :
    ∃ n ≤ rest.length + 1, Calls type bufsize ntype n cursor rest := by
  -- each call that is not the last one fills the buffer
  induction hlen : rest.length using Nat.strong_induction_on generalizing cursor rest with
  | _ len ih =>
    obtain ⟨hle, hend⟩ := left_end hextent hleft
    rcases hle.lt_or_eq with hlt | heq
    · obtain ⟨k, status, hcall, hpacked⟩ := typePack_spec hbuf hextent hleft
      obtain ⟨hle', hend'⟩ := left_end hextent hpacked.left
      have hsplit : positions k.pieces ++ rest.drop bufsize = rest := by
        rw [hpacked.pieces, take_append_drop]
      rcases hle'.lt_or_eq with hmore | hlast
      · have hfull := hpacked.room hmore
        obtain ⟨n, hn, hcalls⟩ := ih (len - bufsize) (by omega) hpacked.left
          (by rw [length_drop, hlen])
        refine ⟨n + 1, by omega, ?_⟩
        rw [← hsplit]
        exact .call hlt hcall hcalls
      · refine ⟨1, by omega, ?_⟩
        rw [← hsplit]
        refine .call hlt hcall ?_
        rw [hend' hlast]
        exact .done hlast
    · refine ⟨0, zero_le _, ?_⟩
      rw [hend heq]
      exact .done heq

/-- The cursor behind a pair, with the pairs that follow. -/
def TypeCursor.next (cursor : TypeCursor) (pairs : List Run) : TypeCursor :=
  if pairs ≠ [] then ⟨cursor.typeIndex, cursor.mapIndex + 1, 0⟩ else ⟨cursor.typeIndex + 1, 0, 0⟩

lemma positions_append_empty (pieces : List Run) (offset : ℤ) :
    positions (pieces ++ [⟨0, offset⟩]) = positions pieces := by
  rw [positions_append, positions_cons, positions_nil, append_nil, Run.positions,
    range_zero, map_nil, append_nil]

/-- The loop over the elements when there is no room and the cursor is not within a pair: the pair
is passed over. -/
lemma typeLoop_noRoom {rounds : ℕ} (hrounds : s.cursor.typeIndex + (rounds + 1) = ntype)
    (hbuf : s.bufsize = 0) (hout : s.cursor.mapOffset = 0 ∨ pair.size ≤ s.cursor.mapOffset)
    (hdrop : type.typeMap.drop s.cursor.mapIndex = pair :: pairs) :
    ∃ k status, typeLoop type ntype (rounds + 1) s = (k, status) ∧
      positions k.pieces = positions s.pieces ∧ k.cursor = s.cursor.next pairs ∧
      (status = .complete ↔ s.cursor.typeIndex + 1 = ntype ∧ pairs = []) := by
  have hlt : s.cursor.typeIndex < ntype := by omega
  rw [typeLoop, if_pos hlt, hdrop, mapLoop_cons_noRoom hbuf hout, TypeCursor.next]
  by_cases hpairs : pairs ≠ []
  · simp only [if_pos hpairs]
    exact ⟨_, _, rfl, positions_append_empty _ _, rfl, iff_of_false nofun fun hend => hpairs hend.2⟩
  · simp only [if_neg hpairs]
    have hnil : pairs = [] := not_not.mp hpairs
    split_ifs with hfull
    · exact ⟨_, _, rfl, positions_append_empty _ _, rfl,
        iff_of_false nofun fun hend => hfull.2.ne hend.1⟩
    · have hend : ¬s.cursor.typeIndex + 1 < ntype := fun hlt => hfull ⟨trivial, hlt⟩
      obtain rfl : rounds = 0 := by omega
      exact ⟨_, _, rfl, positions_append_empty _ _, rfl, iff_of_true rfl ⟨by omega, hnil⟩⟩

/-- **Without any room** the calls come to the end too, one pair at a time, and nothing is
copied. -/
theorem calls_noRoom (hcontiguous : type.contiguous = false) {i j : ℕ}
    (hj : i < ntype ∧ j < type.typeMap.length ∨ i = ntype ∧ j = 0) :
    Calls type 0 ntype (ntype * type.typeMap.length - (i * type.typeMap.length + j)) ⟨i, j, 0⟩
      [] := by
  set len := type.typeMap.length with hlen
  induction hn : ntype * len - (i * len + j) generalizing i j with
  | zero =>
    rcases hj with ⟨hi, hj⟩ | ⟨rfl, rfl⟩
    · have := mul_le_mul_right len hi
      rw [succ_mul] at this
      omega
    · exact .done rfl
  | succ n ih =>
    rcases hj with ⟨hi, hj⟩ | ⟨rfl, rfl⟩
    · have hnot : ¬type.contiguous = true := by
        rw [hcontiguous]
        exact Bool.false_ne_true
      have hdrop : type.typeMap.drop j = type.typeMap[j] :: type.typeMap.drop (j + 1) :=
        drop_eq_getElem_cons hj
      have hpairs : type.typeMap.drop (j + 1) ≠ [] ↔ j + 1 < len := by
        rw [ne_eq, drop_eq_nil_iff, not_le]
      obtain ⟨rounds, hrounds⟩ : ∃ rounds, ntype - i = rounds + 1 := ⟨ntype - i - 1, by omega⟩
      obtain ⟨k, status, hloop, hpieces, hcursor, -⟩ := typeLoop_noRoom
        (s := ⟨[], 0, 0, ⟨i, j, 0⟩⟩) (show i + (rounds + 1) = ntype by omega) rfl (.inl rfl) hdrop
      have hcall : typePack type 0 0 ntype ⟨i, j, 0⟩ = some (k, status) := by
        rw [← hloop, ← hrounds]
        exact if_neg hnot
      have hnil : positions k.pieces = [] := hpieces
      have hrest : Calls type 0 ntype n k.cursor [] := by
        rw [hcursor, TypeCursor.next]
        simp only [hpairs]
        split_ifs with hmore
        · exact ih (.inl ⟨hi, hmore⟩) (by omega)
        · have hsucc : (i + 1) * len = i * len + len := succ_mul i len
          rcases lt_or_eq_of_le (succ_le_of_lt hi) with hi' | hi'
          · exact ih (.inl ⟨hi', by omega⟩) (by omega)
          · exact ih (.inr ⟨hi', rfl⟩) (by omega)
      have := Calls.call hi hcall hrest
      rwa [hnil] at this
    · omega

/-! ### The bytes of the elements -/

lemma data_contiguous (p : ℕ)
    (h : positions type.typeMap = (range type.extent).map fun i : ℕ => (i : ℤ)) :
    type.data p ntype = (⟨ntype * type.extent, p⟩ : Run).positions := by
  induction ntype generalizing p with
  | zero =>
    rw [zero_mul]
    rfl
  | succ n ih =>
    have hnext : (p : ℤ) + type.extent = ((p + type.extent : ℕ) : ℤ) := by push_cast; rfl
    have hfirst : pairPositions p type.typeMap = (⟨type.extent, p⟩ : Run).positions := by
      rw [pairPositions, positions_map_shift, h, Run.positions, map_map]
      exact map_congr_left fun i _ => Int.add_comm _ _
    have hall := take_append_drop type.extent
      (⟨(n + 1) * type.extent, p⟩ : Run).positions
    have hle : type.extent ≤ (n + 1) * type.extent := Nat.le_mul_of_pos_left _ (succ_pos n)
    rw [Run.positions_take _ hle, Run.positions_drop] at hall
    rw [data_succ, hfirst, hnext, ih, ← hall, succ_mul, Nat.add_sub_cancel]
    rfl

/-- **All bytes of the elements are copied.** -/
theorem data_subset_all : type.data 0 ntype ⊆ type.all ntype := by
  rw [CommittedType.all]
  split_ifs with hcontiguous
  · rcases type.positions_eq hcontiguous with hnil | hrange
    · intro p hp
      rw [CommittedType.data, mem_flatMap] at hp
      obtain ⟨i, -, hp⟩ := hp
      rw [hnil, map_nil] at hp
      cases hp
    · have hdata : type.data 0 ntype = _ := data_contiguous 0 hrange
      rw [hdata, Run.positions]
      intro p hp
      simpa only [Int.natCast_zero, Int.zero_add] using hp
  · exact fun _ hp => hp

lemma length_data (p : ℤ) : (type.data p ntype).length = ntype * type.packedSize := by
  induction ntype generalizing p with
  | zero => rw [zero_mul, data_zero, length_nil]
  | succ n ih =>
    rw [data_succ, length_append, ih, pairPositions, positions_map_shift, length_map,
      ← type.packedSize_eq, succ_mul, add_comm]

lemma length_all_le : (type.all ntype).length ≤ ntype * (type.extent + type.packedSize) := by
  rw [CommittedType.all, mul_add]
  split_ifs
  · rw [length_map, length_range]
    exact le_add_right _ _
  · rw [length_data]
    exact le_add_left _ _

/-! ### With enough room -/

/-- The offset in the buffer goes with what has been copied. -/
def Packing.base (s : Packing) : ℤ := s.offset - (positions s.pieces).length

lemma mapLoop_base (ptr : ℤ) (pairs : List Run) (s : Packing) :
    (mapLoop ptr pairs s).1.base = s.base := by
  induction pairs generalizing s with
  | nil => rfl
  | cons pair pairs ih =>
    have hbase : ∀ bufsize cursor (r : Run),
        Packing.base ⟨s.pieces ++ [r], bufsize, s.offset + r.size, cursor⟩ = s.base := by
      intro bufsize cursor r
      simp [Packing.base, positions_append, Run.length_positions]
    unfold mapLoop
    dsimp only
    generalize hx : (ite (s.cursor.mapOffset > 0) _ _ : ℤ × ℕ × ℕ) = x
    obtain ⟨t, size, mapOffset⟩ := x
    generalize (ite (size > s.bufsize) _ _ : ℕ × ℕ) = y
    obtain ⟨size', mapOffset'⟩ := y
    split_ifs
    · exact hbase _ _ ⟨size', t⟩
    · exact hbase _ _ ⟨size', t⟩
    · rw [ih]
      exact hbase _ _ ⟨size', t⟩

lemma typeLoop_base (type : CommittedType) (ntype rounds : ℕ) (s : Packing) :
    (typeLoop type ntype rounds s).1.base = s.base := by
  induction rounds generalizing s with
  | zero => rfl
  | succ rounds ih =>
    have hmap := mapLoop_base (s.cursor.typeIndex * type.extent)
      (type.typeMap.drop s.cursor.mapIndex) s
    unfold typeLoop
    split_ifs
    · split
      case h_1 s' status heq => rwa [heq] at hmap
      case h_2 s' heq =>
        rw [heq] at hmap
        dsimp only
        split_ifs
        · exact hmap
        · rw [ih]
          exact hmap
    · rfl

/-- With enough room, a call moves the bytes of the elements that the map names, in order, and no
others. -/
def CommittedType.PacksBytes (type : CommittedType) : Prop :=
  ∀ ntype bufsize offset, offset + ntype * type.packedSize ≤ bufsize →
    ∃ k status, typePack type bufsize offset ntype .init = some (k, status) ∧
      k.offset = offset + ntype * type.packedSize ∧ positions k.pieces = type.data 0 ntype

private lemma typePack_extent {offset : ℕ} (hlayout : type.contiguous = true)
    (hextent : type.extent ≠ 0) (hroom : offset + ntype * type.extent ≤ bufsize) :
    ∃ k status, typePack type bufsize offset ntype .init = some (k, status) ∧
      k.offset = offset + ntype * type.extent ∧ k.pieces = [⟨ntype * type.extent, 0⟩] := by
  have hall : (if bufsize - offset > ntype * type.extent then ntype * type.extent
      else bufsize - offset) = ntype * type.extent := by
    split_ifs <;> omega
  have hsub : sizeSub bufsize offset = bufsize - offset := sizeSub_of_le (by omega)
  simp [typePack, hlayout, TypeCursor.init, hsub, hall, hextent]

private lemma packsBytes_contiguous (hlayout : type.contiguous = true)
    (hne : type.packedSize ≠ 0) : type.PacksBytes := by
  intro ntype bufsize offset hroom
  have hrange := (type.positions_eq hlayout).resolve_left fun hnil =>
    hne (by rw [type.packedSize_eq, hnil, length_nil])
  have hextent : type.packedSize = type.extent := by
    rw [type.packedSize_eq, hrange, length_map, length_range]
  rw [hextent] at hne hroom ⊢
  obtain ⟨k, status, hcall, hoffset, hpieces⟩ := typePack_extent hlayout hne hroom
  refine ⟨k, status, hcall, hoffset, ?_⟩
  rw [hpieces, positions_cons, positions_nil, append_nil]
  exact (data_contiguous 0 hrange).symm

private lemma packsBytes_of_not_contiguous (hlayout : type.contiguous = false)
    (hne : type.packedSize ≠ 0) : type.PacksBytes := by
  intro ntype bufsize offset hroom
  have hpacked : (type.data 0 ntype).length = ntype * type.packedSize := length_data 0
  have hcall : typePack type bufsize offset ntype .init = some
      (typeLoop type ntype ntype ⟨[], bufsize - offset, offset, .init⟩) := by
    simp [typePack, hlayout, TypeCursor.init, sizeSub_of_le (show offset ≤ bufsize by omega)]
  have hpieces : positions (typeLoop type ntype ntype
      ⟨[], bufsize - offset, offset, .init⟩).1.pieces = type.data 0 ntype := by
    cases ntype with
    | zero => rfl
    | succ n =>
      have hpos : 0 < (n + 1) * type.packedSize := Nat.mul_pos (succ_pos n) (pos_of_ne_zero hne)
      have hcopied : TypeCopied type (n + 1) ⟨[], bufsize - offset, offset, .init⟩ _ :=
        typeLoop_spec (n + 1) _ (Nat.zero_add _) (by dsimp only; omega) (zero_le _)
      rw [hcopied.pieces, TypeCursor.init, leftFrom_start (zero_le _), take_of_length_le]
      · simp
      · simp only [Nat.cast_zero, Int.zero_mul, Nat.sub_zero, hpacked]
        omega
  have hbase := typeLoop_base type ntype ntype ⟨[], bufsize - offset, offset, .init⟩
  simp only [Packing.base, hpieces, hpacked, positions_nil, length_nil] at hbase
  exact ⟨_, _, hcall, by omega, hpieces⟩

/-- **Just the types with bytes** are packed so.  Those without are taken for contiguous and moved
with their extent; if that is 0, there is a division by zero. -/
theorem CommittedType.packsBytes_iff_ne_zero (type : CommittedType) :
    type.PacksBytes ↔ type.packedSize ≠ 0 := by
  refine ⟨fun h hzero => ?_, fun hne => ?_⟩
  · have hlayout : type.contiguous = true := Bool.of_not_eq_false fun hfalse =>
      type.positions_ne_nil hfalse (length_eq_zero_iff.mp (type.packedSize_eq ▸ hzero))
    obtain ⟨k, status, hcall, hoffset, -⟩ := h 1 type.extent 0 (by simp [hzero])
    by_cases hextent : type.extent = 0
    · simp [typePack, hlayout, hextent] at hcall
    · have hroom : 0 + 1 * type.extent ≤ type.extent := by omega
      obtain ⟨k', status', hcall', hoffset', -⟩ := typePack_extent hlayout hextent hroom
      cases hcall.symm.trans hcall'
      omega
  · cases hlayout : type.contiguous with
    | true => exact packsBytes_contiguous hlayout hne
    | false => exact packsBytes_of_not_contiguous hlayout hne

end Lampi
