import Lampi.Mpi.Equiv.Datatype
import Lampi.Mpi.Equiv.TypePack

/-!
# Packing and unpacking in chunks

If no pair of the map is empty, then `type_pack` returns `TYPE_PACK_COMPLETE` just if nothing is
left (`typeLoop_status`).  So a sequence of calls with some room each ends when all bytes have been
moved.  What one sequence of calls packs another one can unpack, with any other chunks:
**`typePack_roundTrip`**.

Without any room a call moves nothing, but the cursor goes on to the next pair unless it is within
one.  **`typePack_noRoom_iff`** says when the cursor stays where it is; `MPI_Pack` into a buffer
that is full reports success for one element with one pair.
-/

namespace Lampi

open RunList typePack CommittedType List Nat

/-! ### What a call returns -/

lemma headSize_le_length (ptr : ℤ) (pairs : List Run) :
    headSize pairs ≤ (pairPositions ptr pairs).length := by
  cases pairs with
  | nil => exact zero_le _
  | cons pair pairs =>
    rw [pairPositions_cons, length_append, Run.length_positions]
    exact le_add_right _ _

variable {pairs : List Run} {cursor : TypeCursor} {i : ℕ}

section Status

variable {type : CommittedType} {ntype : ℕ}

/-- Where the loop over the pairs returns, something is left of the pair at the cursor. -/
lemma mapLoop_more {ptr : ℤ} {typeMap : List Run} (hsizes : ∀ pair ∈ pairs, 0 < pair.size)
    {s s' : Packing} {status : TypePackStatus} (hdrop : typeMap.drop s.cursor.mapIndex = pairs)
    (hbuf : 0 < s.bufsize) (hloop : mapLoop ptr pairs s = (s', some status)) :
    status ≠ .complete ∧ s'.cursor.typeIndex = s.cursor.typeIndex ∧
      s'.cursor.mapOffset < headSize (typeMap.drop s'.cursor.mapIndex) := by
  induction pairs generalizing s with
  | nil => cases hloop
  | cons pair pairs ih =>
    by_cases hlt : s.bufsize < pair.size - s.cursor.mapOffset
    · rw [mapLoop_cons_stop hbuf hlt] at hloop
      cases hloop
      refine ⟨nofun, rfl, ?_⟩
      show s.cursor.mapOffset + s.bufsize < headSize (typeMap.drop s.cursor.mapIndex)
      rw [hdrop]
      show s.cursor.mapOffset + s.bufsize < pair.size
      omega
    · rw [mapLoop_cons_next (not_lt.mp hlt)] at hloop
      have hnext := drop_nextPair ptr hdrop
      split_ifs at hloop with hfull
      · -- the next pair has not been begun
        cases hloop
        refine ⟨nofun, rfl, ?_⟩
        rw [hnext]
        obtain ⟨next, rest, rfl⟩ := exists_cons_of_ne_nil hfull.2
        exact hsizes next (mem_cons_of_mem _ mem_cons_self)
      · rcases Nat.eq_zero_or_pos (nextPair ptr pair s).bufsize with hzero | hpos
        · have hnil : pairs = [] := by
            by_contra hne
            exact hfull ⟨hzero, hne⟩
          rw [hnil] at hloop
          cases hloop
        · exact ih (fun pair hpair => hsizes pair (mem_cons_of_mem _ hpair))
            (s := nextPair ptr pair s) hnext hpos hloop

lemma leftFrom_ne_nil (hlt : cursor.typeIndex < ntype)
    (hmore : cursor.mapOffset < headSize (type.typeMap.drop cursor.mapIndex)) :
    type.leftFrom ntype cursor ≠ [] := by
  rw [leftFrom, if_pos hlt]
  apply append_ne_nil_of_left_ne_nil
  rw [← length_pos_iff, length_drop]
  exact Nat.sub_pos_of_lt (hmore.trans_le (headSize_le_length _ _))

lemma leftFrom_start_ne_nil (hlayout : type.contiguous = false) (hi : i < ntype) :
    type.leftFrom ntype ⟨i, 0, 0⟩ ≠ [] := by
  rw [leftFrom_start hi.le, ← length_pos_iff, length_data, type.packedSize_eq]
  apply mul_pos (Nat.sub_pos_of_lt hi)
  exact length_pos_iff.mpr (type.positions_ne_nil hlayout)

/-- **The loop over the elements is complete just if nothing is left.** -/
theorem typeLoop_status (hlayout : type.contiguous = false)
    (hsizes : ∀ pair ∈ type.typeMap, 0 < pair.size) (rounds : ℕ) (s : Packing)
    (hrounds : s.cursor.typeIndex + rounds = ntype) (hbuf : 0 < s.bufsize)
    (hoffset : s.cursor.mapOffset ≤ headSize (type.typeMap.drop s.cursor.mapIndex)) :
    (typeLoop type ntype rounds s).2 = .complete ↔
      type.leftFrom ntype (typeLoop type ntype rounds s).1.cursor = [] := by
  induction rounds generalizing s with
  | zero =>
    have hend : ¬s.cursor.typeIndex < ntype := by omega
    exact iff_of_true rfl (if_neg hend)
  | succ rounds ih =>
    have hlt : s.cursor.typeIndex < ntype := by omega
    obtain ⟨s1, status, hloop, hdone, -⟩ := mapLoop_spec
      (s.cursor.typeIndex * type.extent) type.typeMap _ s rfl hbuf hoffset
    rw [typeLoop, if_pos hlt, hloop]
    cases status with
    | some status =>
      obtain ⟨hne, hindex, hmore⟩ := mapLoop_more
        (fun pair hpair => hsizes pair (mem_of_mem_drop hpair)) rfl hbuf hloop
      exact iff_of_false hne (leftFrom_ne_nil (hindex.symm ▸ hlt) hmore)
    | none =>
      have hd := hdone rfl
      dsimp only
      rw [hd.typeIndex, hd.mapOffset]
      split_ifs with hfull
      · exact iff_of_false not_false (leftFrom_start_ne_nil hlayout hfull.2)
      · rcases Nat.eq_zero_or_pos s1.bufsize with hzero | hpos
        · -- that was the last element
          have hend : ¬s.cursor.typeIndex + 1 < ntype := fun hlt => hfull ⟨hzero, hlt⟩
          obtain rfl : rounds = 0 := by omega
          exact iff_of_true rfl (if_neg hend)
        · refine ih ⟨s1.pieces, s1.bufsize, s1.offset, _, 0, 0⟩ ?_ hpos (zero_le _)
          show s.cursor.typeIndex + 1 + rounds = ntype
          omega

end Status

/-! ### One call with some room -/

section Call

variable {type : CommittedType} {ntype bufsize offset : ℕ} {cursor : TypeCursor} {rest : List ℤ}

variable (hlayout : type.contiguous = false)

include hlayout

lemma typePack_of_not_contiguous (hroom : offset ≤ bufsize) :
    typePack type bufsize offset ntype cursor = some (typeLoop type ntype
      (ntype - cursor.typeIndex) ⟨[], bufsize - offset, offset, cursor⟩) := by
  rw [typePack, sizeSub_of_le hroom]
  apply if_neg
  rw [hlayout]
  exact Bool.false_ne_true

lemma left_iff :
    type.Left ntype cursor rest ↔ cursor.typeIndex ≤ ntype ∧
      cursor.mapOffset ≤ headSize (type.typeMap.drop cursor.mapIndex) ∧
      rest = type.leftFrom ntype cursor := by
  rw [Left, if_neg]
  rw [hlayout]
  exact Bool.false_ne_true

/-- **One call** moves as many of the bytes that are left as there is room for, and is complete just
if no more are left. -/
theorem typePack_chunk (hsizes : ∀ pair ∈ type.typeMap, 0 < pair.size) (hroom : offset < bufsize)
    (hleft : type.Left ntype cursor rest) :
    ∃ k status, typePack type bufsize offset ntype cursor = some (k, status) ∧
      positions k.pieces = rest.take (bufsize - offset) ∧
      type.Left ntype k.cursor (rest.drop (bufsize - offset)) ∧
      (status = .complete ↔ rest.length ≤ bufsize - offset) := by
  have hbuf : 0 < bufsize - offset := Nat.sub_pos_of_lt hroom
  obtain ⟨hle, hoffset, rfl⟩ := (left_iff hlayout).mp hleft
  have hrounds := Nat.add_sub_cancel' hle
  have hcopied : TypeCopied type ntype ⟨[], bufsize - offset, offset, cursor⟩ _ :=
    typeLoop_spec (ntype - cursor.typeIndex) _ hrounds hbuf hoffset
  have hstatus := typeLoop_status hlayout hsizes (ntype - cursor.typeIndex)
    ⟨[], bufsize - offset, offset, cursor⟩ hrounds hbuf hoffset
  refine ⟨_, _, typePack_of_not_contiguous hlayout hroom.le, hcopied.pieces, ?_, ?_⟩
  · rw [left_iff hlayout]
    exact ⟨hcopied.typeIndex, hcopied.mapOffset, hcopied.left.symm⟩
  · rw [hstatus, hcopied.left, drop_eq_nil_iff]

end Call

/-! ### Sequences of calls -/

variable {rest : List ℤ}

namespace typePack

def moved (call : Packing × TypePackStatus) : ℕ := (positions call.1.pieces).length

/-- These calls, from call `i` on, move all that is left: each one as much as there is room for, and
only the last one returns `TYPE_PACK_COMPLETE`. -/
inductive InChunks (room : ℕ → ℕ) : ℕ → List ℤ → List (Packing × TypePackStatus) → Prop
  | last {i : ℕ} {rest : List ℤ} {call : Packing × TypePackStatus} (hstatus : call.2 = .complete)
      (hpieces : positions call.1.pieces = rest) (hroom : rest.length ≤ room i) :
      InChunks room i rest [call]
  | next {i : ℕ} {rest : List ℤ} {call : Packing × TypePackStatus}
      {calls : List (Packing × TypePackStatus)} (hstatus : call.2 ≠ .complete)
      (hpieces : positions call.1.pieces = rest.take (room i)) (hroom : room i < rest.length)
      (hrest : InChunks room (i + 1) (rest.drop (room i)) calls) :
      InChunks room i rest (call :: calls)

variable {type : CommittedType} {ntype : ℕ} {bufsize offset : ℕ → ℕ}

/-- **A sequence of calls with some room each comes to its end.** -/
theorem run_inChunks (hlayout : type.contiguous = false)
    (hsizes : ∀ pair ∈ type.typeMap, 0 < pair.size) (hroom : ∀ i, offset i < bufsize i) {bound : ℕ}
    (hbound : rest.length < bound) (hleft : type.Left ntype cursor rest) :
    ∃ calls, run type ntype bufsize offset bound i cursor = some calls ∧
      InChunks (fun i => bufsize i - offset i) i rest calls := by
  -- each call that is not the last one moves at least one byte
  induction bound generalizing i cursor rest with
  | zero => exact absurd hbound (not_lt_zero _)
  | succ bound ih =>
    obtain ⟨k, status, hcall, hpieces, hleft', hstatus⟩ :=
      typePack_chunk hlayout hsizes (hroom i) hleft
    rw [run, hcall, Option.bind_some]
    by_cases hcomplete : status = .complete
    · have hle := hstatus.mp hcomplete
      refine ⟨[(k, status)], if_pos hcomplete, .last hcomplete ?_ hle⟩
      rw [hpieces, take_of_length_le hle]
    · have hlt : bufsize i - offset i < rest.length := not_le.mp (mt hstatus.mpr hcomplete)
      have hdrop : (rest.drop (bufsize i - offset i)).length < bound := by
        have := hroom i
        rw [length_drop]
        omega
      obtain ⟨calls, hrun, hchunks⟩ := ih (i := i + 1) hdrop hleft'
      refine ⟨(k, status) :: calls, ?_, .next hcomplete hpieces hlt hchunks⟩
      rw [if_neg hcomplete, hrun, Option.map_some]

namespace InChunks

variable {room : ℕ → ℕ} {i : ℕ} {rest : List ℤ} {calls : List (Packing × TypePackStatus)}

variable (h : InChunks room i rest calls)

include h

lemma pack_eq (array : Buffer) : pack array calls = array.read rest := by
  induction h with
  | @last i rest call hstatus hpieces hroom =>
    rw [pack, flatMap_singleton, hpieces]
  | @next i rest call calls hstatus hpieces hroom hrest ih =>
    have hsplit : array.read rest =
        array.read (rest.take (room i)) ++ array.read (rest.drop (room i)) := by
      rw [Buffer.read, Buffer.read, Buffer.read, ← map_append, take_append_drop]
    rw [pack] at ih ⊢
    rw [flatMap_cons, ih, hpieces, hsplit]

/-- What is unpacked from the stream is a copy of the bytes in it. -/
lemma unpack_read (dst src : Buffer) :
    unpack room i calls dst (src.read rest) = dst.copy src rest := by
  induction h generalizing dst with
  | @last i rest call hstatus hpieces hroom =>
    have hall : (src.read rest).take (room i) = src.read rest := by
      apply take_of_length_le
      rw [Buffer.read, length_map]
      exact hroom
    show dst.write (positions call.1.pieces) ((src.read rest).take (room i)) = _
    rw [hall, hpieces, Buffer.write_read]
  | @next i rest call calls hstatus hpieces hroom hrest ih =>
    have htake : (src.read rest).take (room i) = src.read (rest.take (room i)) := (map_take ..).symm
    have hdrop : (src.read rest).drop (room i) = src.read (rest.drop (room i)) := (map_drop ..).symm
    rw [unpack, htake, hdrop, hpieces, Buffer.write_read, ih, Buffer.copy_append, take_append_drop]

lemma call_spec {j : ℕ} (hj : j < calls.length) :
    moved calls[j] = min (room (i + j)) (rest.length - ((calls.take j).map moved).sum) ∧
      (calls[j].2 = .complete ↔ ((calls.take (j + 1)).map moved).sum = rest.length) := by
  induction h generalizing j with
  | @last i rest call hstatus hpieces hroom =>
    obtain rfl : j = 0 := lt_one_iff.mp hj
    have hmoved : moved call = rest.length := congrArg length hpieces
    refine ⟨?_, iff_of_true hstatus ?_⟩
    · show moved call = min (room i) (rest.length - 0)
      rw [hmoved, Nat.sub_zero, min_eq_right hroom]
    · show moved call + 0 = rest.length
      rw [hmoved, add_zero]
  | @next i rest call calls hstatus hpieces hroom hrest ih =>
    have hmoved : moved call = room i := by
      rw [moved, hpieces, length_take, min_eq_left hroom.le]
    cases j with
    | zero =>
      refine ⟨?_, iff_of_false hstatus ?_⟩
      · show moved call = min (room i) (rest.length - 0)
        rw [hmoved, Nat.sub_zero, min_eq_left hroom.le]
      · show ¬moved call + 0 = rest.length
        omega
    | succ j =>
      have hj' : j < calls.length := lt_of_succ_lt_succ hj
      obtain ⟨hchunk, hend⟩ := ih hj'
      rw [length_drop] at hchunk hend
      refine ⟨?_, hend.trans ?_⟩
      · show moved calls[j] = min (room (i + (j + 1)))
          (rest.length - (moved call + ((calls.take j).map moved).sum))
        rw [hchunk, hmoved, sub_add_eq, add_assoc, add_comm 1 j]
      · show _ ↔ moved call + ((calls.take (j + 1)).map moved).sum = rest.length
        omega

end InChunks

end typePack

/-- **What one sequence of calls packs, another one unpacks.**  The packed bytes are the stream,
whatever the chunks are, and with any others just the bytes of the map are restored.  Each call
moves as much as there is room for and is complete just if all has been moved. -/
theorem typePack_roundTrip (type : CommittedType) (hlayout : type.contiguous = false)
    (hsizes : ∀ pair ∈ type.typeMap, 0 < pair.size) (ntype : ℕ)
    (bufsize offset bufsize' offset' : ℕ → ℕ) (hroom : ∀ i, offset i < bufsize i)
    (hroom' : ∀ i, offset' i < bufsize' i) (array dst : Buffer) :
    ∃ calls calls',
      run type ntype bufsize offset (ntype * type.packedSize + 1) 0 .init = some calls ∧
      run type ntype bufsize' offset' (ntype * type.packedSize + 1) 0 .init = some calls' ∧
      pack array calls = array.read (type.data 0 ntype) ∧
      unpack (fun i => bufsize' i - offset' i) 0 calls' dst (pack array calls) =
        dst.copy array (type.data 0 ntype) ∧
      ∀ (j : ℕ) (hj : j < calls.length), moved calls[j] = min (bufsize j - offset j)
          (ntype * type.packedSize - ((calls.take j).map moved).sum) ∧
        (calls[j].2 = .complete ↔
          ((calls.take (j + 1)).map moved).sum = ntype * type.packedSize) := by
  have hleft : type.Left ntype .init (type.data 0 ntype) := by
    have hinit : type.Left ntype .init (type.all ntype) := left_init fun htrue =>
      absurd (hlayout.symm.trans htrue) Bool.false_ne_true
    rwa [CommittedType.all, if_neg (hlayout ▸ Bool.false_ne_true)] at hinit
  have hlength : (type.data 0 ntype).length = ntype * type.packedSize := length_data 0
  have hbound : (type.data 0 ntype).length < ntype * type.packedSize + 1 := lt_succ_of_le hlength.le
  obtain ⟨calls, hrun, hchunks⟩ := run_inChunks hlayout hsizes hroom (i := 0) hbound hleft
  obtain ⟨calls', hrun', hchunks'⟩ := run_inChunks hlayout hsizes hroom' (i := 0) hbound hleft
  have hpack := hchunks.pack_eq array
  refine ⟨calls, calls', hrun, hrun', hpack, ?_, ?_⟩
  · rw [hpack, hchunks'.unpack_read]
  · intro j hj
    have hcall := hchunks.call_spec hj
    rwa [hlength, zero_add] at hcall

/-- Two integers with a gap between them, committed. -/
def gappedInts : CommittedType := typeCommit ⟨[⟨4, 0⟩, ⟨4, 8⟩], 0, 12, 0, false⟩ nofun

/-- Three elements are packed three bytes at a time, and unpacked five at a time. -/
theorem typePack_roundTrip_gappedInts :
    (∀ pair ∈ gappedInts.typeMap, 0 < pair.size) ∧
    ∃ calls calls', run gappedInts 3 (fun _ => 3) (fun _ => 0) 25 0 .init = some calls ∧
      run gappedInts 3 (fun _ => 7) (fun _ => 2) 25 0 .init = some calls' ∧
      unpack (fun _ => 5) 0 calls' (fun _ => 0)
        (pack (fun addr => addr.toNat.toUInt8) calls) =
          Buffer.copy (fun _ => 0) (fun addr => addr.toNat.toUInt8) (gappedInts.data 0 3) := by
  have hsizes : ∀ pair ∈ gappedInts.typeMap, 0 < pair.size := by decide
  obtain ⟨calls, calls', hrun, hrun', -, hunpack, -⟩ := typePack_roundTrip gappedInts rfl hsizes 3
    (fun _ => 3) (fun _ => 0) (fun _ => 7) (fun _ => 2) (fun _ => by decide) (fun _ => by decide)
    (fun addr => addr.toNat.toUInt8) fun _ => 0
  exact ⟨hsizes, calls, calls', hrun, hrun', hunpack⟩

/-! ### Calls without any room -/

section NoRoom

variable {type : CommittedType} {ntype : ℕ} {cursor : TypeCursor} {pair : Run}

lemma leftFrom_cons (hlt : cursor.typeIndex < ntype)
    (hdrop : type.typeMap.drop cursor.mapIndex = pair :: pairs)
    (hoffset : cursor.mapOffset ≤ pair.size) :
    type.leftFrom ntype cursor =
      Run.positions ⟨pair.size - cursor.mapOffset,
          cursor.typeIndex * type.extent + pair.offset + cursor.mapOffset⟩ ++
        type.leftFrom ntype (cursor.next pairs) := by
  have hpair : (pairPositions (cursor.typeIndex * type.extent) (pair :: pairs)).drop
      cursor.mapOffset = Run.positions ⟨pair.size - cursor.mapOffset,
        cursor.typeIndex * type.extent + pair.offset + cursor.mapOffset⟩ ++
        pairPositions (cursor.typeIndex * type.extent) pairs := by
    rw [pairPositions_cons, drop_append_of_le_length
      (by rw [Run.length_positions]; exact hoffset), Run.positions_drop]
  rw [leftFrom, if_pos hlt, hdrop, hpair, append_assoc]
  congr 1
  by_cases hpairs : pairs = []
  · rw [TypeCursor.next, if_neg (not_not_intro hpairs), leftFrom_start hlt, hpairs]
    rfl
  · have hnext : type.typeMap.drop (cursor.mapIndex + 1) = pairs := by
      rw [← drop_drop, hdrop]
      rfl
    rw [TypeCursor.next, if_pos hpairs, leftFrom, if_pos hlt, hnext, drop_zero]

lemma left_next (hlayout : type.contiguous = false) (pairs : List Run)
    (hlt : cursor.typeIndex < ntype) :
    type.Left ntype (cursor.next pairs) (type.leftFrom ntype (cursor.next pairs)) := by
  rw [left_iff hlayout, TypeCursor.next]
  split_ifs
  · exact ⟨hlt.le, zero_le _, rfl⟩
  · exact ⟨hlt, zero_le _, rfl⟩

/-- **Without any room**, the pair at the cursor is passed over unless the cursor is within it. -/
theorem typePack_noRoom (hlayout : type.contiguous = false) (bufsize : ℕ)
    (hlt : cursor.typeIndex < ntype) (hdrop : type.typeMap.drop cursor.mapIndex = pair :: pairs) :
    ∃ k status, typePack type bufsize bufsize ntype cursor = some (k, status) ∧
      positions k.pieces = [] ∧
      if 0 < cursor.mapOffset ∧ cursor.mapOffset < pair.size then
        k.cursor = cursor ∧ status ≠ .complete
      else
        k.cursor = cursor.next pairs ∧
          (status = .complete ↔ cursor.typeIndex + 1 = ntype ∧ pairs = []) := by
  obtain ⟨rounds, hrounds⟩ : ∃ rounds, ntype - cursor.typeIndex = rounds + 1 :=
    ⟨ntype - cursor.typeIndex - 1, by omega⟩
  rw [typePack_of_not_contiguous hlayout le_rfl, Nat.sub_self, hrounds]
  by_cases hwithin : 0 < cursor.mapOffset ∧ cursor.mapOffset < pair.size
  · rw [typeLoop, if_pos hlt, hdrop, mapLoop_cons_within rfl hwithin.1 hwithin.2]
    simp only [if_pos hwithin]
    exact ⟨_, _, rfl, positions_append_empty _ _, rfl, by rintro ⟨⟩⟩
  · have hout : cursor.mapOffset = 0 ∨ pair.size ≤ cursor.mapOffset := by omega
    obtain ⟨k, status, hloop, hpieces, hcursor, hstatus⟩ := typeLoop_noRoom
      (s := ⟨[], 0, bufsize, cursor⟩) (show cursor.typeIndex + (rounds + 1) = ntype by omega) rfl
      hout hdrop
    rw [hloop]
    simp only [if_neg hwithin]
    exact ⟨k, status, rfl, hpieces, hcursor, hstatus⟩

/-- A call moves nothing, its cursor has the same bytes left, and it is not complete. -/
def KeepsCursor (type : CommittedType) (bufsize ntype : ℕ) (cursor : TypeCursor)
    (rest : List ℤ) : Prop :=
  ∃ k status, typePack type bufsize bufsize ntype cursor = some (k, status) ∧
    positions k.pieces = [] ∧ type.Left ntype k.cursor rest ∧ status ≠ .complete

variable (hlayout : type.contiguous = false)

include hlayout

/-- A cursor can stand behind the last pair of an element.  Then the call goes on to the next
element. -/
lemma keepsCursor_nil (bufsize : ℕ) (hlt : cursor.typeIndex < ntype)
    (hdrop : type.typeMap.drop cursor.mapIndex = []) (hoffset : cursor.mapOffset = 0)
    (hrest : type.leftFrom ntype cursor ≠ []) :
    KeepsCursor type bufsize ntype cursor (type.leftFrom ntype cursor) := by
  obtain ⟨rounds, hrounds⟩ : ∃ rounds, ntype - cursor.typeIndex = rounds + 1 :=
    ⟨ntype - cursor.typeIndex - 1, by omega⟩
  have hnext : type.leftFrom ntype cursor = type.leftFrom ntype ⟨cursor.typeIndex + 1, 0, 0⟩ := by
    rw [leftFrom_start hlt, leftFrom, if_pos hlt, hdrop, hoffset]
    rfl
  have hmore : cursor.typeIndex + 1 < ntype := by
    by_contra hend
    rw [hnext] at hrest
    exact hrest (if_neg hend)
  refine ⟨⟨[], 0, bufsize, cursor.typeIndex + 1, 0, 0⟩, .incompleteVector, ?_, rfl, ?_,
    by rintro ⟨⟩⟩
  · rw [typePack_of_not_contiguous hlayout le_rfl, Nat.sub_self, hrounds, typeLoop, if_pos hlt,
      hdrop]
    simp only [mapLoop, hmore, and_self, if_true, hoffset]
  · rw [left_iff hlayout]
    exact ⟨hlt, zero_le _, hnext⟩

/-- **When the cursor stays where it is**, without any room. -/
theorem keepsCursor_iff {bufsize : ℕ} (hleft : type.Left ntype cursor rest) (hrest : rest ≠ []) :
    KeepsCursor type bufsize ntype cursor rest ↔
      cursor.mapOffset ≠ 0 ∨ headSize (type.typeMap.drop cursor.mapIndex) = 0 := by
  obtain ⟨hle, hoffset, rfl⟩ := (left_iff hlayout).mp hleft
  have hlt : cursor.typeIndex < ntype := by
    by_contra hend
    exact hrest (if_neg hend)
  cases hdrop : type.typeMap.drop cursor.mapIndex with
  | nil =>
    rw [hdrop] at hoffset
    exact iff_of_true (keepsCursor_nil hlayout bufsize hlt hdrop (eq_zero_of_le_zero hoffset)
      hrest) (.inr rfl)
  | cons pair pairs =>
    have hpair : cursor.mapOffset ≤ pair.size := by
      rwa [hdrop] at hoffset
    show _ ↔ cursor.mapOffset ≠ 0 ∨ pair.size = 0
    have hcons := leftFrom_cons hlt hdrop hpair
    obtain ⟨k, status, hcall, hpieces, hstatus⟩ := typePack_noRoom hlayout bufsize hlt hdrop
    have hkeeps : KeepsCursor type bufsize ntype cursor (type.leftFrom ntype cursor) ↔
        type.Left ntype k.cursor (type.leftFrom ntype cursor) ∧ status ≠ .complete := by
      refine ⟨?_, fun h => ⟨k, status, hcall, hpieces, h⟩⟩
      rintro ⟨k', status', hcall', -, hleft', hne⟩
      cases hcall.symm.trans hcall'
      exact ⟨hleft', hne⟩
    rw [hkeeps]
    split_ifs at hstatus with hwithin
    · refine iff_of_true ⟨?_, hstatus.2⟩ (.inl hwithin.1.ne')
      rw [hstatus.1]
      exact hleft
    · obtain ⟨hcursor, hcomplete⟩ := hstatus
      -- the rest of the pair is empty, or the whole pair has been passed over
      rcases Nat.eq_zero_or_pos (pair.size - cursor.mapOffset) with hzero | hpos
      · have hsame : type.leftFrom ntype cursor = type.leftFrom ntype k.cursor := by
          rw [hcons, hcursor, hzero, Run.positions, range_zero]
          rfl
        refine iff_of_true ⟨?_, ?_⟩ (by omega)
        · rw [hsame, hcursor]
          exact left_next hlayout pairs hlt
        · intro hend
          obtain ⟨hindex, hnil⟩ := hcomplete.mp hend
          rw [hsame, hcursor, TypeCursor.next, if_neg (not_not_intro hnil)] at hrest
          exact hrest (if_neg hindex.not_lt)
      · refine iff_of_false ?_ (by omega)
        rintro ⟨hleft', -⟩
        have hsame := ((left_iff hlayout).mp hleft').2.2
        have hlength := congrArg length (hcons.symm.trans hsame)
        rw [hcursor, length_append, Run.length_positions] at hlength
        replace hlength : pair.size - cursor.mapOffset +
          (type.leftFrom ntype (cursor.next pairs)).length =
            (type.leftFrom ntype (cursor.next pairs)).length := hlength
        omega

lemma mpiPack_full {count : ℕ} (hcount : 0 < count) (size : ℕ) :
    (∃ k, mpiPack count type size size = some (.success, k)) ↔
      count = 1 ∧ type.typeMap.length = 1 := by
  obtain ⟨pair, pairs, hmap⟩ : ∃ pair pairs, type.typeMap = pair :: pairs := by
    apply exists_cons_of_ne_nil
    intro hnil
    apply type.positions_ne_nil hlayout
    rw [hnil, positions_nil]
  have hfirst : type.typeMap.drop TypeCursor.init.mapIndex = pair :: pairs := hmap
  obtain ⟨k, status, hcall, -, hstatus⟩ := typePack_noRoom hlayout size hcount hfirst
  have hlength : type.typeMap.length = 1 ↔ pairs = [] := by
    rw [hmap, length_cons, add_eq_right, length_eq_zero_iff]
  have hpack : mpiPack count type size size =
      some (if status = .complete then .success else .errBuffer, k) := by
    rw [mpiPack, hcall]
    rfl
  rw [hpack, hlength, eq_comm (a := count)]
  constructor
  · rintro ⟨k', hk'⟩
    apply hstatus.2.mp
    by_contra hne
    rw [if_neg hne] at hk'
    cases hk'
  · intro hend
    exact ⟨k, by rw [if_pos (hstatus.2.mpr hend)]⟩

end NoRoom

/-- **Calls without any room.**  The cursor stays where it is just if part of the pair has been
copied or the pair is empty, and `MPI_Pack` into a buffer that is full fails unless there is one
element with one pair. -/
theorem typePack_noRoom_iff (type : CommittedType) (hlayout : type.contiguous = false) :
    (∀ (bufsize ntype : ℕ) (cursor : TypeCursor) (rest : List ℤ), type.Left ntype cursor rest →
      rest ≠ [] → (KeepsCursor type bufsize ntype cursor rest ↔
        cursor.mapOffset ≠ 0 ∨ headSize (type.typeMap.drop cursor.mapIndex) = 0)) ∧
    ∀ count size : ℕ, 0 < count → ((¬∃ k, mpiPack count type size size = some (.success, k)) ↔
      ¬(count = 1 ∧ type.typeMap.length = 1)) := by
  refine ⟨fun bufsize ntype cursor rest hleft hrest => keepsCursor_iff hlayout hleft hrest, ?_⟩
  intro count size hcount
  rw [mpiPack_full hlayout hcount]

/-- Within the first integer the cursor stays where it is, and `MPI_Pack` fails. -/
theorem typePack_noRoom_gappedInts :
    KeepsCursor gappedInts 8 1 ⟨0, 0, 1⟩ (gappedInts.leftFrom 1 ⟨0, 0, 1⟩) ∧
      ¬∃ k, mpiPack 1 gappedInts 8 8 = some (.success, k) := by
  obtain ⟨hkeeps, hpack⟩ := typePack_noRoom_iff gappedInts rfl
  refine ⟨(hkeeps 8 1 ⟨0, 0, 1⟩ _ ?_ (by decide)).mpr (.inl (by decide)),
    (hpack 1 8 (by decide)).mpr (by decide)⟩
  exact (left_iff rfl).mpr ⟨by decide, by decide, rfl⟩

/-- An integer as a vector of one block, committed. -/
def vectorOfInt : CommittedType := typeCommit ⟨[⟨4, 0⟩], 0, 4, 0, false⟩ nofun

/-- `MPI_Pack` of such an integer into a buffer that is full reports success, with the cursor behind
the integer and nothing packed. -/
theorem mpiPack_vectorOfInt_full :
    typeVector 1 1 1 mpiInt = .ok vectorOfInt.toDatatype ∧
      vectorOfInt.contiguous = false ∧ vectorOfInt.leftFrom 1 .init = [0, 1, 2, 3] ∧
      vectorOfInt.leftFrom 1 ⟨1, 0, 0⟩ = [] ∧
      typePack vectorOfInt 8 8 1 .init = some (⟨[⟨0, 0⟩], 0, 8, 1, 0, 0⟩, .complete) ∧
      mpiPack 1 vectorOfInt 8 8 = some (.success, ⟨[⟨0, 0⟩], 0, 8, 1, 0, 0⟩) := by
  exact ⟨by decide, rfl, by decide, rfl, rfl, rfl⟩

end Lampi
