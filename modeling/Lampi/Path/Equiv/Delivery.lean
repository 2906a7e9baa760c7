import Lampi.Lib.Parts
import Lampi.Mpi.Equiv.TypePackRuns
import Lampi.Path.Delivery
import Lampi.Path.Equiv.TypedCopy
import Lampi.Path.Equiv.UdpRecv

/-!
# What a receive writes and counts

`CopyToAppLock` cuts the length of a fragment to what fits into the buffer of the receive, and puts
the rest into the bit bucket.  But `non_contiguous_copy` does not look at that length, and copies as
much of the fragment as there are elements of the message.  So for data that is not contiguous the
buffer is respected, and the bytes are counted right, exactly if each fragment ends where both the
buffer and the elements of the message let it end: **`truncation_iff`**.
-/

namespace Lampi

open RunList List CommittedType Option

/-! ### The fragments of a message -/

lemma length_fragsFrom (msgLength offset : ℕ) (lengths : List ℕ) :
    (fragsFrom msgLength offset lengths).length = lengths.length := by
  induction lengths generalizing offset with
  | nil => rfl
  | cons l lengths ih => exact congrArg (· + 1) (ih _)

variable {lengths : List ℕ} {i : ℕ}

lemma getElem?_fragsFrom {msgLength offset : ℕ} (hi : i < lengths.length) :
    (fragsFrom msgLength offset lengths)[i]? =
      some ⟨offset + (lengths.take i).sum, lengths.getD i 0, msgLength⟩ := by
  induction lengths generalizing offset i with
  | nil => exact absurd hi (Nat.not_lt_zero i)
  | cons l lengths ih =>
    cases i with
    | zero => rfl
    | succ i =>
      rw [fragsFrom, getElem?_cons_succ, ih (Nat.lt_of_succ_lt_succ hi), take_succ_cons,
        sum_cons, Nat.add_assoc]
      rfl

lemma getElem?_fragsOf (hi : i < lengths.length) :
    (fragsOf lengths)[i]? = some ⟨(lengths.take i).sum, lengths.getD i 0, lengths.sum⟩ := by
  rw [fragsOf, getElem?_fragsFrom hi, Nat.zero_add]

lemma lt_of_getElem?_fragsOf {frag : CopyFrag} (hfrag : (fragsOf lengths)[i]? = some frag) :
    i < lengths.length := by
  rw [← length_fragsFrom lengths.sum 0 lengths]
  exact (List.getElem?_eq_some_iff.mp hfrag).1

lemma map_length_fragsFrom (msgLength offset : ℕ) (lengths : List ℕ) :
    (fragsFrom msgLength offset lengths).map CopyFrag.length = lengths := by
  induction lengths generalizing offset with
  | nil => rfl
  | cons l lengths ih => rw [fragsFrom, map_cons, ih]

lemma map_length_fragsOf (lengths : List ℕ) :
    (fragsOf lengths).map CopyFrag.length = lengths := map_length_fragsFrom _ _ _

lemma flatMap_fragsFrom (msgLength offset : ℕ) (lengths : List ℕ) :
    (fragsFrom msgLength offset lengths).flatMap (fun f => range' f.seqOffset f.length) =
      range' offset lengths.sum := by
  induction lengths generalizing offset with
  | nil => rfl
  | cons l lengths ih =>
    rw [fragsFrom, flatMap_cons, ih, range'_append_1, sum_cons]

lemma exists_mem_fragsOf {k : ℕ} :
    (∃ f ∈ fragsOf lengths, f.seqOffset ≤ k ∧ k < f.seqOffset + f.length) ↔ k < lengths.sum := by
  have hmem : k ∈ range' 0 lengths.sum ↔ k < lengths.sum := by
    rw [mem_range'_1, Nat.zero_add, and_iff_right (Nat.zero_le k)]
  rw [← hmem, ← flatMap_fragsFrom lengths.sum, mem_flatMap]
  exact exists_congr fun f => and_congr_right fun _ => mem_range'_1.symm

lemma take_sum_within (hi : i < lengths.length) :
    (lengths.take i).sum + lengths.getD i 0 ≤ lengths.sum := by
  have hsplit := sum_take_add_sum_drop lengths i
  rw [drop_eq_getElem_cons hi, sum_cons] at hsplit
  rw [getD_eq_getElem?_getD, getElem?_eq_getElem hi, getD_some]
  omega

lemma fragsOf_within {f : CopyFrag} (hf : f ∈ fragsOf lengths) :
    f.seqOffset + f.length ≤ lengths.sum := by
  obtain ⟨i, hi, hget⟩ := getElem_of_mem hf
  have hget' := getElem?_eq_some_iff.mpr ⟨hi, hget⟩
  have hlt := lt_of_getElem?_fragsOf hget'
  rw [getElem?_fragsOf hlt] at hget'
  cases hget'
  exact take_sum_within hlt

/-! ### Kinds of fragments -/

namespace FragOps

variable {δ : Type}

/-- As long as `I` holds of the descriptor, the copy function copies all it is called for, and
writes nowhere else. -/
def CopiesAll (ops : FragOps δ) (I : δ → Prop) : Prop :=
  ∀ d buf call, I d → (ops.nonContigCopyFunction (d, buf) call).1 = call.length ∧
    I (ops.nonContigCopyFunction (d, buf) call).2.1 ∧
    Buffer.SameOutside call.positions buf (ops.nonContigCopyFunction (d, buf) call).2.2

/-- The copy function copies nothing: after the first call `J` holds of the descriptor, and
`CheckData` rejects the data. -/
structure CopiesNothing (ops : FragOps δ) (I J : δ → Prop) : Prop where
  first : ∀ d buf call, I d ∨ J d → J (ops.nonContigCopyFunction (d, buf) call).2.1 ∧
    (ops.nonContigCopyFunction (d, buf) call).2.2 = buf
  checkData : ∀ d length answer, J d → ops.checkData d length = some answer → answer.1 = false

/-- A descriptor of a fragment that copies its data, or else fails. -/
def Sound (ops : FragOps δ) (d : δ) : Prop :=
  (∃ I, I d ∧ ops.CopiesAll I) ∨ ∃ I J, I d ∧ ops.CopiesNothing I J

end FragOps

namespace UdpRecvFragDesc

/-- UDP fragments copy their data if there is memory, or they have been read. -/
lemma ops_copiesAll (malloc : Bool) (data : List UInt8) : (ops malloc).CopiesAll
    fun frag => frag.Ready data ∧ (malloc = true ∨ frag.addr = some data) := by
  rintro frag buf call ⟨hready, hmemory⟩
  obtain ⟨hlen, ⟨hready', haddr⟩, hwrite⟩ := nonContigCopyFunction_ready hready hmemory call buf
  refine ⟨hlen, ⟨hready', .inr haddr⟩, ?_⟩
  show Buffer.SameOutside _ _ (nonContigCopyFunction malloc (frag, buf) call).2.2
  rw [hwrite]
  exact Buffer.sameOutside_write _ _ _

/-- **UDP fragments copy their data, or else fail.** -/
theorem ops_sound (malloc shortMsg : Bool) (data : List UInt8) :
    (ops malloc).Sound (init shortMsg data) := by
  rcases memory_or_fails malloc shortMsg data with hmemory | ⟨rfl, rfl⟩
  · exact .inl ⟨_, ⟨ready_init shortMsg data, hmemory⟩, ops_copiesAll malloc data⟩
  · refine .inr ⟨fun frag => frag = init false data, Failed, rfl, ?_, ?_⟩
    · exact fun frag buf call hfrag => nonContigCopyFunction_fails hfrag call buf
    · rintro frag length answer hfailed heq
      cases heq
      exact hfailed.checkData

end UdpRecvFragDesc

/-! ### `CopyToAppLock` -/

section Copy

variable {δ : Type} {ops : FragOps δ} {t : CommittedType} {frag : CopyFrag} {d d' : δ}
  {buf buf' : Buffer} {I : δ → Prop} {postedLength : ℕ} (hlayout : t.contiguous = false)
  (hsizes : ∀ pair ∈ t.typeMap, 0 < pair.size) (hwithin : frag.seqOffset ≤ frag.msgLength)
  (hcnt : frag.msgLength / t.packedSize < 2 ^ 31)

include hlayout hsizes hwithin hcnt

lemma nonContiguousCopy_all (hall : ops.CopiesAll I) (hI : I d) (buf : Buffer) :
    let r := nonContiguousCopy ops.nonContigCopyFunction t frag (d, buf)
    r.1 = t.copiedLength frag ∧ I r.2.1 ∧ Buffer.SameOutside
      ((range' frag.seqOffset (t.copiedLength frag)).map t.positionAt) buf r.2.2 := by
  have hcopies : t.Copies ops.nonContigCopyFunction frag.seqOffset frag.length (t.copyEnd frag)
      fun n s => I s.1 ∧
        Buffer.SameOutside ((range' frag.seqOffset n).map t.positionAt) buf s.2 := by
    rintro n ⟨d, buf'⟩ call ⟨hd, hsame⟩ hnext
    obtain ⟨hlen, hd', hcall⟩ := hall d buf' call hd
    refine ⟨hlen, hd', ?_⟩
    rw [← range'_append_1, map_append, ← hnext.positions]
    exact hsame.append hcall
  obtain ⟨hlen, hd', hsame⟩ := nonContiguousCopy_rule (s := (d, buf)) hsizes
    (packedSize_pos hlayout) hwithin hcnt hcopies ⟨hI, .refl _ _⟩
  rw [hlen] at hsame
  exact ⟨hlen, hd', hsame⟩

omit hlayout hsizes hwithin hcnt in
lemma lengthToCopy_eq (h : ¬postedLength ≤ frag.seqOffset) :
    (if (postedLength : ℤ) - frag.seqOffset < frag.length then
      ((postedLength : ℤ) - frag.seqOffset).toNat else frag.length) =
      min frag.length (postedLength - frag.seqOffset) := by
  split_ifs <;> omega

/-- The bytes a fragment counts as copied and as discarded. -/
def CommittedType.counted (t : CommittedType) (postedLength : ℕ) (frag : CopyFrag) : ℕ × ℕ :=
  if postedLength ≤ frag.seqOffset then (0, frag.length)
  else (t.copiedLength frag, frag.length - min frag.length (postedLength - frag.seqOffset))

/-- **What `CopyToAppLock` does for a fragment.** -/
theorem copyToAppLock_spec (hsound : ops.Sound d) {bytes : Option (ℕ × ℕ)}
    (hs : copyToAppLock ops (some t) postedLength frag (d, buf) = some (bytes, d', buf')) :
    Buffer.SameOutside ((range' frag.seqOffset (t.counted postedLength frag).1).map
      t.positionAt) buf buf' ∧ (bytes = none ∨ bytes = some (t.counted postedLength frag)) := by
  simp only [copyToAppLock] at hs
  by_cases hbehind : postedLength ≤ frag.seqOffset
  · rw [if_pos (by omega)] at hs
    obtain ⟨rfl, heq⟩ := Prod.mk.inj (some.inj hs)
    obtain ⟨-, rfl⟩ := Prod.mk.inj heq
    rw [counted, if_pos hbehind]
    exact ⟨.refl _ _, .inr rfl⟩
  · rw [if_neg (by omega), if_neg (hlayout ▸ Bool.false_ne_true), bind_some] at hs
    obtain ⟨answer, hanswer, heq⟩ := map_eq_some_iff.mp hs
    obtain ⟨hbytes, heq⟩ := Prod.mk.inj heq
    obtain ⟨-, rfl⟩ := Prod.mk.inj heq
    rw [counted, if_neg hbehind]
    rcases hsound with ⟨I, hd, hall⟩ | ⟨I, J, hd, hnothing⟩
    · obtain ⟨hcopied, -, hsame⟩ := nonContiguousCopy_all hlayout hsizes hwithin hcnt hall hd buf
      refine ⟨hsame, ?_⟩
      rw [← hbytes, lengthToCopy_eq hbehind, hcopied]
      cases answer.1 with
      | false => exact .inl rfl
      | true => exact .inr rfl
    · -- without its data, the fragment is rejected
      have hkept : J (nonContiguousCopy ops.nonContigCopyFunction t frag (d, buf)).2.1 ∧
          (nonContiguousCopy ops.nonContigCopyFunction t frag (d, buf)).2.2 = buf := by
        apply nonContiguousCopy_keeps (P := fun s : δ × Buffer => I s.1 ∧ s.2 = buf)
          (Q := fun s : δ × Buffer => J s.1 ∧ s.2 = buf)
        · rintro ⟨d, buf⟩ call ⟨hd, rfl⟩
          exact hnothing.first d buf call (.inl hd)
        · rintro ⟨d, buf⟩ call ⟨hd, rfl⟩
          exact hnothing.first d buf call (.inr hd)
        · exact ⟨hd, rfl⟩
      obtain ⟨hJ, hbuf⟩ := hkept
      rw [hnothing.checkData _ _ answer hJ hanswer] at hbytes
      refine ⟨?_, .inl hbytes.symm⟩
      rw [hbuf]
      exact .refl _ _

lemma copyToAppLock_accepted (hall : ops.CopiesAll I) (hd : I d)
    (hcheck : ∀ d length, I d → ∃ d', ops.checkData d length = some (true, d')) (postedLength : ℕ)
    (buf : Buffer) :
    ∃ d' buf', copyToAppLock ops (some t) postedLength frag (d, buf) =
      some (some (t.counted postedLength frag), d', buf') := by
  simp only [copyToAppLock]
  by_cases hbehind : postedLength ≤ frag.seqOffset
  · rw [if_pos (by omega), counted, if_pos hbehind]
    exact ⟨_, _, rfl⟩
  · obtain ⟨hcopied, hd', -⟩ := nonContiguousCopy_all hlayout hsizes hwithin hcnt hall hd buf
    obtain ⟨d', hanswer⟩ := hcheck _ (t.copiedLength frag) hd'
    rw [if_neg (by omega), if_neg (hlayout ▸ Bool.false_ne_true), bind_some, hcopied, hanswer,
      lengthToCopy_eq hbehind, counted, if_neg hbehind]
    exact ⟨_, _, rfl⟩

end Copy

/-! ### Runs -/

namespace Delivery

variable {t : CommittedType} {postedLength : ℕ} {lengths : List ℕ} {buf : Buffer} {s s' : Delivery}
  {δ : Type} {ops : FragOps δ} {d : δ}

/-- The fragments of the message are delivered in any order, by any sound kinds of fragments. -/
inductive Reaches (t : CommittedType) (postedLength : ℕ) (lengths : List ℕ) (buf : Buffer) :
    Delivery → Prop
  | start : Reaches t postedLength lengths buf (start lengths.sum buf)
  | copy {s s' : Delivery} {δ : Type} {ops : FragOps δ} {i : ℕ} {d : δ}
      (h : Reaches t postedLength lengths buf s) (hsound : ops.Sound d)
      (hs : s.copyToApp ops (some t) postedLength (fragsOf lengths) i d = some s') :
      Reaches t postedLength lengths buf s'

/-- Only bytes of packed offsets below the posted length have been written, the bytes of the
accepted fragments counted, and the receive is done exactly if all have been accepted. -/
structure Truncates (t : CommittedType) (postedLength : ℕ) (lengths : List ℕ) (buf : Buffer)
    (s : Delivery) : Prop where
  written : Buffer.SameOutside ((range postedLength).map t.positionAt) buf s.buf
  counted : s.counts.dataReceived + s.counts.dataInBitBucket =
    (s.accepted.map (lengths.getD · 0)).sum
  done : s.recvDone = true ↔ ∀ i < lengths.length, i ∈ s.accepted

/-- Fragment `i` begins behind the buffer; or in an element of the message, and there is as much of
it up to the end of these as up to the end of the buffer; or behind them, and no entry of the type
map begins within it. -/
def Fits (t : CommittedType) (postedLength : ℕ) (lengths : List ℕ) (i : ℕ) : Prop :=
  let offset := (lengths.take i).sum
  let length := lengths.getD i 0
  let elements := lengths.sum / t.packedSize * t.packedSize
  postedLength ≤ offset ∨
    (offset < elements ∧ min length (elements - offset) = min length (postedLength - offset)) ∨
    (elements ≤ offset ∧ ∀ j < t.typeMap.length, offset % t.packedSize < t.seqOffset j →
      offset % t.packedSize + length ≤ t.seqOffset j)

instance (i : ℕ) : Decidable (Fits t postedLength lengths i) := inferInstanceAs (Decidable (_ ∨ _))

/-- Then what is copied of it is what fits into the buffer. -/
lemma fits_iff (hsizes : ∀ pair ∈ t.typeMap, 0 < pair.size) (hpacked : 0 < t.packedSize) {count : ℕ}
    (hi : i < lengths.length) : Fits t (count * t.packedSize) lengths i ↔
      count * t.packedSize ≤ (lengths.take i).sum ∨
        t.copiedLength ⟨(lengths.take i).sum, lengths.getD i 0, lengths.sum⟩ =
          min (lengths.getD i 0) (count * t.packedSize - (lengths.take i).sum) := by
  have hwithin := take_sum_within hi
  unfold Fits copiedLength copyEnd
  dsimp only
  set off := (lengths.take i).sum
  set length := lengths.getD i 0
  set elements := lengths.sum / t.packedSize * t.packedSize with helements
  refine or_congr_right' fun hfront => ?_
  have hoff := offset_eq t off
  have hmsg := offset_eq t lengths.sum
  have hmod := Nat.mod_lt lengths.sum hpacked
  by_cases hin : off < elements
  · have hrounds : ¬lengths.sum / t.packedSize - off / t.packedSize = 0 := by
      have := (Nat.div_lt_iff_lt_mul hpacked).mpr hin
      omega
    rw [if_neg hrounds]
    simp only [hin, true_and, not_le.mpr hin, false_and, or_false]
  · -- the fragment is in the element that is not complete, and ends within it
    have hlast : off / t.packedSize = lengths.sum / t.packedSize :=
      le_antisymm (Nat.div_le_div_right (by omega))
        ((Nat.le_div_iff_mul_le hpacked).mpr (not_lt.mp hin))
    have hroom : elements + t.packedSize ≤ count * t.packedSize := by
      rw [helements, ← Nat.succ_mul, ← hlast]
      apply Nat.mul_le_mul_right
      exact Nat.succ_le_of_lt ((Nat.div_lt_iff_lt_mul hpacked).mpr (not_le.mp hfront))
    obtain ⟨hlt, hfrom, hto⟩ := startEntry_hasByte hsizes hpacked off
    have hend : min length (count * t.packedSize - off) = length := by omega
    rw [if_pos (by omega), hend, hlast, ← helements]
    rw [hlast, ← helements] at hoff
    simp only [hin, false_and, false_or, not_lt.mp hin, true_and]
    constructor
    · intro hentries
      rcases Nat.lt_or_ge (t.startEntry off + 1) t.typeMap.length with hnext | hnone
      · have := hentries _ hnext hto
        omega
      · have hfull : t.seqOffset (t.startEntry off + 1) = t.packedSize := by
          rw [show t.startEntry off + 1 = t.typeMap.length by omega, seqOffset_length]
        omega
    · intro hcopied j hj hbehind
      have hmono := seqOffset_le (t := t) (show t.startEntry off + 1 ≤ j by
        by_contra hbefore
        have := seqOffset_le (t := t) (show j ≤ t.startEntry off by omega)
        omega)
      omega

/-- What holds throughout, if all fragments fit. -/
structure Inv (t : CommittedType) (postedLength : ℕ) (lengths : List ℕ) (buf : Buffer)
    (s : Delivery) : Prop where
  resltsLength : s.counts.resltsLength = lengths.sum
  nodup : s.accepted.Nodup
  lt : ∀ i ∈ s.accepted, i < lengths.length
  written : Buffer.SameOutside ((range postedLength).map t.positionAt) buf s.buf
  counted : s.counts.dataReceived + s.counts.dataInBitBucket =
    (s.accepted.map (lengths.getD · 0)).sum
  done : s.recvDone = true ↔ s.accepted ≠ [] ∧ lengths.sum ≤ (s.accepted.map (lengths.getD · 0)).sum

/-- A fragment that fits is counted with all its bytes, and written below the posted length. -/
lemma counted_of_fits (h : postedLength ≤ (lengths.take i).sum ∨
      t.copiedLength ⟨(lengths.take i).sum, lengths.getD i 0, lengths.sum⟩ =
        min (lengths.getD i 0) (postedLength - (lengths.take i).sum)) :
    let bytes := t.counted postedLength ⟨(lengths.take i).sum, lengths.getD i 0, lengths.sum⟩
    bytes.1 + bytes.2 = lengths.getD i 0 ∧
      range' (lengths.take i).sum bytes.1 ⊆ range postedLength := by
  rw [CommittedType.counted]
  split_ifs with hbehind
  · exact ⟨Nat.zero_add _, nil_subset _⟩
  · have hcopied := h.resolve_left hbehind
    rw [hcopied]
    dsimp only at hbehind ⊢
    refine ⟨by omega, fun k hk => ?_⟩
    rw [mem_range'_1] at hk
    rw [mem_range]
    omega

section Run

variable (hlayout : t.contiguous = false) (hsizes : ∀ pair ∈ t.typeMap, 0 < pair.size)
  (hcnt : lengths.sum / t.packedSize < 2 ^ 31)

include hlayout hsizes hcnt

/-- What a delivery does: it writes the fragment, and counts it if the data is accepted. -/
lemma copyToApp_cases (hsound : ops.Sound d)
    (hs : s.copyToApp ops (some t) postedLength (fragsOf lengths) i d = some s') :
    i ∉ s.accepted ∧ i < lengths.length ∧ ∃ buf',
      let bytes := t.counted postedLength ⟨(lengths.take i).sum, lengths.getD i 0, lengths.sum⟩
      Buffer.SameOutside ((range' (lengths.take i).sum bytes.1).map t.positionAt) s.buf buf' ∧
        (s' = { s with buf := buf' } ∨ s' = s.deliver i bytes.1 bytes.2 buf') := by
  unfold copyToApp at hs
  split_ifs at hs with hnew
  obtain ⟨frag, hfrag, hs⟩ := bind_eq_some_iff.mp hs
  have hi := lt_of_getElem?_fragsOf hfrag
  rw [getElem?_fragsOf hi] at hfrag
  cases hfrag
  obtain ⟨⟨bytes, d', buf'⟩, hcopy, rfl⟩ := map_eq_some_iff.mp hs
  obtain ⟨hsame, hbytes⟩ := copyToAppLock_spec hlayout hsizes
    (Nat.le_of_add_right_le (take_sum_within hi)) hcnt hsound hcopy
  refine ⟨hnew, hi, buf', hsame, ?_⟩
  rcases hbytes with rfl | rfl
  · exact .inl rfl
  · exact .inr rfl

lemma Inv.copy {count : ℕ} (hfits : ∀ i < lengths.length, Fits t (count * t.packedSize) lengths i)
    (h : Inv t (count * t.packedSize) lengths buf s) (hsound : ops.Sound d)
    (hs : s.copyToApp ops (some t) (count * t.packedSize) (fragsOf lengths) i d = some s') :
    Inv t (count * t.packedSize) lengths buf s' := by
  obtain ⟨hnew, hi, buf', hsame, hcases⟩ := copyToApp_cases hlayout hsizes hcnt hsound hs
  obtain ⟨hbytes, hbelow⟩ :=
    counted_of_fits ((fits_iff hsizes (packedSize_pos hlayout) hi).mp (hfits i hi))
  have hwritten : Buffer.SameOutside ((range (count * t.packedSize)).map t.positionAt) buf buf' :=
    h.written.trans (hsame.mono (map_subset _ hbelow))
  rcases hcases with rfl | rfl
  · exact ⟨h.resltsLength, h.nodup, h.lt, hwritten, h.counted, h.done⟩
  · have hsum : ((s.accepted ++ [i]).map (lengths.getD · 0)).sum =
        (s.accepted.map (lengths.getD · 0)).sum + lengths.getD i 0 := by
      rw [map_append, sum_append, map_singleton, sum_singleton]
    have hcounted := h.counted
    refine ⟨h.resltsLength, ?_, ?_, hwritten, ?_, ?_⟩
    · show (s.accepted ++ [i]).Nodup
      rw [← concat_eq_append]
      exact h.nodup.concat hnew
    · intro j hj
      rcases mem_append.mp hj with hj | hj
      · exact h.lt j hj
      · exact (mem_singleton.mp hj).symm ▸ hi
    · show _ + _ + (_ + _) = ((s.accepted ++ [i]).map (lengths.getD · 0)).sum
      omega
    · show (s.recvDone || decide (_ + _ + (_ + _) ≥ s.counts.resltsLength)) = true ↔
        s.accepted ++ [i] ≠ [] ∧ _ ≤ ((s.accepted ++ [i]).map (lengths.getD · 0)).sum
      rw [Bool.or_eq_true, decide_eq_true_eq, h.done, h.resltsLength, hsum]
      have hne : s.accepted ++ [i] ≠ [] := by simp
      refine ⟨fun hdone => ⟨hne, ?_⟩, fun hdone => .inr ?_⟩
      · rcases hdone with ⟨-, hdone⟩ | hdone
        · omega
        · omega
      · omega

/-- **If all fragments fit**, the receive is cut at its posted length in every run. -/
theorem Reaches.truncates {count : ℕ} (hsplit : Parts.IsSplit lengths)
    (hfits : ∀ i < lengths.length, Fits t (count * t.packedSize) lengths i)
    (h : Reaches t (count * t.packedSize) lengths buf s) :
    Truncates t (count * t.packedSize) lengths buf s := by
  have hinv : Inv t (count * t.packedSize) lengths buf s := by
    induction h with
    | start =>
      refine ⟨rfl, nodup_nil, nofun, .refl _ _, rfl, ?_⟩
      exact ⟨Bool.noConfusion, fun hdone => absurd rfl hdone.1⟩
    | copy _ hsound hs ih => exact ih.copy hlayout hsizes hcnt hfits hsound hs
  refine ⟨hinv.written, hinv.counted, hinv.done.trans ⟨fun hdone => ?_, fun hall => ?_⟩⟩
  · exact (Parts.sum_le_sum_getD_iff hsplit hinv.lt hinv.nodup hdone.1).mp hdone.2
  · have hne : s.accepted ≠ [] := ne_nil_of_mem (hall 0 (length_pos_iff.mpr hsplit.ne_nil))
    exact ⟨hne, (Parts.sum_le_sum_getD_iff hsplit hinv.lt hinv.nodup hne).mpr hall⟩

/-- Any fragment may be the first to arrive, here in a short datagram. -/
lemma exists_first (hi : i < lengths.length) :
    ∃ s, Reaches t postedLength lengths buf s ∧ s.accepted = [i] ∧
      (s.counts.dataReceived, s.counts.dataInBitBucket) =
        t.counted postedLength ⟨(lengths.take i).sum, lengths.getD i 0, lengths.sum⟩ := by
  set frag : CopyFrag := ⟨(lengths.take i).sum, lengths.getD i 0, lengths.sum⟩ with hfrag
  set data : List UInt8 := replicate frag.length 0
  have hwithin : frag.seqOffset ≤ frag.msgLength := Nat.le_of_add_right_le (take_sum_within hi)
  obtain ⟨d', buf', hcopy⟩ := copyToAppLock_accepted hlayout hsizes hwithin hcnt
    (UdpRecvFragDesc.ops_copiesAll true data) ⟨UdpRecvFragDesc.ready_init true data, .inl rfl⟩
    (fun d _ hd => ⟨d.checkData.2, by rw [← hd.1.checkData]; rfl⟩) postedLength buf
  have hs : (start lengths.sum buf).copyToApp (UdpRecvFragDesc.ops true) (some t) postedLength
      (fragsOf lengths) i (.init true data) = some ((start lengths.sum buf).deliver i
        (t.counted postedLength frag).1 (t.counted postedLength frag).2 buf') := by
    have hnew : i ∉ (start lengths.sum buf).accepted := not_mem_nil
    rw [copyToApp, if_neg hnew, getElem?_fragsOf hi, bind_some]
    show (copyToAppLock _ _ _ frag (UdpRecvFragDesc.init true data, buf)).map _ = _
    rw [hcopy]
    rfl
  refine ⟨_, .copy .start (UdpRecvFragDesc.ops_sound true true data) hs, rfl, ?_⟩
  show (0 + _, 0 + _) = _
  rw [Nat.zero_add, Nat.zero_add]

end Run

/-- **Truncation of data that is not contiguous**, for a message of fewer than 2³¹ elements. -/
theorem truncation_iff (t : CommittedType) (hlayout : t.contiguous = false)
    (hsizes : ∀ pair ∈ t.typeMap, 0 < pair.size) (count : ℕ) (lengths : List ℕ)
    (hsplit : Parts.IsSplit lengths) (hcnt : lengths.sum / t.packedSize < 2 ^ 31) :
    (∀ buf s, Reaches t (count * t.packedSize) lengths buf s →
      Truncates t (count * t.packedSize) lengths buf s) ↔
      ∀ i < lengths.length, Fits t (count * t.packedSize) lengths i := by
  refine ⟨fun h i hi => ?_, fun hfits buf s hs => hs.truncates hlayout hsizes hcnt hsplit hfits⟩
  rw [fits_iff hsizes (packedSize_pos hlayout) hi]
  by_cases hbehind : count * t.packedSize ≤ (lengths.take i).sum
  · exact .inl hbehind
  right
  -- it is counted right when it is the first to arrive
  obtain ⟨s, hs, haccepted, hcounts⟩ :
      ∃ s, Reaches t (count * t.packedSize) lengths (fun _ => 0) s ∧ s.accepted = [i] ∧
        (s.counts.dataReceived, s.counts.dataInBitBucket) = t.counted (count * t.packedSize)
          ⟨(lengths.take i).sum, lengths.getD i 0, lengths.sum⟩ :=
    exists_first hlayout hsizes hcnt hi
  have hcounted := (h _ s hs).counted
  rw [counted, if_neg hbehind] at hcounts
  obtain ⟨hreceived, hbucket⟩ := Prod.mk.inj hcounts
  rw [haccepted, map_singleton, sum_singleton, hreceived, hbucket] at hcounted
  dsimp only at hcounted ⊢
  omega

/-- Three elements of 8 bytes, one in each fragment, for a receive of two. -/
theorem truncation_iff_gappedInts :
    (∀ i < 3, Fits gappedInts (2 * gappedInts.packedSize) [8, 8, 8] i) ∧
      ∀ buf s, Reaches gappedInts (2 * gappedInts.packedSize) [8, 8, 8] buf s →
        Truncates gappedInts (2 * gappedInts.packedSize) [8, 8, 8] buf s := by
  have hfits : ∀ i < 3, Fits gappedInts (2 * gappedInts.packedSize) [8, 8, 8] i := by decide
  exact ⟨hfits, (truncation_iff gappedInts rfl (by decide) 2 [8, 8, 8] (by decide)
    (by decide)).mpr hfits⟩

/-- Two elements in one fragment, for a receive of one: both are written, and 24 bytes are counted.
One and a half elements, for a receive of two: 8 bytes are counted, and the receive is not done. -/
theorem gappedInts_overrun :
    (∃ s, Reaches gappedInts gappedInts.packedSize [16] (fun _ => 0) s ∧
      s.counts = ⟨16, 16, 8⟩ ∧ s.buf 12 = 1 ∧
      12 ∉ ((range gappedInts.packedSize).map gappedInts.positionAt).map (BitVec.ofInt 64)) ∧
    ∃ s, Reaches gappedInts (2 * gappedInts.packedSize) [12] (fun _ => 0) s ∧
      s.accepted = [0] ∧ s.counts = ⟨12, 8, 0⟩ ∧ s.recvDone = false := by
  constructor
  · have hrun : ((start 16 fun _ => 0).copyToApp (UdpRecvFragDesc.ops true) (some gappedInts)
        gappedInts.packedSize (fragsOf [16]) 0 (.init true (replicate 16 1))).map
          (fun s => (s.counts, s.buf 12)) = some (⟨16, 16, 8⟩, 1) := by decide
    obtain ⟨s, hs, heq⟩ := map_eq_some_iff.mp hrun
    obtain ⟨hcounts, hbyte⟩ := Prod.mk.inj heq
    exact ⟨s, .copy .start (UdpRecvFragDesc.ops_sound true true _) hs, hcounts, hbyte, by decide⟩
  · have hrun : ((start 12 fun _ => 0).copyToApp (UdpRecvFragDesc.ops true) (some gappedInts)
        (2 * gappedInts.packedSize) (fragsOf [12]) 0 (.init true (replicate 12 1))).map
          (fun s => (s.accepted, s.counts, s.recvDone)) = some ([0], ⟨12, 8, 0⟩, false) := by
      decide
    obtain ⟨s, hs, heq⟩ := map_eq_some_iff.mp hrun
    obtain ⟨haccepted, heq⟩ := Prod.mk.inj heq
    obtain ⟨hcounts, hdone⟩ := Prod.mk.inj heq
    exact ⟨s, .copy .start (UdpRecvFragDesc.ops_sound true true _) hs, haccepted, hcounts, hdone⟩

end Delivery

end Lampi
