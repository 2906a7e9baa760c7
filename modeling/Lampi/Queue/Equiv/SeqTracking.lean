import Lampi.Queue.Equiv.SeqTrackingList

/-!
# Sequence tracking lists as sets of numbers

The reliability protocol records, looks up and erases one sequence number at a time.  `Tracks s S`
says that the list `s` is in good order and records exactly the numbers in `S`.  For single numbers
this holds whether the storage grows and shrinks or not; the one exception is an `erase` that has to
split an element while the storage grows (`EraseMoves`).
-/

namespace Lampi.SeqTrackingList

open RangeList List

variable {c : Storage} {s : SeqTrackingList} {S : Set ℕ} {n : ℕ} {L : List (ℕ × Range)} {f : List ℕ}

/-- The list is in good order and records the numbers in `S`. -/
def Tracks (s : SeqTrackingList) (S : Set ℕ) : Prop :=
  ∃ c L f, c.Sane ∧ Holds c s L f ∧ WellFormed L ∧ nums (L.map Prod.snd) = S

lemma create_tracks {startSize startGrowBy startShrinkBy : ℕ} {shared mallocOk : Bool}
    (hg : startGrowBy < 2 ^ 63) (hk : startShrinkBy < 2 ^ 63)
    (h : create startSize startGrowBy startShrinkBy shared mallocOk = some s) : Tracks s ∅ := by
  obtain ⟨f, hholds⟩ := create_holds hg hk h
  refine ⟨_, [], f, createdStorage_sane _ _ _ _, hholds, ⟨isRangeList_nil, by simp, by simp⟩, ?_⟩
  ext n
  simp [mem_nums]

/-- What is recorded does not depend on whether more storage can be had. -/
lemma Tracks.setMallocOk (h : Tracks s S) (ok : Bool) : Tracks { s with mallocOk := ok } S := by
  obtain ⟨c, L, f, hc, hholds, hw, hS⟩ := h
  refine ⟨{ c with mallocOk := ok }, L, f, ⟨hc.1, hc.2⟩, ?_, hw, hS⟩
  obtain ⟨⟨hrings, hrange, hhint, rfl, hallocated, hbrk⟩, hlist, harray⟩ := hholds
  obtain ⟨hl, hf, hheadp, hfreep, hnodup, hne⟩ := hrings
  exact ⟨⟨⟨hl, hf, hheadp, hfreep, hnodup, hne⟩, hrange, hhint, rfl, hallocated, hbrk⟩, hlist,
    harray⟩

/-! ### Answers about one number -/

private lemma mem_nums_map :
    n ∈ nums (L.map Prod.snd) ↔ ∃ x ∈ L, x.2.lower ≤ n ∧ n ≤ x.2.upper := by
  simp only [mem_nums, mem_map, exists_exists_and_eq_and]

private lemma Answers.mem_iff {a : Recorded} (h : Answers n n L a) :
    n ∈ nums (L.map Prod.snd) ↔ a ≠ .no := by
  rw [mem_nums_map]
  cases a with
  | no =>
    simp only [ne_eq, not_true, iff_false]
    rintro ⟨x, hx, hn⟩
    have hout := h x hx
    omega
  | partially => exact iff_of_true h.1 (by decide)
  | complete => exact iff_of_true h (by decide)

/-- **`isRecorded`** says whether the number is recorded. -/
theorem Tracks.isRecorded (h : Tracks s S) (n : ℕ) :
    ((s.isRecorded n n).1 ≠ .no ↔ n ∈ S) ∧ Tracks (s.isRecorded n n).2 S := by
  obtain ⟨c, L, f, hc, hholds, hw, rfl⟩ := h
  obtain ⟨hanswer, hholds'⟩ := hholds.isRecorded hw (le_refl n)
  exact ⟨hanswer.mem_iff.symm, c, L, f, hc, hholds', hw, rfl⟩

lemma Tracks.lt (h : Tracks s S) (hn : n ∈ S) : n < 2 ^ 64 - 1 := by
  obtain ⟨c, L, f, -, -, hw, rfl⟩ := h
  obtain ⟨x, hx, -, hupper⟩ := mem_nums_map.mp hn
  exact hupper.trans_lt (hw.upper_lt x hx)

lemma Tracks.unique {S' : Set ℕ} (h : Tracks s S) (h' : Tracks s S') : S = S' := by
  ext n
  rw [← (h.isRecorded n).1, (h'.isRecorded n).1]

/-! ### Recording one number -/

private lemma Inserts.tracks {result : Bool × SeqTrackingList} (h : Inserts c n n L f result)
    (hc : c.Sane) (hw : WellFormed L) (hn : 1 ≤ n) (hn' : n < 2 ^ 64 - 1) :
    Tracks result.2 (if result.1 then insert n (nums (L.map Prod.snd))
      else nums (L.map Prod.snd)) := by
  obtain ⟨L', f', hholds, hresult⟩ := h
  split_ifs at hresult ⊢ with hok
  · refine ⟨c, L', f', hc, hholds, hw.insert hresult hn le_rfl hn', ?_⟩
    rw [hresult, nums_insert hw.isRangeList.nonempty le_rfl, Set.Icc_self, Set.union_singleton]
  · exact ⟨c, L', f', hc, hholds, hresult.1 ▸ hw, by rw [hresult.1]⟩

/-- **`recordIfNotRecorded`** says whether the number was recorded, and records it if it was not.
-/
theorem Tracks.recordIfNotRecorded (h : Tracks s S) (hn : 1 ≤ n) (hn' : n < 2 ^ 64 - 1) :
    ((s.recordIfNotRecorded n n).1 ≠ .no ↔ n ∈ S) ∧
      (n ∈ S → (s.recordIfNotRecorded n n).2.1 = true) ∧ Tracks (s.recordIfNotRecorded n n).2.2
        (if (s.recordIfNotRecorded n n).2.1 then insert n S else S) := by
  obtain ⟨c, L, f, hc, hholds, hw, rfl⟩ := h
  obtain ⟨hanswer, hresult⟩ := hholds.recordIfNotRecorded hc hw hn (le_refl n) hn'
  have hmem := hanswer.mem_iff
  refine ⟨hmem.symm, ?_, ?_⟩
  · intro hin
    rw [if_neg (hmem.mp hin)] at hresult
    exact hresult.1
  · by_cases hno : (s.recordIfNotRecorded n n).1 = .no
    · rw [if_pos hno] at hresult
      exact hresult.tracks hc hw hn hn'
    · rw [if_neg hno] at hresult
      rw [hresult.1, if_pos rfl, Set.insert_eq_of_mem (hmem.mpr hno)]
      exact ⟨c, L, f, hc, hresult.2, hw, rfl⟩

/-! ### Erasing one number -/

/-- Erasing the number splits an element when all are in use and the storage can grow.  The list
moves to another array then, and `erase` goes on with the element in the old one. -/
def EraseMoves (s : SeqTrackingList) (n : ℕ) : Prop :=
  s.listSize = s.arraySize ∧ s.growBy ≠ 0 ∧ s.mallocOk = true ∧
    (s.isRecorded n n).1 ≠ .no ∧ (s.isRecorded (n + 1) (n + 1)).1 ≠ .no

instance (s : SeqTrackingList) (n : ℕ) : Decidable (EraseMoves s n) := by
  unfold EraseMoves
  infer_instance

private lemma Holds.splitsInPlace (h : Holds c s L f) (hw : WellFormed L)
    (hmoves : ¬EraseMoves s n) : SplitsInPlace c n n L f := by
  intro hf
  by_contra hnot
  rw [not_or] at hnot
  obtain ⟨hfixed, hsplit⟩ := hnot
  rw [Storage.Fixed, not_or, Bool.not_eq_false] at hfixed
  push Not at hsplit
  obtain ⟨x, hx, hlower, hupper⟩ := hsplit
  have hstorage := h.storage_eq
  refine hmoves ⟨?_, ?_, ?_, ?_, ?_⟩
  · rw [h.listSize_eq, h.arraySize_eq, hf, length_nil]
    omega
  · exact fun hzero => hfixed.1 ((congrArg Storage.growBy hstorage).symm.trans hzero)
  · exact (congrArg Storage.mallocOk hstorage).trans hfixed.2
  · exact (h.isRecorded hw le_rfl).1.mem_iff.mp (mem_nums_map.mpr ⟨x, hx, hlower, by omega⟩)
  · exact (h.isRecorded hw le_rfl).1.mem_iff.mp (mem_nums_map.mpr ⟨x, hx, by omega, hupper⟩)

/-- **`erase`** takes the number out, or fails and changes nothing. -/
theorem Tracks.erase (h : Tracks s S) (hn : 1 ≤ n) (hn' : n < 2 ^ 64 - 1)
    (hmoves : ¬EraseMoves s n) :
    Tracks (s.erase n n).2 (if (s.erase n n).1 then S \ {n} else S) := by
  obtain ⟨c, L, f, hc, hholds, hw, rfl⟩ := h
  obtain ⟨L', f', hholds', hresult⟩ :=
    hholds.erase hc (.inr rfl) (hholds.splitsInPlace hw hmoves) hw hn le_rfl hn'
  split_ifs at hresult ⊢ with hok
  · refine ⟨c, L', f', hc, hholds', hw.erase hresult le_rfl, ?_⟩
    rw [hresult, nums_erase, Set.Icc_self]
  · exact ⟨c, L', f', hc, hholds', hresult.1 ▸ hw, by rw [hresult.1]⟩

/-! ### The numbers in order -/

/-- **`largestInOrder`**: all numbers from 1 to it are recorded, and the next one is not. -/
theorem Tracks.largestInOrder (h : Tracks s S) :
    (∀ m, 1 ≤ m → m ≤ s.largestInOrder → m ∈ S) ∧ s.largestInOrder + 1 ∉ S := by
  obtain ⟨c, L, f, -, hholds, hw, rfl⟩ := h
  exact hholds.largestInOrder_spec hw

end Lampi.SeqTrackingList
