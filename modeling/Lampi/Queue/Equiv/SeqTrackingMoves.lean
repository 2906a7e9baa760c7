import Lampi.Queue.Equiv.SeqTrackingFixed

/-!
# Storage that grows and shrinks

A list whose storage changes moves to another array, and the handles `record` and `erase` hold on to
are stale then.  A call is the union or the difference, without using a stale handle, if and only if
the list does not move before its handles are used for the last time
(`recordErase_recorded_iff`).  If the storage never shrinks, `erase` is the only call that can fail
so: it splits a range when all elements are in use (`erase_grow_recorded_iff`).
-/

namespace Lampi.SeqTrackingList

open LinkedRing RangeList Option Function

variable {s s' s₀ : SeqTrackingList} {L : List (ℕ × Range)} {f : List ℕ} {lo hi n : ℕ} {c : Storage}
  {result : Bool × SeqTrackingList}

/-! ### Storage that may shrink -/

/-- The call has the result `o`: it fails only if there is no memory, and changes nothing then. -/
def Realises (s : SeqTrackingList) (o : Option (Bool × SeqTrackingList)) (S : Set ℕ) : Prop :=
  ∃ ok t, o = some (ok, t) ∧ t.recorded = (if ok then S else s.recorded) ∧
    (ok = false → s.growBy = 0 ∨ s.mallocOk = false)

private lemma Holds.fixed_iff (h : Holds c s L f) :
    s.growBy = 0 ∨ s.mallocOk = false ↔ c.Fixed := by
  rw [← not_iff_not, ← h.not_fixed_iff, not_or, Bool.not_eq_false]

lemma Inserts.realises (h : Inserts c lo hi L f result) (hholds : Holds c s L f)
    (hw : WellFormed L) (hle : lo ≤ hi) :
    Realises s (some result) (s.recorded ∪ Set.Icc lo hi) := by
  refine ⟨result.1, result.2, rfl, h.recorded_eq hholds hw hle, fun hfail => ?_⟩
  obtain ⟨L', f', -, hresult⟩ := h
  rw [hfail] at hresult
  exact hholds.fixed_iff.mpr hresult.2.2.1

lemma Erases.realises (h : Erases c lo hi L f result) (hholds : Holds c s L f) :
    Realises s (some result) (s.recorded \ Set.Icc lo hi) := by
  refine ⟨result.1, result.2, rfl, h.recorded_eq hholds, fun hfail => ?_⟩
  obtain ⟨L', f', -, hresult⟩ := h
  rw [hfail] at hresult
  exact hholds.fixed_iff.mpr hresult.2.2.1

private lemma ResultUnless.realises_iff {moves : Prop} {o : Option (Bool × SeqTrackingList)}
    {P : Bool × SeqTrackingList → Prop} {S : Set ℕ} (h : ResultUnless moves o P)
    (hP : ∀ r, P r → Realises s (Option.some r) S) : Realises s o S ↔ ¬moves := by
  constructor
  · rintro ⟨ok, t, ho, -⟩ hmoves
    rw [h.stale hmoves] at ho
    cases ho
  · intro hnot
    obtain ⟨r, rfl, hr⟩ := h.result hnot
    exact hP r hr

/-- **`record` and `erase` with storage that changes**: in every state reached without a stale
handle, a call uses no stale handle and is the union or the difference if and only if the list does
not move before the call has used its handles for the last time. -/
theorem recordErase_recorded_iff {startSize startGrowBy startShrinkBy : ℕ} {shared mallocOk : Bool}
    (hg : startGrowBy < 2 ^ 63) (hk : startShrinkBy < 2 ^ 63)
    (hcreate : create startSize startGrowBy startShrinkBy shared mallocOk = some s₀)
    (hs : Reachable InPlace s₀ s) {lower upper : ℕ} (hlower : 1 ≤ lower) (hle : lower ≤ upper)
    (hupper : upper < 2 ^ 64 - 1) :
    (Realises s (s.recordChecked lower upper) (s.recorded ∪ Set.Icc lower upper) ↔
      ¬s.RecordMoves lower upper) ∧
    (Realises s (s.eraseChecked lower upper) (s.recorded \ Set.Icc lower upper) ↔
      ¬s.EraseMovesRange lower upper) := by
  have hsane := createdStorage_sane startGrowBy startShrinkBy shared mallocOk
  have hvalid := hs.valid_of_inPlace hsane (create_valid hg hk hcreate) fun _ _ _ hcall => hcall
  obtain ⟨L, f, hholds, hw⟩ := hvalid
  constructor
  · apply (hholds.recordChecked hsane hw hlower hle hupper).realises_iff
    intro r hr
    exact hr.realises hholds hw hle
  · apply (hholds.eraseChecked hsane hw hlower hle hupper).realises_iff
    intro r hr
    exact hr.realises hholds

/-- Both elements are given back; the list moves to a smaller array with the second. -/
theorem recordErase_recorded_iff_last :
    ∃ s₀, create 0 1 1 false true = some s₀ ∧ Realises (s₀.run [.record 1 1, .record 3 3])
        ((s₀.run [.record 1 1, .record 3 3]).eraseChecked 1 3)
        ((s₀.run [.record 1 1, .record 3 3]).recorded \ Set.Icc 1 3) := by
  have hrun : (create 0 1 1 false true).map (fun s =>
      decide (AllAllowed InPlace s [.record 1 1, .record 3 3] ∧
        ¬(s.run [.record 1 1, .record 3 3]).EraseMovesRange 1 3)) = some true := by decide
  obtain ⟨s₀, hcreate, hstate⟩ := map_eq_some_iff.mp hrun
  obtain ⟨hcalls, hnot⟩ := of_decide_eq_true hstate
  exact ⟨s₀, hcreate, (recordErase_recorded_iff (by decide) (by decide) hcreate
    (Reachable.start.run hcalls) (by decide) (by decide) (by decide)).2.mpr hnot⟩

/-- Two of three elements in use, and an array that shrinks when more than one is unused: it does so
when the first range is given back.  The second one is cut in the old array, and 3 stays
recorded. -/
theorem erase_shrinks_early :
    ∃ s₀, create 0 3 1 false true = some s₀ ∧
      Reachable InPlace s₀ (s₀.run [.record 1 1, .record 3 4]) ∧
      (s₀.run [.record 1 1, .record 3 4]).eraseChecked 1 3 = none ∧
      3 ∈ ((s₀.run [.record 1 1, .record 3 4]).erase 1 3).2.recorded := by
  have hrun : (create 0 3 1 false true).map (fun s₀ =>
      let s := s₀.run [.record 1 1, .record 3 4]
      let t := (s.erase 1 3).2
      (decide (AllAllowed InPlace s₀ [.record 1 1, .record 3 4]),
        (s.eraseChecked 1 3).isNone, decide (t.headp = 0), t.lower t.headp, t.upper t.headp)) =
      some (true, true, false, 3, 4) := by decide +kernel
  obtain ⟨s₀, hcreate, hstate⟩ := map_eq_some_iff.mp hrun
  simp only [Prod.mk.injEq] at hstate
  obtain ⟨hcalls, hnone, hheadp, hlower, hupper⟩ := hstate
  refine ⟨s₀, hcreate, Reachable.start.run (of_decide_eq_true hcalls),
    isNone_iff_eq_none.mp hnone, of_decide_eq_false hheadp, 0, ?_, ?_⟩
  · rw [iterate_zero, id, hlower]
  · rw [iterate_zero, id, hupper]
    decide

/-! ### Storage that only grows -/

/-- All elements are in use, and the range lies in a recorded one that goes on behind it. -/
def SplitsWhenFull (s : SeqTrackingList) (lower upper : ℕ) : Prop :=
  s.listSize = s.arraySize ∧ Set.Icc lower (upper + 1) ⊆ s.recorded

lemma Holds.splitsWhenFull_iff (h : Holds c s L f) (hw : WellFormed L) (hle : lo ≤ hi) :
    SplitsWhenFull s lo hi ↔ f = [] ∧ ∃ x ∈ L, x.2.lower ≤ lo ∧ hi < x.2.upper := by
  rw [SplitsWhenFull, h.listSize_eq_arraySize_iff]
  refine and_congr_right fun _ => ?_
  constructor
  · intro hsub
    rw [h.recorded_eq] at hsub
    obtain ⟨r, hr, hl, hu⟩ := hw.isRangeList.exists_of_subset (by omega) hsub
    obtain ⟨x, hx, rfl⟩ := List.mem_map.mp hr
    exact ⟨x, hx, hl, hu⟩
  · rintro ⟨x, hx, hl, hu⟩ n ⟨hn, hn'⟩
    exact h.mem_recorded.mpr ⟨x, hx, by omega, by omega⟩

/-- If the storage never shrinks, only splitting a range makes a handle stale. -/
lemma Holds.eraseMovesRange_iff (h : Holds c s L f) (hc : c.shrinkBy = 0) (hfixed : ¬c.Fixed)
    (hw : WellFormed L) (hle : lo ≤ hi) : s.EraseMovesRange lo hi ↔ SplitsWhenFull s lo hi := by
  rw [h.splitsWhenFull_iff hw hle]
  constructor
  · intro hmoves
    by_contra hnot
    refine h.not_eraseMovesRange (.inl hc) (fun hf => .inr ?_) hw hle hmoves
    rintro x hx ⟨hl, hu⟩
    exact hnot ⟨hf, x, hx, hl, hu⟩
  · rintro ⟨hf, x, hx, hl, hu⟩
    obtain ⟨s', p, q, hfind, hs', hup, hp0, hloc⟩ :=
      h.located (List.ne_nil_of_mem hx) hw.isRangeList hle
    obtain ⟨rfl, rfl⟩ := hloc.inside hw hle hx hl hu
    unfold EraseMovesRange
    simp only [hfind, hup, ne_eq, not_true, if_false]
    rw [hs'.lower_eq hx, hs'.upper_eq hx, hs'.listSize_eq_arraySize_iff, ← ne_eq s'.growBy,
      hs'.not_fixed_iff]
    exact ⟨hp0, hl, hu, hf, hfixed⟩

/-- Calls that split no range when all elements are in use. -/
def SplitsInRoom (s : SeqTrackingList) : Call → Prop
  | .record _ upper => upper < 2 ^ 64 - 1
  | .erase lower upper =>
    upper < 2 ^ 64 - 1 ∧ (1 ≤ lower → lower ≤ upper → ¬SplitsWhenFull s lower upper)
  | .recordIfNotRecorded _ upper => upper < 2 ^ 64 - 1

lemma Valid.inPlace_of_splitsInRoom {call : Call} (h : Valid c s) (hc : c.shrinkBy = 0)
    (hfixed : ¬c.Fixed) (hcall : SplitsInRoom s call) : s.InPlace call := by
  obtain ⟨L, f, hholds, hw⟩ := h
  cases call with
  | record lo hi => exact ⟨hcall, fun _ hle => hholds.not_recordMoves (.inl hc) hw hle⟩
  | erase lo hi =>
    refine ⟨hcall.1, fun hlo hle => ?_⟩
    rw [hholds.eraseMovesRange_iff hc hfixed hw hle]
    exact hcall.2 hlo hle
  | recordIfNotRecorded lo hi => exact hcall

/-- **`erase` with storage that only grows** is the difference, unless it splits a range when all
elements are in use: the list moves to a larger array then, and `erase` goes on with the element in
the old one. -/
theorem erase_grow_recorded_iff {startSize startGrowBy : ℕ} (hpos : 0 < startGrowBy)
    (hg : startGrowBy < 2 ^ 63) (hcreate : create startSize startGrowBy 0 false true = some s₀)
    (hs : Reachable SplitsInRoom s₀ s) {lower upper : ℕ} (hlower : 1 ≤ lower) (hle : lower ≤ upper)
    (hupper : upper < 2 ^ 64 - 1) :
    (∃ t, s.eraseChecked lower upper = some (true, t) ∧
      t.recorded = s.recorded \ Set.Icc lower upper) ↔ ¬SplitsWhenFull s lower upper := by
  have hsane := createdStorage_sane startGrowBy 0 false true
  have hfixed : ¬(createdStorage startGrowBy 0 false true).Fixed := by
    rintro (hzero | hmalloc)
    · exact hpos.ne' (Int.natCast_eq_zero.mp hzero)
    · cases hmalloc
  have hvalid := hs.valid_of_inPlace hsane (create_valid hg (by decide) hcreate)
    fun t call ht hcall => ht.inPlace_of_splitsInRoom rfl hfixed hcall
  obtain ⟨L, f, hholds, hw⟩ := hvalid
  have hresult := hholds.eraseChecked hsane hw hlower hle hupper
  rw [← hholds.eraseMovesRange_iff rfl hfixed hw hle]
  rw [← hresult.realises_iff fun r hr => hr.realises hholds]
  constructor
  · rintro ⟨t, herase, hrecorded⟩
    exact ⟨true, t, herase, hrecorded, fun hfail => by cases hfail⟩
  · rintro ⟨ok, t, herase, hrecorded, hfail⟩
    cases ok with
    | true => exact ⟨t, herase, hrecorded⟩
    | false => exact absurd (hholds.fixed_iff.mp (hfail rfl)) hfixed

/-- With an unused element the range is split in place. -/
theorem erase_grow_recorded_iff_room :
    ∃ s₀, create 0 2 0 false true = some s₀ ∧
      ∃ t, (s₀.run [.record 1 3]).eraseChecked 2 2 = some (true, t) ∧
        t.recorded = (s₀.run [.record 1 3]).recorded \ Set.Icc 2 2 := by
  have hrun : (create 0 2 0 false true).map (fun s =>
      ((s.run [.record 1 3]).listSize, (s.run [.record 1 3]).arraySize)) = some (1, 2) := by
    decide
  obtain ⟨s₀, hcreate, hsizes⟩ := map_eq_some_iff.mp hrun
  rw [Prod.mk.injEq] at hsizes
  refine ⟨s₀, hcreate, (erase_grow_recorded_iff (by decide) (by decide) hcreate
    (Reachable.start.call (.record 1 3) (by decide : (3 : ℕ) < 2 ^ 64 - 1)) (by decide) (by decide)
    (by decide)).mpr ?_⟩
  rintro ⟨hfull, -⟩
  have hne : (s₀.run [.record 1 3]).listSize ≠ (s₀.run [.record 1 3]).arraySize := by
    rw [hsizes.1, hsizes.2]
    decide
  exact hne hfull

/-- One element in use, and no other: the number in the middle stays recorded. -/
theorem erase_grows_and_splits :
    ∃ s₀, create 0 1 0 false true = some s₀ ∧
      Reachable SplitsInRoom s₀ (s₀.run [.record 1 3]) ∧
      (s₀.run [.record 1 3]).eraseChecked 2 2 = none ∧
      2 ∈ ((s₀.run [.record 1 3]).erase 2 2).2.recorded := by
  have hrun : (create 0 1 0 false true).map (fun s₀ =>
      let s := s₀.run [.record 1 3]
      let t := (s.erase 2 2).2
      ((s.eraseChecked 2 2).isNone, decide (t.headp = 0), t.lower t.headp, t.upper t.headp)) =
      some (true, false, 1, 3) := by decide
  obtain ⟨s₀, hcreate, hstate⟩ := map_eq_some_iff.mp hrun
  simp only [Prod.mk.injEq] at hstate
  obtain ⟨hnone, hheadp, hlower, hupper⟩ := hstate
  refine ⟨s₀, hcreate, Reachable.start.call (.record 1 3) (by decide : (3 : ℕ) < 2 ^ 64 - 1),
    isNone_iff_eq_none.mp hnone, of_decide_eq_false hheadp, 0, ?_, ?_⟩
  · rw [iterate_zero, id, hlower]
    decide
  · rw [iterate_zero, id, hupper]
    decide

end Lampi.SeqTrackingList
