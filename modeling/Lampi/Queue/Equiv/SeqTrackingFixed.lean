import Mathlib
import Lampi.Queue.Equiv.SeqTrackingList

/-!
# Fixed storage: what is recorded

`recorded` is the set of numbers a list stands for: it is read off the elements from `headp` on, and
is the set of the ranges the list holds (`Laid.recorded_eq`).  `Reachable` are the states a list
gets into by recording, erasing and asking.

In every state a list with fixed storage reaches

* `record` is the union, and fails only when an element is missing (`record_recorded`);
* `erase` is the difference, or fails and changes nothing (`erase_recorded`);
* `recordIfNotRecorded` and `isRecorded` give the right answer (`recordIfNotRecorded_recorded`,
  `isRecorded_recorded`), and `largestInOrder` the right number.

`erase` also asks for an element when it only has to move the lower end of a range.  So it can fail
although the numbers left over would fit (`erase_fails_only_for_room_iff`).
-/

namespace Lampi.SeqTrackingList

open LinkedRing RangeList Option

variable {s s' s₀ : SeqTrackingList} {L : List (ℕ × Range)} {f : List ℕ} {lo hi n : ℕ} {c : Storage}
  {allowed : SeqTrackingList → Call → Prop} {l : List Call} {startSize : ℕ} {shared mallocOk : Bool}
  {p : Prop} {β : Type} {result : Bool × SeqTrackingList} {e : ℕ × Range}

/-! ### The numbers a list stands for -/

/-- The numbers in the ranges of the elements from `headp` on. -/
def recorded (s : SeqTrackingList) : Set ℕ :=
  {n | s.headp ≠ 0 ∧ ∃ k, s.lower (s.next^[k] s.headp) ≤ n ∧ n ≤ s.upper (s.next^[k] s.headp)}

lemma Laid.recorded_eq (h : Laid c s L f) : s.recorded = nums (L.map Prod.snd) := by
  ext n
  cases L with
  | nil =>
    have hheadp : s.headp = 0 := h.headp_eq
    simp [recorded, hheadp, mem_nums]
  | cons e L =>
    have hheadp : s.headp = e.1 := h.headp_eq
    have he0 : e.1 ≠ 0 := h.ne_zero e.1 (by simp)
    constructor
    · rintro ⟨-, k, hk⟩
      rw [hheadp] at hk
      have hmem : s.next^[k] e.1 ∈ e.1 :: L.map Prod.fst := h.list.mem_iff_iterate.mpr ⟨k, rfl⟩
      obtain ⟨x, hx, hxk⟩ := List.mem_map.mp (List.map_cons ▸ hmem : _ ∈ (e :: L).map Prod.fst)
      rw [← hxk, h.lower_eq hx, h.upper_eq hx] at hk
      exact ⟨x.2, List.mem_map_of_mem hx, hk⟩
    · rintro ⟨r, hr, hn⟩
      obtain ⟨x, hx, rfl⟩ := List.mem_map.mp hr
      obtain ⟨k, hk⟩ := h.list.mem_iff_iterate.mp (List.mem_map_of_mem hx)
      refine ⟨hheadp ▸ he0, k, ?_⟩
      rw [hheadp, hk, h.lower_eq hx, h.upper_eq hx]
      exact hn

lemma recorded_eq_Icc {p : ℕ} (hheadp : s.headp = p) (hp : p ≠ 0) (hnext : s.next p = p) :
    s.recorded = Set.Icc (s.lower p) (s.upper p) := by
  ext n
  rw [recorded, hheadp]
  simp [Function.iterate_fixed hnext, hp]

lemma Laid.mem_recorded (h : Laid c s L f) :
    n ∈ s.recorded ↔ ∃ x ∈ L, x.2.lower ≤ n ∧ n ≤ x.2.upper := by
  rw [h.recorded_eq]
  simp only [mem_nums, List.mem_map, exists_exists_and_eq_and]

/-- The range from `lower` to `upper` meets or touches a number of `S`. -/
def Touches (lower upper : ℕ) (S : Set ℕ) : Prop := ∃ n ∈ S, lower ≤ n + 1 ∧ n ≤ upper + 1

lemma Laid.exists_recorded_iff (h : Laid c s L f) (hw : WellFormed L) (hle : lo ≤ hi) :
    (∃ n ∈ s.recorded, lo ≤ n ∧ n ≤ hi) ↔ ∃ x ∈ L, x.2.lower ≤ hi ∧ lo ≤ x.2.upper := by
  constructor
  · rintro ⟨n, hn, hlo, hhi⟩
    obtain ⟨x, hx, hlower, hupper⟩ := h.mem_recorded.mp hn
    exact ⟨x, hx, by omega, by omega⟩
  · rintro ⟨x, hx, hhi, hlo⟩
    have hne := lower_le_upper hw.isRangeList hx
    exact ⟨max lo x.2.lower, h.mem_recorded.mpr ⟨x, hx, by omega, by omega⟩, by omega, by omega⟩

lemma Laid.touches_iff (h : Laid c s L f) (hw : WellFormed L) (hle : lo ≤ hi) :
    Touches lo hi s.recorded ↔ ∃ x ∈ L, x.2.lower ≤ hi + 1 ∧ lo ≤ x.2.upper + 1 := by
  have hmeets := h.exists_recorded_iff hw (show lo - 1 ≤ hi + 1 by omega)
  simpa only [tsub_le_iff_right, Touches] using hmeets

/-! ### Reachable states -/

/-- The states a list gets into from `s₀` by calls that are allowed where they are made, and by
asking for any range. -/
inductive Reachable (allowed : SeqTrackingList → Call → Prop) (s₀ : SeqTrackingList) :
    SeqTrackingList → Prop
  | start : Reachable allowed s₀ s₀
  | call {s : SeqTrackingList} (c : Call) :
      Reachable allowed s₀ s → allowed s c → Reachable allowed s₀ (s.step c)
  | isRecorded {s : SeqTrackingList} (lower upper : ℕ) :
      Reachable allowed s₀ s → Reachable allowed s₀ (s.isRecorded lower upper).2

/-- Calls about ranges below the largest number of 64 bits. -/
def Bounded (_ : SeqTrackingList) (c : Call) : Prop := c.upper < 2 ^ 64 - 1

/-- Calls one after the other, each allowed where it is made. -/
def AllAllowed (allowed : SeqTrackingList → Call → Prop) : SeqTrackingList → List Call → Prop
  | _, [] => True
  | s, c :: calls => allowed s c ∧ AllAllowed allowed (s.step c) calls

instance AllAllowed.decidable (allowed : SeqTrackingList → Call → Prop)
    [h : ∀ s, DecidablePred (allowed s)] :
    ∀ (s : SeqTrackingList) (calls : List Call), Decidable (AllAllowed allowed s calls)
  | _, [] => inferInstanceAs (Decidable True)
  | s, c :: calls =>
    have := h s c
    have := AllAllowed.decidable allowed (s.step c) calls
    inferInstanceAs (Decidable (_ ∧ _))

lemma Reachable.run (h : Reachable allowed s₀ s) (hl : AllAllowed allowed s l) :
    Reachable allowed s₀ (s.run l) := by
  induction l generalizing s with
  | nil => exact h
  | cons c l ih => exact ih (h.call c hl.1) hl.2

lemma reachable_run (hcalls : ∀ call ∈ l, call.upper < 2 ^ 64 - 1) :
    Reachable Bounded s₀ (s₀.run l) := by
  suffices hall : ∀ s, AllAllowed Bounded s l from Reachable.start.run (hall s₀)
  induction l with
  | nil => exact fun _ => trivial
  | cons c l ih =>
    rw [List.forall_mem_cons] at hcalls
    exact fun s => ⟨hcalls.1, ih hcalls.2 (s.step c)⟩

lemma isRecorded_snd (s : SeqTrackingList) (lower upper : ℕ) :
    (s.isRecorded lower upper).2 = (s.findNearestLowerSeqRangeListElement lower).2 := by
  unfold isRecorded
  dsimp only
  split_ifs <;> rfl

lemma Valid.isRecorded (h : Valid c s) (lower upper : ℕ) :
    Valid c (s.isRecorded lower upper).2 := by
  obtain ⟨L, f, hholds, hw⟩ := h
  rw [isRecorded_snd]
  exact ⟨L, f, hholds.find hw lower, hw⟩

/-- **Lists stay in good order** as long as no handle gets stale. -/
theorem Reachable.valid_of_inPlace (h : Reachable allowed s₀ s) (hsane : c.Sane) (h0 : Valid c s₀)
    (hallowed : ∀ t call, Valid c t → allowed t call → t.InPlace call) : Valid c s := by
  induction h with
  | start => exact h0
  | call c _ hcall ih => exact ih.step_inPlace hsane (hallowed _ c ih hcall)
  | isRecorded lower upper _ ih => exact ih.isRecorded lower upper

lemma create_valid {startGrowBy startShrinkBy : ℕ} (hg : startGrowBy < 2 ^ 63)
    (hk : startShrinkBy < 2 ^ 63)
    (h : create startSize startGrowBy startShrinkBy shared mallocOk = some s) :
    Valid (createdStorage startGrowBy startShrinkBy shared mallocOk) s := by
  obtain ⟨f, hholds⟩ := create_holds hg hk h
  exact ⟨[], f, hholds, isRangeList_nil, by simp, by simp⟩

lemma createdStorage_fixed (shared mallocOk : Bool) :
    createdStorage 0 0 shared mallocOk = fixedStorage mallocOk := by
  cases shared <;> rfl

lemma Reachable.valid (h : Reachable Bounded s₀ s)
    (hcreate : create startSize 0 0 shared mallocOk = some s₀) :
    Valid (fixedStorage mallocOk) s := by
  apply h.valid_of_inPlace (fixedStorage_sane mallocOk)
  · rw [← createdStorage_fixed shared mallocOk]
    exact create_valid (by decide) (by decide) hcreate
  · intro t call ht hcall
    exact ht.inPlace_fixed hcall

/-! ### The size of the array -/

/-- The storage array is as large as before, and may change as before. -/
structure SameArray (s s' : SeqTrackingList) : Prop where
  arraySize : s'.arraySize = s.arraySize
  storage : s'.storage = s.storage

lemma SameArray.trans {s'' : SeqTrackingList} (h : SameArray s s') (h' : SameArray s' s'') :
    SameArray s s'' := ⟨h'.arraySize.trans h.arraySize, h'.storage.trans h.storage⟩

lemma SameArray.find (s : SeqTrackingList) (seqnum : ℕ) :
    SameArray s (s.findNearestLowerSeqRangeListElement seqnum).2 := by
  unfold findNearestLowerSeqRangeListElement
  split_ifs <;> exact ⟨rfl, rfl⟩

private lemma SameArray.unlink (s : SeqTrackingList) (p : ℕ) : SameArray s (s.unlink p) := by
  unfold SeqTrackingList.unlink
  dsimp only
  split_ifs <;> exact ⟨rfl, rfl⟩

private lemma SameArray.appendFree (s : SeqTrackingList) (p : ℕ) :
    SameArray s (s.appendFree p) := by
  unfold SeqTrackingList.appendFree
  split_ifs <;> exact ⟨rfl, rfl⟩

lemma SameArray.free (hk : s.storage.shrinkBy = 0) (p : ℕ) :
    SameArray s (s.freeSeqRangeListElement p) := by
  have hlinks := (SameArray.unlink s p).trans (SameArray.appendFree (s.unlink p) p)
  have hshrink : ((s.unlink p).appendFree p).shrinkBy = 0 :=
    (congrArg Storage.shrinkBy hlinks.storage).trans hk
  unfold freeSeqRangeListElement
  dsimp only
  by_cases hhint : ((((s.unlink p).appendFree p).setUpper p 0).setLower p 0).hintp = p
  · split_ifs with hguard
    · exact absurd hshrink hguard.1
    · exact ⟨hlinks.arraySize, hlinks.storage⟩
  · split_ifs with hguard
    · exact absurd hshrink hguard.1
    · exact ⟨hlinks.arraySize, hlinks.storage⟩

private lemma SameArray.freeUntil (hk : s.storage.shrinkBy = 0) (stop rounds tmp : ℕ) :
    SameArray s (freeUntil stop rounds tmp s) := by
  induction rounds generalizing s tmp with
  | zero => exact ⟨rfl, rfl⟩
  | succ rounds ih =>
    rw [freeUntil]
    split_ifs
    · have hfree := SameArray.free hk tmp
      exact hfree.trans (ih (hfree.storage.symm ▸ hk) _)
    · exact ⟨rfl, rfl⟩

private lemma SameArray.takeFree (s : SeqTrackingList) : SameArray s s.takeFree.2 := by
  unfold SeqTrackingList.takeFree
  dsimp only
  split_ifs <;> exact ⟨rfl, rfl⟩

private lemma SameArray.linkIn (s : SeqTrackingList) (p r : ℕ) : SameArray s (s.linkIn p r) := by
  unfold SeqTrackingList.linkIn
  split_ifs <;> exact ⟨rfl, rfl⟩

private lemma SameArray.get (hg : s.storage.growBy = 0) (p : ℕ) :
    SameArray s (s.getSeqRangeListElement p).2 := by
  unfold getSeqRangeListElement
  by_cases hfull : s.listSize + 1 > s.arraySize
  · rw [if_pos ⟨hfull, .inl hg⟩]
    exact ⟨rfl, rfl⟩
  · rw [if_neg fun h => hfull h.1]
    rw [if_neg hfull]
    have hlink := (SameArray.takeFree s).trans (SameArray.linkIn s.takeFree.2 p s.takeFree.1)
    exact ⟨hlink.arraySize, hlink.storage⟩

private lemma SameArray.addRange (hg : s.storage.growBy = 0) (p lower upper : ℕ) :
    SameArray s (s.addRange p lower upper).2 := by
  have hget := SameArray.get hg p
  unfold SeqTrackingList.addRange
  dsimp only
  split_ifs <;> exact ⟨hget.arraySize, hget.storage⟩

/-! The steps of a call, one behind the other. -/

private lemma SameArray.setUpper (h : SameArray s s') (p v : ℕ) :
    SameArray s (s'.setUpper p v) := ⟨h.arraySize, h.storage⟩

private lemma SameArray.setLower (h : SameArray s s') (p v : ℕ) :
    SameArray s (s'.setLower p v) := ⟨h.arraySize, h.storage⟩

private lemma SameArray.giveBack (hk : s.storage.shrinkBy = 0) (h : SameArray s s') (p : ℕ) :
    SameArray s (s'.freeSeqRangeListElement p) := h.trans (SameArray.free (h.storage.symm ▸ hk) p)

private lemma SameArray.overlapped (hk : s.storage.shrinkBy = 0) (h : SameArray s s')
    (tmp stop : ℕ) : SameArray s (s'.freeOverlapped tmp stop) :=
  h.trans (SameArray.freeUntil (h.storage.symm ▸ hk) stop _ tmp)

private lemma SameArray.ite [Decidable p] {t : SeqTrackingList} (h : SameArray s s')
    (h' : SameArray s t) : SameArray s (if p then s' else t) := by
  split
  · exact h
  · exact h'

private lemma SameArray.ite_snd [Decidable p] {a b : β × SeqTrackingList} (h : SameArray s a.2)
    (h' : SameArray s b.2) : SameArray s (if p then a else b).2 := by
  split
  · exact h
  · exact h'

private lemma SameArray.ite_snd_snd {γ : Type} [Decidable p] {a b : β × γ × SeqTrackingList}
    (h : SameArray s a.2.2) (h' : SameArray s b.2.2) : SameArray s (if p then a else b).2.2 := by
  split
  · exact h
  · exact h'

private lemma SameArray.exists_find (hg : s.storage.growBy = 0) (hk : s.storage.shrinkBy = 0)
    (lo : ℕ) : ∃ lnearest t, s.findNearestLowerSeqRangeListElement lo = (lnearest, t) ∧
      SameArray s t ∧ t.storage.growBy = 0 ∧ t.storage.shrinkBy = 0 ∧ SameArray t t := by
  have hfind := SameArray.find s lo
  exact ⟨_, _, rfl, hfind, (congrArg Storage.growBy hfind.storage).trans hg,
    (congrArg Storage.shrinkBy hfind.storage).trans hk, rfl, rfl⟩

/-- **`record` leaves fixed storage as large as it is.** -/
theorem SameArray.record (hg : s.storage.growBy = 0) (hk : s.storage.shrinkBy = 0) (lo hi : ℕ) :
    SameArray s (s.record lo hi).2 := by
  obtain ⟨lnearest, t, hfind, hsame, hg', hk', hrefl⟩ := SameArray.exists_find hg hk lo
  unfold SeqTrackingList.record
  rw [hfind]
  refine hsame.trans ?_
  refine .ite_snd hrefl (.ite_snd hrefl (.ite_snd (.addRange hg' _ _ _) (.ite_snd ?_
    (.ite_snd ?_ (.ite_snd ?_ ?_)))))
  · refine .ite_snd (.addRange hg' _ _ _) (.ite_snd (.addRange hg' _ _ _) ?_)
    exact .ite (.setLower (.ite (.setUpper hrefl _ _) hrefl) _ _) (.ite (.setUpper hrefl _ _) hrefl)
  · have hraise := SameArray.setUpper hrefl lnearest hi
    refine .ite_snd (.giveBack hk' (.setUpper ?_ _ _) _) ?_
    all_goals exact .overlapped hk' (.ite (.setLower hraise _ _) hraise) _ _
  · refine .ite_snd (.addRange hg' _ _ _) ?_
    exact .overlapped hk' (.setUpper (.setLower hrefl _ _) _ _) _ _
  · exact .overlapped hk' (.ite (.setUpper (.setLower hrefl _ _) _ _) (.setLower hrefl _ _)) _ _

/-- **`recordIfNotRecorded` leaves fixed storage as large as it is.** -/
theorem SameArray.recordIfNotRecorded (hg : s.storage.growBy = 0) (hk : s.storage.shrinkBy = 0)
    (lo hi : ℕ) : SameArray s (s.recordIfNotRecorded lo hi).2.2 := by
  obtain ⟨lnearest, t, hfind, hsame, hg', hk', hrefl⟩ := SameArray.exists_find hg hk lo
  unfold SeqTrackingList.recordIfNotRecorded
  rw [hfind]
  refine hsame.trans ?_
  refine .ite_snd_snd hrefl (.ite_snd_snd (.addRange hg' _ _ _) (.ite_snd_snd ?_
    (.ite_snd_snd hrefl (.ite_snd_snd ?_ (.ite_snd_snd (.addRange hg' _ _ _)
      (.setLower hrefl _ _))))))
  · refine .ite_snd_snd (.addRange hg' _ _ _) (.ite_snd_snd (.addRange hg' _ _ _)
      (.ite_snd_snd (.ite_snd_snd hrefl hrefl) ?_))
    exact .ite (.setLower (.ite (.setUpper hrefl _ _) hrefl) _ _) (.ite (.setUpper hrefl _ _) hrefl)
  · have hlower := SameArray.setUpper hrefl lnearest hi
    exact .ite_snd_snd (.giveBack hk' (.setUpper hlower _ _) _) hlower

/-! ### Recording -/

lemma Inserts.recorded_eq (h : Inserts c lo hi L f result) (hholds : Holds c s L f)
    (hw : WellFormed L) (hle : lo ≤ hi) :
    result.2.recorded = if result.1 then s.recorded ∪ Set.Icc lo hi else s.recorded := by
  obtain ⟨L', f', hholds', hresult⟩ := h
  rw [hholds'.recorded_eq, hholds.recorded_eq]
  split_ifs at hresult ⊢ with hok
  · rw [hresult, nums_insert hw.isRangeList.nonempty hle]
  · rw [hresult.1]

/-- When a call that adds a range to a list with fixed storage fails. -/
lemma Inserts.eq_false_iff (h : Inserts c lo hi L f result) (hholds : Holds c s L f)
    (hw : WellFormed L) (hle : lo ≤ hi) (hsame : SameArray s result.2) :
    result.1 = false ↔ ¬Touches lo hi s.recorded ∧ s.listSize = s.arraySize := by
  rw [hholds.touches_iff hw hle, hholds.listSize_eq, hholds.arraySize_eq]
  obtain ⟨L', f', hholds', hresult⟩ := h
  constructor
  · intro hfalse
    rw [if_neg (by rw [hfalse]; exact Bool.false_ne_true)] at hresult
    obtain ⟨-, hf, -, hapart⟩ := hresult
    constructor
    · rintro ⟨x, hx, hlo, hhi⟩
      have := hapart x hx
      omega
    · rw [hf, List.length_nil]
      omega
  · rintro ⟨hapart, hfull⟩
    by_contra hok
    rw [Bool.not_eq_false] at hok
    rw [if_pos hok] at hresult
    -- the list would be longer than the array
    have hlength := congrArg List.length hresult
    rw [length_insert_of_apart, List.length_map, List.length_map] at hlength
    · have harray := hsame.arraySize
      rw [hholds'.arraySize_eq, hholds.arraySize_eq] at harray
      omega
    · intro r hr
      obtain ⟨x, hx, rfl⟩ := List.mem_map.mp hr
      by_contra hnot
      exact hapart ⟨x, hx, by omega, by omega⟩

lemma Valid.recorded_find (h : Valid c s) (seqnum : ℕ) :
    (s.findNearestLowerSeqRangeListElement seqnum).2.recorded = s.recorded := by
  obtain ⟨L, f, hholds, hw⟩ := h
  rw [(hholds.find hw seqnum).recorded_eq, hholds.recorded_eq]

/-- **`record` is the union.**  It fails if and only if the range neither meets nor touches what is
recorded and all elements are in use, and changes nothing then. -/
theorem record_recorded {startSize : ℕ} {shared mallocOk : Bool}
    (hcreate : create startSize 0 0 shared mallocOk = some s₀) (hs : Reachable Bounded s₀ s) :
    (∀ lower upper, 1 ≤ lower → lower ≤ upper → upper < 2 ^ 64 - 1 →
      ((s.record lower upper).1 = true →
        (s.record lower upper).2.recorded = s.recorded ∪ Set.Icc lower upper) ∧
      ((s.record lower upper).1 = false ↔
        ¬Touches lower upper s.recorded ∧ s.listSize = s.arraySize) ∧
      ((s.record lower upper).1 = false → (s.record lower upper).2.recorded = s.recorded)) ∧
    (∀ upper, (s.record 0 upper).1 = true ∧ (s.record 0 upper).2.recorded = s.recorded) ∧
    ∀ lower upper, upper < lower →
      (s.record lower upper).1 = false ∧ (s.record lower upper).2.recorded = s.recorded := by
  have hvalid := hs.valid hcreate
  refine ⟨fun lower upper hlower hle hupper => ?_, fun upper => ?_, fun lower upper hlt => ?_⟩
  · obtain ⟨L, f, hholds, hw⟩ := hvalid
    have hinserts := hholds.record (fixedStorage_sane mallocOk) (.inl rfl) hw hlower hle hupper
    have hsame : SameArray s (s.record lower upper).2 :=
      SameArray.record (by rw [hholds.storage_eq]; rfl) (by rw [hholds.storage_eq]; rfl) _ _
    have hrecorded := hinserts.recorded_eq hholds hw hle
    refine ⟨fun hok => ?_, hinserts.eq_false_iff hholds hw hle hsame, fun hfail => ?_⟩
    · rw [hrecorded, if_pos hok]
    · rw [hrecorded, hfail]
      rfl
  · have hrecord : s.record 0 upper = (true, (s.findNearestLowerSeqRangeListElement 0).2) := rfl
    exact ⟨rfl, hvalid.recorded_find 0⟩
  · have hrecord : s.record lower upper =
        (false, (s.findNearestLowerSeqRangeListElement lower).2) := by
      unfold record
      simp only [Nat.ne_of_gt (Nat.zero_lt_of_lt hlt), if_false, gt_iff_lt, hlt, if_true]
    rw [hrecord]
    exact ⟨rfl, hvalid.recorded_find lower⟩

/-- The gap between two ranges is filled. -/
theorem record_recorded_gap :
    ∃ s₀, create 3 0 0 false true = some s₀ ∧
      ((s₀.run [.record 5 7, .record 1 2]).record 3 4).2.recorded =
        (s₀.run [.record 5 7, .record 1 2]).recorded ∪ Set.Icc 3 4 := by
  have hok : (create 3 0 0 false true).map
      (fun s => ((s.run [.record 5 7, .record 1 2]).record 3 4).1) = some true := by decide +kernel
  obtain ⟨s₀, hcreate, hrecord⟩ := map_eq_some_iff.mp hok
  have hunion := record_recorded hcreate
    (reachable_run (l := [.record 5 7, .record 1 2]) (by decide))
  exact ⟨s₀, hcreate, (hunion.1 3 4 (by decide) (by decide) (by decide)).1 hrecord⟩

/-! ### Erasing -/

/-- The part of `erase` for a range inside the element at `p`, which goes on behind it. -/
def eraseInside (s : SeqTrackingList) (p lower upper : ℕ) : Bool × SeqTrackingList :=
  let (tmp, t) := s.getSeqRangeListElement p
  let (ok, t) := if tmp = 0 then (false, t)
    else (true, (t.setUpper tmp (t.upper p)).setLower tmp (succ64 upper))
  if !ok then (false, t)
  else
    (true, if (t.setUpper p (pred64 lower)).upper p < (t.setUpper p (pred64 lower)).lower p
      then (t.setUpper p (pred64 lower)).freeSeqRangeListElement p
      else t.setUpper p (pred64 lower))

/-- A range inside an element that goes on behind it belongs at this element. -/
lemma Located.inside {p q : ℕ} (hloc : Located lo hi L p q) (hw : WellFormed L) (hle : lo ≤ hi)
    (he : e ∈ L) (hl : e.2.lower ≤ lo) (hu : hi < e.2.upper) : p = e.1 ∧ q = e.1 := by
  cases hloc with
  | @single L1 L2 x hlower hupper =>
    suffices heq : x = e by rw [heq]; exact ⟨rfl, rfl⟩
    rcases List.mem_append.mp he with hmem | hmem
    · have hbefore := before_of_lower hw.isRangeList hlower _ hmem
      omega
    · rcases List.mem_cons.mp hmem with rfl | hmem
      · rfl
      · have hafter := after_of_upper hw.isRangeList hupper _ hmem
        omega
  | @span L1 M L2 x y hlower hafter hbefore hupper =>
    exfalso
    rw [← List.cons_append, ← List.append_assoc] at he
    rcases List.mem_append.mp he with hmem | hmem
    · have hlt := hbefore e hmem
      omega
    · have hlt := hafter e (List.mem_append_right M hmem)
      omega

/-- It is erased by splitting the element. -/
lemma Holds.erase_eq_eraseInside (h : Holds c s L f) (hw : WellFormed L) (hlo : 1 ≤ lo)
    (hle : lo ≤ hi) (he : e ∈ L) (hl : e.2.lower ≤ lo) (hu : hi < e.2.upper) :
    ∃ s', Holds c s' L f ∧ s.erase lo hi = s'.eraseInside e.1 lo hi := by
  obtain ⟨s', p, q, hfind, hs', hup, hp0, hloc⟩ :=
    h.located (List.ne_nil_of_mem he) hw.isRangeList hle
  obtain ⟨rfl, rfl⟩ := hloc.inside hw hle he hl hu
  refine ⟨s', hs', ?_⟩
  have hlower := hs'.lower_eq he
  have hupper := hs'.upper_eq he
  have hvalid : ¬(lo = 0 ∨ lo > hi) := by omega
  have hmore : s'.upper e.1 > hi := by omega
  unfold SeqTrackingList.erase eraseInside
  simp only [hfind, hup, hp0, hvalid, if_false, ne_eq, not_true]
  rw [if_pos ⟨by omega, by omega⟩, if_neg (by omega), if_neg (by omega)]
  simp only [if_pos hmore]

lemma Erases.recorded_eq (h : Erases c lo hi L f result) (hholds : Holds c s L f) :
    result.2.recorded = if result.1 then s.recorded \ Set.Icc lo hi else s.recorded := by
  obtain ⟨L', f', hholds', hresult⟩ := h
  rw [hholds'.recorded_eq, hholds.recorded_eq]
  split_ifs at hresult ⊢ with hok
  · rw [hresult, nums_erase]
  · rw [hresult.1]

lemma splitsInPlace_fixed (mallocOk : Bool) (lo hi : ℕ) (L : List (ℕ × Range)) (f : List ℕ) :
    SplitsInPlace (fixedStorage mallocOk) lo hi L f := fun _ => Or.inl (Or.inl rfl)

/-- **`erase` is the difference**, or fails and changes nothing. -/
theorem erase_recorded {startSize : ℕ} {shared mallocOk : Bool}
    (hcreate : create startSize 0 0 shared mallocOk = some s₀) (hs : Reachable Bounded s₀ s)
    {lower upper : ℕ} (hlower : 1 ≤ lower) (hle : lower ≤ upper) (hupper : upper < 2 ^ 64 - 1) :
    ((s.erase lower upper).1 = true →
      (s.erase lower upper).2.recorded = s.recorded \ Set.Icc lower upper) ∧
    ((s.erase lower upper).1 = false → (s.erase lower upper).2.recorded = s.recorded) := by
  obtain ⟨L, f, hholds, hw⟩ := hs.valid hcreate
  have herases := hholds.erase (fixedStorage_sane mallocOk) (.inl rfl)
    (splitsInPlace_fixed mallocOk _ _ L f) hw hlower hle
    hupper
  have hrecorded := herases.recorded_eq hholds
  constructor
  · intro hok
    rw [hrecorded, if_pos hok]
  · intro hfail
    rw [hrecorded, hfail]
    rfl

/-- A range is split. -/
theorem erase_recorded_split :
    ∃ s₀, create 3 0 0 false true = some s₀ ∧
      ((s₀.run [.record 5 9, .record 1 2]).erase 6 7).2.recorded =
        (s₀.run [.record 5 9, .record 1 2]).recorded \ Set.Icc 6 7 := by
  have hok : (create 3 0 0 false true).map
      (fun s => ((s.run [.record 5 9, .record 1 2]).erase 6 7).1) = some true := by decide +kernel
  obtain ⟨s₀, hcreate, herase⟩ := map_eq_some_iff.mp hok
  exact ⟨s₀, hcreate, (erase_recorded hcreate
    (reachable_run (l := [.record 5 9, .record 1 2]) (by decide)) (by decide) (by decide)
    (by decide)).1 herase⟩

lemma Holds.erase_eq_false_iff (h : Holds (fixedStorage mallocOk) s L f) (hw : WellFormed L)
    (hlo : 1 ≤ lo) (hle : lo ≤ hi) (hhi : hi < 2 ^ 64 - 1) :
    (s.erase lo hi).1 = false ↔ f = [] ∧ ∃ x ∈ L, x.2.lower ≤ lo ∧ hi < x.2.upper := by
  constructor
  · intro hfail
    obtain ⟨L', f', -, hresult⟩ :=
      h.erase (fixedStorage_sane mallocOk) (.inl rfl) (splitsInPlace_fixed mallocOk _ _ L f) hw
        hlo hle hhi
    rw [if_neg (by rw [hfail]; exact Bool.false_ne_true)] at hresult
    exact ⟨hresult.2.1, hresult.2.2.2⟩
  · rintro ⟨rfl, x, hx, hlower, hupper⟩
    obtain ⟨s', hs', herase⟩ := h.erase_eq_eraseInside hw hlo hle hx hlower hupper
    rw [herase, eraseInside, hs'.getElement_full (.inl rfl)]
    rfl

/-- All elements are in use, and the range is the beginning of a longer recorded one. -/
def TrimsWhenFull (s : SeqTrackingList) (lower upper : ℕ) : Prop :=
  s.listSize = s.arraySize ∧ ∃ r, IsMaximal s.recorded r ∧ r.lower = lower ∧ upper < r.upper

/-- **`erase` fails only for lack of room, unless it has to trim a range when all elements are in
use**: what is left over would fit then. -/
theorem erase_fails_only_for_room_iff {startSize : ℕ} {shared mallocOk : Bool}
    (hcreate : create startSize 0 0 shared mallocOk = some s₀) (hs : Reachable Bounded s₀ s)
    {lower upper : ℕ} (hlower : 1 ≤ lower) (hle : lower ≤ upper) (hupper : upper < 2 ^ 64 - 1) :
    ((s.erase lower upper).1 = false →
      s.arraySize < {r | IsMaximal (s.recorded \ Set.Icc lower upper) r}.ncard) ↔
    ¬TrimsWhenFull s lower upper := by
  obtain ⟨L, f, hholds, hw⟩ := hs.valid hcreate
  have hE := hw.isRangeList
  -- the number of ranges left over
  have hcount : {r | IsMaximal (s.recorded \ Set.Icc lower upper) r}.ncard =
      (RangeList.erase lower upper (L.map Prod.snd)).length := by
    rw [hholds.recorded_eq, ← nums_erase, (hE.erase hle).ncard_maximal]
  rw [hcount, hholds.erase_eq_false_iff hw hlower hle hupper, hholds.arraySize_eq, TrimsWhenFull,
    hholds.listSize_eq, hholds.arraySize_eq, hholds.recorded_eq]
  constructor
  · rintro hroom ⟨hfull, r, hmax, rfl, hlong⟩
    have hr := hE.isMaximal_iff.mp hmax
    obtain ⟨x, hx, rfl⟩ := List.mem_map.mp hr
    obtain rfl : f = [] := List.eq_nil_of_length_eq_zero (by omega)
    have hmore := hroom ⟨rfl, x, hx, le_rfl, hlong⟩
    rw [hE.length_erase hr le_rfl hlong hle, if_neg (lt_irrefl _), List.length_map] at hmore
    omega
  · rintro hnot ⟨rfl, x, hx, hl, hu⟩
    have hr := List.mem_map_of_mem (f := Prod.snd) hx
    have hlt : x.2.lower < lower := by
      refine lt_of_le_of_ne hl fun heq => hnot ⟨?_, x.2, hE.isMaximal_iff.mpr hr, heq, hu⟩
      rw [List.length_nil]
      omega
    rw [hE.length_erase hr hl hu hle, if_pos hlt, List.length_map, List.length_nil]
    omega

/-- One range in one element: its first two numbers cannot be erased, though the other three are one
range, too. -/
theorem erase_fails_with_room :
    ∃ s₀, create 1 0 0 false true = some s₀ ∧ Reachable Bounded s₀ (s₀.run [.record 1 5]) ∧
      ((s₀.run [.record 1 5]).erase 1 2).1 = false ∧
      ¬(s₀.run [.record 1 5]).arraySize <
        {r | IsMaximal ((s₀.run [.record 1 5]).recorded \ Set.Icc 1 2) r}.ncard := by
  have hrun : (create 1 0 0 false true).map (fun s₀ =>
      let s := s₀.run [.record 1 5]
      (s.headp, s.next 1, s.lower 1, s.upper 1, s.arraySize, (s.erase 1 2).1)) =
      some (1, 1, 1, 5, 1, false) := by decide
  obtain ⟨s₀, hcreate, hstate⟩ := map_eq_some_iff.mp hrun
  simp only [Prod.mk.injEq] at hstate
  obtain ⟨hheadp, hnext, hlower, hupper, harray, herase⟩ := hstate
  refine ⟨s₀, hcreate, reachable_run (by decide), herase, ?_⟩
  have hleft : Set.Icc 1 5 \ Set.Icc 1 2 = nums [⟨3, 5⟩] := by
    ext n
    simp only [Set.mem_sdiff, Set.mem_Icc, mem_nums, List.mem_singleton, exists_eq_left]
    omega
  have hlist : IsRangeList [⟨3, 5⟩] := ⟨by simp, List.pairwise_singleton _ _⟩
  rw [recorded_eq_Icc hheadp one_ne_zero hnext, hlower, hupper, hleft, hlist.ncard_maximal, harray]
  decide

/-- With one element more the range is trimmed. -/
theorem erase_fails_only_for_room_iff_trim :
    ∃ s₀, create 2 0 0 false true = some s₀ ∧
      (((s₀.run [.record 1 5]).erase 1 2).1 = false →
        (s₀.run [.record 1 5]).arraySize <
          {r | IsMaximal ((s₀.run [.record 1 5]).recorded \ Set.Icc 1 2) r}.ncard) := by
  have hroom : (create 2 0 0 false true).map (fun s =>
      ((s.run [.record 1 5]).listSize, (s.run [.record 1 5]).arraySize)) = some (1, 2) :=
        by decide
  obtain ⟨s₀, hcreate, hsizes⟩ := map_eq_some_iff.mp hroom
  rw [Prod.mk.injEq] at hsizes
  refine ⟨s₀, hcreate, (erase_fails_only_for_room_iff hcreate (reachable_run (by decide))
    (by decide) (by decide) (by decide)).mpr ?_⟩
  rintro ⟨hfull, -⟩
  rw [hsizes.1, hsizes.2] at hfull
  exact absurd hfull (by decide)

/-! ### Asking -/

lemma Answers.iff {a : Recorded} (h : Answers lo hi L a) (hholds : Holds c s L f)
    (hw : WellFormed L) (hle : lo ≤ hi) :
    (a = .complete ↔ Set.Icc lo hi ⊆ s.recorded) ∧
    (a = .no ↔ Disjoint (Set.Icc lo hi) s.recorded) ∧
    (a = .partially ↔ ¬Set.Icc lo hi ⊆ s.recorded ∧ ¬Disjoint (Set.Icc lo hi) s.recorded) := by
  have hall : Set.Icc lo hi ⊆ s.recorded ↔ ∃ x ∈ L, x.2.lower ≤ lo ∧ hi ≤ x.2.upper := by
    constructor
    · intro hsub
      rw [hholds.recorded_eq] at hsub
      obtain ⟨r, hr, hin⟩ := hw.isRangeList.exists_of_subset hle hsub
      obtain ⟨x, hx, rfl⟩ := List.mem_map.mp hr
      exact ⟨x, hx, hin⟩
    · rintro ⟨x, hx, hlower, hupper⟩ n ⟨hn, hn'⟩
      exact hholds.mem_recorded.mpr ⟨x, hx, by omega, by omega⟩
  have hsome : ¬Disjoint (Set.Icc lo hi) s.recorded ↔ ∃ x ∈ L, x.2.lower ≤ hi ∧ lo ≤ x.2.upper := by
    rw [Set.not_disjoint_iff_nonempty_inter, Set.inter_comm]
    exact hholds.exists_recorded_iff hw hle
  rw [← not_iff_not (b := Disjoint _ _), hall, hsome]
  cases a with
  | no =>
    have hnone : ¬∃ x ∈ L, x.2.lower ≤ hi ∧ lo ≤ x.2.upper := by
      rintro ⟨x, hx, hlower, hupper⟩
      have := h x hx
      omega
    have hnot : ¬∃ x ∈ L, x.2.lower ≤ lo ∧ hi ≤ x.2.upper := by
      rintro ⟨x, hx, hlower, hupper⟩
      exact hnone ⟨x, hx, by omega, by omega⟩
    simp [hnone, hnot]
  | partially =>
    have hnot : ¬∃ x ∈ L, x.2.lower ≤ lo ∧ hi ≤ x.2.upper := fun ⟨x, hx, hin⟩ => h.2 x hx hin
    simp [h.1, hnot]
  | complete =>
    obtain ⟨x, hx, hlower, hupper⟩ := h
    have hsome' : ∃ x ∈ L, x.2.lower ≤ hi ∧ lo ≤ x.2.upper := ⟨x, hx, by omega, by omega⟩
    have hall' : ∃ x ∈ L, x.2.lower ≤ lo ∧ hi ≤ x.2.upper := ⟨x, hx, hlower, hupper⟩
    simp [hsome', hall']

/-- **`recordIfNotRecorded`** says how much of the range is recorded, and records it if nothing of
it is. -/
theorem recordIfNotRecorded_recorded {startSize : ℕ} {shared mallocOk : Bool}
    (hcreate : create startSize 0 0 shared mallocOk = some s₀) (hs : Reachable Bounded s₀ s)
    {lower upper : ℕ} (hlower : 1 ≤ lower) (hle : lower ≤ upper) (hupper : upper < 2 ^ 64 - 1) :
    ((s.recordIfNotRecorded lower upper).1 = .complete ↔ Set.Icc lower upper ⊆ s.recorded) ∧
    ((s.recordIfNotRecorded lower upper).1 = .no ↔ Disjoint (Set.Icc lower upper) s.recorded) ∧
    ((s.recordIfNotRecorded lower upper).1 = .partially ↔
      ¬Set.Icc lower upper ⊆ s.recorded ∧ ¬Disjoint (Set.Icc lower upper) s.recorded) ∧
    ((s.recordIfNotRecorded lower upper).1 = .no ∧
        (s.recordIfNotRecorded lower upper).2.1 = true →
      (s.recordIfNotRecorded lower upper).2.2.recorded = s.recorded ∪ Set.Icc lower upper) ∧
    (¬((s.recordIfNotRecorded lower upper).1 = .no ∧
        (s.recordIfNotRecorded lower upper).2.1 = true) →
      (s.recordIfNotRecorded lower upper).2.2.recorded = s.recorded) ∧
    ((s.recordIfNotRecorded lower upper).2.1 = false ↔
      (s.recordIfNotRecorded lower upper).1 = .no ∧ ¬Touches lower upper s.recorded ∧
        s.listSize = s.arraySize) := by
  obtain ⟨L, f, hholds, hw⟩ := hs.valid hcreate
  obtain ⟨hanswers, hresult⟩ :=
    hholds.recordIfNotRecorded (fixedStorage_sane mallocOk) hw hlower hle hupper
  have hsame : SameArray s (s.recordIfNotRecorded lower upper).2.2 :=
    SameArray.recordIfNotRecorded (by rw [hholds.storage_eq]; rfl)
      (by rw [hholds.storage_eq]; rfl) _ _
  obtain ⟨hcomplete, hno, hpartial⟩ := hanswers.iff hholds hw hle
  refine ⟨hcomplete, hno, hpartial, ?_⟩
  by_cases hanswer : (s.recordIfNotRecorded lower upper).1 = .no
  · rw [if_pos hanswer] at hresult
    have hrecorded := hresult.recorded_eq hholds hw hle
    refine ⟨fun hok => ?_, fun hnot => ?_, ?_⟩
    · rw [hrecorded, if_pos hok.2]
    · rw [hrecorded, if_neg fun hok => hnot ⟨hanswer, hok⟩]
    · rw [hresult.eq_false_iff hholds hw hle hsame, and_iff_right hanswer]
  · rw [if_neg hanswer] at hresult
    refine ⟨fun hok => absurd hok.1 hanswer, fun _ => ?_, ?_⟩
    · rw [hresult.2.recorded_eq, hholds.recorded_eq]
    · rw [hresult.1]
      simp [hanswer]

/-- A number that joins two ranges. -/
theorem recordIfNotRecorded_recorded_join :
    ∃ s₀, create 2 0 0 false true = some s₀ ∧
      ((s₀.run [.record 5 9, .record 1 3]).recordIfNotRecorded 4 4).2.2.recorded =
        (s₀.run [.record 5 9, .record 1 3]).recorded ∪ Set.Icc 4 4 := by
  have hok : (create 2 0 0 false true).map (fun s =>
      let result := (s.run [.record 5 9, .record 1 3]).recordIfNotRecorded 4 4
      (result.1, result.2.1)) = some (.no, true) := by decide
  obtain ⟨s₀, hcreate, hresult⟩ := map_eq_some_iff.mp hok
  simp only [Prod.mk.injEq] at hresult
  exact ⟨s₀, hcreate, (recordIfNotRecorded_recorded hcreate
    (reachable_run (l := [.record 5 9, .record 1 3]) (by decide)) (by decide) (by decide)
    (by decide)).2.2.2.1 hresult⟩

lemma Holds.isGreatest_largestInOrder (h : Holds c s L f) (hw : WellFormed L) :
    IsGreatest {n | ∀ m, 1 ≤ m → m ≤ n → m ∈ s.recorded} s.largestInOrder := by
  obtain ⟨hall, hnext⟩ := h.largestInOrder_spec hw
  rw [← h.recorded_eq] at hall hnext
  refine ⟨hall, fun n hn => ?_⟩
  by_contra hlt
  exact hnext (hn _ (by omega) (by omega))

/-- **`isRecorded`** says how much of the range is recorded, and **`largestInOrder`** up to which
number nothing is missing. -/
theorem isRecorded_recorded {startSize : ℕ} {shared mallocOk : Bool}
    (hcreate : create startSize 0 0 shared mallocOk = some s₀) (hs : Reachable Bounded s₀ s) :
    (∀ lower upper, lower ≤ upper →
      ((s.isRecorded lower upper).1 = .complete ↔ Set.Icc lower upper ⊆ s.recorded) ∧
      ((s.isRecorded lower upper).1 = .no ↔ Disjoint (Set.Icc lower upper) s.recorded) ∧
      ((s.isRecorded lower upper).1 = .partially ↔
        ¬Set.Icc lower upper ⊆ s.recorded ∧ ¬Disjoint (Set.Icc lower upper) s.recorded)) ∧
    IsGreatest {n | ∀ m, 1 ≤ m → m ≤ n → m ∈ s.recorded} s.largestInOrder := by
  obtain ⟨L, f, hholds, hw⟩ := hs.valid hcreate
  constructor
  · intro lower upper hle
    exact (hholds.isRecorded hw hle).1.iff hholds hw hle
  · exact hholds.isGreatest_largestInOrder hw

/-- The numbers up to 3 are there, 4 is missing. -/
theorem isRecorded_recorded_three :
    ∃ s₀, create 2 0 0 false true = some s₀ ∧
      IsGreatest {n | ∀ m, 1 ≤ m → m ≤ n → m ∈ (s₀.run [.record 5 9, .record 1 3]).recorded} 3 := by
  have hthree : (create 2 0 0 false true).map (fun s =>
      (s.run [.record 5 9, .record 1 3]).largestInOrder) = some 3 := by decide
  obtain ⟨s₀, hcreate, hlargest⟩ := map_eq_some_iff.mp hthree
  have hgreatest := (isRecorded_recorded hcreate
    (reachable_run (l := [.record 5 9, .record 1 3]) (by decide))).2
  rw [hlargest] at hgreatest
  exact ⟨s₀, hcreate, hgreatest⟩

end Lampi.SeqTrackingList
