import Lampi.Queue.SeqTrackingHandles
import Lampi.Queue.Equiv.SeqTrackingListStorage

/-!
# Handles while elements are given back

If `recordChecked` or `eraseChecked` has a result, it is that of `record` or `erase`
(`recordChecked_eq`, `eraseChecked_eq`).

The loop over overlapped elements gives back a run `M` of elements in front of `e'`.  There are
three cases (`Holds.freeUntilChecked`): the list stays where it is; it moves with the last element,
when the loop uses no handle any more; or it moves earlier, and the loop uses a stale handle.
-/

namespace Lampi.SeqTrackingList

open LinkedRing RangeList List Option Nat

variable {s s' : SeqTrackingList} {L L1 L2 : List (ℕ × Range)} {e : ℕ × Range} {f : List ℕ}
  {lo hi n : ℕ} {c : Storage} {array : ℕ × ℕ} {r : Bool × SeqTrackingList} {M : List (ℕ × Range)}
  {e' : ℕ × Range} {rounds tmp : ℕ} {β γ : Type} {moves : Prop} {P : β → Prop}

/-! ### Checked results are results -/

/-- The only result there can be is `b`. -/
def OnlyResult {β : Type} (o : Option β) (b : β) : Prop := ∀ r, o = some r → b = r

section OnlyResult

variable {β γ : Type} {o o' : Option β} {a b : β} {p : Prop} [Decidable p]

lemma OnlyResult.some (b : β) : OnlyResult (some b) b := fun _ h => some.inj h

lemma OnlyResult.ite (h : OnlyResult o a) (h' : OnlyResult o' b) :
    OnlyResult (if p then o else o') (if p then a else b) := by
  split
  · exact h
  · exact h'

lemma OnlyResult.bind {g : β → Option γ} {d : γ} (h : OnlyResult o a) (h' : OnlyResult (g a) d) :
    OnlyResult (o.bind g) d := by
  intro r hr
  obtain ⟨x, hx, hgx⟩ := bind_eq_some_iff.mp hr
  obtain rfl := h x hx
  exact h' r hgx

lemma OnlyResult.map (h : OnlyResult o a) (g : β → γ) : OnlyResult (o.map g) (g a) := by
  intro r hr
  obtain ⟨x, hx, rfl⟩ := map_eq_some_iff.mp hr
  rw [h x hx]

lemma OnlyResult.withHandles (h : OnlyResult o a) : OnlyResult (s.withHandles array o) a := by
  unfold SeqTrackingList.withHandles
  split
  · exact h
  · rintro r ⟨⟩

end OnlyResult

lemma freeUntilChecked_onlyResult (array : ℕ × ℕ) (stop rounds tmp : ℕ) (s : SeqTrackingList) :
    OnlyResult (freeUntilChecked array stop rounds tmp s) (freeUntil stop rounds tmp s) := by
  induction rounds generalizing tmp s with
  | zero => exact .some s
  | succ rounds ih => exact .ite (.withHandles (ih _ _)) (.some s)

/-- **A result of `recordChecked` is the result of `record`.** -/
theorem recordChecked_eq (h : s.recordChecked lo hi = some r) : s.record lo hi = r := by
  revert r
  show OnlyResult (s.recordChecked lo hi) (s.record lo hi)
  rcases s.findNearestLowerSeqRangeListElement lo with ⟨lnearest, t⟩
  refine .ite (.some _) (.ite (.some _) (.ite (.some _) (.ite ?_ (.ite ?_ (.ite ?_ ?_)))))
  · exact .ite (.some _) (.ite (.some _) (.some _))
  · exact .bind (freeUntilChecked_onlyResult _ _ _ _ _) (.withHandles (.ite (.some _) (.some _)))
  · exact .ite (.some _) (.map (freeUntilChecked_onlyResult _ _ _ _ _) _)
  · exact .map (freeUntilChecked_onlyResult _ _ _ _ _) _

/-- **A result of `eraseChecked` is the result of `erase`.** -/
theorem eraseChecked_eq (h : s.eraseChecked lo hi = some r) : s.erase lo hi = r := by
  revert r
  show OnlyResult (s.eraseChecked lo hi) (s.erase lo hi)
  rcases s.findNearestLowerSeqRangeListElement lo with ⟨lnearest, t⟩
  refine .ite (.some _) (.ite (.some _) (.ite ?_ (.ite ?_ (.some _))))
  · exact .bind (freeUntilChecked_onlyResult _ _ _ _ _) (.withHandles (.withHandles (.some _)))
  · exact .ite (.some _) (.ite (.some _) (.ite (.some _) (.withHandles (.some _))))

/-! ### Giving back one element -/

lemma Holds.shrinksBy_iff (h : Holds c s L f) :
    s.ShrinksBy n ↔
      0 < n ∧ c.shrinkBy ≠ 0 ∧ c.mallocOk = true ∧ (f.length : ℤ) + n > c.shrinkBy := by
  have hshrink : s.shrinkBy = c.shrinkBy := congrArg Storage.shrinkBy h.storage_eq
  have hmalloc : s.mallocOk = c.mallocOk := congrArg Storage.mallocOk h.storage_eq
  have hunused : s.arraySize - (s.listSize - n) = f.length + n := by
    rw [h.arraySize_eq, h.listSize_eq]
    omega
  rw [ShrinksBy, hshrink, hmalloc, hunused]

lemma Holds.shrinksBy_congr {L' : List (ℕ × Range)} (h : Holds c s L f) (h' : Holds c s' L' f) :
    s.ShrinksBy n ↔ s'.ShrinksBy n := by
  rw [h.shrinksBy_iff, h'.shrinksBy_iff]

private lemma array_freed (h : Laid c s (L1 ++ e :: L2) f) : (s.freed e.1).array = s.array :=
  Prod.ext h.unlinked.2.baseArray h.unlinked.2.brk

lemma Holds.free_stays (h : Holds c s (L1 ++ e :: L2) f) (hnot : ¬s.ShrinksBy 1) :
    Holds c (s.freeSeqRangeListElement e.1) (L1 ++ L2) (f ++ [e.1]) ∧
      (s.freeSeqRangeListElement e.1).array = s.array := by
  have hfreed := h.freed
  suffices heq : s.freeSeqRangeListElement e.1 = s.freed e.1 by
    rw [heq]
    exact ⟨hfreed, array_freed h.toLaid⟩
  rw [freeSeqRangeListElement_eq h.unlinked.2, h.storage_eq]
  split_ifs with hguard
  · -- there is no memory for a smaller array
    rw [h.shrinksBy_iff] at hnot
    have harray := h.arraySize_eq
    have hlist := h.listSize_eq
    refine hfreed.shrink_eq_self ?_ ?_
    · rw [hfreed.arraySize_eq, hfreed.listSize_eq]
      simp only [length_append, length_cons, length_nil] at harray hlist ⊢
      omega
    · have hmalloc : (s.freed e.1).mallocOk = c.mallocOk :=
        congrArg Storage.mallocOk hfreed.storage_eq
      rw [hmalloc, ← Bool.not_eq_true]
      intro hok
      exact hnot ⟨one_pos, hguard.1, hok, by omega⟩
  · rfl

/-- If it shrinks, the list is in another array then. -/
lemma Holds.free_moves (h : Holds c s (L1 ++ e :: L2) f) (hshrinks : s.ShrinksBy 1) :
    (s.freeSeqRangeListElement e.1).array ≠ s.array := by
  have hfreed := h.freed
  have hmany := h.shrinksBy_iff.mp hshrinks
  have harray := h.arraySize_eq
  have hlist := h.listSize_eq
  have hguard : c.shrinkBy ≠ 0 ∧ s.arraySize - (s.listSize - 1) > c.shrinkBy := by
    refine ⟨hmany.2.1, ?_⟩
    omega
  rw [freeSeqRangeListElement_eq h.unlinked.2, h.storage_eq, if_pos hguard]
  obtain ⟨-, -, -, -, hbrk⟩ := hfreed.shrink (by
    rw [hfreed.arraySize_eq, hfreed.listSize_eq]
    simp only [length_append, length_cons, length_nil] at harray hlist ⊢
    omega) ((congrArg Storage.mallocOk hfreed.storage_eq).trans hmany.2.2.1)
  intro heq
  have hsame : (s.freed e.1).brk = s.brk := congrArg Prod.snd (array_freed h.toLaid)
  have hbrk' : (s.freed e.1).shrink.brk = s.brk := congrArg Prod.snd heq
  omega

/-! ### The loop -/

lemma freeUntilChecked_self (array : ℕ × ℕ) (stop rounds : ℕ) (s : SeqTrackingList) :
    freeUntilChecked array stop rounds stop s = some s := by
  cases rounds with
  | zero => rfl
  | succ rounds => rw [freeUntilChecked, if_neg (not_not.mpr rfl)]

/-- What the loop does with the elements `M` in front of `e'`. -/
inductive Frees (c : Storage) (s : SeqTrackingList) (L1 M : List (ℕ × Range)) (e' : ℕ × Range)
    (L2 : List (ℕ × Range)) (f : List ℕ) : Option SeqTrackingList → Prop
  /-- The list stays where it is. -/
  | stays {t : SeqTrackingList} (hnot : ¬s.ShrinksBy M.length)
      (ht : Holds c t (L1 ++ e' :: L2) (f ++ M.map Prod.fst)) (harray : t.array = s.array) :
      Frees c s L1 M e' L2 f (some t)
  /-- It moves when the last element is given back. -/
  | movesLast {t : SeqTrackingList} {L' : List (ℕ × Range)} {f' : List ℕ}
      (hshrinks : s.ShrinksBy M.length) (hnot : ¬s.ShrinksBy (M.length - 1)) (ht : Holds c t L' f')
      (hL' : L'.map Prod.snd = (L1 ++ e' :: L2).map Prod.snd) (harray : t.array ≠ s.array) :
      Frees c s L1 M e' L2 f (some t)
  /-- It moves earlier. -/
  | movesEarly (hshrinks : s.ShrinksBy (M.length - 1)) : Frees c s L1 M e' L2 f none

/-- **The loop over overlapped elements.** -/
theorem Holds.freeUntilChecked (h : Holds c s (L1 ++ (M ++ e' :: L2)) f) (harray : array = s.array)
    (hrounds : M.length ≤ rounds) (htmp : tmp = ((M ++ e' :: L2).map Prod.fst).headD 0) :
    Frees c s L1 M e' L2 f (freeUntilChecked array e'.1 rounds tmp s) := by
  induction M generalizing s f rounds tmp with
  | nil =>
    have hstop : tmp = e'.1 := htmp
    rw [hstop, freeUntilChecked_self]
    refine .stays (fun hshrinks => lt_irrefl 0 hshrinks.1) ?_ rfl
    rw [map_nil, append_nil]
    exact h
  | cons x M ih =>
    obtain ⟨rounds, rfl⟩ := exists_eq_add_one_of_ne_zero (ne_zero_of_lt hrounds)
    have hx : tmp = x.1 := htmp
    have hne : ∀ y ∈ L1 ++ (M ++ e' :: L2), x.1 ≠ y.1 := fun y hy => (h.ne_of_mem hy).symm
    have hnext := h.next_headD
    rw [freeUntilChecked, hx, if_pos (hne e' (by simp)), withHandles, if_pos harray.symm, hnext]
    by_cases hshrinks : s.ShrinksBy 1
    · have hmoved := h.free_moves hshrinks
      cases M with
      | nil =>
        obtain ⟨L', f', hL', hmap⟩ := h.freeElement_any
        rw [nil_append, map_cons, headD_cons, freeUntilChecked_self]
        exact .movesLast hshrinks (fun hzero => lt_irrefl 0 hzero.1) hL' hmap hmoved
      | cons y M =>
        -- the next handle is a stale one
        have hye : y.1 ≠ e'.1 := by
          have hnodup := h.nodup_list
          simp only [map_append, map_cons, cons_append] at hnodup
          have hrest := (nodup_cons.mp (nodup_append.mp hnodup).2.1).2
          intro heq
          refine (nodup_cons.mp hrest).1 ?_
          simp [heq]
        obtain ⟨rounds, rfl⟩ := exists_eq_add_one_of_ne_zero
          (ne_zero_of_lt (lt_of_succ_le (le_of_succ_le_succ hrounds)))
        rw [cons_append, map_cons, headD_cons, freeUntilChecked,
          if_pos hye, withHandles, if_neg (harray ▸ hmoved)]
        have hmany := h.shrinksBy_iff.mp hshrinks
        refine .movesEarly (h.shrinksBy_iff.mpr ⟨?_, hmany.2.1, hmany.2.2.1, ?_⟩)
        all_goals
          simp only [length_cons]
          omega
    · obtain ⟨hfreed, hsame⟩ := h.free_stays hshrinks
      have hstep : ∀ n, 0 < n → ((s.freeSeqRangeListElement x.1).ShrinksBy n ↔
          s.ShrinksBy (n + 1)) := by
        intro n hn
        rw [hfreed.shrinksBy_iff, h.shrinksBy_iff, length_append, length_singleton]
        constructor <;> rintro ⟨-, h1, h2, h3⟩ <;> exact ⟨by omega, h1, h2, by omega⟩
      have hloop := ih hfreed (harray.trans hsame.symm) (le_of_succ_le_succ hrounds) rfl
      revert hloop
      generalize freeUntilChecked array e'.1 rounds _ _ = result
      rintro (⟨hnot, ht, harray'⟩ | ⟨hlast, hnot, ht, hL', harray'⟩ | hearly)
      · refine .stays ?_ ?_ (harray'.trans hsame)
        · rcases Nat.eq_zero_or_pos M.length with hzero | hpos
          · rwa [length_cons, hzero]
          · rwa [length_cons, ← hstep _ hpos]
        · rwa [append_assoc, singleton_append] at ht
      · refine .movesLast ((hstep _ hlast.1).mp hlast) ?_ ht hL' (hsame ▸ harray')
        rw [length_cons, Nat.add_sub_cancel]
        rcases Nat.eq_zero_or_pos (M.length - 1) with hzero | hpos
        · rw [show M.length = 1 from by have := hlast.1; omega]
          exact hshrinks
        · rw [show M.length = M.length - 1 + 1 by omega, ← hstep _ hpos]
          exact hnot
      · refine .movesEarly ?_
        have hpos := hearly.1
        rw [length_cons, Nat.add_sub_cancel, show M.length = M.length - 1 + 1 by omega,
          ← hstep _ hpos]
        exact hearly

private lemma Holds.length_le_listSize (h : Holds c s (L1 ++ e :: (M ++ e' :: L2)) f) :
    M.length ≤ s.listSize.toNat := by
  rw [h.listSize_eq]
  simp only [length_append, length_cons]
  omega

/-- The loop, called for the elements between `e` and `e'`. -/
lemma Holds.freeOverlappedChecked (h : Holds c s (L1 ++ e :: (M ++ e' :: L2)) f)
    (harray : array = s.array) :
    Frees c s (L1 ++ [e]) M e' L2 f (s.freeOverlappedChecked array (s.next e.1) e'.1) := by
  have hnext := h.next_headD
  have hrounds := h.length_le_listSize
  rw [append_cons] at h
  exact h.freeUntilChecked harray hrounds hnext

private lemma Holds.countUntil (h : Holds c s (L1 ++ (M ++ e' :: L2)) f)
    (hrounds : M.length ≤ rounds) (htmp : tmp = ((M ++ e' :: L2).map Prod.fst).headD 0) :
    s.countUntil e'.1 rounds tmp = M.length := by
  induction M generalizing L1 rounds tmp with
  | nil =>
    have hstop : tmp = e'.1 := htmp
    cases rounds with
    | zero => rfl
    | succ rounds => rw [countUntil, if_neg (not_not.mpr hstop), length_nil]
  | cons x M ih =>
    obtain ⟨rounds, rfl⟩ := exists_eq_add_one_of_ne_zero (ne_zero_of_lt hrounds)
    have hx : tmp = x.1 := htmp
    rw [cons_append] at h
    have hne : x.1 ≠ e'.1 := (h.ne_of_mem (show e' ∈ L1 ++ (M ++ e' :: L2) by simp)).symm
    rw [countUntil, hx, if_pos hne, length_cons]
    have hnext := h.next_headD
    rw [append_cons] at h
    rw [ih h (le_of_succ_le_succ hrounds) hnext]

lemma Holds.between_eq (h : Holds c s (L1 ++ e :: (M ++ e' :: L2)) f) :
    s.between e.1 e'.1 = M.length := by
  have hnext := h.next_headD
  have hrounds := h.length_le_listSize
  rw [append_cons] at h
  exact h.countUntil hrounds hnext

lemma ShrinksBy.mono {m : ℕ} (h : s.ShrinksBy n) (hle : n ≤ m) : s.ShrinksBy m := by
  obtain ⟨hpos, hshrink, hmalloc, hmany⟩ := h
  exact ⟨by omega, hshrink, hmalloc, by omega⟩

/-! ### Results unless the list moves -/

/-- There is a result, and it satisfies `P`, unless the list moves too early. -/
structure ResultUnless {β : Type} (moves : Prop) (o : Option β) (P : β → Prop) : Prop where
  result : ¬moves → ∃ r, o = some r ∧ P r
  stale : moves → o = none

lemma ResultUnless.some {r : β} (hnot : ¬moves) (hr : P r) : ResultUnless moves (some r) P :=
  ⟨fun _ => ⟨r, rfl, hr⟩, fun hmoves => absurd hmoves hnot⟩

lemma ResultUnless.map {o : Option β} {Q : γ → Prop} {g : β → γ} (h : ResultUnless moves o P)
    (hg : ∀ r, P r → Q (g r)) : ResultUnless moves (o.map g) Q := by
  constructor
  · intro hnot
    obtain ⟨r, rfl, hr⟩ := h.result hnot
    exact ⟨g r, rfl, hg r hr⟩
  · intro hmoves
    rw [h.stale hmoves]
    rfl

/-- A call that does nothing more has a result unless the list moves before the last element. -/
lemma Frees.resultUnless {o : Option SeqTrackingList} (h : Frees c s L1 M e' L2 f o) :
    ResultUnless (s.ShrinksBy (M.length - 1)) o fun t =>
      ∃ L' f', Holds c t L' f' ∧ L'.map Prod.snd = (L1 ++ e' :: L2).map Prod.snd := by
  cases h with
  | stays hnot ht _ =>
    exact ⟨fun _ => ⟨_, rfl, _, _, ht, rfl⟩, fun hmoves => absurd (hmoves.mono (by omega)) hnot⟩
  | movesLast _ hnot ht hL' _ =>
    exact ⟨fun _ => ⟨_, rfl, _, _, ht, hL'⟩, fun hmoves => absurd hmoves hnot⟩
  | movesEarly hshrinks => exact ⟨absurd hshrinks, fun _ => rfl⟩

/-- A call that goes on to use its handles has a result unless the list moves at all. -/
lemma Frees.bind_resultUnless {o : Option SeqTrackingList} (h : Frees c s L1 M e' L2 f o)
    {k : SeqTrackingList → Option β} (harray : array = s.array)
    (hmoves : s.ShrinksBy M.length → moves)
    (hk : ∀ t, ¬s.ShrinksBy M.length → Holds c t (L1 ++ e' :: L2) (f ++ M.map Prod.fst) →
      t.array = s.array → ResultUnless moves (k t) P) :
    ResultUnless moves (o.bind fun t => t.withHandles array (k t)) P := by
  subst harray
  cases h with
  | stays hnot ht harray =>
    rw [bind_some, withHandles, if_pos harray]
    exact hk _ hnot ht harray
  | movesLast hshrinks _ _ _ harray =>
    rw [bind_some, withHandles, if_neg harray]
    exact ⟨fun hnot => absurd (hmoves hshrinks) hnot, fun _ => rfl⟩
  | movesEarly hshrinks =>
    exact ⟨fun hnot => absurd (hmoves (hshrinks.mono (by omega))) hnot, fun _ => rfl⟩

end Lampi.SeqTrackingList
