import Lampi.Lib.RangeList
import Lampi.Queue.Equiv.SeqTrackingListLinks

/-!
# The storage of a sequence tracking list

`Laid c s L f` adds to the links (`Rings`) the ranges the elements record, the hint, and that memory
from `brk` on has not been handed out; `c` has the parameters of the storage.  `Holds c s L f` says
in addition that the two sizes are right.  Each lemma says what one piece of the code does to `L`:

* `Holds.setLower`, `Holds.setUpper`: one range changes.
* `Holds.freeElement_any`: elements leave the list.
* `Holds.getElement_any`, `Holds.addRange_any`: an element enters it.

A list that grows or shrinks moves to a new array.  Its elements then have other addresses, but the
same ranges in the same order (`Holds.grow`, `Holds.shrink`).
-/

namespace Lampi.SeqTrackingList

open LinkedRing RangeList Function List

variable {s s' : SeqTrackingList} {l l1 l2 f : List ℕ} {p q r : ℕ} {c : Storage}

/-! ### Ranges and bookkeeping -/

/-- The storage never grows or shrinks by a negative number of elements. -/
structure Storage.Sane (c : Storage) : Prop where
  growBy_nonneg : 0 ≤ c.growBy
  shrinkBy_nonneg : 0 ≤ c.shrinkBy

/-- There is no more memory to be had. -/
def Storage.Fixed (c : Storage) : Prop := c.growBy = 0 ∨ c.mallocOk = false

def range (s : SeqTrackingList) (p : ℕ) : Range := ⟨s.lower p, s.upper p⟩

/-- `L` has the elements of the list with the ranges they record, `f` the unused ones. -/
structure Laid (c : Storage) (s : SeqTrackingList) (L : List (ℕ × Range)) (f : List ℕ) :
    Prop extends Rings s (L.map Prod.fst) f where
  range_eq : ∀ e ∈ L, s.range e.1 = e.2
  hint : s.hintp = 0 ∨ s.hintp ∈ L.map Prod.fst
  storage_eq : s.storage = c
  allocated : ∀ p ∈ L.map Prod.fst ++ f, p < s.brk
  brk_pos : 0 < s.brk

/-- The sizes are right, too. -/
structure Holds (c : Storage) (s : SeqTrackingList) (L : List (ℕ × Range)) (f : List ℕ) :
    Prop extends Laid c s L f where
  listSize_eq : s.listSize = L.length
  arraySize_eq : s.arraySize = L.length + f.length

variable {L L1 L2 : List (ℕ × Range)} {e : ℕ × Range} {e' : ℕ × Range} {prevp i tmp a n : ℕ}
  {mem : ℕ → SeqRangeListElement} {t : SeqTrackingList}

lemma Laid.lower_eq (h : Laid c s L f) (he : e ∈ L) : s.lower e.1 = e.2.lower :=
  congrArg Range.lower (h.range_eq e he)

lemma Laid.upper_eq (h : Laid c s L f) (he : e ∈ L) : s.upper e.1 = e.2.upper :=
  congrArg Range.upper (h.range_eq e he)

lemma Laid.lower_at (h : Laid c s (L1 ++ e :: L2) f) : s.lower e.1 = e.2.lower :=
  h.lower_eq mem_append_cons_self

lemma Laid.upper_at (h : Laid c s (L1 ++ e :: L2) f) : s.upper e.1 = e.2.upper :=
  h.upper_eq mem_append_cons_self

lemma Laid.notMem (h : Laid c s (L1 ++ e :: L2) f) :
    e.1 ∉ L1.map Prod.fst ∧ e.1 ∉ L2.map Prod.fst := by
  have hnodup := h.nodup_list
  rw [map_append, map_cons, nodup_middle, nodup_cons, mem_append, not_or] at hnodup
  exact hnodup.1

lemma Laid.ne_of_mem (h : Laid c s (L1 ++ e :: L2) f) {x : ℕ × Range} (hx : x ∈ L1 ++ L2) :
    x.1 ≠ e.1 := by
  rcases mem_append.mp hx with hx | hx
  · exact fun heq => h.notMem.1 (heq ▸ mem_map_of_mem hx)
  · exact fun heq => h.notMem.2 (heq ▸ mem_map_of_mem hx)

/-! ### Writing a range -/

private lemma Holds.write (h : Holds c s (L1 ++ e :: L2) f) {m : ℕ → SeqRangeListElement}
    {r : Range} (hnext : ({ s with mem := m } : SeqTrackingList).next = s.next)
    (hprev : ({ s with mem := m } : SeqTrackingList).prev = s.prev)
    (hsame : ∀ p, p ≠ e.1 → ({ s with mem := m } : SeqTrackingList).range p = s.range p)
    (hr : ({ s with mem := m } : SeqTrackingList).range e.1 = r) :
    Holds c { s with mem := m } (L1 ++ (e.1, r) :: L2) f where
  toRings := by
    have hrings : Rings s ((L1 ++ (e.1, r) :: L2).map Prod.fst) f := by
      rw [map_append, map_cons]
      have := h.toRings
      rwa [map_append, map_cons] at this
    exact hrings.congr hnext hprev rfl rfl
  range_eq := by
    intro x hx
    rcases mem_cons.mp (perm_middle.mem_iff.mp hx) with rfl | hx
    · exact hr
    · rw [hsame _ (h.ne_of_mem hx)]
      exact h.range_eq x (perm_middle.mem_iff.mpr (mem_cons_of_mem _ hx))
  listSize_eq := by rw [length_append, length_cons, ← length_cons (a := e),
    ← length_append]; exact h.listSize_eq
  arraySize_eq := by rw [length_append, length_cons, ← length_cons (a := e),
    ← length_append]; exact h.arraySize_eq
  hint := by
    have hhint := h.hint
    rw [map_append, map_cons] at hhint ⊢
    exact hhint
  storage_eq := h.storage_eq
  allocated := by
    have halloc := h.allocated
    rw [map_append, map_cons] at halloc ⊢
    exact halloc
  brk_pos := h.brk_pos

lemma Holds.setLower (h : Holds c s (L1 ++ e :: L2) f) (v : ℕ) :
    Holds c (s.setLower e.1 v) (L1 ++ (e.1, ⟨v, e.2.upper⟩) :: L2) f := by
  apply Holds.write h (next_setLower s e.1 v) (prev_setLower s e.1 v)
  · intro p hp
    show Range.mk ((s.setLower e.1 v).lower p) ((s.setLower e.1 v).upper p) = s.range p
    rw [lower_setLower, upper_setLower, update_of_ne hp]
    rfl
  · show Range.mk ((s.setLower e.1 v).lower e.1) ((s.setLower e.1 v).upper e.1) = _
    rw [lower_setLower, upper_setLower, update_self, h.upper_at]

lemma Holds.setUpper (h : Holds c s (L1 ++ e :: L2) f) (v : ℕ) :
    Holds c (s.setUpper e.1 v) (L1 ++ (e.1, ⟨e.2.lower, v⟩) :: L2) f := by
  apply Holds.write h (next_setUpper s e.1 v) (prev_setUpper s e.1 v)
  · intro p hp
    show Range.mk ((s.setUpper e.1 v).lower p) ((s.setUpper e.1 v).upper p) = s.range p
    rw [lower_setUpper, upper_setUpper, update_of_ne hp]
    rfl
  · show Range.mk ((s.setUpper e.1 v).lower e.1) ((s.setUpper e.1 v).upper e.1) = _
    rw [lower_setUpper, upper_setUpper, update_self, h.lower_at]

lemma Holds.setHint (h : Holds c s L f) (he : e ∈ L) : Holds c { s with hintp := e.1 } L f where
  toRings := h.toRings.congr rfl rfl rfl rfl
  range_eq := h.range_eq
  listSize_eq := h.listSize_eq
  arraySize_eq := h.arraySize_eq
  hint := Or.inr (mem_map_of_mem he)
  storage_eq := h.storage_eq
  allocated := h.allocated
  brk_pos := h.brk_pos

/-! ### Giving elements back -/

/-- `freeSeqRangeListElement` up to the test whether the storage is to shrink. -/
def freed (s : SeqTrackingList) (p : ℕ) : SeqTrackingList :=
  { ((((s.unlink p).appendFree p).setUpper p 0).setLower p 0) with
    listSize := s.listSize - 1
    hintp := if s.hintp = p then 0 else s.hintp }

lemma freeSeqRangeListElement_eq (hframe : Frame s ((s.unlink p).appendFree p)) :
    s.freeSeqRangeListElement p =
      if s.storage.shrinkBy ≠ 0 ∧ s.arraySize - (s.listSize - 1) > s.storage.shrinkBy then
        (s.freed p).shrink
      else s.freed p := by
  have hlist : ((((s.unlink p).appendFree p).setUpper p 0).setLower p 0).listSize = s.listSize :=
    hframe.listSize
  have harray : ((((s.unlink p).appendFree p).setUpper p 0).setLower p 0).arraySize = s.arraySize :=
    hframe.arraySize
  have hhint : ((((s.unlink p).appendFree p).setUpper p 0).setLower p 0).hintp = s.hintp :=
    hframe.hintp
  have hshrink : ((((s.unlink p).appendFree p).setUpper p 0).setLower p 0).shrinkBy = s.shrinkBy :=
    congrArg Storage.shrinkBy hframe.storage
  unfold freeSeqRangeListElement freed storage
  by_cases hp : s.hintp = p
  · simp only [hlist, harray, hhint, hshrink, if_pos hp]
  · simp only [hlist, harray, hhint, hshrink, if_neg hp]

private lemma range_freed (hframe : Frame s ((s.unlink p).appendFree p)) (hq : q ≠ p) :
    (s.freed p).range q = s.range q := by
  show Range.mk (((((s.unlink p).appendFree p).setUpper p 0).setLower p 0).lower q)
    (((((s.unlink p).appendFree p).setUpper p 0).setLower p 0).upper q) = s.range q
  rw [lower_setLower, upper_setLower, lower_setUpper, upper_setUpper, hframe.lower, hframe.upper,
    update_of_ne hq, update_of_ne hq]
  rfl

private lemma Rings.freed (h : Rings ((s.unlink p).appendFree p) l f) : Rings (s.freed p) l f := by
  refine h.congr ?_ ?_ rfl rfl
  · exact (next_setLower _ _ _).trans (next_setUpper _ _ _)
  · exact (prev_setLower _ _ _).trans (prev_setUpper _ _ _)

private lemma Laid.of_freed (hrings : Rings ((s.unlink p).appendFree p) (L.map Prod.fst) f)
    (hframe : Frame s ((s.unlink p).appendFree p)) (hrange : ∀ e ∈ L, e.1 ≠ p ∧ s.range e.1 = e.2)
    (hhint : s.hintp = 0 ∨ s.hintp = p ∨ s.hintp ∈ L.map Prod.fst) (hstorage : s.storage = c)
    (halloc : ∀ q ∈ L.map Prod.fst ++ f, q < s.brk) (hbrk : 0 < s.brk) :
    Laid c (s.freed p) L f := by
  refine ⟨hrings.freed, ?_, ?_, hframe.storage.trans hstorage, ?_, hframe.brk.symm ▸ hbrk⟩
  · intro e he
    exact (range_freed hframe (hrange e he).1).trans (hrange e he).2
  · show (if s.hintp = p then 0 else s.hintp) = 0 ∨
      (if s.hintp = p then 0 else s.hintp) ∈ L.map Prod.fst
    split_ifs with hp
    · exact .inl rfl
    · exact hhint.imp_right fun hor => hor.resolve_left hp
  · intro q hq
    show q < ((s.unlink p).appendFree p).brk
    rw [hframe.brk]
    exact halloc q hq

lemma Laid.unlinked (h : Laid c s (L1 ++ e :: L2) f) :
    Rings ((s.unlink e.1).appendFree e.1) ((L1 ++ L2).map Prod.fst) (f ++ [e.1]) ∧
      Frame s ((s.unlink e.1).appendFree e.1) := by
  have hrings := h.toRings
  rw [map_append, map_cons] at hrings
  have he : e.1 ∈ L1.map Prod.fst ++ e.1 :: L2.map Prod.fst := by simp
  obtain ⟨hunlink, hframe1⟩ := hrings.unlink
  have hnot : e.1 ∉ (L1.map Prod.fst ++ L2.map Prod.fst) ++ f := by
    simp only [mem_append, not_or]
    exact ⟨h.notMem, hrings.notMem_free he⟩
  obtain ⟨happend, hframe2⟩ := hunlink.appendFree (hrings.ne_zero _ (mem_append_left f he)) hnot
  rw [map_append]
  exact ⟨happend, hframe1.trans hframe2⟩

lemma Laid.freed (h : Laid c s (L1 ++ e :: L2) f) :
    Laid c (s.freed e.1) (L1 ++ L2) (f ++ [e.1]) := by
  obtain ⟨hrings, hframe⟩ := h.unlinked
  refine Laid.of_freed hrings hframe ?_ ?_ h.storage_eq ?_ h.brk_pos
  · intro x hx
    refine ⟨h.ne_of_mem hx, h.range_eq x ?_⟩
    exact perm_middle.mem_iff.mpr (mem_cons_of_mem e hx)
  · have hhint := h.hint
    simp only [map_append, map_cons, mem_append, mem_cons] at hhint ⊢
    tauto
  · intro q hq
    refine h.allocated q ?_
    simp only [map_append, map_cons, mem_append, mem_cons] at hq ⊢
    tauto

lemma Holds.freed (h : Holds c s (L1 ++ e :: L2) f) :
    Holds c (s.freed e.1) (L1 ++ L2) (f ++ [e.1]) := by
  refine ⟨h.toLaid.freed, ?_, ?_⟩
  · show s.listSize - 1 = _
    have hsize := h.listSize_eq
    simp only [length_append, length_cons] at hsize ⊢
    omega
  · have hsize := h.unlinked.2.arraySize.trans h.arraySize_eq
    simp only [length_append, length_cons, length_nil] at hsize ⊢
    exact hsize.trans (by omega)

lemma Holds.next_eq (h : Holds c s (L1 ++ e :: e' :: L2) f) :
    s.next e.1 = e'.1 ∧ s.prev e'.1 = e.1 := by
  have hlist := h.list
  rw [map_append, map_cons, map_cons] at hlist
  exact hlist.next_eq

lemma Holds.next_headD {M : List (ℕ × Range)} (h : Holds c s (L1 ++ e :: (M ++ e' :: L2)) f) :
    s.next e.1 = ((M ++ e' :: L2).map Prod.fst).headD 0 := by
  cases M with
  | nil => exact h.next_eq.1
  | cons y M => exact h.next_eq.1

lemma freeOverlapped_self (s : SeqTrackingList) (p : ℕ) : s.freeOverlapped p p = s := by
  unfold freeOverlapped
  cases s.listSize.toNat with
  | zero => rfl
  | succ rounds => rw [freeUntil, if_neg (not_not.mpr rfl)]

/-! ### Getting an element -/

lemma Holds.getElement_full (h : Holds c s L []) (hc : c.Fixed)
    (prevp : ℕ) : s.getSeqRangeListElement prevp = (0, s) := by
  have hfull : s.listSize + 1 > s.arraySize := by
    rw [h.listSize_eq, h.arraySize_eq, length_nil]
    omega
  have hnone : s.growBy = 0 ∨ (!s.mallocOk) = true := by
    have hstorage := h.storage_eq
    subst hstorage
    exact hc.imp_right fun hmalloc => by rw [show s.mallocOk = false from hmalloc]; rfl
  unfold getSeqRangeListElement
  rw [if_pos ⟨hfull, hnone⟩]

lemma Holds.getElement (h : Holds c s (L1 ++ L2) (r :: f))
    (hprevp : prevp = (L1.map Prod.fst).getLastD 0) :
    ∃ s', s.getSeqRangeListElement prevp = (r, s') ∧
      Holds c s' (L1 ++ (r, s.range r) :: L2) f ∧ s'.baseArray = s.baseArray ∧ s'.brk = s.brk := by
  have hroom : ¬(s.listSize + 1 > s.arraySize) := by
    rw [h.listSize_eq, h.arraySize_eq, length_cons]
    omega
  have hrings := h.toRings
  obtain ⟨htake, hrings1, hframe1⟩ := hrings.takeFree
  have hr : r ∈ (L1 ++ L2).map Prod.fst ++ r :: f := by simp
  have hr0 : r ≠ 0 := hrings.ne_zero r hr
  have hnot : r ∉ (L1 ++ L2).map Prod.fst ++ f := by
    have hnodup := hrings.nodup
    rw [nodup_middle, nodup_cons] at hnodup
    exact hnodup.1
  have hlink : Rings (s.takeFree.2.linkIn prevp r) ((L1 ++ (r, s.range r) :: L2).map Prod.fst) f ∧
      Frame s.takeFree.2 (s.takeFree.2.linkIn prevp r) := by
    rw [map_append] at hrings1 hnot ⊢
    rcases eq_nil_or_concat (L1.map Prod.fst) with hnil | ⟨l, z, hz⟩
    · rw [hnil] at hprevp hrings1 hnot ⊢
      subst hprevp
      exact hrings1.linkIn_front hr0 hnot
    · rw [hz, concat_eq_append] at hprevp hrings1 hnot ⊢
      rw [getLastD_concat] at hprevp
      subst hprevp
      simp only [append_assoc, singleton_append] at hrings1 hnot ⊢
      exact hrings1.linkIn_after hr0 (by simpa using hnot)
  obtain ⟨hrings2, hframe2⟩ := hlink
  have hframe := hframe1.trans hframe2
  refine ⟨{ s.takeFree.2.linkIn prevp r with listSize := s.listSize + 1 }, ?_, ?_,
    hframe.baseArray, hframe.brk⟩
  · unfold getSeqRangeListElement
    rw [if_neg (fun hfull => hroom hfull.1), if_neg hroom]
    show (s.takeFree.1, { s.takeFree.2.linkIn prevp s.takeFree.1 with
      listSize := (s.takeFree.2.linkIn prevp s.takeFree.1).listSize + 1 }) = _
    rw [htake, hframe.listSize]
  · have hrange : ∀ p, ({ s.takeFree.2.linkIn prevp r with
        listSize := s.listSize + 1 } : SeqTrackingList).range p = s.range p := by
      intro p
      show Range.mk ((s.takeFree.2.linkIn prevp r).lower p)
        ((s.takeFree.2.linkIn prevp r).upper p) = s.range p
      rw [hframe.lower, hframe.upper]
      rfl
    refine ⟨⟨hrings2.congr rfl rfl rfl rfl, ?_, ?_, hframe.storage.trans h.storage_eq, ?_,
      hframe.brk.symm ▸ h.brk_pos⟩, ?_, ?_⟩
    · intro x hx
      rw [hrange]
      rcases mem_cons.mp (perm_middle.mem_iff.mp hx) with rfl | hx
      · rfl
      · exact h.range_eq x hx
    · rcases h.hint with hzero | hmem
      · exact .inl (hframe.hintp.trans hzero)
      · right
        show (s.takeFree.2.linkIn prevp r).hintp ∈ _
        rw [hframe.hintp]
        simp only [map_append, map_cons, mem_append, mem_cons] at hmem ⊢
        tauto
    · intro p hp
      show p < (s.takeFree.2.linkIn prevp r).brk
      rw [hframe.brk]
      refine h.allocated p ?_
      simp only [map_append, map_cons, mem_append, mem_cons] at hp ⊢
      tauto
    · have hsize := h.listSize_eq
      simp only [length_append, length_cons] at hsize ⊢
      omega
    · have hsize := hframe.arraySize.trans h.arraySize_eq
      simp only [length_append, length_cons] at hsize ⊢
      exact hsize.trans (by omega)

/-! ### Moving to a new array -/

/-- The elements in the order of the list from address `a` on. -/
def moved (a : ℕ) : List (ℕ × Range) → List (ℕ × Range)
  | [] => []
  | e :: L => (a, e.2) :: moved (a + 1) L

@[simp] lemma length_moved (a : ℕ) (L : List (ℕ × Range)) : (moved a L).length = L.length := by
  induction L generalizing a with
  | nil => rfl
  | cons e L ih => simp [moved, ih]

lemma map_fst_moved (a : ℕ) (L : List (ℕ × Range)) :
    (moved a L).map Prod.fst = range' a L.length := by
  induction L generalizing a with
  | nil => rfl
  | cons e L ih => simp [moved, ih, range'_succ]

lemma map_snd_moved (a : ℕ) (L : List (ℕ × Range)) : (moved a L).map Prod.snd = L.map Prod.snd := by
  induction L generalizing a with
  | nil => rfl
  | cons e L ih => simp [moved, ih]

lemma moved_append (a : ℕ) (L1 L2 : List (ℕ × Range)) :
    moved a (L1 ++ L2) = moved a L1 ++ moved (a + L1.length) L2 := by
  induction L1 generalizing a with
  | nil => simp [moved]
  | cons e L1 ih => simp [moved, ih, Nat.add_assoc, Nat.add_comm 1]

/-- The element `copyList` writes at index `i` of an array of `size` elements. -/
private def copied (newArray size i : ℕ) (r : Range) : SeqRangeListElement where
  next := if i + 1 = size then newArray else newArray + i + 1
  prev := if i = 0 then newArray + (size - 1) else newArray + i - 1
  lower := r.lower
  upper := r.upper

private lemma copyList_spec {newArray size : ℕ} (htmp : tmp = (L.map Prod.fst).headD tmp)
    (hchain : (L.map Prod.fst).IsChain fun p q => (mem p).next = q)
    (hrange : ∀ e ∈ L, (⟨(mem e.1).lower, (mem e.1).upper⟩ : Range) = e.2)
    (hbelow : ∀ e ∈ L, e.1 < newArray) :
    (∀ p, p < newArray + i → copyList newArray size L.length i tmp mem p = mem p) ∧
      ∀ e ∈ moved (newArray + i) L, copyList newArray size L.length i tmp mem e.1 =
        copied newArray size (e.1 - newArray) e.2 := by
  induction L generalizing i tmp mem with
  | nil => exact ⟨fun p _ => rfl, by simp [moved]⟩
  | cons e L ih =>
    have htmp' : tmp = e.1 := htmp
    subst htmp'
    have hentry : ({ next := if i + 1 = size then newArray else newArray + i + 1
                     prev := if i = 0 then newArray + (size - 1) else newArray + i - 1
                     lower := (mem e.1).lower
                     upper := (mem e.1).upper } : SeqRangeListElement) =
        copied newArray size i e.2 := by
      rw [← hrange e mem_cons_self]
      rfl
    have hsame : ∀ p, p < newArray + i →
        update mem (newArray + i) (copied newArray size i e.2) p = mem p :=
      fun p hp => update_of_ne (ne_of_lt hp) _ _
    have hbelow' : ∀ p ∈ L.map Prod.fst, p < newArray + i := by
      intro p hp
      obtain ⟨x, hx, rfl⟩ := mem_map.mp hp
      have := hbelow x (mem_cons_of_mem e hx)
      omega
    have hhead : (mem e.1).next = (L.map Prod.fst).headD (mem e.1).next := by
      cases L with
      | nil => rfl
      | cons x L => exact (isChain_cons_cons.mp hchain).1
    have hchain' : (L.map Prod.fst).IsChain fun p q =>
        (update mem (newArray + i) (copied newArray size i e.2) p).next = q :=
      hchain.tail.imp_of_mem_imp fun p q hp _ hpq => by rw [hsame p (hbelow' p hp)]; exact hpq
    have hrange' : ∀ x ∈ L, Range.mk
        (update mem (newArray + i) (copied newArray size i e.2) x.1).lower
        (update mem (newArray + i) (copied newArray size i e.2) x.1).upper = x.2 := by
      intro x hx
      rw [hsame x.1 (hbelow' x.1 (mem_map_of_mem hx))]
      exact hrange x (mem_cons_of_mem e hx)
    obtain ⟨ih1, ih2⟩ := ih (i := i + 1) hhead hchain' hrange' fun x hx =>
      hbelow x (mem_cons_of_mem e hx)
    rw [length_cons, copyList, hentry]
    refine ⟨fun p hp => (ih1 p (by omega)).trans (hsame p hp), ?_⟩
    intro x hx
    rcases mem_cons.mp hx with rfl | hx
    · refine (ih1 _ (by omega)).trans ?_
      rw [update_self, Nat.add_sub_cancel_left]
    · exact ih2 x (by rwa [← Nat.add_assoc])

private lemma Laid.next_isChain (h : Laid c s L f) :
    (L.map Prod.fst).IsChain fun p q => (s.mem p).next = q :=
  h.list.isChain.imp fun _ _ hpq => hpq.1

private lemma Laid.headp_headD (h : Laid c s L f) : s.headp = (L.map Prod.fst).headD s.headp := by
  rw [h.headp_eq]
  cases L <;> rfl

/-- A state whose list has been copied to the first elements of a new array. -/
lemma Laid.copy (h : Laid c s L f) (hmem : t.mem = copyList s.brk L.length L.length 0 s.headp s.mem)
    (hheadp : t.headp = if L = [] then 0 else s.brk) (hfreep : t.freep = 0)
    (hhint : t.hintp = 0 ∨ t.hintp ∈ range' s.brk L.length) (hstorage : t.storage = c)
    (hbrk : s.brk + L.length ≤ t.brk) : Laid c t (moved s.brk L) [] := by
  obtain ⟨-, hcopied⟩ := copyList_spec (i := 0) h.headp_headD h.next_isChain h.range_eq
    fun e he => h.allocated e.1 (mem_append_left f (mem_map_of_mem he))
  rw [Nat.add_zero, ← hmem] at hcopied
  have hindex : ∀ j < L.length, ∃ r, t.mem (s.brk + j) = copied s.brk L.length j r := by
    intro j hj
    have hmem : s.brk + j ∈ (moved s.brk L).map Prod.fst := by
      rw [map_fst_moved, mem_range'_1]
      omega
    obtain ⟨e, he, hej⟩ := mem_map.mp hmem
    refine ⟨e.2, ?_⟩
    rw [← hej, hcopied e he, hej, Nat.add_sub_cancel_left]
  refine ⟨⟨?_, trivial, ?_, hfreep, ?_, ?_⟩, ?_, ?_, hstorage, ?_, ?_⟩
  · rw [map_fst_moved]
    apply isRing_range'
    · intro j hj
      obtain ⟨r, hr⟩ := hindex j hj
      show (t.mem (s.brk + j)).next = _
      rw [hr]
      rfl
    · intro j hj
      obtain ⟨r, hr⟩ := hindex j hj
      show (t.mem (s.brk + j)).prev = _
      rw [hr]
      rfl
  · rw [hheadp]
    cases L <;> rfl
  · rw [append_nil, map_fst_moved]
    exact nodup_range'
  · intro p hp
    rw [append_nil, map_fst_moved, mem_range'_1] at hp
    have := h.brk_pos
    omega
  · intro e he
    show Range.mk (t.mem e.1).lower (t.mem e.1).upper = e.2
    rw [hcopied e he]
    rfl
  · rwa [map_fst_moved]
  · intro p hp
    rw [append_nil, map_fst_moved, mem_range'_1] at hp
    omega
  · have := h.brk_pos
    omega

private lemma relocate_of_notMem (htmp : tmp = l.headD tmp)
    (hchain : l.IsChain fun p q => (mem p).next = q) (hp : p ∉ l) :
    relocate mem a p l.length i tmp = p := by
  induction l generalizing i tmp with
  | nil => rfl
  | cons x l ih =>
    have htmp' : tmp = x := htmp
    subst htmp'
    rw [mem_cons, not_or] at hp
    rw [length_cons, relocate, if_neg hp.1]
    refine ih ?_ hchain.tail hp.2
    cases l with
    | nil => rfl
    | cons y l => exact (isChain_cons_cons.mp hchain).1

private lemma relocate_of_mem (htmp : tmp = (l1 ++ p :: l2).headD tmp)
    (hchain : (l1 ++ p :: l2).IsChain fun p q => (mem p).next = q) (hp : p ∉ l1) :
    relocate mem a p (l1 ++ p :: l2).length i tmp = a + (i + l1.length) := by
  induction l1 generalizing i tmp with
  | nil =>
    have htmp' : tmp = p := htmp
    rw [nil_append, length_cons, relocate, if_pos htmp'.symm]
    rfl
  | cons x l1 ih =>
    have htmp' : tmp = x := htmp
    subst htmp'
    rw [mem_cons, not_or] at hp
    rw [cons_append, length_cons, relocate, if_neg hp.1]
    have hnext : (mem tmp).next = (l1 ++ p :: l2).headD (mem tmp).next := by
      cases l1 with
      | nil => exact (isChain_cons_cons.mp hchain).1
      | cons y l1 => exact (isChain_cons_cons.mp hchain).1
    rw [ih hnext hchain.tail hp.2, length_cons]
    omega

/-! ### Filling the free list of a new array -/

/-- `n` elements still have to be put on the free list.  Until then they count as elements of the
list, so that nothing shrinks. -/
structure Building (c : Storage) (s : SeqTrackingList) (L : List (ℕ × Range)) (f : List ℕ)
    (n : ℕ) : Prop extends Laid c s L f where
  listSize_eq : s.listSize = L.length + n
  room : c.shrinkBy = 0 ∨ s.arraySize - L.length ≤ c.shrinkBy

private lemma forall_lt_concat {b : ℕ} (h : ∀ q ∈ l ++ f, q < b) (hp : p < b) :
    ∀ q ∈ l ++ (f ++ [p]), q < b := by
  rw [← append_assoc]
  exact forall_mem_append.mpr ⟨h, forall_mem_singleton.mpr hp⟩

private lemma unlink_of_next_eq_zero (h : s.next p = 0) : s.unlink p = s := by
  unfold unlink
  rw [if_neg (not_not.mpr h)]

private lemma Building.step (h : Building c s L f (n + 1)) (hp : p ≠ 0)
    (hmem : p ∉ L.map Prod.fst ++ f) (hbrk : p < s.brk)
    (ht : t = ((s.setPrev p 0).setNext p 0).freeSeqRangeListElement p) :
    Building c t L (f ++ [p]) n ∧ t.baseArray = s.baseArray ∧ t.arraySize = s.arraySize ∧
      t.brk = s.brk := by
  have hframe1 : Frame s ((s.setPrev p 0).setNext p 0) :=
    (Frame.setPrev s p 0).trans (Frame.setNext _ p 0)
  have hunlink : ((s.setPrev p 0).setNext p 0).unlink p = (s.setPrev p 0).setNext p 0 := by
    apply unlink_of_next_eq_zero
    rw [next_setNext, update_self]
  have hnot := not_or.mp (fun hor => hmem (mem_append.mpr hor))
  have hrings : Rings ((s.setPrev p 0).setNext p 0) (L.map Prod.fst) f := by
    refine ⟨?_, ?_, h.headp_eq, h.freep_eq, h.nodup, h.ne_zero⟩
    · simpa using IsRing.update_of_disjoint h.list hnot.1 hnot.1
    · simpa using IsRing.update_of_disjoint h.free hnot.2 hnot.2
  -- the element is in no list now
  generalize (s.setPrev p 0).setNext p 0 = u at ht hframe1 hunlink hrings
  obtain ⟨happend, hframe⟩ := hrings.appendFree hp hmem
  rw [← hunlink] at happend
  nth_rewrite 2 [← hunlink] at hframe
  have hlist := hframe1.listSize.trans h.listSize_eq
  have hstorage := hframe1.storage.trans h.storage_eq
  have hguard : ¬(u.storage.shrinkBy ≠ 0 ∧
      u.arraySize - (u.listSize - 1) > u.storage.shrinkBy) := by
    rw [hstorage, hlist, hframe1.arraySize]
    rintro ⟨hne, hgt⟩
    have := h.room.resolve_left hne
    omega
  rw [freeSeqRangeListElement_eq hframe, if_neg hguard] at ht
  subst ht
  have harray := hframe.arraySize.trans hframe1.arraySize
  refine ⟨⟨Laid.of_freed happend hframe ?_ ?_ hstorage ?_ (hframe1.brk.symm ▸ h.brk_pos), ?_, ?_⟩,
    hframe.baseArray.trans hframe1.baseArray, harray, hframe.brk.trans hframe1.brk⟩
  · intro e he
    refine ⟨fun hep => hnot.1 (hep ▸ mem_map_of_mem he), (h.range_eq e he).symm ▸ ?_⟩
    show Range.mk (u.lower e.1) _ = Range.mk (s.lower e.1) (s.upper e.1)
    rw [hframe1.lower, hframe1.upper]
  · rw [hframe1.hintp]
    exact h.hint.imp_right .inr
  · rw [hframe1.brk]
    exact forall_lt_concat h.allocated hbrk
  · show u.listSize - 1 = _
    omega
  · show c.shrinkBy = 0 ∨ ((u.unlink p).appendFree p).arraySize - _ ≤ c.shrinkBy
    rw [harray]
    exact h.room

/-- The loop puts all of them on the free list. -/
lemma Building.freeNew (h : Building c s L f n) (hbase : 0 < n → s.baseArray + i ≠ 0)
    (hmem : ∀ p ∈ L.map Prod.fst ++ f, p < s.baseArray + i) (hbrk : s.baseArray + i + n ≤ s.brk) :
    Building c (freeNew n i s) L (f ++ range' (s.baseArray + i) n) 0 ∧
      (freeNew n i s).arraySize = s.arraySize := by
  induction n generalizing s f i with
  | zero => simpa using ⟨h, rfl⟩
  | succ n ih =>
    have hnot : s.baseArray + i ∉ L.map Prod.fst ++ f := fun hp => lt_irrefl _ (hmem _ hp)
    obtain ⟨hstep, hbase', harray', hbrk'⟩ := h.step (hbase n.succ_pos) hnot (by omega) rfl
    obtain ⟨hloop, harray⟩ := ih (i := i + 1) hstep (fun _ => by rw [hbase']; omega) (by
      exact forall_lt_concat (fun p hp => (hmem p hp).trans (by omega)) (by omega))
      (by rw [hbase', hbrk']; omega)
    rw [hbase', append_assoc, singleton_append, ← Nat.add_assoc, ← range'_succ]
      at hloop
    exact ⟨hloop, harray.trans harray'⟩

/-! ### Growing -/

private lemma Laid.relocate_last (h : Laid c s (L1 ++ L2) f) :
    relocate s.mem s.brk ((L1.map Prod.fst).getLastD 0) (L1 ++ L2).length 0 s.headp =
      ((moved s.brk L1).map Prod.fst).getLastD 0 := by
  rw [← length_map Prod.fst]
  rcases eq_nil_or_concat L1 with rfl | ⟨L, e, rfl⟩
  · refine relocate_of_notMem h.headp_headD h.next_isChain fun hzero => ?_
    exact h.ne_zero 0 (mem_append_left f hzero) rfl
  · rw [concat_eq_append, append_assoc, singleton_append] at h ⊢
    have hmove : ((moved s.brk (L ++ [e])).map Prod.fst).getLastD 0 = s.brk + L.length := by
      rw [moved_append, map_append]
      simp [moved]
    have hheadp := h.headp_headD
    have hchain := h.next_isChain
    rw [hmove]
    simp only [map_append, map_cons, map_nil, getLastD_concat] at hheadp hchain ⊢
    rw [relocate_of_mem hheadp hchain h.notMem.1, length_map, Nat.zero_add]

private lemma Laid.relocate_hint (h : Laid c s L f) :
    relocate s.mem s.brk s.hintp L.length 0 s.headp = 0 ∨
      relocate s.mem s.brk s.hintp L.length 0 s.headp ∈ range' s.brk L.length := by
  rcases h.hint with hzero | hmem
  · left
    rw [hzero, ← length_map Prod.fst]
    refine relocate_of_notMem h.headp_headD h.next_isChain fun hzero => ?_
    exact h.ne_zero 0 (mem_append_left f hzero) rfl
  · right
    obtain ⟨e, he, hhint⟩ := mem_map.mp hmem
    obtain ⟨L1, L2, rfl⟩ := append_of_mem he
    have hheadp := h.headp_headD
    have hchain := h.next_isChain
    rw [← hhint, ← length_map Prod.fst]
    simp only [map_append, map_cons] at hheadp hchain ⊢
    rw [relocate_of_mem hheadp hchain h.notMem.1, mem_range'_1]
    simp only [length_append, length_cons, length_map]
    omega

/-- **A list that grows** keeps its ranges and gets new free elements. -/
theorem Holds.grow (h : Holds c s (L1 ++ L2) []) (hg : 0 < c.growBy) (hk : 0 ≤ c.shrinkBy) :
    ∃ s' r f', s.grow ((L1.map Prod.fst).getLastD 0) =
        (((moved s.brk L1).map Prod.fst).getLastD 0, s') ∧
      Holds c s' (moved s.brk (L1 ++ L2)) (r :: f') ∧ s.brk < s'.brk := by
  have hgrow : s.growBy = c.growBy := congrArg Storage.growBy h.storage_eq
  have harray : s.arraySize = (L1 ++ L2).length := by simpa using h.arraySize_eq
  have hlast := h.relocate_last
  have hhint := h.relocate_hint
  have hsize : s.listSize.toNat = (L1 ++ L2).length := by rw [h.listSize_eq, Int.toNat_natCast]
  have hsize' : s.arraySize.toNat = (L1 ++ L2).length := by rw [harray, Int.toNat_natCast]
  generalize hL : L1 ++ L2 = L at *
  -- the state in front of the loop
  obtain ⟨t, ht⟩ : ∃ t : SeqTrackingList, t =
      { s with
        brk := s.brk + (s.arraySize + s.growBy).toNat
        freep := 0
        hintp := relocate s.mem s.brk s.hintp L.length 0 s.headp
        headp := if s.listSize > 0 then s.brk else 0
        mem := copyList s.brk L.length L.length 0 s.headp s.mem
        baseArray := s.brk
        listSize := s.listSize + s.growBy } := ⟨_, rfl⟩
  have hbrk : t.brk = s.brk + L.length + s.growBy.toNat := by
    rw [ht]
    show s.brk + (s.arraySize + s.growBy).toNat = _
    omega
  have hlaid : Laid c t (moved s.brk L) [] := by
    refine h.toLaid.copy (by rw [ht]) ?_ (by rw [ht]) (by rw [ht]; exact hhint) ?_ (by omega)
    · rw [ht]
      show (if s.listSize > 0 then s.brk else 0) = _
      rw [h.listSize_eq]
      cases L with
      | nil => rfl
      | cons e L => rw [if_pos (by simp), if_neg (cons_ne_nil e L)]
    · rw [ht]
      exact h.storage_eq
  have hbuild : Building c t (moved s.brk L) [] s.growBy.toNat := by
    refine ⟨hlaid, ?_, .inr ?_⟩
    · rw [ht, length_moved]
      show s.listSize + s.growBy = _
      have := h.listSize_eq
      omega
    · rw [ht, length_moved]
      show s.arraySize - L.length ≤ _
      omega
  have hbase : t.baseArray = s.brk := by rw [ht]
  obtain ⟨hloop, hloopArray⟩ := hbuild.freeNew (i := L.length)
    (fun _ => by rw [hbase]; have := h.brk_pos; omega)
    (fun p hp => by
      rw [append_nil, map_fst_moved, mem_range'_1] at hp
      rw [hbase]
      exact hp.2)
    (by rw [hbase, hbrk])
  have hgrowBy : (freeNew s.growBy.toNat L.length t).growBy = s.growBy :=
    (congrArg Storage.growBy hloop.storage_eq).trans hgrow.symm
  obtain ⟨n, hn⟩ : ∃ n, s.growBy.toNat = n + 1 := ⟨s.growBy.toNat - 1, by omega⟩
  refine ⟨{ freeNew s.growBy.toNat L.length t with
    arraySize := (freeNew s.growBy.toNat L.length t).arraySize +
      (freeNew s.growBy.toNat L.length t).growBy }, s.brk + L.length,
    range' (s.brk + L.length + 1) n, ?_, ?_, ?_⟩
  all_goals rw [hbase, hn, nil_append, range'_succ, ← hn] at hloop
  · unfold SeqTrackingList.grow
    simp only [hsize, hsize', hlast, ← ht]
  · refine ⟨⟨hloop.toRings.congr rfl rfl rfl rfl, hloop.range_eq, hloop.hint, hloop.storage_eq,
      hloop.allocated, hloop.brk_pos⟩, ?_, ?_⟩
    · simpa using hloop.listSize_eq
    · show (freeNew s.growBy.toNat L.length t).arraySize +
        (freeNew s.growBy.toNat L.length t).growBy = _
      rw [hloopArray, hgrowBy, ht, length_moved, length_cons, length_range']
      show s.arraySize + s.growBy = _
      omega
  · -- the new elements are in new memory
    have hnew := hloop.allocated (s.brk + L.length) (by simp)
    show s.brk < (freeNew s.growBy.toNat L.length t).brk
    omega

private lemma getSeqRangeListElement_grow {prevp' : ℕ} (hfull : s.listSize + 1 > s.arraySize)
    (hgrowBy : s.growBy ≠ 0) (hmalloc : s.mallocOk = true) (hgrow : s.grow prevp = (prevp', s'))
    (hroom : ¬s'.listSize + 1 > s'.arraySize) :
    s.getSeqRangeListElement prevp = s'.getSeqRangeListElement prevp' := by
  have hcan : ¬(s.listSize + 1 > s.arraySize ∧ (s.growBy = 0 ∨ (!s.mallocOk) = true)) := by
    rintro ⟨-, hzero | hfails⟩
    · exact hgrowBy hzero
    · rw [hmalloc] at hfails
      exact Bool.false_ne_true hfails
  unfold getSeqRangeListElement
  simp only [if_neg hcan, if_pos hfull, hgrow, hroom, false_and, if_false]

/-- **Getting an element**, whether the storage has to grow for it or not. -/
theorem Holds.getElement_any (h : Holds c s (L1 ++ L2) f) (hsane : c.Sane)
    (hprevp : prevp = (L1.map Prod.fst).getLastD 0) :
    (s.getSeqRangeListElement prevp = (0, s) ∧ f = [] ∧ c.Fixed) ∨
      ∃ s' r x K1 K2 f', s.getSeqRangeListElement prevp = (r, s') ∧ r ≠ 0 ∧
        Holds c s' (K1 ++ (r, x) :: K2) f' ∧ K1.map Prod.snd = L1.map Prod.snd ∧
        K2.map Prod.snd = L2.map Prod.snd ∧ (f = [] → s.brk < s'.brk) := by
  cases f with
  | cons r f =>
    right
    obtain ⟨s', hget, hs', -⟩ := h.getElement hprevp
    exact ⟨s', r, s.range r, L1, L2, f, hget, h.ne_zero r (by simp), hs', rfl, rfl,
      fun hnil => absurd hnil (cons_ne_nil r f)⟩
  | nil =>
    by_cases hc : c.Fixed
    · exact .inl ⟨h.getElement_full hc prevp, rfl, hc⟩
    · right
      rw [Storage.Fixed, not_or, Bool.not_eq_false] at hc
      have hstorage := h.storage_eq
      obtain ⟨s', r, f', hgrow, hs', hbrk⟩ :=
        h.grow (lt_of_le_of_ne hsane.growBy_nonneg (Ne.symm hc.1)) hsane.shrinkBy_nonneg
      rw [moved_append] at hs'
      obtain ⟨s'', hget, hs'', -, hbrk'⟩ := hs'.getElement rfl
      refine ⟨s'', r, _, _, _, f', ?_, hs'.ne_zero r (by simp), hs'', map_snd_moved _ _,
        map_snd_moved _ _, fun _ => hbrk'.symm ▸ hbrk⟩
      rw [← hget, hprevp]
      apply getSeqRangeListElement_grow _ _ _ hgrow
      · rw [hs'.listSize_eq, hs'.arraySize_eq, length_cons]
        omega
      · rw [h.listSize_eq, h.arraySize_eq, length_nil]
        omega
      · exact fun hzero => hc.1 ((congrArg Storage.growBy hstorage).symm.trans hzero)
      · exact (congrArg Storage.mallocOk hstorage).trans hc.2

/-- **Adding a range**, whether the storage has to grow for it or not. -/
theorem Holds.addRange_any (h : Holds c s (L1 ++ L2) f) (hsane : c.Sane)
    (hprevp : prevp = (L1.map Prod.fst).getLastD 0) (lower upper : ℕ) :
    (s.addRange prevp lower upper = (false, s) ∧ f = [] ∧ c.Fixed) ∨
      ∃ s' r K1 K2 f', s.addRange prevp lower upper = (true, s') ∧
        Holds c s' (K1 ++ (r, ⟨lower, upper⟩) :: K2) f' ∧ K1.map Prod.snd = L1.map Prod.snd ∧
        K2.map Prod.snd = L2.map Prod.snd := by
  rcases h.getElement_any hsane hprevp with
    ⟨hget, hfull⟩ | ⟨s', r, x, K1, K2, f', hget, hr0, hs', hK1, hK2, -⟩
  · left
    refine ⟨?_, hfull⟩
    unfold addRange
    rw [hget]
    rfl
  · right
    refine ⟨(s'.setLower r lower).setUpper r upper, r, K1, K2, f', ?_,
      (hs'.setLower lower).setUpper upper, hK1, hK2⟩
    unfold addRange
    rw [hget]
    show (if r = 0 then (false, s') else (true, _)) = _
    rw [if_neg hr0]

/-! ### Shrinking -/

/-- One round of the loop that rebuilds the free list.  It writes the links in another order than
`appendFree`. -/
private def rebuilt (s : SeqTrackingList) (ptr : ℕ) : SeqTrackingList :=
  if s.freep = 0 then
    let s := { s with freep := ptr }
    let s := s.setPrev s.freep s.freep
    s.setNext s.freep s.freep
  else
    let last := s.prev s.freep
    let s := s.setPrev s.freep ptr
    let s := s.setNext last ptr
    let s := s.setNext ptr s.freep
    let s := s.setPrev ptr last
    let s := s.setUpper ptr 0
    s.setLower ptr 0

/-- The sizes and the place of the storage array. -/
private structure SameSizes (s s' : SeqTrackingList) : Prop where
  listSize : s'.listSize = s.listSize
  arraySize : s'.arraySize = s.arraySize
  baseArray : s'.baseArray = s.baseArray
  brk : s'.brk = s.brk

private lemma Laid.rebuilt (h : Laid c s L f) (hp : p ≠ 0) (hmem : p ∉ L.map Prod.fst ++ f)
    (hbrk : p < s.brk) : Laid c (s.rebuilt p) L (f ++ [p]) ∧ SameSizes s (s.rebuilt p) := by
  obtain ⟨happend, hframe⟩ := h.toRings.appendFree hp hmem
  have hnot : ∀ e ∈ L, e.1 ≠ p := fun e he hep =>
    hmem (mem_append_left f (hep ▸ mem_map_of_mem he))
  have hrings : Rings (s.rebuilt p) (L.map Prod.fst) (f ++ [p]) ∧
      ∀ q, q ≠ p → (s.rebuilt p).range q = s.range q := by
    unfold appendFree at happend
    unfold SeqTrackingList.rebuilt
    by_cases hfree : s.freep = 0
    · rw [if_pos hfree] at happend ⊢
      refine ⟨happend, fun q hq => ?_⟩
      show Range.mk _ _ = Range.mk _ _
      simp only [lower_setNext, lower_setPrev, upper_setNext, upper_setPrev]
      rfl
    · rw [if_neg hfree] at happend ⊢
      refine ⟨happend.congr ?_ ?_ rfl rfl, fun q hq => ?_⟩
      · simp
      · simp
      · show Range.mk _ _ = Range.mk _ _
        simp [update_of_ne hq]
  have hsizes : SameSizes s (s.rebuilt p) ∧ (s.rebuilt p).hintp = s.hintp ∧
      (s.rebuilt p).storage = s.storage := by
    unfold SeqTrackingList.rebuilt
    split_ifs <;> exact ⟨⟨rfl, rfl, rfl, rfl⟩, rfl, rfl⟩
  refine ⟨⟨hrings.1, ?_, ?_, hsizes.2.2.trans h.storage_eq, ?_, ?_⟩, hsizes.1⟩
  · intro e he
    exact (hrings.2 e.1 (hnot e he)).trans (h.range_eq e he)
  · rw [hsizes.2.1]
    exact h.hint
  · rw [hsizes.1.brk]
    exact forall_lt_concat h.allocated hbrk
  · rw [hsizes.1.brk]
    exact h.brk_pos

private lemma Laid.rebuildFree (h : Laid c s L f) (hbase : 0 < n → s.baseArray + i ≠ 0)
    (hmem : ∀ p ∈ L.map Prod.fst ++ f, p < s.baseArray + i) (hbrk : s.baseArray + i + n ≤ s.brk) :
    Laid c (rebuildFree n i s) L (f ++ range' (s.baseArray + i) n) ∧
      SameSizes s (rebuildFree n i s) := by
  induction n generalizing s f i with
  | zero => simpa using ⟨h, ⟨rfl, rfl, rfl, rfl⟩⟩
  | succ n ih =>
    have hnot : s.baseArray + i ∉ L.map Prod.fst ++ f := fun hp => lt_irrefl _ (hmem _ hp)
    obtain ⟨hstep, hsizes⟩ := h.rebuilt (hbase n.succ_pos) hnot (by omega)
    obtain ⟨hloop, hsizes'⟩ := ih (i := i + 1) hstep (fun _ => by rw [hsizes.baseArray]; omega) (by
      rw [hsizes.baseArray]
      exact forall_lt_concat (fun p hp => (hmem p hp).trans (by omega)) (by omega))
      (by rw [hsizes.baseArray, hsizes.brk]; omega)
    rw [hsizes.baseArray, append_assoc, singleton_append, ← Nat.add_assoc, ← range'_succ] at hloop
    exact ⟨hloop, hsizes'.listSize.trans hsizes.listSize, hsizes'.arraySize.trans hsizes.arraySize,
      hsizes'.baseArray.trans hsizes.baseArray, hsizes'.brk.trans hsizes.brk⟩

private lemma Laid.headp_eq_zero_iff (h : Laid c s L f) : s.headp = 0 ↔ L = [] := by
  rw [h.headp_eq]
  cases L with
  | nil => simp
  | cons e L =>
    have he : e.1 ≠ 0 := h.ne_zero e.1 (by simp)
    simp [he]

lemma Holds.shrink_eq_self (h : Holds c s L f) (hmany : s.arraySize - s.listSize > c.shrinkBy)
    (hmalloc : s.mallocOk = false) : s.shrink = s := by
  have hshrink : s.shrinkBy = c.shrinkBy := congrArg Storage.shrinkBy h.storage_eq
  have hlist := h.listSize_eq
  unfold shrink
  rw [if_neg (by omega), hmalloc]
  rfl

/-- **A list that shrinks** keeps its ranges, in memory that is newly handed out. -/
theorem Holds.shrink (h : Holds c s L f) (hmany : s.arraySize - s.listSize > c.shrinkBy)
    (hmalloc : s.mallocOk = true) :
    ∃ L' f', Holds c s.shrink L' f' ∧ L'.map Prod.snd = L.map Prod.snd ∧ s.brk < s.shrink.brk := by
  have hshrink : s.shrinkBy = c.shrinkBy := congrArg Storage.shrinkBy h.storage_eq
  have hlist := h.listSize_eq
  have hsome : ¬s.arraySize - s.shrinkBy = 0 := by omega
  unfold SeqTrackingList.shrink
  rw [if_neg hsome]
  simp only [hmalloc, Bool.not_true, Bool.false_eq_true, if_false]
  -- the state in front of the loop
  obtain ⟨t, ht⟩ : ∃ t : SeqTrackingList, t =
      { s with
        brk := s.brk + (s.arraySize - s.shrinkBy).toNat
        freep := 0
        hintp := 0
        headp := if s.headp ≠ 0 then s.brk else s.headp
        mem := if s.headp ≠ 0 then
            copyList s.brk s.listSize.toNat s.listSize.toNat 0 s.headp s.mem
          else s.mem
        baseArray := s.brk
        arraySize := s.arraySize - s.shrinkBy
        mallocOk := true } := ⟨_, rfl⟩
  have hsize : s.listSize.toNat = L.length := by omega
  have hlaid : Laid c t (moved s.brk L) [] := by
    refine h.toLaid.copy ?_ ?_ (by rw [ht]) (.inl (by rw [ht])) ?_ ?_
    · rw [ht]
      show (if s.headp ≠ 0 then _ else s.mem) = _
      by_cases hL : L = []
      · rw [if_neg (not_not.mpr (h.headp_eq_zero_iff.mpr hL)), hL]
        rfl
      · rw [if_pos fun hzero => hL (h.headp_eq_zero_iff.mp hzero), hsize]
    · rw [ht]
      show (if s.headp ≠ 0 then s.brk else s.headp) = _
      by_cases hL : L = []
      · rw [if_neg (not_not.mpr (h.headp_eq_zero_iff.mpr hL)), if_pos hL]
        exact h.headp_eq_zero_iff.mpr hL
      · rw [if_pos fun hzero => hL (h.headp_eq_zero_iff.mp hzero), if_neg hL]
    · rw [ht, ← h.storage_eq]
      show Storage.mk s.growBy s.shrinkBy true = Storage.mk s.growBy s.shrinkBy s.mallocOk
      rw [hmalloc]
    · rw [ht]
      show s.brk + L.length ≤ s.brk + (s.arraySize - s.shrinkBy).toNat
      omega
  have hbase : t.baseArray = s.brk := by rw [ht]
  have hbrk : t.brk = s.brk + (s.arraySize - s.shrinkBy).toNat := by rw [ht]
  obtain ⟨hloop, hsizes⟩ := hlaid.rebuildFree (n := (s.arraySize - s.shrinkBy - s.listSize).toNat)
    (i := s.listSize.toNat) (fun _ => by rw [hbase]; have := h.brk_pos; omega)
    (fun p hp => by
      rw [append_nil, map_fst_moved, mem_range'_1] at hp
      rw [hbase, hsize]
      exact hp.2)
    (by rw [hbase, hbrk]; omega)
  refine ⟨moved s.brk L, _, ⟨ht ▸ hloop, ?_, ?_⟩, map_snd_moved s.brk L, ?_⟩
  · rw [← ht, hsizes.listSize, ht, length_moved]
    exact hlist
  · rw [← ht, hsizes.arraySize, ht, length_moved]
    show s.arraySize - s.shrinkBy = _
    rw [nil_append, length_range']
    omega
  · rw [← ht, hsizes.brk, hbrk]
    omega

/-- **Giving an element back**, whether the storage shrinks or not. -/
theorem Holds.freeElement_any (h : Holds c s (L1 ++ e :: L2) f) :
    ∃ L' f', Holds c (s.freeSeqRangeListElement e.1) L' f' ∧
      L'.map Prod.snd = (L1 ++ L2).map Prod.snd := by
  rw [freeSeqRangeListElement_eq h.unlinked.2, h.storage_eq]
  have hfreed := h.freed
  split_ifs with hguard
  · have hmany : (s.freed e.1).arraySize - (s.freed e.1).listSize > c.shrinkBy := by
      rw [hfreed.arraySize_eq, hfreed.listSize_eq]
      have harray := h.arraySize_eq
      have hlist := h.listSize_eq
      simp only [length_append, length_cons, length_nil] at harray hlist ⊢
      omega
    cases hmalloc : (s.freed e.1).mallocOk with
    | false =>
      rw [hfreed.shrink_eq_self hmany hmalloc]
      exact ⟨_, _, hfreed, rfl⟩
    | true =>
      obtain ⟨L', f', hL', hmap, -⟩ := hfreed.shrink hmany hmalloc
      exact ⟨L', f', hL', hmap⟩
  · exact ⟨_, _, hfreed, rfl⟩

end Lampi.SeqTrackingList
