import Mathlib.Data.Set.Card

/-!
# Sets of numbers as lists of ranges

A finite set of natural numbers is kept as the increasing list of its maximal ranges.
`IsRangeList` is the representation invariant: every range is nonempty, and between two of them
there is at least one number that is in neither.

`insert` adds a range and melts it with those it meets or touches; `erase` cuts a range out of all
the others.  Both keep the invariant and are the union and the difference of the sets
(`nums_insert`, `nums_erase`).  The ranges of a list are the maximal ranges of its set
(`IsRangeList.isMaximal_iff`).  The remaining lemmas evaluate the two functions on a list that is
split where a search found the place.
-/

namespace RangeList

open List

/-- The numbers from `lower` to `upper`. -/
@[ext] structure Range where
  lower : ℕ
  upper : ℕ
  deriving DecidableEq, Repr

/-- There is a number between `a` and the later range `b`. -/
def Before (a b : Range) : Prop := a.upper + 1 < b.lower

/-- Nonempty ranges in increasing order, with a gap between any two of them. -/
structure IsRangeList (l : List Range) : Prop where
  nonempty : ∀ r ∈ l, r.lower ≤ r.upper
  before : l.Pairwise Before

def nums (l : List Range) : Set ℕ := {n | ∃ r ∈ l, r.lower ≤ n ∧ n ≤ r.upper}

variable {l l1 l2 : List Range} {r a : Range} {lo hi n : ℕ} {b c : ℕ}

lemma mem_nums : n ∈ nums l ↔ ∃ r ∈ l, r.lower ≤ n ∧ n ≤ r.upper := Iff.rfl

lemma mem_nums_cons : n ∈ nums (r :: l) ↔ (r.lower ≤ n ∧ n ≤ r.upper) ∨ n ∈ nums l := by
  simp only [mem_nums, mem_cons, exists_eq_or_imp]

lemma mem_nums_append : n ∈ nums (l1 ++ l2) ↔ n ∈ nums l1 ∨ n ∈ nums l2 := by
  simp only [mem_nums, mem_append, or_and_right, exists_or]

lemma isRangeList_nil : IsRangeList [] := ⟨by simp, Pairwise.nil⟩

lemma isRangeList_cons :
    IsRangeList (r :: l) ↔ r.lower ≤ r.upper ∧ (∀ x ∈ l, Before r x) ∧ IsRangeList l := by
  constructor
  · rintro ⟨hne, hb⟩
    rw [pairwise_cons] at hb
    rw [forall_mem_cons] at hne
    exact ⟨hne.1, hb.1, hne.2, hb.2⟩
  · rintro ⟨hr, hb, hl⟩
    exact ⟨forall_mem_cons.mpr ⟨hr, hl.nonempty⟩, pairwise_cons.mpr ⟨hb, hl.before⟩⟩

lemma isRangeList_append :
    IsRangeList (l1 ++ l2) ↔ IsRangeList l1 ∧ IsRangeList l2 ∧ ∀ a ∈ l1, ∀ b ∈ l2, Before a b := by
  constructor
  · rintro ⟨hne, hb⟩
    rw [forall_mem_append] at hne
    rw [pairwise_append] at hb
    exact ⟨⟨hne.1, hb.1⟩, ⟨hne.2, hb.2.1⟩, hb.2.2⟩
  · rintro ⟨h1, h2, hb⟩
    exact ⟨forall_mem_append.mpr ⟨h1.nonempty, h2.nonempty⟩,
      pairwise_append.mpr ⟨h1.before, h2.before, hb⟩⟩

/-! ### Adding a range -/

/-- The list with the range from `lo` to `hi` added. -/
def insert (lo hi : ℕ) : List Range → List Range
  | [] => [⟨lo, hi⟩]
  | r :: l =>
    if r.upper + 1 < lo then r :: insert lo hi l
    else if hi + 1 < r.lower then ⟨lo, hi⟩ :: r :: l
    else insert (min lo r.lower) (max hi r.upper) l

lemma insert_cons_of_before (h : r.upper + 1 < lo) :
    insert lo hi (r :: l) = r :: insert lo hi l := by
  rw [insert, if_pos h]

lemma insert_cons_of_touch (h : lo ≤ r.upper + 1) (h' : r.lower ≤ hi + 1) :
    insert lo hi (r :: l) = insert (min lo r.lower) (max hi r.upper) l := by
  rw [insert, if_neg (by omega), if_neg (by omega)]

lemma insert_append_of_before (h : ∀ r ∈ l1, r.upper + 1 < lo) :
    insert lo hi (l1 ++ l2) = l1 ++ insert lo hi l2 := by
  induction l1 with
  | nil => rfl
  | cons r l1 ih =>
    rw [forall_mem_cons] at h
    rw [cons_append, insert_cons_of_before h.1, ih h.2, cons_append]

lemma insert_append_of_within (h : ∀ r ∈ l1, lo ≤ r.lower ∧ r.lower ≤ r.upper ∧ r.upper ≤ hi) :
    insert lo hi (l1 ++ l2) = insert lo hi l2 := by
  induction l1 with
  | nil => rfl
  | cons r l1 ih =>
    rw [forall_mem_cons] at h
    obtain ⟨⟨hlo, hr, hhi⟩, h⟩ := h
    rw [cons_append, insert_cons_of_touch (by omega) (by omega), min_eq_left hlo,
      max_eq_left hhi, ih h]

lemma insert_eq_cons (hle : lo ≤ hi) (h : ∀ r ∈ l, hi + 1 < r.lower ∧ r.lower ≤ r.upper) :
    insert lo hi l = ⟨lo, hi⟩ :: l := by
  cases l with
  | nil => rfl
  | cons r l =>
    obtain ⟨hr, hr'⟩ := h r mem_cons_self
    rw [insert, if_neg (by omega), if_pos hr]

/-- A range that touches none of the others gets a place of its own. -/
lemma length_insert_of_apart (h : ∀ r ∈ l, r.upper + 1 < lo ∨ hi + 1 < r.lower) :
    (insert lo hi l).length = l.length + 1 := by
  induction l with
  | nil => rfl
  | cons r l ih =>
    rw [forall_mem_cons] at h
    rw [insert]
    split_ifs with hbefore hafter
    · rw [length_cons, ih h.2, length_cons]
    · rfl
    · exact absurd h.1 (by omega)

private lemma before_insert (h : ∀ x ∈ l, Before a x) (hlo : a.upper + 1 < lo) :
    ∀ x ∈ insert lo hi l, Before a x := by
  induction l generalizing lo hi with
  | nil =>
    intro x hx
    rw [insert, mem_singleton] at hx
    exact hx ▸ hlo
  | cons r l ih =>
    rw [forall_mem_cons] at h
    obtain ⟨hr, h⟩ := h
    intro x hx
    rw [insert] at hx
    split_ifs at hx with h1 h2
    · rcases mem_cons.mp hx with rfl | hx
      · exact hr
      · exact ih h hlo x hx
    · rcases mem_cons.mp hx with rfl | hx
      · exact hlo
      · exact forall_mem_cons.mpr ⟨hr, h⟩ x hx
    · exact ih h (lt_min hlo hr) x hx

lemma bounds_insert (h : ∀ r ∈ l, b ≤ r.lower ∧ r.upper < c) (hlo : b ≤ lo) (hhi : hi < c) :
    ∀ r ∈ insert lo hi l, b ≤ r.lower ∧ r.upper < c := by
  induction l generalizing lo hi with
  | nil =>
    intro x hx
    rw [insert, mem_singleton] at hx
    exact hx ▸ ⟨hlo, hhi⟩
  | cons r l ih =>
    have hall := h
    rw [forall_mem_cons] at h
    obtain ⟨hr, h⟩ := h
    intro x hx
    rw [insert] at hx
    split_ifs at hx with h1 h2
    · rcases mem_cons.mp hx with rfl | hx
      · exact hr
      · exact ih h hlo hhi x hx
    · rcases mem_cons.mp hx with rfl | hx
      · exact ⟨hlo, hhi⟩
      · exact hall x hx
    · exact ih h (le_min hlo hr.1) (max_lt hhi hr.2) x hx

lemma IsRangeList.insert (h : IsRangeList l) (hle : lo ≤ hi) : IsRangeList (insert lo hi l) := by
  induction l generalizing lo hi with
  | nil => exact isRangeList_cons.mpr ⟨hle, by simp, isRangeList_nil⟩
  | cons r l ih =>
    obtain ⟨hr, hb, hl⟩ := isRangeList_cons.mp h
    rw [insert]
    split_ifs with h1 h2
    · exact isRangeList_cons.mpr ⟨hr, before_insert hb h1, ih hl hle⟩
    · refine isRangeList_cons.mpr ⟨hle, ?_, h⟩
      intro x hx
      rcases mem_cons.mp hx with rfl | hx
      · exact h2
      · have hrx := hb x hx
        unfold Before at hrx ⊢
        show hi + 1 < x.lower
        omega
    · exact ih hl (by omega)

lemma nums_insert (hl : ∀ r ∈ l, r.lower ≤ r.upper) (hle : lo ≤ hi) :
    nums (insert lo hi l) = nums l ∪ Set.Icc lo hi := by
  induction l generalizing lo hi with
  | nil =>
    ext n
    simp [insert, mem_nums]
  | cons r l ih =>
    rw [forall_mem_cons] at hl
    obtain ⟨hr, hl⟩ := hl
    rw [insert]
    split_ifs with h1 h2
    · ext n
      simp only [mem_nums_cons, ih hl hle, Set.mem_union]
      tauto
    · ext n
      simp only [mem_nums_cons, Set.mem_union, Set.mem_Icc]
      tauto
    · -- the two ranges touch, so that their hull has no other numbers
      ext n
      simp only [mem_nums_cons, ih hl (by omega : min lo r.lower ≤ max hi r.upper), Set.mem_union,
        Set.mem_Icc]
      have hull : min lo r.lower ≤ n ∧ n ≤ max hi r.upper ↔
          (r.lower ≤ n ∧ n ≤ r.upper) ∨ (lo ≤ n ∧ n ≤ hi) := by omega
      tauto

/-! ### Cutting a range out -/

/-- What is left of `r` below `lo` and above `hi`. -/
def cut (lo hi : ℕ) (r : Range) : List Range :=
  (if r.lower < lo then [⟨r.lower, min r.upper (lo - 1)⟩] else []) ++
    if hi < r.upper then [⟨max r.lower (hi + 1), r.upper⟩] else []

/-- The list without the numbers from `lo` to `hi`. -/
def erase (lo hi : ℕ) (l : List Range) : List Range := l.flatMap (cut lo hi)

lemma erase_append : erase lo hi (l1 ++ l2) = erase lo hi l1 ++ erase lo hi l2 := flatMap_append

lemma erase_cons : erase lo hi (r :: l) = cut lo hi r ++ erase lo hi l := flatMap_cons

lemma cut_of_disjoint (hle : lo ≤ hi) (hr : r.lower ≤ r.upper) (h : r.upper < lo ∨ hi < r.lower) :
    cut lo hi r = [r] := by
  rcases h with h | h
  · rw [cut, if_pos (by omega), if_neg (by omega), min_eq_left (by omega)]
    rfl
  · rw [cut, if_neg (by omega), if_pos (by omega), max_eq_left (by omega)]
    rfl

lemma erase_of_disjoint (hle : lo ≤ hi)
    (h : ∀ r ∈ l, r.lower ≤ r.upper ∧ (r.upper < lo ∨ hi < r.lower)) : erase lo hi l = l := by
  induction l with
  | nil => rfl
  | cons r l ih =>
    rw [forall_mem_cons] at h
    rw [erase_cons, cut_of_disjoint hle h.1.1 h.1.2, ih h.2, singleton_append]

lemma erase_of_within (h : ∀ r ∈ l, lo ≤ r.lower ∧ r.upper ≤ hi) : erase lo hi l = [] := by
  induction l with
  | nil => rfl
  | cons r l ih =>
    rw [forall_mem_cons] at h
    rw [erase_cons, cut, if_neg (by omega), if_neg (by omega), ih h.2]
    rfl

private lemma mem_cut {x : Range} (hr : r.lower ≤ r.upper) (hx : x ∈ cut lo hi r) :
    r.lower ≤ x.lower ∧ x.lower ≤ x.upper ∧ x.upper ≤ r.upper := by
  rw [cut, mem_append] at hx
  rcases hx with hx | hx <;> split_ifs at hx with h
  · rw [mem_singleton] at hx
    subst hx
    refine ⟨le_rfl, ?_, min_le_left _ _⟩
    show r.lower ≤ min r.upper (lo - 1)
    omega
  · simp at hx
  · rw [mem_singleton] at hx
    subst hx
    refine ⟨le_max_left _ _, ?_, le_rfl⟩
    show max r.lower (hi + 1) ≤ r.upper
    omega
  · simp at hx

private lemma mem_nums_cut :
    n ∈ nums (cut lo hi r) ↔ (r.lower ≤ n ∧ n ≤ r.upper) ∧ ¬(lo ≤ n ∧ n ≤ hi) := by
  rw [cut, mem_nums_append]
  split_ifs <;> simp [mem_nums] <;> omega

private lemma IsRangeList.cut (hle : lo ≤ hi) (hr : r.lower ≤ r.upper) :
    IsRangeList (cut lo hi r) := by
  refine ⟨fun x hx => (mem_cut hr hx).2.1, ?_⟩
  rw [RangeList.cut]
  split_ifs <;> simp [Before]
  omega

lemma bounds_erase (hl : ∀ r ∈ l, r.lower ≤ r.upper) (h : ∀ r ∈ l, b ≤ r.lower ∧ r.upper < c) :
    ∀ r ∈ erase lo hi l, b ≤ r.lower ∧ r.upper < c := by
  intro x hx
  obtain ⟨r, hr, hxr⟩ := mem_flatMap.mp hx
  have hcut := mem_cut (hl r hr) hxr
  have hbounds := h r hr
  omega

lemma IsRangeList.erase (h : IsRangeList l) (hle : lo ≤ hi) : IsRangeList (erase lo hi l) := by
  induction l with
  | nil => exact isRangeList_nil
  | cons r l ih =>
    obtain ⟨hr, hb, hl⟩ := isRangeList_cons.mp h
    rw [erase_cons, isRangeList_append]
    refine ⟨IsRangeList.cut hle hr, ih hl, ?_⟩
    intro x hx y hy
    obtain ⟨z, hz, hyz⟩ := mem_flatMap.mp hy
    have hzy := (mem_cut (hl.nonempty z hz) hyz).1
    have hxr := (mem_cut hr hx).2.2
    have hrz := hb z hz
    unfold Before at hrz ⊢
    omega

lemma nums_erase : nums (erase lo hi l) = nums l \ Set.Icc lo hi := by
  induction l with
  | nil =>
    ext n
    simp [erase, mem_nums]
  | cons r l ih =>
    ext n
    rw [erase_cons, mem_nums_append, ih, Set.mem_sdiff, Set.mem_sdiff, mem_nums_cons, Set.mem_Icc,
      mem_nums_cut]
    tauto

section

variable (h : IsRangeList l)

include h

/-- Cutting inside one of the ranges leaves a piece behind it, and one in front of it unless the cut
begins with the range. -/
lemma IsRangeList.length_erase (hr : r ∈ l) (hlower : r.lower ≤ lo) (hupper : hi < r.upper)
    (hle : lo ≤ hi) :
    (RangeList.erase lo hi l).length = l.length + if r.lower < lo then 1 else 0 := by
  obtain ⟨l1, l2, rfl⟩ := append_of_mem hr
  obtain ⟨h1, h2, hbefore⟩ := isRangeList_append.mp h
  obtain ⟨-, hafter, h2⟩ := isRangeList_cons.mp h2
  rw [erase_append, erase_cons, erase_of_disjoint hle, erase_of_disjoint hle, RangeList.cut,
    if_pos hupper]
  · split_ifs <;> simp only [length_append, length_cons, length_nil] <;> omega
  · intro x hx
    have hrx := hafter x hx
    unfold Before at hrx
    exact ⟨h2.nonempty x hx, .inr (by omega)⟩
  · intro x hx
    have hxr := hbefore x hx r mem_cons_self
    unfold Before at hxr
    exact ⟨h1.nonempty x hx, .inl (by omega)⟩

/-! ### Maximal ranges -/

/-- Two ranges of the list are the same, or there is a number between them. -/
lemma IsRangeList.eq_or_before {b : Range} (ha : a ∈ l) (hb : b ∈ l) :
    a = b ∨ Before a b ∨ Before b a := by
  refine Pairwise.forall_of_forall_of_flip (R := fun x y => x = y ∨ Before x y ∨ Before y x)
    (fun _ _ => .inl rfl) ?_ ?_ ha hb
  · exact h.before.imp fun hxy => .inr (.inl hxy)
  · exact h.before.imp fun hxy => .inr (.inr hxy)

lemma IsRangeList.notMem_of_next (hr : r ∈ l) (hn : n = r.upper + 1 ∨ n + 1 = r.lower) :
    n ∉ nums l := by
  rintro ⟨x, hx, hlower, hupper⟩
  rcases h.eq_or_before hr hx with rfl | hb | hb
  · omega
  all_goals
    unfold Before at hb
    have hne' := h.nonempty r hr
    omega

/-- Numbers in a row that are all in the set are in one of the ranges. -/
lemma IsRangeList.exists_of_subset (hle : lo ≤ hi) (hsub : Set.Icc lo hi ⊆ nums l) :
    ∃ r ∈ l, r.lower ≤ lo ∧ hi ≤ r.upper := by
  obtain ⟨r, hr, hlower, hupper⟩ := hsub ⟨le_rfl, hle⟩
  refine ⟨r, hr, hlower, ?_⟩
  by_contra hlt
  exact h.notMem_of_next hr (.inl rfl) (hsub ⟨by omega, by omega⟩)

end

/-- A range of numbers of `S` that cannot be made longer at either end. -/
structure IsMaximal (S : Set ℕ) (r : Range) : Prop where
  nonempty : r.lower ≤ r.upper
  subset : Set.Icc r.lower r.upper ⊆ S
  before : ∀ n, n + 1 = r.lower → n ∉ S
  after : r.upper + 1 ∉ S

/-- **The ranges of the list are the maximal ranges of the set.** -/
theorem IsRangeList.isMaximal_iff (h : IsRangeList l) : IsMaximal (nums l) r ↔ r ∈ l := by
  constructor
  · intro hmax
    obtain ⟨x, hx, hlower, hupper⟩ := h.exists_of_subset hmax.nonempty hmax.subset
    -- `r` lies in the range `x` of the list, and cannot be shorter than it
    have hfirst : r.lower ≤ x.lower := by
      by_contra hlt
      exact hmax.before (r.lower - 1) (by omega) ⟨x, hx, by omega, by have := hmax.nonempty; omega⟩
    have hlast : x.upper ≤ r.upper := by
      by_contra hlt
      exact hmax.after ⟨x, hx, by have := hmax.nonempty; omega, by omega⟩
    rwa [Range.ext (hfirst.antisymm hlower) (hupper.antisymm hlast)]
  · intro hr
    exact ⟨h.nonempty r hr, fun n hn => ⟨r, hr, hn⟩, fun n hn =>
      h.notMem_of_next hr (.inr hn), h.notMem_of_next hr (.inl rfl)⟩

/-- **The length of the list is the number of maximal ranges.** -/
theorem IsRangeList.ncard_maximal (h : IsRangeList l) :
    {r | IsMaximal (nums l) r}.ncard = l.length := by
  have hnodup : l.Nodup := by
    refine h.before.imp_of_mem ?_
    rintro x y hx - hxy rfl
    have hne := h.nonempty x hx
    unfold Before at hxy
    omega
  have hset : {r | IsMaximal (nums l) r} = (l.toFinset : Set Range) := by
    ext r
    simp only [Set.mem_ofPred_eq, h.isMaximal_iff, coe_toFinset]
  rw [hset, Set.ncard_coe_finset, toFinset_card_of_nodup hnodup]

end RangeList
