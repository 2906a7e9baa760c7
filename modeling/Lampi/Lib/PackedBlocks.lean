import Mathlib

/-!
# Blocks packed into an interval

A first-fit allocator hands out half-open blocks of one interval `[lo, hi)` and keeps them in a
list.  `IsPacked lo hi l` says that the blocks of `l` follow one another inside the interval, and
`gaps lo hi l` lists the free space before, between and after them.

The two halves of the theory are `isPacked_append` (cutting the list at a block, which is how an
insertion or a scan sees it) and `sum_len_add_sum_gaps` (blocks and gaps together fill the
interval exactly, so a request that fits into some gap passes any test on the total).
-/

namespace PackedBlocks

open List

/-- A half-open range `[start, start + len)`. -/
structure Block where
  start : ℤ
  len : ℤ
  deriving DecidableEq, Repr

def Block.stop (b : Block) : ℤ := b.start + b.len

/-- The blocks follow one another between `lo` and `hi`. -/
def IsPacked : ℤ → ℤ → List Block → Prop
  | _, _, [] => True
  | lo, hi, b :: bs => lo ≤ b.start ∧ 0 ≤ b.len ∧ b.stop ≤ hi ∧ IsPacked b.stop hi bs

/-- Free space before the first block, between neighbours, and after the last block. -/
def gaps : ℤ → ℤ → List Block → List ℤ
  | lo, hi, [] => [hi - lo]
  | lo, hi, b :: bs => (b.start - lo) :: gaps b.stop hi bs

def firstGap : ℤ → ℤ → List Block → ℤ
  | lo, hi, [] => hi - lo
  | lo, _, b :: _ => b.start - lo

/-- Where the last block of the list stops; `lo` if there is none. -/
def endFrom : ℤ → List Block → ℤ
  | lo, [] => lo
  | _, b :: bs => endFrom b.stop bs

def sumLen (l : List Block) : ℤ := (l.map Block.len).sum

@[simp] lemma sumLen_nil : sumLen [] = 0 := rfl

@[simp] lemma sumLen_cons (b : Block) (bs : List Block) : sumLen (b :: bs) = b.len + sumLen bs := by
  simp [sumLen]

@[simp] lemma sumLen_append (l1 l2 : List Block) : sumLen (l1 ++ l2) = sumLen l1 + sumLen l2 := by
  simp [sumLen]

/-! ### Cutting a packed list -/

variable {lo hi : ℤ} {l : List Block}

lemma IsPacked.mono_lo {lo' : ℤ} (h : IsPacked lo hi l) (hlo : lo' ≤ lo) : IsPacked lo' hi l := by
  cases l with
  | nil => trivial
  | cons b bs => exact ⟨hlo.trans h.1, h.2⟩

lemma isPacked_append (l1 l2 : List Block) :
    ∀ lo, IsPacked lo hi (l1 ++ l2) ↔ IsPacked lo hi l1 ∧ IsPacked (endFrom lo l1) hi l2 := by
  induction l1 with
  | nil => intro lo; simp [IsPacked, endFrom]
  | cons b bs ih =>
    intro lo
    simp only [cons_append, IsPacked, endFrom, ih]
    tauto

lemma IsPacked.insert {l1 l2 : List Block} {b : Block} (h : IsPacked lo hi (l1 ++ l2))
    (hlen : 0 ≤ b.len) (hstart : b.start = endFrom lo l1)
    (hfit : b.len ≤ firstGap (endFrom lo l1) hi l2) : IsPacked lo hi (l1 ++ b :: l2) := by
  rw [isPacked_append] at h ⊢
  obtain ⟨h1, h2⟩ := h
  refine ⟨h1, hstart.ge, hlen, ?_⟩
  cases l2 with
  | nil =>
    simp only [firstGap] at hfit
    simp only [Block.stop, IsPacked, and_true]
    omega
  | cons c cs =>
    obtain ⟨-, hclen, hcstop, hrest⟩ := h2
    simp only [firstGap] at hfit
    have hbc : b.stop ≤ c.start := by simp only [Block.stop]; omega
    have hbhi : b.stop ≤ hi := by simp only [Block.stop] at hcstop ⊢; omega
    exact ⟨hbhi, hbc, hclen, hcstop, hrest⟩

lemma IsPacked.sublist {l' : List Block} (hsub : l'.Sublist l) :
    ∀ {lo : ℤ}, IsPacked lo hi l → IsPacked lo hi l' := by
  induction hsub with
  | slnil => intro lo h; exact h
  | cons b _ ih =>
    intro lo h
    obtain ⟨hlo, hlen, -, hrest⟩ := h
    refine (ih hrest).mono_lo ?_
    simp only [Block.stop]; omega
  | cons_cons b _ ih =>
    intro lo h
    obtain ⟨hlo, hlen, hstop, hrest⟩ := h
    exact ⟨hlo, hlen, hstop, ih hrest⟩

/-! ### What a packed list guarantees -/

lemma IsPacked.bounds (h : IsPacked lo hi l) : ∀ b ∈ l, lo ≤ b.start ∧ 0 ≤ b.len ∧ b.stop ≤ hi := by
  induction l generalizing lo with
  | nil => simp
  | cons c cs ih =>
    obtain ⟨hlo, hlen, hstop, hrest⟩ := h
    intro b hb
    rcases mem_cons.mp hb with rfl | hb
    · exact ⟨hlo, hlen, hstop⟩
    · obtain ⟨hb1, hb2, hb3⟩ := ih hrest b hb
      simp only [Block.stop] at hb1 ⊢
      exact ⟨by omega, hb2, hb3⟩

lemma IsPacked.pairwise (h : IsPacked lo hi l) : l.Pairwise fun a b => a.stop ≤ b.start := by
  induction l generalizing lo with
  | nil => exact Pairwise.nil
  | cons c cs ih =>
    obtain ⟨-, -, -, hrest⟩ := h
    exact pairwise_cons.mpr ⟨fun b hb => (hrest.bounds b hb).1, ih hrest⟩

lemma Block.disjoint_of_stop_le {a b : Block} (h : a.stop ≤ b.start) :
    Disjoint (Set.Ico a.start a.stop) (Set.Ico b.start b.stop) :=
  Set.Ico_disjoint_Ico.mpr <| (min_le_left _ _).trans (h.trans (le_max_right _ _))

/-! ### Gaps -/

lemma firstGap_mem_gaps (lo hi : ℤ) (l : List Block) : firstGap lo hi l ∈ gaps lo hi l := by
  cases l <;> simp [firstGap, gaps]

lemma mem_gaps_append (lo hi : ℤ) (l1 l2 : List Block) :
    firstGap (endFrom lo l1) hi l2 ∈ gaps lo hi (l1 ++ l2) := by
  induction l1 generalizing lo with
  | nil => exact firstGap_mem_gaps lo hi l2
  | cons b bs ih => exact mem_cons_of_mem _ (ih b.stop)

lemma sum_len_add_sum_gaps (hi : ℤ) (l : List Block) :
    ∀ lo, sumLen l + (gaps lo hi l).sum = hi - lo := by
  induction l with
  | nil => intro lo; simp [gaps]
  | cons b bs ih =>
    intro lo
    have h := ih b.stop
    simp only [sumLen_cons, gaps, sum_cons, Block.stop] at h ⊢
    omega

lemma IsPacked.gaps_nonneg (h : IsPacked lo hi l) (hlohi : lo ≤ hi) :
    ∀ g ∈ gaps lo hi l, 0 ≤ g := by
  induction l generalizing lo with
  | nil => intro g hg; simp only [gaps, mem_singleton] at hg; omega
  | cons b bs ih =>
    obtain ⟨hlo, -, hstop, hrest⟩ := h
    intro g hg
    rcases mem_cons.mp hg with rfl | hg
    · omega
    · exact ih hrest hstop g hg

lemma IsPacked.gap_le (h : IsPacked lo hi l) : ∀ g ∈ gaps lo hi l, g ≤ hi - lo - sumLen l := by
  intro g hg
  cases l with
  | nil => simp only [gaps, mem_singleton] at hg; simp [hg]
  | cons b bs =>
    have hlohi : lo ≤ hi := by
      obtain ⟨hlo, hlen, hstop, -⟩ := h
      simp only [Block.stop] at hstop
      omega
    have hle := single_le_sum (h.gaps_nonneg hlohi) g hg
    have hsum := sum_len_add_sum_gaps hi (b :: bs) lo
    omega

end PackedBlocks
