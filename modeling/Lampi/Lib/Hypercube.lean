import Mathlib.Data.Nat.Bitwise

/-!
# Neighbours in a hypercube

The numbers below `2 ^ k` are the corners of a cube of dimension `k`; the neighbour of `x` in
direction `r` is `x ^^^ 2 ^ r`.  When every corner tells what it knows to its neighbours in the
directions 0, 1, 2 and so on, it knows after `r` rounds what the corners near it knew at first:
those that differ from it in the lowest `r` bits only.
-/

namespace Hypercube

open Nat

variable {r s k x y : ℕ}

def flip (r x : ℕ) : ℕ := x ^^^ 2 ^ r

lemma testBit_flip (i : ℕ) : (flip r x).testBit i = (x.testBit i ^^ decide (r = i)) := by
  rw [flip, testBit_xor, testBit_two_pow]

lemma flip_flip (r x : ℕ) : flip r (flip r x) = x := by
  rw [flip, flip, Nat.xor_assoc, Nat.xor_self, xor_zero]

lemma flip_lt (hx : x < 2 ^ k) (hr : r < k) : flip r x < 2 ^ k :=
  xor_lt_two_pow hx (Nat.pow_lt_pow_right (by decide) hr)

lemma flip_inj (h : flip r x = flip s x) : r = s := by
  have hbit := congrArg (testBit · r) h
  by_contra hne
  simp [testBit_flip, Ne.symm hne] at hbit

/-- The corners differ in the lowest `r` bits only. -/
def Near (r x y : ℕ) : Prop := ∀ i, r ≤ i → x.testBit i = y.testBit i

lemma near_refl (r x : ℕ) : Near r x x := fun _ _ => rfl

lemma near_zero : Near 0 x y ↔ x = y :=
  ⟨fun h => eq_of_testBit_eq fun i => h i (zero_le i), fun h => h ▸ near_refl 0 x⟩

lemma near_succ : Near (r + 1) x y ↔ Near r x y ∨ Near r (flip r x) y := by
  constructor
  · intro h
    by_cases hbit : x.testBit r = y.testBit r
    · refine .inl fun i hi => ?_
      rcases eq_or_lt_of_le hi with rfl | hlt
      · exact hbit
      · exact h i hlt
    · refine .inr fun i hi => ?_
      rw [testBit_flip]
      rcases eq_or_lt_of_le hi with rfl | hlt
      · cases hx : x.testBit r <;> cases hy : y.testBit r <;> simp_all
      · rw [h i hlt]
        simp [Nat.ne_of_lt hlt]
  · rintro (h | h) i hi
    · exact h i (le_of_succ_le hi)
    · have hbit := h i (le_of_succ_le hi)
      rw [testBit_flip] at hbit
      simpa [ne_of_lt hi] using hbit

lemma near_of_lt (hx : x < 2 ^ k) (hy : y < 2 ^ k) : Near k x y := by
  intro i hi
  have hpow : 2 ^ k ≤ 2 ^ i := Nat.pow_le_pow_right (by decide) hi
  rw [testBit_lt_two_pow (lt_of_lt_of_le hx hpow), testBit_lt_two_pow (lt_of_lt_of_le hy hpow)]

end Hypercube
