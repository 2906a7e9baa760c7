import Mathlib.Algebra.Group.WithOne.Defs
import Mathlib.Data.Multiset.Bind
import Mathlib.Data.Nat.Bitwise

/-!
# Logarithmic fan-in

The numbers below `n` hold one value each.  In round `k` a number whose bit `k` is not set takes
what its neighbour `x + 2 ^ k` holds and combines it with its own.  After enough rounds number 0
holds a combination of all values, each used once (`combines_value`).

`Combines f a s y` says that `y` is made from the values of `a` at the members of `s`, each used as
often as it occurs in `s`.  If the operation is associative and commutative, then there is only one
such `y` (`Combines.unique`).
-/

namespace FanIn

open Nat List

/-! ### Numbers relative to a root -/

section Relative

variable {n a x : ℕ}

lemma relative_absolute (ha : a < n) (hx : x < n) : ((x + a) % n + n - a) % n = x := by
  rcases lt_or_ge (x + a) n with h | h
  · rw [mod_eq_of_lt h, show x + a + n - a = x + n by omega, add_mod_right,
      mod_eq_of_lt hx]
  · rw [mod_eq_sub_mod h, mod_eq_of_lt (show x + a - n < n by omega),
      show x + a - n + n - a = x by omega, mod_eq_of_lt hx]

lemma absolute_relative (ha : a < n) (hx : x < n) : ((x + n - a) % n + a) % n = x := by
  rcases lt_or_ge x a with h | h
  · rw [mod_eq_of_lt (show x + n - a < n by omega), show x + n - a + a = x + n by omega,
      add_mod_right, mod_eq_of_lt hx]
  · rw [show x + n - a = x - a + n by omega, add_mod_right,
      mod_eq_of_lt (show x - a < n by omega), Nat.sub_add_cancel h, mod_eq_of_lt hx]

lemma absolute_inj (ha : a < n) {y : ℕ} (hx : x < n) (hy : y < n) (h : (x + a) % n = (y + a) % n)
    : x = y := by
  rw [← relative_absolute ha hx, h, relative_absolute ha hy]

end Relative

/-! ### Neighbours -/

section Neighbours

variable {k x : ℕ}

lemma xor_of_testBit_eq_false (h : x.testBit k = false) : x ^^^ 2 ^ k = x + 2 ^ k := by
  induction k generalizing x with
  | zero =>
    have hdiv : (x ^^^ 1) / 2 = x / 2 := by
      rw [xor_div_two, div_eq_of_lt Nat.one_lt_two, xor_zero]
    have hmod : (x ^^^ 1) % 2 = (x + 1) % 2 := xor_mod_two_eq
    have hx : x % 2 = 0 := by simpa using h
    rw [pow_zero]
    omega
  | succ k ih =>
    have hdiv : (x ^^^ 2 ^ (k + 1)) / 2 = x / 2 + 2 ^ k := by
      rw [xor_div_two, pow_succ, Nat.mul_div_cancel _ Nat.zero_lt_two]
      apply ih
      rwa [testBit_succ] at h
    have hmod : (x ^^^ 2 ^ (k + 1)) % 2 = (x + 2 ^ (k + 1)) % 2 := xor_mod_two_eq
    omega

lemma xor_of_testBit_eq_true (h : x.testBit k = true) : (x ^^^ 2 ^ k) + 2 ^ k = x := by
  have hbit : (x ^^^ 2 ^ k).testBit k = false := by
    rw [testBit_xor, testBit_two_pow_self, h]
    rfl
  rw [← xor_of_testBit_eq_false hbit, Nat.xor_assoc, Nat.xor_self, xor_zero]

lemma testBit_of_dvd (h : 2 ^ (k + 1) ∣ x) : x.testBit k = false := by
  obtain ⟨m, rfl⟩ := h
  rw [testBit_two_pow_mul]
  simp

lemma dvd_of_testBit_eq_false (hdvd : 2 ^ k ∣ x) (h : x.testBit k = false) : 2 ^ (k + 1) ∣ x := by
  obtain ⟨m, rfl⟩ := hdvd
  rw [testBit_two_pow_mul, Nat.sub_self] at h
  have hm : m % 2 = 0 := by simpa using h
  exact mul_dvd_mul_left _ (dvd_of_mod_eq_zero hm)

lemma dvd_xor (hdvd : 2 ^ k ∣ x) (h : x.testBit k = true) : 2 ^ (k + 1) ∣ x ^^^ 2 ^ k := by
  have hsum := xor_of_testBit_eq_true h
  apply dvd_of_testBit_eq_false
  · apply (Nat.dvd_add_left (dvd_refl (2 ^ k))).mp
    rw [hsum]
    exact hdvd
  · rw [testBit_xor, testBit_two_pow_self, h]
    rfl

lemma neighbour_unique {k' y : ℕ} (hx : 2 ^ (k + 1) ∣ x) (hy : 2 ^ (k' + 1) ∣ y)
    (h : x + 2 ^ k = y + 2 ^ k') : k = k' := by
  have hmain : ∀ {k k' x y : ℕ}, 2 ^ (k + 1) ∣ x → 2 ^ (k' + 1) ∣ y → x + 2 ^ k = y + 2 ^ k' →
      ¬k < k' := by
    intro k k' x y hx hy h hlt
    have hdvd : 2 ^ (k + 1) ∣ y + 2 ^ k' :=
      (Nat.dvd_add_right (dvd_trans (pow_dvd_pow 2 (by omega)) hy)).mpr (pow_dvd_pow 2 hlt)
    rw [← h] at hdvd
    have hle := le_of_dvd (Nat.two_pow_pos k) ((Nat.dvd_add_right hx).mp hdvd)
    exact absurd (Nat.pow_lt_pow_right Nat.one_lt_two (lt_succ_self k)) (not_lt.mpr hle)
  exact le_antisymm (not_lt.mp (hmain hy hx h.symm)) (not_lt.mp (hmain hx hy h))

end Neighbours

/-! ### Combinations -/

variable {β ι : Type} {f : β → β → β} {a : ι → β} {s : Multiset ι} {y : β} {κ : Type}

/-- The values of `a` at the members of `s`, combined in some way. -/
inductive Combines (f : β → β → β) (a : ι → β) : Multiset ι → β → Prop
  | single (i : ι) : Combines f a {i} (a i)
  | op {s t : Multiset ι} {x y : β} (hx : Combines f a s x) (hy : Combines f a t y) :
      Combines f a (s + t) (f x y)

/-- Any combination is the product of the values, in the commutative monoid that the operation
generates. -/
private lemma Combines.coe_eq [CommSemigroup β] (h : Combines (· * ·) a s y) :
    (y : WithOne β) = (s.map fun i => (a i : WithOne β)).prod := by
  induction h with
  | single i => rw [Multiset.map_singleton, Multiset.prod_singleton]
  | op _ _ hx hy =>
    rw [Multiset.map_add, Multiset.prod_add, ← hx, ← hy]
    exact WithOne.coe_mul _ _

/-- **Only one combination**, if the operation is associative and commutative. -/
theorem Combines.unique (hassoc : ∀ x y z, f (f x y) z = f x (f y z)) (hcomm : ∀ x y, f x y = f y x)
    {x : β} (hx : Combines f a s x) (hy : Combines f a s y) : x = y := by
  let _ : CommSemigroup β := { mul := f, mul_assoc := hassoc, mul_comm := hcomm }
  have hx' : (x : WithOne β) = _ := Combines.coe_eq hx
  have hy' : (y : WithOne β) = _ := Combines.coe_eq hy
  exact WithOne.coe_injective (hx'.trans hy'.symm)

lemma Combines.map {g : κ → ι} {s : Multiset κ} (h : Combines f (fun j => a (g j)) s y) :
    Combines f a (s.map g) y := by
  induction h with
  | single j =>
    exact Combines.single (g j)
  | op _ _ hx hy =>
    rw [Multiset.map_add]
    exact Combines.op hx hy

lemma Combines.bind {c : κ → β} {g : κ → Multiset ι} {s : Multiset κ} (h : Combines f c s y)
    (hc : ∀ j ∈ s, Combines f a (g j) (c j)) : Combines f a (s.bind g) y := by
  induction h with
  | single j =>
    rw [Multiset.singleton_bind]
    exact hc j (Multiset.mem_singleton_self j)
  | op _ _ hx hy =>
    rw [Multiset.add_bind]
    exact Combines.op (hx fun j hj => hc j (Multiset.mem_add.mpr (.inl hj)))
      (hy fun j hj => hc j (Multiset.mem_add.mpr (.inr hj)))

lemma map_range_eq {g : ℕ → ι} (hs : s.Nodup) (hinj : ∀ x < n, ∀ y < n, g x = g y → x = y)
    (hmem : ∀ i, i ∈ s ↔ ∃ x < n, g x = i) : (range n : Multiset ℕ).map g = s := by
  have hnodup : ((range n : Multiset ℕ).map g).Nodup := by
    apply Multiset.Nodup.map_on _ (Multiset.coe_nodup.mpr nodup_range)
    intro x hx y hy
    exact hinj x (mem_range.mp hx) y (mem_range.mp hy)
  refine (hnodup.ext hs).mpr fun i => ?_
  simp only [hmem, Multiset.mem_map, Multiset.mem_coe, mem_range]

/-! ### Rounds -/

/-- What number `x` holds before round `k`. -/
def value (f : β → β → β) (n : ℕ) (a : ℕ → β) : ℕ → ℕ → β
  | 0, x => a x
  | k + 1, x =>
    if x.testBit k = false ∧ x + 2 ^ k < n then f (value f n a k (x + 2 ^ k)) (value f n a k x)
    else value f n a k x

variable {n : ℕ} {b : ℕ → β} {k x : ℕ}

lemma value_of_lt (hbit : x.testBit k = false) (hlt : x + 2 ^ k < n) :
    value f n b (k + 1) x = f (value f n b k (x + 2 ^ k)) (value f n b k x) := if_pos ⟨hbit, hlt⟩

lemma value_of_testBit (hbit : x.testBit k = true) : value f n b (k + 1) x = value f n b k x :=
  if_neg fun h => Bool.false_ne_true (h.1.symm.trans hbit)

lemma value_of_le (hle : n ≤ x + 2 ^ k) : value f n b (k + 1) x = value f n b k x :=
  if_neg fun h => absurd h.2 (not_lt.mpr hle)

lemma value_one : value f 1 b 1 0 = b 0 := value_of_le (le_refl 1)

lemma value_stable {k' : ℕ} (hk : n ≤ 2 ^ k) (hle : k ≤ k') (x : ℕ) :
    value f n b k' x = value f n b k x := by
  induction k', hle using le_induction with
  | base => rfl
  | succ k' hle ih =>
    have hpow : 2 ^ k ≤ 2 ^ k' := Nat.pow_le_pow_right Nat.zero_lt_two hle
    rw [value_of_le (by omega), ih]

/-- **A multiple of `2 ^ k` holds the values from it up to the next one.** -/
theorem combines_value (k : ℕ) (hdvd : 2 ^ k ∣ x) (hx : x < n) :
    Combines f b (range' x (min (2 ^ k) (n - x)) : Multiset ℕ) (value f n b k x) := by
  induction k generalizing x with
  | zero =>
    have hone : min (2 ^ 0) (n - x) = 1 := by
      omega
    rw [hone]
    exact Combines.single x
  | succ k ih =>
    have hdvd' : 2 ^ k ∣ x := dvd_trans (pow_dvd_pow 2 (le_succ k)) hdvd
    have hbit := testBit_of_dvd hdvd
    by_cases hlt : x + 2 ^ k < n
    · -- the neighbour has the second half
      have hhalf := ih (x := x + 2 ^ k) ((Nat.dvd_add_right hdvd').mpr dvd_rfl) hlt
      rw [value_of_lt hbit hlt]
      have hrange : (range' x (min (2 ^ (k + 1)) (n - x)) : Multiset ℕ) =
          (range' (x + 2 ^ k) (min (2 ^ k) (n - (x + 2 ^ k))) : Multiset ℕ) +
            (range' x (min (2 ^ k) (n - x)) : Multiset ℕ) := by
        have hlen : min (2 ^ (k + 1)) (n - x) = 2 ^ k + min (2 ^ k) (n - (x + 2 ^ k)) := by omega
        have hfull : min (2 ^ k) (n - x) = 2 ^ k := by omega
        rw [hlen, hfull, ← range'_append_1, ← Multiset.coe_add]
        exact add_comm _ _
      rw [hrange]
      exact Combines.op hhalf (ih hdvd' hx)
    · rw [value_of_le (not_lt.mp hlt)]
      have hlen : min (2 ^ (k + 1)) (n - x) = min (2 ^ k) (n - x) := by omega
      rw [hlen]
      exact ih hdvd' hx

/-- **Number 0 holds all values** after enough rounds. -/
theorem combines_value_zero (hn : 0 < n) (hk : n ≤ 2 ^ k) :
    Combines f b (range n : Multiset ℕ) (value f n b k 0) := by
  have h := combines_value (f := f) (b := b) k (Nat.dvd_zero _) hn
  rwa [Nat.sub_zero, min_eq_right hk, ← List.range_eq_range'] at h

end FanIn
