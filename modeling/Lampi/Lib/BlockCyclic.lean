import Mathlib.Data.Nat.Notation

/-!
# Block-cyclic numbering

The numbers from 0 on are dealt out to a fixed number of owners, a block of consecutive numbers at a
time: the first block to owner 0, the next to owner 1, and after the last owner to owner 0 again.
-/

namespace BlockCyclic

open Nat

/-- Number `j` of those that owner `p` gets. -/
def index (block owners p j : ℕ) : ℕ := block * (owners * (j / block) + p) + j % block

variable {block owners p q j k : ℕ}

lemma index_mod : index block owners p j % block = j % block := by
  rw [index, mul_add_mod, mod_mod]

lemma index_div (hblock : 0 < block) :
    index block owners p j / block = owners * (j / block) + p := by
  rw [index, mul_add_div hblock, div_eq_of_lt (mod_lt j hblock), Nat.add_zero]

lemma index_inj (hblock : 0 < block) (hp : p < owners) (hq : q < owners)
    (h : index block owners p j = index block owners q k) : p = q ∧ j = k := by
  have hmod : j % block = k % block := by
    have hj : index block owners p j % block = j % block := index_mod
    rw [← hj, h, index_mod]
  have hdiv : owners * (j / block) + p = owners * (k / block) + q := by
    have hj : index block owners p j / block = owners * (j / block) + p := index_div hblock
    rw [← hj, h, index_div hblock]
  have howners : 0 < owners := Nat.lt_of_le_of_lt (zero_le p) hp
  have hround : j / block = k / block := by
    have hround := congrArg (· / owners) hdiv
    simpa only [mul_add_div howners, div_eq_of_lt hp, div_eq_of_lt hq, Nat.add_zero] using hround
  refine ⟨?_, ?_⟩
  · rw [hround] at hdiv
    exact Nat.add_left_cancel hdiv
  · rw [← div_add_mod j block, ← div_add_mod k block, hround, hmod]

/-- The first number of the block that number `j` of owner `p` is in. -/
def start (block owners p j : ℕ) : ℕ := block * (owners * (j / block) + p)

lemma start_le : start block owners p j ≤ index block owners p j := le_add_right _ _

lemma index_lt (hblock : 0 < block) : index block owners p j < start block owners p j + block :=
  Nat.add_lt_add_left (mod_lt j hblock) _

private lemma succ_div_mod (hblock : 0 < block) (j : ℕ) :
    (j + 1) / block = j / block + (j % block + 1) / block ∧
      (j + 1) % block = (j % block + 1) % block := by
  have hj : j + 1 = block * (j / block) + (j % block + 1) := by
    rw [← Nat.add_assoc, div_add_mod]
  constructor
  · calc (j + 1) / block = (block * (j / block) + (j % block + 1)) / block := by rw [← hj]
      _ = j / block + (j % block + 1) / block := mul_add_div hblock _ _
  · calc (j + 1) % block = (block * (j / block) + (j % block + 1)) % block := by rw [← hj]
      _ = (j % block + 1) % block := mul_add_mod _ _ _

lemma index_succ_of_lt (owners p : ℕ) (h : j % block + 1 < block) :
    index block owners p (j + 1) = index block owners p j + 1 ∧
      start block owners p (j + 1) = start block owners p j := by
  obtain ⟨hdiv, hmod⟩ := succ_div_mod (zero_lt_of_lt h) j
  rw [div_eq_of_lt h, Nat.add_zero] at hdiv
  rw [mod_eq_of_lt h] at hmod
  rw [index, start, hdiv, hmod]
  exact ⟨rfl, rfl⟩

lemma index_succ_of_eq (owners p : ℕ) (h : j % block + 1 = block) :
    index block owners p (j + 1) = start block owners p (j + 1) ∧
      start block owners p (j + 1) = start block owners p j + block * owners := by
  have hblock : 0 < block := by omega
  obtain ⟨hdiv, hmod⟩ := succ_div_mod hblock j
  rw [h, Nat.div_self hblock] at hdiv
  rw [h, mod_self] at hmod
  constructor
  · rw [index, start, hmod, Nat.add_zero]
  · rw [start, start, hdiv, Nat.mul_add, Nat.mul_add, Nat.mul_add, Nat.mul_add, Nat.mul_one]
    omega

end BlockCyclic
