import Mathlib.Algebra.Order.BigOperators.Group.Finset
import Mathlib.Algebra.Ring.Nat
import Mathlib.Data.List.GetD

/-!
# Parts of a whole

A whole is cut into parts with lengths that add up to its length, all of them positive unless the
whole is empty and has a single part (`IsSplit`).  Different parts have at most the length of the
whole together (`sum_getD_le`), and if they have all of it they are all the parts
(**`sum_le_sum_getD_iff`**).
-/

namespace Parts

open List

/-- The lengths of the parts of a whole. -/
def IsSplit (lengths : List ℕ) : Prop := lengths = [0] ∨ lengths ≠ [] ∧ ∀ l ∈ lengths, 0 < l

instance (lengths : List ℕ) : Decidable (IsSplit lengths) := inferInstanceAs (Decidable (_ ∨ _))

variable {lengths ks : List ℕ}

lemma IsSplit.ne_nil (h : IsSplit lengths) : lengths ≠ [] := by
  rcases h with rfl | ⟨hne, -⟩
  · exact cons_ne_nil _ _
  · exact hne

lemma sum_getD_range (l : List ℕ) : ∑ k ∈ Finset.range l.length, l.getD k 0 = l.sum := by
  induction l with
  | nil => rfl
  | cons a l ih =>
    rw [length_cons, Finset.sum_range_succ', sum_cons, ← ih]
    simp only [getD_cons_succ, getD_cons_zero]
    exact Nat.add_comm _ _

lemma sum_getD_le (hks : ∀ k ∈ ks, k < lengths.length) (hnodup : ks.Nodup) :
    (ks.map (lengths.getD · 0)).sum ≤ lengths.sum := by
  rw [← sum_toFinset _ hnodup, ← sum_getD_range]
  apply Finset.sum_le_sum_of_subset
  intro k hk
  exact Finset.mem_range.mpr (hks k (mem_toFinset.mp hk))

/-- **Different parts have all of the length exactly if they are all the parts.** -/
theorem sum_le_sum_getD_iff (hsplit : IsSplit lengths) (hks : ∀ k ∈ ks, k < lengths.length)
    (hnodup : ks.Nodup) (hne : ks ≠ []) :
    lengths.sum ≤ (ks.map (lengths.getD · 0)).sum ↔ ∀ k < lengths.length, k ∈ ks := by
  constructor
  · intro hsum k hk
    by_contra hnot
    have hmore := sum_getD_le (forall_mem_cons.mpr ⟨hk, hks⟩)
      (nodup_cons.mpr ⟨hnot, hnodup⟩)
    rw [map_cons, sum_cons] at hmore
    rcases hsplit with rfl | ⟨-, hpos⟩
    · -- there is one part only
      obtain ⟨j, hj⟩ := exists_mem_of_ne_nil ks hne
      have hj0 := Nat.lt_one_iff.mp (hks j hj)
      rw [Nat.lt_one_iff.mp hk, ← hj0] at hnot
      exact hnot hj
    · have := hpos _ (getElem_mem hk)
      rw [getD_eq_getElem _ _ hk] at hmore
      omega
  · intro hall
    rw [← sum_toFinset _ hnodup, ← sum_getD_range]
    apply Finset.sum_le_sum_of_subset
    intro k hk
    exact mem_toFinset.mpr (hall k (Finset.mem_range.mp hk))

end Parts
