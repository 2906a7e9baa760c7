import Lampi.Lib.FanIn

/-!
# Logarithmic fan-out

The numbers below `n` form a tree: the parent of a positive number is obtained by clearing its
highest bit.  In round `k` of a fan-out each number `u < 2 ^ k` passes on what it has to its child
`u + 2 ^ k`.  `children b u` lists the children of `u` that lie below `b`.
-/

namespace FanOut

open Nat List

/-- The number with its highest bit cleared. -/
def parent (x : ℕ) : ℕ := x - 2 ^ x.log2

variable {k u x b : ℕ}

lemma log2_add (h : u < 2 ^ k) : (u + 2 ^ k).log2 = k := by
  rw [log2_eq_iff (by omega), pow_succ]
  omega

lemma parent_add (h : u < 2 ^ k) : parent (u + 2 ^ k) = u := by
  rw [parent, log2_add h, Nat.add_sub_cancel]

lemma parent_add_pow (hx : 0 < x) : parent x + 2 ^ x.log2 = x :=
  Nat.sub_add_cancel (log2_self_le hx.ne')

lemma parent_lt_pow (hx : 0 < x) : parent x < 2 ^ x.log2 := by
  have hadd := parent_add_pow hx
  have hlt : x < 2 ^ (x.log2 + 1) := lt_log2_self
  omega

lemma parent_lt (hx : 0 < x) : parent x < x := by
  have hadd := parent_add_pow hx
  have hpos := Nat.two_pow_pos x.log2
  omega

lemma parent_eq_iff (hx : 0 < x) : parent x = u ↔ ∃ k, u < 2 ^ k ∧ x = u + 2 ^ k := by
  constructor
  · rintro rfl
    exact ⟨x.log2, parent_lt_pow hx, (parent_add_pow hx).symm⟩
  · rintro ⟨k, hu, rfl⟩
    exact parent_add hu

/-! ### Neighbours -/

/-- In the rounds after the first one a number takes part in, its neighbour is a child. -/
lemma xor_of_lt (h : x < 2 ^ k) : x ^^^ 2 ^ k = x + 2 ^ k :=
  FanIn.xor_of_testBit_eq_false (testBit_lt_two_pow h)

/-- In the first one, its neighbour is the parent. -/
lemma xor_log2 (hx : 0 < x) : x ^^^ 2 ^ x.log2 = parent x := by
  have hbit : (parent x).testBit x.log2 = false := testBit_lt_two_pow (parent_lt_pow hx)
  have hxor := FanIn.xor_of_testBit_eq_false hbit
  rw [parent_add_pow hx] at hxor
  calc x ^^^ 2 ^ x.log2 = parent x ^^^ 2 ^ x.log2 ^^^ 2 ^ x.log2 := by rw [hxor]
    _ = parent x := by rw [Nat.xor_assoc, Nat.xor_self, xor_zero]

/-! ### Children -/

/-- The children of `u` below `b`. -/
def children (b u : ℕ) : List ℕ := (List.range b).filter fun c => decide (0 < c ∧ parent c = u)

lemma mem_children : x ∈ children b u ↔ x < b ∧ 0 < x ∧ parent x = u := by
  rw [children, mem_filter, mem_range, decide_eq_true_iff]

lemma nodup_children : (children b u).Nodup := nodup_range.filter _

lemma children_eq_of_le {a : ℕ} (hab : a ≤ b) (h : ∀ x, a ≤ x → x < b → 0 < x → parent x ≠ u) :
    children b u = children a u := by
  obtain ⟨d, rfl⟩ := Nat.exists_eq_add_of_le hab
  have hnone : ((range d).map (a + ·)).filter (fun c => decide (0 < c ∧ parent c = u)) = [] := by
    rw [filter_eq_nil_iff]
    intro x hx
    obtain ⟨i, hi, rfl⟩ := mem_map.mp hx
    rw [mem_range] at hi
    rw [decide_eq_true_iff]
    rintro ⟨hpos, heq⟩
    exact h _ (le_add_right a i) (Nat.add_lt_add_left hi a) hpos heq
  rw [children, range_add, filter_append, hnone, append_nil]
  rfl

private lemma not_child (hlow : u + 2 ^ k < x) (hhigh : x < u + 2 ^ (k + 1)) (hx : 0 < x) :
    parent x ≠ u := by
  intro heq
  obtain ⟨i, -, rfl⟩ := (parent_eq_iff hx).mp heq
  have hki : k < i := (Nat.pow_lt_pow_iff_right Nat.one_lt_two).mp (by omega)
  have hik : i < k + 1 := (Nat.pow_lt_pow_iff_right Nat.one_lt_two).mp (by omega)
  omega

lemma children_next (hk : u < 2 ^ k) (hlow : u + 2 ^ k < b) (hhigh : b ≤ u + 2 ^ (k + 1)) :
    children b u = children (u + 2 ^ k) u ++ [u + 2 ^ k] := by
  have hpos : 0 < u + 2 ^ k := Nat.add_pos_right u (Nat.two_pow_pos k)
  rw [children_eq_of_le (succ_le_of_lt hlow) fun x hx hxb =>
    not_child hx (hxb.trans_le hhigh)]
  have hself : [u + 2 ^ k].filter (fun c => decide (0 < c ∧ parent c = u)) = [u + 2 ^ k] :=
    filter_cons_of_pos (decide_eq_true ⟨hpos, parent_add hk⟩)
  rw [children, range_succ, filter_append, hself]
  rfl

/-- Before its first round with a neighbour above, a number has no children. -/
lemma children_first (hk : 2 ^ k ≤ 2 * u ∨ k = 0) : children (u + 2 ^ k) u = [] := by
  rw [children, filter_eq_nil_iff]
  intro x hx
  rw [mem_range] at hx
  rw [decide_eq_true_iff]
  rintro ⟨hpos, heq⟩
  obtain ⟨i, hi, rfl⟩ := (parent_eq_iff hpos).mp heq
  have hik : i < k := (Nat.pow_lt_pow_iff_right Nat.one_lt_two).mp (by omega)
  have hle : 2 ^ (i + 1) ≤ 2 ^ k := Nat.pow_le_pow_right Nat.zero_lt_two hik
  omega

end FanOut
