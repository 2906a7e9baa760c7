import Mathlib.Algebra.Ring.Nat
import Mathlib.Data.List.Nodup
import Mathlib.Data.List.Range

/-!
# Tables filled by loops

Facts about the loops that build lookup tables out of a list: a loop that writes entries
(`fill`), a loop that collects each value at its first occurrence (`collectFrom`), a search for
the first match (`firstIndex`) and a running maximum (`maxOf`).  The last section says at which
place of the increasing list of matching indices an index stands: the number of matching indices
below it.
-/

namespace Table

open List

variable {α : Type*} {writes : List (ℕ × α)} {k : ℕ} {a : α}

/-! ### Writing entries -/

/-- Writes the values to their indices, one after the other. -/
def fill (t : List α) (writes : List (ℕ × α)) : List α := writes.foldl (fun t w => t.set w.1 w.2) t

lemma fill_getElem?_of_notMem (hk : k ∉ writes.map Prod.fst) :
    ∀ t : List α, (fill t writes)[k]? = t[k]? := by
  induction writes with
  | nil => intro t; rfl
  | cons w ws ih =>
    intro t
    rw [map_cons, mem_cons, not_or] at hk
    show (fill (t.set w.1 w.2) ws)[k]? = t[k]?
    rw [ih hk.2, getElem?_set_ne (Ne.symm hk.1)]

/-- With distinct indices every value that is written inside the table is still there. -/
lemma fill_getElem?_of_mem (hnodup : (writes.map Prod.fst).Nodup) (hmem : (k, a) ∈ writes) :
    ∀ t : List α, k < t.length → (fill t writes)[k]? = some a := by
  induction writes with
  | nil => simp at hmem
  | cons w ws ih =>
    intro t hk
    obtain ⟨hw, hws⟩ := nodup_cons.mp hnodup
    show (fill (t.set w.1 w.2) ws)[k]? = some a
    rcases mem_cons.mp hmem with rfl | hmem
    · rw [fill_getElem?_of_notMem hw, getElem?_set_self hk]
    · exact ih hws hmem _ (by simpa using hk)

/-! ### Collecting values -/

variable [DecidableEq α] {l : List α} {i n p : ℕ} {β : Type*} {P : ℕ → Bool}

/-- Appends each value that is not there yet. -/
def collectFrom (acc l : List α) : List α :=
  l.foldl (fun acc a => if a ∈ acc then acc else acc ++ [a]) acc

lemma mem_collectFrom (l : List α) : ∀ acc, a ∈ collectFrom acc l ↔ a ∈ acc ∨ a ∈ l := by
  induction l with
  | nil => intro acc; simp [collectFrom]
  | cons b l ih =>
    intro acc
    show a ∈ collectFrom (if b ∈ acc then acc else acc ++ [b]) l ↔ _
    rw [ih, mem_cons]
    split_ifs with hb
    · constructor
      · rintro (h | h)
        · exact .inl h
        · exact .inr (.inr h)
      · rintro (h | rfl | h)
        · exact .inl h
        · exact .inl hb
        · exact .inr h
    · rw [mem_append, mem_singleton, or_assoc]

lemma nodup_collectFrom (l : List α) : ∀ acc : List α, acc.Nodup → (collectFrom acc l).Nodup := by
  induction l with
  | nil => intro acc h; exact h
  | cons b l ih =>
    intro acc h
    show (collectFrom (if b ∈ acc then acc else acc ++ [b]) l).Nodup
    split_ifs with hb
    · exact ih acc h
    · refine ih _ ?_
      rw [← concat_eq_append]
      exact h.concat hb

/-! ### Searching -/

/-- Index of the first entry equal to `a`, or `-1`. -/
def firstIndex (a : α) (l : List α) : ℤ :=
  if a ∈ l then (l.idxOf a : ℤ) else -1

lemma firstIndex_of_notMem (h : a ∉ l) : firstIndex a l = -1 :=
  if_neg h

lemma firstIndex_of_getElem? (hnodup : l.Nodup) (h : l[i]? = some a) : firstIndex a l = i := by
  obtain ⟨hi, rfl⟩ := List.getElem?_eq_some_iff.mp h
  rw [firstIndex, if_pos (getElem_mem hi), hnodup.idxOf_getElem i hi]

lemma getElem?_of_firstIndex (h : firstIndex a l = i) : l[i]? = some a := by
  unfold firstIndex at h
  split_ifs at h with ha
  · have hi : l.idxOf a = i := by exact_mod_cast h
    rw [← hi]
    exact getElem?_idxOf ha

/-! ### Running maximum -/

/-- The largest value of `f` over the list, `0` for the empty list. -/
def maxOf {β : Type*} (f : β → ℕ) (l : List β) : ℕ :=
  l.foldl (fun m b => if m < f b then f b else m) 0

private lemma foldl_max_spec (f : β → ℕ) (l : List β) :
    ∀ m0, let m := l.foldl (fun m b => if m < f b then f b else m) m0
      m0 ≤ m ∧ (∀ b ∈ l, f b ≤ m) ∧ (m = m0 ∨ ∃ b ∈ l, f b = m) := by
  induction l with
  | nil => intro m0; simp
  | cons b l ih =>
    intro m0
    obtain ⟨hle, hall, hmem⟩ := ih (if m0 < f b then f b else m0)
    simp only [foldl_cons, forall_mem_cons, exists_mem_cons_iff]
    refine ⟨?_, ⟨?_, hall⟩, ?_⟩
    · exact le_trans (by split_ifs <;> omega) hle
    · exact le_trans (by split_ifs <;> omega) hle
    · rcases hmem with heq | hmem
      · rw [heq]
        split_ifs
        · exact .inr (.inl rfl)
        · exact .inl rfl
      · exact .inr (.inr hmem)

lemma le_maxOf (f : β → ℕ) {l : List β} {b : β} (hb : b ∈ l) : f b ≤ maxOf f l :=
  (foldl_max_spec f l 0).2.1 b hb

lemma maxOf_attained (f : β → ℕ) {l : List β} (hl : l ≠ []) : ∃ b ∈ l, f b = maxOf f l := by
  rcases (foldl_max_spec f l 0).2.2 with hzero | hmem
  · -- a maximum of 0 is the value of every entry
    obtain ⟨b, hb⟩ := exists_mem_of_ne_nil l hl
    have hle := le_maxOf f hb
    exact ⟨b, hb, by rw [maxOf] at hle ⊢; omega⟩
  · exact hmem

/-! ### Positions among the matching indices -/

/-- The matching indices below `n` split at the matching index `p`. -/
lemma filter_range_split (hp : p < n) (hP : P p) :
    ∃ rest, (range n).filter P = (range p).filter P ++ p :: rest := by
  obtain ⟨m, rfl⟩ : ∃ m, n = p + (m + 1) := ⟨n - p - 1, by omega⟩
  refine ⟨((range m).map fun i => p + (i + 1)).filter P, ?_⟩
  rw [range_add, filter_append, range_succ_eq_map]
  simp [hP, Function.comp_def]

lemma nodup_filter_range (n : ℕ) (P : ℕ → Bool) : ((range n).filter P).Nodup :=
  nodup_range.filter P

/-- Before a matching index stand exactly the matching indices below it. -/
lemma countP_range_of_getElem? (h : ((range n).filter P)[i]? = some p) :
    (range p).countP P = i := by
  have hmem := mem_filter.mp (mem_of_getElem? h)
  obtain ⟨rest, hsplit⟩ := filter_range_split (mem_range.mp hmem.1) hmem.2
  have hj : ((range n).filter P)[((range p).filter P).length]? = some p := by
    rw [hsplit, getElem?_append_right le_rfl]
    simp
  rw [countP_eq_length_filter]
  obtain ⟨hi, hi'⟩ := List.getElem?_eq_some_iff.mp h
  obtain ⟨hj, hj'⟩ := List.getElem?_eq_some_iff.mp hj
  exact (nodup_filter_range n P).getElem_inj_iff.mp (hj'.trans hi'.symm)

end Table
