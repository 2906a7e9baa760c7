import Mathlib.Algebra.Order.Group.Nat
import Mathlib.Algebra.Ring.Int.Defs
import Mathlib.Algebra.Ring.Nat
import Mathlib.Data.List.Induction
import Mathlib.Data.List.ModifyLast

/-!
# Lists of runs of positions

A run is a number of consecutive positions from an offset on; a list of runs denotes the list of
positions of its runs, in their order.  `push` adds a run at the end, and joins it with the last one
where the two are adjacent; that does not change what is denoted (`positions_push`).

The same list can be built in two passes.  The first pass keeps the number of runs and the last run
only (`Tallies`), the second writes the runs into an array of just that length (`Fills`).
-/

namespace RunList

open List

/-- `size` positions from `offset` on. -/
structure Run where
  size : ℕ
  offset : ℤ
  deriving DecidableEq, Repr

variable {r : Run}

namespace Run

def positions (r : Run) : List ℤ := (range r.size).map fun i : ℕ => r.offset + i

def shift (d : ℤ) (r : Run) : Run := ⟨r.size, r.offset + d⟩

def stop (r : Run) : ℤ := r.size + r.offset

lemma positions_shift (d : ℤ) (r : Run) : (r.shift d).positions = r.positions.map (· + d) := by
  unfold positions shift
  rw [map_map]
  apply map_congr_left
  intro i _
  show r.offset + d + i = r.offset + i + d
  omega

lemma positions_join {s : Run} (h : r.stop = s.offset) :
    positions ⟨r.size + s.size, r.offset⟩ = r.positions ++ s.positions := by
  unfold positions
  rw [range_add, map_append, map_map]
  congr 1
  apply map_congr_left
  intro i _
  show r.offset + ((r.size + i : ℕ) : ℤ) = s.offset + i
  unfold stop at h
  omega

lemma positions_of_size_eq_zero (h : r.size = 0) : r.positions = [] := by
  unfold positions
  rw [h]
  rfl

end Run

/-- What a list of runs denotes. -/
def positions (runs : List Run) : List ℤ := runs.flatMap Run.positions

@[simp] lemma positions_nil : positions [] = [] := rfl

@[simp] lemma positions_cons (r : Run) (runs : List Run) :
    positions (r :: runs) = r.positions ++ positions runs := rfl

@[simp] lemma positions_append (runs runs' : List Run) :
    positions (runs ++ runs') = positions runs ++ positions runs' := flatMap_append

lemma positions_flatMap {α : Type*} (l : List α) (f : α → List Run) :
    positions (l.flatMap f) = l.flatMap fun a => positions (f a) := flatMap_assoc

lemma positions_map_shift (d : ℤ) (runs : List Run) :
    positions (runs.map (Run.shift d)) = (positions runs).map (· + d) := by
  induction runs with
  | nil => rfl
  | cons r runs ih =>
    rw [map_cons, positions_cons, positions_cons, map_append, ih, Run.positions_shift]

/-! ### Adding a run -/

/-- The run begins where the last one ends. -/
def Joins (runs : List Run) (r : Run) : Prop := ∃ last ∈ runs.getLast?, last.stop = r.offset

instance (runs : List Run) (r : Run) : Decidable (Joins runs r) :=
  decidable_of_iff ((runs.getLast?.any fun last => last.stop = r.offset) = true) <| by
    unfold Joins
    cases runs.getLast? <;> simp

/-- Add a run at the end.  A run that is not to be kept is left out, unless it joins. -/
def push (keep : Run → Bool) (runs : List Run) (r : Run) : List Run :=
  if Joins runs r then
    runs.modifyLast fun last => ⟨last.size + r.size, last.offset⟩
  else if keep r then runs ++ [r] else runs

variable {keep : Run → Bool} {runs : List Run}

lemma Joins.exists_append (h : Joins runs r) :
    ∃ init last, runs = init ++ [last] ∧ last.stop = r.offset := by
  obtain ⟨last, hlast, hstop⟩ := h
  obtain ⟨init, rfl⟩ := getLast?_eq_some_iff.mp hlast
  exact ⟨init, last, rfl, hstop⟩

lemma push_of_joins {init : List Run} {last : Run} (h : last.stop = r.offset) :
    push keep (init ++ [last]) r = init ++ [⟨last.size + r.size, last.offset⟩] := by
  have hjoins : Joins (init ++ [last]) r := ⟨last, by simp, h⟩
  rw [push, if_pos hjoins, modifyLast_concat]

lemma push_of_keep (h : ¬Joins runs r) (hkeep : keep r = true) :
    push keep runs r = runs ++ [r] := by
  rw [push, if_neg h, if_pos hkeep]

lemma push_of_drop (h : ¬Joins runs r) (hkeep : keep r = false) : push keep runs r = runs := by
  rw [push, if_neg h, hkeep, if_neg Bool.false_ne_true]

/-- **Joining does not change what is denoted**, nor does leaving out empty runs. -/
theorem positions_push (hkeep : ∀ r, keep r = false → r.size = 0) (runs : List Run) (r : Run) :
    positions (push keep runs r) = positions runs ++ r.positions := by
  by_cases hjoins : Joins runs r
  · obtain ⟨init, last, rfl, hstop⟩ := hjoins.exists_append
    rw [push_of_joins hstop]
    simp [Run.positions_join hstop]
  · cases hk : keep r with
    | true =>
      rw [push_of_keep hjoins hk]
      simp
    | false =>
      rw [push_of_drop hjoins hk, Run.positions_of_size_eq_zero (hkeep r hk), append_nil]

lemma positions_foldl_push (hkeep : ∀ r, keep r = false → r.size = 0) (rs runs : List Run) :
    positions (rs.foldl (push keep) runs) = positions runs ++ positions rs := by
  induction rs generalizing runs with
  | nil => simp
  | cons r rs ih =>
    rw [foldl_cons, ih, positions_push hkeep, positions_cons, append_assoc]

lemma forall_pos_push (hruns : ∀ s ∈ runs, 0 < s.size) (hr : keep r = true → 0 < r.size) :
    ∀ s ∈ push keep runs r, 0 < s.size := by
  by_cases hjoins : Joins runs r
  · obtain ⟨init, last, rfl, hstop⟩ := hjoins.exists_append
    rw [push_of_joins hstop]
    intro s hs
    rcases mem_append.mp hs with hinit | hlast
    · exact hruns s (mem_append_left _ hinit)
    · rw [mem_singleton.mp hlast]
      exact Nat.add_pos_left (hruns last (mem_append_right _ (mem_singleton_self last))) _
  · cases hkeep : keep r with
    | true =>
      rw [push_of_keep hjoins hkeep]
      intro s hs
      rcases mem_append.mp hs with hold | hnew
      · exact hruns s hold
      · rw [mem_singleton.mp hnew]
        exact hr hkeep
    | false =>
      rw [push_of_drop hjoins hkeep]
      exact hruns

lemma forall_pos_foldl_push {rs : List Run} (hrs : ∀ r ∈ rs, keep r = true → 0 < r.size)
    (hruns : ∀ s ∈ runs, 0 < s.size) : ∀ s ∈ rs.foldl (push keep) runs, 0 < s.size := by
  induction rs generalizing runs with
  | nil => exact hruns
  | cons r rs ih =>
    apply ih
    · exact fun r' hr' => hrs r' (mem_cons_of_mem r hr')
    · exact forall_pos_push hruns (hrs r mem_cons_self)

lemma length_push (keep : Run → Bool) (runs : List Run) (r : Run) :
    (push keep runs r).length = runs.length ∨ (push keep runs r).length = runs.length + 1 := by
  by_cases hjoins : Joins runs r
  · obtain ⟨init, last, rfl, hstop⟩ := hjoins.exists_append
    rw [push_of_joins hstop]
    simp
  · cases hk : keep r with
    | true =>
      rw [push_of_keep hjoins hk]
      simp
    | false =>
      rw [push_of_drop hjoins hk]
      exact .inl rfl

lemma length_le_length_push (runs : List Run) (r : Run) :
    runs.length ≤ (push keep runs r).length := by
  rcases length_push keep runs r with h | h <;> omega

lemma length_le_length_foldl_push (rs runs : List Run) :
    runs.length ≤ (rs.foldl (push keep) runs).length := by
  induction rs generalizing runs with
  | nil => exact Nat.le_refl _
  | cons r rs ih => exact (length_le_length_push runs r).trans (ih _)

/-- A list of runs gets longer by one run at a time. -/
lemma exists_length_foldl_push {size : ℕ} {rs : List Run}
    (h : size ≤ (rs.foldl (push keep) []).length) :
    ∃ rs₁ rs₂, rs = rs₁ ++ rs₂ ∧ (rs₁.foldl (push keep) []).length = size := by
  induction rs using reverseRecOn with
  | nil => exact ⟨[], [], rfl, (Nat.le_zero.mp h).symm⟩
  | append_singleton rs r ih =>
    by_cases hle : size ≤ (rs.foldl (push keep) []).length
    · obtain ⟨rs₁, rs₂, rfl, hlength⟩ := ih hle
      exact ⟨rs₁, rs₂ ++ [r], append_assoc .., hlength⟩
    · refine ⟨rs ++ [r], [], (append_nil _).symm, ?_⟩
      have hpush := length_push keep (rs.foldl (push keep) []) r
      rw [foldl_append, foldl_cons, foldl_nil] at h ⊢
      omega

/-! ### Two passes -/

section Passes

variable {σ : Type*} {step : σ → Run → σ} {s : σ} {next : σ → ℕ} {array : σ → List Run}

/-- The number of runs and the last run are those of this list. -/
def Tallies (count : σ → ℕ) (last : σ → Run) (runs : List Run) (s : σ) : Prop :=
  count s = runs.length ∧ ∀ r ∈ runs.getLast?, last s = r

/-- The array holds this list, and the place after it is the next one to be written. -/
def Fills (next : σ → ℕ) (array : σ → List Run) (size : ℕ) (runs : List Run) (s : σ) : Prop :=
  next s = runs.length ∧ (array s).length = size ∧ runs <+: array s

lemma Tallies.foldl {count : σ → ℕ} {last : σ → Run}
    (hstep : ∀ runs s r, Tallies count last runs s →
      Tallies count last (push keep runs r) (step s r))
    (rs : List Run) (h : Tallies count last runs s) :
    Tallies count last (rs.foldl (push keep) runs) (rs.foldl step s) := by
  induction rs generalizing runs s with
  | nil => exact h
  | cons r rs ih => exact ih (hstep runs s r h)

/-- If the array is long enough for the whole list, then every write is within its bounds. -/
lemma Fills.foldl {size : ℕ}
    (hstep : ∀ runs s r, (push keep runs r).length ≤ size → Fills next array size runs s →
      Fills next array size (push keep runs r) (step s r))
    (rs : List Run) (hsize : (rs.foldl (push keep) runs).length ≤ size)
    (h : Fills next array size runs s) :
    Fills next array size (rs.foldl (push keep) runs) (rs.foldl step s) := by
  induction rs generalizing runs s with
  | nil => exact h
  | cons r rs ih =>
    exact ih hsize (hstep runs s r ((length_le_length_foldl_push rs _).trans hsize) h)

lemma Fills.array_eq (h : Fills next array runs.length runs s) : array s = runs := by
  obtain ⟨-, hlength, hpre⟩ := h
  exact (hpre.eq_of_length hlength.symm).symm

end Passes

end RunList
