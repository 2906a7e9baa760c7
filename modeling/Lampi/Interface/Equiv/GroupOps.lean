import Lampi.Interface.GroupOps
import Lampi.Queue.Equiv.Group

/-!
# Groups as ordered sets

Union and difference are right for all groups, and the intersection for groups that have members
(`groupOps_right_iff`).
-/

namespace Lampi

open List Lampi.Group

variable {group1 group2 procIDs : List ℕ}

def groupHandle (procIDs : List ℕ) : GroupHandle :=
  if procIDs = [] then .groupEmpty else .pool procIDs

lemma groupHandle_of_ne_nil (h : procIDs ≠ []) : groupHandle procIDs = .pool procIDs := if_neg h

lemma foundInGroup_eq (group : List ℕ) : foundInGroup group = fun p => decide (p ∈ group) := by
  ext p
  rw [foundInGroup, any_beq', contains_eq_mem]

lemma collectProcs_eq (take : ℕ → Bool) (procIDs group : List ℕ) :
    collectProcs take procIDs group = procIDs ++ group.filter take := by
  induction group generalizing procIDs with
  | nil => rw [collectProcs, filter_nil, append_nil]
  | cons p group ih =>
    rw [collectProcs, ih]
    cases hp : take p
    · rw [filter_cons_of_neg (by simp [hp]), if_neg (by simp)]
    · rw [filter_cons_of_pos hp, if_pos rfl, append_assoc, singleton_append]

lemma createGroup_of_nodup (h : procIDs.Nodup) : createGroup procIDs = some (.pool procIDs) := by
  rw [createGroup, hasDuplicate_eq_false_iff.mpr h]
  rfl

lemma restrictGroup_eq (h : group1.Nodup) (take : ℕ → Bool) :
    restrictGroup take group1 = some (groupHandle (group1.filter take)) := by
  rw [restrictGroup, collectProcs_eq, nil_append, createGroup_of_nodup (h.filter take), groupHandle,
    apply_ite some]
  exact if_congr length_eq_zero_iff rfl rfl

/-- The results are the union, the intersection and the difference, each in the order of the first
group. -/
structure GroupOpsRight (group1 group2 : List ℕ) : Prop where
  union : ulmGroupUnion (groupHandle group1) (groupHandle group2) =
    some (groupHandle (group1 ++ group2.filter (· ∉ group1)))
  intersection : ulmGroupIntersection (groupHandle group1) (groupHandle group2) =
    some (groupHandle (group1.filter (· ∈ group2)))
  difference : ulmGroupDifference (groupHandle group1) (groupHandle group2) =
    some (groupHandle (group1.filter (· ∉ group2)))

lemma ulmGroupUnion_eq (h1 : group1.Nodup) (h2 : group2.Nodup) :
    ulmGroupUnion (groupHandle group1) (groupHandle group2) =
      some (groupHandle (group1 ++ group2.filter (· ∉ group1))) := by
  by_cases hnil1 : group1 = []
  · simp [hnil1, groupHandle, ulmGroupUnion]
  by_cases hnil2 : group2 = []
  · simp [hnil1, hnil2, groupHandle, ulmGroupUnion]
  have hsum : ¬group1.length + group2.length = 0 := fun h =>
    hnil1 (length_eq_zero_iff.mp (Nat.eq_zero_of_add_eq_zero_right h))
  have hnodup : (group1 ++ group2.filter (· ∉ group1)).Nodup :=
    nodup_append'.mpr ⟨h1, h2.filter _, fun p hp hp' => by simp [hp] at hp'⟩
  rw [groupHandle_of_ne_nil hnil1, groupHandle_of_ne_nil hnil2,
    groupHandle_of_ne_nil (append_ne_nil_of_left_ne_nil hnil1 _), ulmGroupUnion, if_neg hsum,
    collectProcs_eq, foundInGroup_eq]
  simpa using createGroup_of_nodup hnodup

lemma ulmGroupDifference_eq (h1 : group1.Nodup) :
    ulmGroupDifference (groupHandle group1) (groupHandle group2) =
      some (groupHandle (group1.filter (· ∉ group2))) := by
  by_cases hnil1 : group1 = []
  · simp [hnil1, groupHandle, ulmGroupDifference]
  by_cases hnil2 : group2 = []
  · simp [hnil1, hnil2, groupHandle, ulmGroupDifference]
  have hsum : ¬group1.length + group2.length = 0 := fun h =>
    hnil1 (length_eq_zero_iff.mp (Nat.eq_zero_of_add_eq_zero_right h))
  rw [groupHandle_of_ne_nil hnil1, groupHandle_of_ne_nil hnil2, ulmGroupDifference, if_neg hsum,
    foundInGroup_eq]
  simpa using restrictGroup_eq h1 _

/-- **The operations are right** exactly if neither group is empty: the intersection is not defined
for `MPI_GROUP_EMPTY`. -/
theorem groupOps_right_iff (h1 : group1.Nodup) (h2 : group2.Nodup) :
    GroupOpsRight group1 group2 ↔ group1 ≠ [] ∧ group2 ≠ [] := by
  constructor
  · intro h
    have hinter := h.intersection
    constructor
    · rintro rfl
      cases hinter
    · rintro rfl
      revert hinter
      cases groupHandle group1 <;> exact nofun
  · rintro ⟨hnil1, hnil2⟩
    refine ⟨ulmGroupUnion_eq h1 h2, ?_, ulmGroupDifference_eq h1⟩
    rw [groupHandle_of_ne_nil hnil1, groupHandle_of_ne_nil hnil2, ulmGroupIntersection, if_neg,
      foundInGroup_eq]
    · exact restrictGroup_eq h1 _
    · simp [hnil1, hnil2]

theorem groupOps_right_iff_overlap : GroupOpsRight [4, 0, 2] [1, 2, 4] :=
  (groupOps_right_iff (by decide) (by decide)).mpr (by decide)

/-- The intersection with `MPI_GROUP_EMPTY`. -/
theorem groupOps_empty : ¬GroupOpsRight [0] [] := fun h => absurd h.intersection (by decide)

end Lampi
