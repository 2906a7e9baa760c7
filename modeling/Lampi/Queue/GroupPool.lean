import Mathlib.Data.List.Basic

/-!
# The pool of groups
-/

namespace Lampi

open Function

structure GroupPool (G : Type) where
  groups : ℕ → Option G
  poolSize : ℕ
  firstFreeElement : ℕ

namespace GroupPool

variable {G : Type} (pool : GroupPool G)

def init : GroupPool G := ⟨fun _ => none, 10, 0⟩

/-- The loop for the next available slot. -/
def nextAvail (groups : ℕ → Option G) : ℕ → ℕ → ℕ
  | 0, i => i
  | rounds + 1, i =>
    match groups i with
    | none => i
    | some _ => nextAvail groups rounds (i + 1)

/-- `getGroupElement`, which allocates `g`. -/
def getGroupElement (g : G) : ℕ × GroupPool G :=
  let slotAvail := pool.firstFreeElement
  let poolSize := pool.poolSize + if slotAvail ≥ pool.poolSize then 10 else 0
  let groups := update (fun i => if i < pool.poolSize then pool.groups i else none) slotAvail g
  (slotAvail, ⟨groups, poolSize, nextAvail groups (poolSize - slotAvail) slotAvail⟩)

/-- `ulm_group_free`; `last`: no reference is left. -/
def groupFree (group : ℕ) (last : Bool) : GroupPool G :=
  if group < pool.poolSize ∧ (pool.groups group).isSome ∧ last then
    ⟨update pool.groups group none, pool.poolSize,
      if group < pool.firstFreeElement then group else pool.firstFreeElement⟩
  else pool

inductive Event (G : Type)
  | create (g : G)
  | free (group : ℕ) (last : Bool)

def step : Event G → GroupPool G
  | .create g => (pool.getGroupElement g).2
  | .free group last => pool.groupFree group last

/-- `firstFreeElement` is the first empty slot, or the size of the pool. -/
structure Inv : Prop where
  le : pool.firstFreeElement ≤ pool.poolSize
  full : ∀ i < pool.firstFreeElement, pool.groups i ≠ none
  empty : pool.firstFreeElement < pool.poolSize → pool.groups pool.firstFreeElement = none

variable {pool}

lemma inv_nextAvail {groups : ℕ → Option G} {rounds i size : ℕ} (hsize : i + rounds = size)
    (hfull : ∀ j < i, groups j ≠ none) : Inv ⟨groups, size, nextAvail groups rounds i⟩ := by
  fun_induction nextAvail groups rounds i with
  | case1 i => exact ⟨Nat.le_of_eq hsize, hfull, fun h => absurd hsize (Nat.ne_of_lt h)⟩
  | case2 _ i hnone => exact ⟨hsize ▸ i.le_add_right _, hfull, fun _ => hnone⟩
  | case3 rounds i g hsome ih =>
    refine ih (by omega) fun j hj => ?_
    rcases Nat.lt_succ_iff_lt_or_eq.mp hj with hj | rfl
    · exact hfull j hj
    · simp [hsome]

lemma Inv.getGroupElement (h : pool.Inv) (g : G) : (pool.getGroupElement g).2.Inv := by
  have hle := h.le
  refine inv_nextAvail (Nat.add_sub_of_le ?_) fun j hj => ?_
  · split_ifs <;> omega
  · rw [update_of_ne (Nat.ne_of_lt hj), if_pos (Nat.lt_of_lt_of_le hj hle)]
    exact h.full j hj

lemma Inv.groupFree (h : pool.Inv) (group : ℕ) (last : Bool) : (pool.groupFree group last).Inv := by
  obtain ⟨hle, hfull, hempty⟩ := h
  unfold GroupPool.groupFree
  split_ifs with hfree hlt
  · refine ⟨Nat.le_of_lt hfree.1, fun i hi => ?_, fun _ => update_self ..⟩
    exact (update_of_ne (Nat.ne_of_lt hi) ..).trans_ne (hfull i (Nat.lt_trans hi hlt))
  · refine ⟨hle, fun i hi => ?_, fun hroom => ?_⟩
    · have hne : i ≠ group := fun heq => hlt (heq ▸ hi)
      exact (update_of_ne hne ..).trans_ne (hfull i hi)
    · exact update_apply .. |>.trans (by split_ifs; exacts [rfl, hempty hroom])
  · exact ⟨hle, hfull, hempty⟩

/-- A new group gets the first empty slot.  The others stay as they are. -/
theorem run_firstFree (events : List (Event G)) :
    let pool := events.foldl step init
    pool.Inv ∧ (∀ g, (pool.getGroupElement g).1 = pool.firstFreeElement ∧
        pool.firstFreeElement < (pool.getGroupElement g).2.poolSize ∧
        (pool.getGroupElement g).2.groups pool.firstFreeElement = some g ∧ ∀ i < pool.poolSize,
        i ≠ pool.firstFreeElement → (pool.getGroupElement g).2.groups i = pool.groups i) ∧
      ∀ group last, ∀ i ≠ group, (pool.groupFree group last).groups i = pool.groups i := by
  intro pool
  have hinv : pool.Inv := by
    refine List.foldlRecOn events step ?_ fun pool h event _ => ?_
    · exact ⟨Nat.zero_le _, fun i hi => absurd hi i.not_lt_zero, fun _ => rfl⟩
    · cases event with
      | create g => exact h.getGroupElement g
      | free group last => exact h.groupFree group last
  refine ⟨hinv, fun g => ⟨rfl, ?_, ?_, fun i hi hne => ?_⟩, fun group last i hi => ?_⟩
  · have hle := hinv.le
    show pool.firstFreeElement < pool.poolSize + if _ then 10 else 0
    split_ifs <;> omega
  · simp only [getGroupElement, update_self]
  · simp only [getGroupElement, update_of_ne hne, if_pos hi]
  · unfold groupFree
    split_ifs
    exacts [update_of_ne hi .., update_of_ne hi .., rfl]

end GroupPool

end Lampi
