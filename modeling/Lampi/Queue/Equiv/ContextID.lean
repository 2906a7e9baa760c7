import Mathlib.Data.List.Induction
import Mathlib.Data.List.Nodup
import Mathlib.Tactic.Ring
import Lampi.Lib.BlockCyclic
import Lampi.Queue.ContextID

/-!
# Context IDs are unique

The numbers are dealt out in blocks, block-cyclically: number `j` of process `p` is
`ULM_COMM_SELF + 1` plus `BlockCyclic.index 10 nprocs p j` (`Deals`).  Hence no number is generated
twice, whoever calls `getNewContextID` in whatever order (`run_generated_unique`).
-/

namespace Lampi

open BlockCyclic ContextIDs List Option Function

variable {nprocs p count : ℕ} {ctl : ContextIDCtl}

/-- Number `j` of process `p`. -/
def contextID (nprocs p j : ℕ) : ℤ := ulmCommSelf + 1 + index 10 nprocs p j

/-- The counter of process `p` after it has handed out `count` numbers. -/
structure Deals (nprocs p count : ℕ) (ctl : ContextIDCtl) : Prop where
  nextID : ctl.nextID = contextID nprocs p count
  outOfBounds : ctl.outOfBounds = ulmCommSelf + 1 + start 10 nprocs p count + ctxIdBlockSize
  cycleSize : ctl.cycleSize = ctxIdBlockSize * nprocs

lemma init_deals (nprocs p : ℕ) : Deals nprocs p 0 (ContextIDCtl.init nprocs p) := by
  constructor <;> simp [ContextIDCtl.init, contextID, index, start, ctxIdBlockSize] <;> omega

/-- **One number**: the next one of the process is handed out. -/
theorem Deals.generate (h : Deals nprocs p count ctl) :
    ctl.generate.1 = contextID nprocs p count ∧ Deals nprocs p (count + 1) ctl.generate.2 := by
  obtain ⟨hnext, hout, hcycle⟩ := h
  have hindex : index 10 nprocs p count = start 10 nprocs p count + count % 10 := rfl
  unfold contextID at hnext
  unfold ContextIDCtl.generate
  rcases Nat.lt_or_eq_of_le (Nat.succ_le_of_lt (Nat.mod_lt count (by decide : 0 < 10)))
    with hlt | heq
  · obtain ⟨hindex', hstart'⟩ := index_succ_of_lt nprocs p hlt
    have hinside : ctl.nextID + 1 ≠ ctl.outOfBounds := by
      rw [hnext, hout, hindex]
      unfold ctxIdBlockSize
      omega
    rw [if_neg hinside]
    refine ⟨hnext, ?_, ?_, hcycle⟩
    · unfold contextID
      rw [hindex', hnext]
      push_cast
      ring
    · rw [hstart', hout]
  · obtain ⟨hindex', hstart'⟩ := index_succ_of_eq nprocs p heq
    have hboundary : ctl.nextID + 1 = ctl.outOfBounds := by
      rw [hnext, hout, hindex]
      unfold ctxIdBlockSize
      omega
    rw [if_pos hboundary]
    refine ⟨hnext, ?_, ?_, hcycle⟩
    · unfold contextID
      rw [hindex', hstart', hboundary, hout, hcycle]
      unfold ctxIdBlockSize
      push_cast
      ring
    · rw [hstart', hout, hcycle]
      unfold ctxIdBlockSize
      push_cast
      ring

/-! ### Runs -/

/-- Every process has handed out the first of its numbers, in any order. -/
structure Dealt (s : ContextIDs nprocs) (counts : Fin nprocs → ℕ) : Prop where
  deals : ∀ p : Fin nprocs, Deals nprocs p (counts p) (s.ctl p)
  generated : ∀ e ∈ s.generated, ∃ j < counts e.1, e.2 = contextID nprocs e.1 j
  nodup : (s.generated.map Prod.snd).Nodup

lemma init_dealt (nprocs : ℕ) : Dealt (init nprocs) fun _ => 0 := by
  refine ⟨fun p => init_deals nprocs p, ?_, ?_⟩ <;> simp [init]

lemma contextID_inj {p q : Fin nprocs} {j k : ℕ}
    (h : contextID nprocs p j = contextID nprocs q k) : p = q ∧ j = k := by
  unfold contextID at h
  have hindex : index 10 nprocs p j = index 10 nprocs q k := by omega
  obtain ⟨hp, hj⟩ := index_inj (by decide) p.isLt q.isLt hindex
  exact ⟨Fin.ext hp, hj⟩

/-- **One call** of `getNewContextID`. -/
theorem Dealt.step {s : ContextIDs nprocs} {counts : Fin nprocs → ℕ} (h : Dealt s counts)
    (call : Fin nprocs × CommGroups) : ∃ counts', Dealt (s.step call) counts' := by
  obtain ⟨p, comm⟩ := call
  unfold ContextIDs.step CommGroups.getNewContextID
  dsimp only
  split_ifs
  · obtain ⟨hid, hdeals⟩ := (h.deals p).generate
    refine ⟨update counts p (counts p + 1), ?_, ?_, ?_⟩
    · intro q
      by_cases hq : q = p
      · subst hq
        simpa using hdeals
      · simpa [hq] using h.deals q
    · intro e he
      rw [hid, map_some, toList_some, mem_append, mem_singleton] at he
      rcases he with he | rfl
      · obtain ⟨j, hj, heq⟩ := h.generated e he
        refine ⟨j, ?_, heq⟩
        by_cases hq : e.1 = p
        · rw [hq, update_self]
          rw [hq] at hj
          omega
        · rwa [update_of_ne hq]
      · exact ⟨counts p, by simp, rfl⟩
    · rw [hid, map_some, toList_some, map_append]
      refine Nodup.append h.nodup (nodup_singleton _) ?_
      -- the new number is none of those the process, or another one, has handed out
      intro id hin hnew
      obtain ⟨e, he, rfl⟩ := mem_map.mp hin
      obtain ⟨j, hj, heq⟩ := h.generated e he
      rw [map_singleton, mem_singleton, heq] at hnew
      obtain ⟨hp, rfl⟩ := contextID_inj hnew
      rw [hp] at hj
      exact Nat.lt_irrefl _ hj
  · refine ⟨counts, ?_, ?_, ?_⟩
    · rw [update_eq_self]
      exact h.deals
    · simpa using h.generated
    · simpa using h.nodup

lemma run_dealt (calls : List (Fin nprocs × CommGroups)) :
    ∃ counts, Dealt ((init nprocs).run calls) counts := by
  induction calls using reverseRecOn with
  | nil => exact ⟨_, init_dealt nprocs⟩
  | append_singleton calls call ih =>
    obtain ⟨counts, h⟩ := ih
    rw [run, foldl_append]
    exact h.step call

lemma generate_fst (ctl : ContextIDCtl) : ctl.generate.1 = ctl.nextID := by
  unfold ContextIDCtl.generate
  dsimp only
  split_ifs <;> rfl

/-- **Context IDs are unique.**  Whatever processes call `getNewContextID` on whatever
communicators, no number is generated twice, all are above `ULM_COMM_SELF`, each process's next
number is in the block it owns in its current cycle, and the process that gets the new number hands
that one out. -/
theorem run_generated_unique (nprocs : ℕ) (calls : List (Fin nprocs × CommGroups)) :
    (((init nprocs).run calls).generated.map Prod.snd).Nodup ∧
      (∀ e ∈ ((init nprocs).run calls).generated, ulmCommSelf < e.2) ∧
      (∀ p comm, ((init nprocs).run (calls ++ [(p, comm)])).generated =
        ((init nprocs).run calls).generated ++
          if comm.generateNewContextID then [(p, (((init nprocs).run calls).ctl p).nextID)]
          else []) ∧
      ∀ p : Fin nprocs, ∃ cycle : ℕ, ∃ first : ℤ,
        first = ulmCommSelf + 1 + cycle * (ctxIdBlockSize * nprocs) + (p : ℕ) * ctxIdBlockSize ∧
        first ≤ (((init nprocs).run calls).ctl p).nextID ∧
        (((init nprocs).run calls).ctl p).nextID <
          (((init nprocs).run calls).ctl p).outOfBounds ∧
        (((init nprocs).run calls).ctl p).outOfBounds = first + ctxIdBlockSize := by
  obtain ⟨counts, hdeals, hgenerated, hnodup⟩ := run_dealt calls
  refine ⟨hnodup, fun e he => ?_, fun p comm => ?_, fun p => ⟨counts p / 10, _, rfl, ?_⟩⟩
  · obtain ⟨j, -, heq⟩ := hgenerated e he
    rw [heq, contextID]
    omega
  · have hlast : (init nprocs).run (calls ++ [(p, comm)]) =
        ((init nprocs).run calls).step (p, comm) := foldl_append ..
    rw [hlast]
    unfold ContextIDs.step CommGroups.getNewContextID
    dsimp only
    split_ifs
    · rw [generate_fst]
      rfl
    · rfl
  · obtain ⟨hnext, hout, -⟩ := hdeals p
    have hle : start 10 nprocs p (counts p) ≤ index 10 nprocs p (counts p) := start_le
    have hlt : index 10 nprocs p (counts p) < start 10 nprocs p (counts p) + 10 :=
      index_lt (by decide)
    have hfirst : ulmCommSelf + 1 + (counts p / 10 : ℕ) * (ctxIdBlockSize * nprocs) +
        (p : ℕ) * ctxIdBlockSize = ulmCommSelf + 1 + start 10 nprocs p (counts p) := by
      unfold start ctxIdBlockSize
      push_cast
      ring
    rw [hfirst, hnext, hout, contextID]
    unfold ctxIdBlockSize
    refine ⟨?_, ?_, rfl⟩ <;> omega

end Lampi
