import Lampi.Lib.Parts
import Lampi.Queue.Reference

/-!
# Counting the bytes of a message

* `RecvDesc.bytesCounted_le`: copying a fragment counts at most the bytes it has, unless the buffer
  of a non-contiguous receive ends inside the fragment.
* `Messages.mem_key_of_sum_le`: when the lengths of some fragments of a message add up to its
  length, there are no others.
-/

namespace Lampi

open BaseRecvFragDesc RunList

/-! ### Copying -/

section Copying

variable {σ : Type} {copy : σ → CopyCall → ℕ × σ} (hcopy : ∀ s call, (copy s call).1 ≤ call.length)
  {fragLen lenCopied : ℕ} (h : lenCopied ≤ fragLen)

include hcopy h

lemma copyEntries_le (start : ℤ) (last : Bool) (elts : List Run) (s : σ) :
    (copyEntries copy fragLen start last elts lenCopied s).1.1 ≤ fragLen := by
  induction elts generalizing lenCopied s with
  | nil => exact h
  | cons elt elts ih =>
    simp only [copyEntries]
    split_ifs
    · exact h
    · exact ih (le_trans (Nat.add_le_add_left (hcopy _ _) _) (by dsimp only; omega)) _
    · exact h
    · exact ih (le_trans (Nat.add_le_add_left (hcopy _ _) _) (by dsimp only; omega)) _

lemma copyElements_le (t : CommittedType) (rounds : ℕ) (start : ℤ) (elts : List Run) (s : σ) :
    (copyElements copy fragLen t rounds start elts lenCopied s).1 ≤ fragLen := by
  induction rounds generalizing start elts lenCopied s with
  | zero => exact h
  | succ rounds ih =>
    have hentries := copyEntries_le hcopy h start (rounds == 0) elts s
    simp only [copyElements]
    split_ifs
    · exact hentries
    · exact ih hentries _ _ _

omit h in
lemma nonContiguousCopy_le (t : CommittedType) (frag : CopyFrag) (s : σ) :
    (nonContiguousCopy copy t frag s).1 ≤ frag.length := by
  simp only [nonContiguousCopy]
  split_ifs
  · refine copyElements_le hcopy ?_ t _ _ _ _
    exact (hcopy _ _).trans (Nat.zero_le _)
  · exact (hcopy _ _).trans (Nat.zero_le _)
  · refine copyElements_le hcopy ?_ t _ _ _ _
    exact (hcopy _ _).trans (Nat.min_le_right _ _)
  · exact (hcopy _ _).trans (Nat.min_le_right _ _)

end Copying

/-- The buffer of a non-contiguous receive ends inside the fragment. -/
def CutsInside (postedLength : ℕ) (datatype : Option CommittedType) (frag : CopyFrag) : Prop :=
  isContiguous datatype = false ∧ frag.seqOffset < postedLength ∧
    postedLength < frag.seqOffset + frag.length

/-- Only then more bytes can be counted than the fragment has. -/
lemma copyToAppLock_le {δ : Type} {ops : FragOps δ} {datatype : Option CommittedType}
    {postedLength : ℕ} {frag : CopyFrag} {s s' : δ × Buffer} {bytes : ℕ × ℕ}
    (hcopy : ∀ s call, (ops.nonContigCopyFunction s call).1 ≤ call.length)
    (h : ¬CutsInside postedLength datatype frag)
    (hs : copyToAppLock ops datatype postedLength frag s = some (some bytes, s')) :
    bytes.1 + bytes.2 ≤ frag.length := by
  have hlen : (if (postedLength - frag.seqOffset : ℤ) < frag.length then
      (postedLength - frag.seqOffset : ℤ).toNat else frag.length) =
      min (postedLength - frag.seqOffset) frag.length := by
    split_ifs <;> omega
  simp only [copyToAppLock, hlen] at hs
  by_cases hpast : (postedLength - frag.seqOffset : ℤ) ≤ 0
  · rw [if_pos hpast] at hs
    cases hs
    exact (Nat.zero_add _).le
  · rw [if_neg hpast] at hs
    obtain ⟨copied, hcopied, hchecked⟩ := Option.bind_eq_some_iff.mp hs
    obtain ⟨intact, -, hbytes⟩ := Option.map_eq_some_iff.mp hchecked
    obtain ⟨-, hsome⟩ := Option.ite_none_right_eq_some.mp (Prod.mk.inj hbytes).1
    obtain rfl := Option.some.inj hsome
    have hcontiguous : ∀ {result : Option (δ × Buffer)}, result.map
        (min (postedLength - frag.seqOffset) frag.length, ·) = some copied →
        copied.1 = min (postedLength - frag.seqOffset) frag.length := by
      intro result hmap
      obtain ⟨_, -, rfl⟩ := Option.map_eq_some_iff.mp hmap
      rfl
    dsimp only
    split at hcopied
    case h_1 =>
      rw [hcontiguous hcopied]
      omega
    case h_2 t =>
      split_ifs at hcopied with hlayout
      · rw [hcontiguous hcopied]
        omega
      · cases hcopied
        have hall := nonContiguousCopy_le hcopy t frag s
        have hcuts : ¬postedLength < frag.seqOffset + frag.length := fun hlt =>
          h ⟨Bool.eq_false_of_not_eq_true hlayout, by omega, hlt⟩
        omega

lemma RecvDesc.bytesCounted_le {r : RecvDesc} {frag : BaseRecvFragDesc}
    (h : ¬CutsInside r.postedLength r.datatype frag.copyFrag) :
    r.bytesCounted frag ≤ frag.length := by
  unfold bytesCounted
  split
  case h_2 => exact Nat.zero_le _
  case h_1 bytes hcopy =>
    obtain ⟨⟨_, s'⟩, hresult, rfl⟩ := Option.bind_eq_some_iff.mp hcopy
    exact copyToAppLock_le (fun _ _ => le_rfl) h hresult

lemma RecvDesc.tagMatches_eq (postedTag tag : ℤ) : RecvDesc.tagMatches postedTag tag =
    if postedTag = anyTag then decide (0 ≤ tag) else tag == postedTag := by
  unfold RecvDesc.tagMatches
  split_ifs with h
  · rw [beq_iff_eq.mpr h, Bool.or_true, Bool.true_and, Bool.true_and, ← decide_not]
    exact decide_eq_decide.mpr Int.not_lt
  · rw [beq_eq_false_iff_ne.mpr h, Bool.or_false, Bool.false_and, Bool.not_false, Bool.and_true]

/-! ### The fragments of a message -/

variable {messages : Messages} {src n : ℕ} {frags : List BaseRecvFragDesc} {g : BaseRecvFragDesc}

/-- A fragment of message `n` of process `src`. -/
structure Messages.FragOf (messages : Messages) (src n : ℕ) (frag : BaseRecvFragDesc) : Prop where
  isFrag : messages.IsFrag frag
  src_eq : frag.srcProcID = src
  seq_eq : frag.isendSeq = n

lemma Messages.FragOf.exists_index (h : messages.FragOf src n g) :
    ∃ k < (messages src n).lengths.length,
      g.seqOffset = ((messages src n).lengths.take k).sum ∧
        g.length = (messages src n).lengths.getD k 0 := by
  obtain ⟨⟨k, hk, heq⟩, rfl, rfl⟩ := h
  exact ⟨k, hk, congrArg seqOffset heq, congrArg length heq⟩

lemma Messages.IsFrag.tag_eq (h : messages.IsFrag g) :
    g.tag = (messages g.srcProcID g.isendSeq).tag := by
  obtain ⟨k, -, heq⟩ := h
  exact congrArg tag heq

lemma Messages.IsFrag.msgLength_eq (h : messages.IsFrag g) :
    g.msgLength = (messages g.srcProcID g.isendSeq).lengths.sum := by
  obtain ⟨k, -, heq⟩ := h
  exact congrArg msgLength heq

variable (h : ∀ f ∈ frags, messages.FragOf src n f)

include h

private lemma exists_indices :
    ∃ ks : List ℕ, (∀ k ∈ ks, k < (messages src n).lengths.length) ∧
      frags.map seqOffset =
        ks.map (fun k => ((messages src n).lengths.take k).sum) ∧
      frags.map length = ks.map (fun k => (messages src n).lengths.getD k 0) := by
  induction frags with
  | nil => exact ⟨[], by simp⟩
  | cons f frags ih =>
    obtain ⟨hf, hfrags⟩ := List.forall_mem_cons.mp h
    obtain ⟨ks, hks, hoffsets, hlengths⟩ := ih hfrags
    obtain ⟨k, hk, hoffset, hlength⟩ := hf.exists_index
    refine ⟨k :: ks, List.forall_mem_cons.mpr ⟨hk, hks⟩, ?_, ?_⟩
    · rw [List.map_cons, List.map_cons, hoffset, hoffsets]
    · rw [List.map_cons, List.map_cons, hlength, hlengths]

lemma Messages.sum_length_le (hnodup : (frags.map key).Nodup) :
    (frags.map length).sum ≤ (messages src n).lengths.sum := by
  obtain ⟨ks, hks, hoffsets, hlengths⟩ := exists_indices h
  have hkeys : frags.map key = (frags.map seqOffset).map fun offset => (src, n, offset) := by
    rw [List.map_map]
    refine List.map_congr_left fun f hf => ?_
    rw [key, (h f hf).src_eq, (h f hf).seq_eq]
    rfl
  rw [hkeys] at hnodup
  have hks_nodup : ks.Nodup := List.Nodup.of_map _ (hoffsets ▸ List.Nodup.of_map _ hnodup)
  rw [hlengths]
  exact Parts.sum_getD_le hks hks_nodup

/-- When some fragments of a message have its length together, every fragment is among them. -/
lemma Messages.mem_key_of_sum_le (hnodup : (frags.map key).Nodup) (hne : frags ≠ [])
    (hsum : (messages src n).lengths.sum ≤ (frags.map length).sum) (hg : messages.FragOf src n g) :
    g.key ∈ frags.map key := by
  by_contra hnot
  have hall := Messages.sum_length_le (List.forall_mem_cons.mpr ⟨hg, h⟩)
    (List.nodup_cons.mpr ⟨hnot, hnodup⟩)
  rw [List.map_cons, List.sum_cons] at hall
  obtain ⟨k, hk, hoffset, hlength⟩ := hg.exists_index
  obtain hone | ⟨-, hpos⟩ := (messages src n).valid
  · -- the only fragment of an empty message
    obtain ⟨f, hf⟩ := List.exists_mem_of_ne_nil frags hne
    obtain ⟨j, hj, hoffset', -⟩ := (h f hf).exists_index
    rw [hone, List.length_singleton, Nat.lt_one_iff] at hj hk
    refine hnot (List.mem_map.mpr ⟨f, hf, ?_⟩)
    rw [key, key, (h f hf).src_eq, (h f hf).seq_eq, hg.src_eq, hg.seq_eq, hoffset, hoffset', hj, hk]
  · rw [List.getD_eq_getElem _ _ hk] at hlength
    have := hpos _ (List.getElem_mem hk)
    omega

end Lampi
