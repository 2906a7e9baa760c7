import Lampi.Queue.Equiv.SeqTrackingHandles

/-!
# The sequence tracking list with fixed storage

Over the pointer side (`SeqTrackingListLinks`) the functions of `SeqTrackingList` are the functions
of `RangeList` on the ranges the list holds.

* The two searches find the element in front of a range and the one behind it, whatever the hint.
  `Located` puts both results together: the range either belongs at one element, or it spans the
  elements between two of them.
* `Holds.record` and `Holds.recordIfNotRecorded` insert the range, `Holds.erase` cuts it out.  They
  fail only when all the storage is in use, and then change nothing.
* `create_holds`: the constructor builds an empty list.

The invariant of a run follows by induction over its calls.
-/

namespace Lampi.SeqTrackingList

open LinkedRing RangeList List

variable {s s' : SeqTrackingList} {L L1 L2 : List (ℕ × Range)} {e : ℕ × Range} {f : List ℕ}
  {lo hi : ℕ} {c : Storage} {M L' : List (ℕ × Range)} {e' : ℕ × Range} {x p : ℕ} {f' : List ℕ}
  {r : Range} {result : Bool × SeqTrackingList} {call : Call} {mallocOk : Bool}

/-! ### Searching -/

private lemma findLower_eq_walk (s : SeqTrackingList) (seqnum startp rounds tmp : ℕ) :
    s.findLower seqnum startp rounds tmp =
      walk (fun p => s.lower p ≤ seqnum) s.next s.prev (fun p => p = s.headp)
        (fun p => s.next p = s.headp) startp rounds tmp := by
  induction rounds generalizing tmp with
  | zero => rfl
  | succ rounds ih =>
    rw [findLower, walk, ih, ih]
    simp only [ge_iff_le, not_le]

private lemma findUpper_eq_walk (s : SeqTrackingList) (seqnum startp rounds tmp : ℕ) :
    s.findUpper seqnum startp rounds tmp =
      walk (fun p => seqnum ≤ s.upper p) s.prev s.next (fun p => s.next p = s.headp)
        (fun p => p = s.headp) startp rounds tmp := by
  induction rounds generalizing tmp with
  | zero => rfl
  | succ rounds ih =>
    rw [findUpper, walk, ih, ih]
    simp only [gt_iff_lt, not_le]

lemma findNearestLower_nil (h : Holds c s [] f) (seqnum : ℕ) :
    s.findNearestLowerSeqRangeListElement seqnum = (0, s) := by
  have hsize : s.listSize = 0 := h.listSize_eq
  unfold findNearestLowerSeqRangeListElement
  rw [if_pos hsize]

lemma findNearestUpper_nil (h : Holds c s [] f) (lower seqnum : ℕ) :
    s.findNearestUpperSeqRangeListElement lower seqnum = 0 := by
  have hsize : s.listSize = 0 := h.listSize_eq
  unfold findNearestUpperSeqRangeListElement
  rw [if_pos hsize]

lemma lower_le_upper (hE : IsRangeList (L.map Prod.snd)) (he : e ∈ L) :
    e.2.lower ≤ e.2.upper := hE.nonempty e.2 (mem_map_of_mem he)

section

variable (h : Holds c s L f)

include h

private lemma Holds.increasing (hE : IsRangeList (L.map Prod.snd)) :
    (L.map Prod.fst).Pairwise fun p q => s.lower p ≤ s.lower q ∧ s.upper p ≤ s.upper q := by
  have hbefore := hE.before
  rw [pairwise_map] at hbefore ⊢
  refine hbefore.imp_of_mem fun {x y} hx hy hxy => ?_
  have hx' := lower_le_upper hE hx
  have hy' := lower_le_upper hE hy
  rw [h.lower_eq hx, h.lower_eq hy, h.upper_eq hx, h.upper_eq hy]
  unfold RangeList.Before at hxy
  omega

private lemma Holds.size_ne_zero (hL : L ≠ []) : s.listSize ≠ 0 := by
  rw [h.listSize_eq]
  exact Int.natCast_ne_zero.mpr fun hlen => hL (length_eq_zero_iff.mp hlen)

private lemma Holds.length_le_rounds : (L.map Prod.fst).length ≤ s.listSize.toNat := by
  rw [h.listSize_eq, length_map]
  exact le_rfl

lemma Holds.findNearestLower (hL : L ≠ []) (hE : IsRangeList (L.map Prod.snd)) (seqnum : ℕ) :
    ∃ L1 e L2, L = L1 ++ e :: L2 ∧
      s.findNearestLowerSeqRangeListElement seqnum = (e.1, { s with hintp := e.1 }) ∧
      (L1 ≠ [] → e.2.lower ≤ seqnum) ∧ ∀ x ∈ L2, seqnum < x.2.lower := by
  -- the search starts at the hint, or at the head of the list
  obtain ⟨startp, hstart, hmem⟩ :
      ∃ startp, startp = (if s.hintp = 0 then s.headp else s.hintp) ∧ startp ∈ L.map Prod.fst := by
    refine ⟨_, rfl, ?_⟩
    split_ifs with hzero
    · obtain ⟨e, L', rfl⟩ := exists_cons_of_ne_nil hL
      rw [h.headp_eq]
      exact mem_cons_self
    · exact h.hint.resolve_left hzero
  obtain ⟨m1, y, m2, hm, hwalk, hy, hafter⟩ :=
    walk_spec (P := fun p => s.lower p ≤ seqnum) h.list.isChain h.nodup_list
      (fun l1 x l2 hl => (hl ▸ h.toRings).eq_headp_iff)
      (fun l1 x l2 hl => (hl ▸ h.toRings).next_eq_headp_iff)
      ((h.increasing hE).imp fun hpq => hpq.1.trans) hmem h.length_le_rounds
  obtain ⟨L1, L', rfl, rfl, hL'⟩ := map_eq_append_iff.mp hm
  obtain ⟨e, L2, rfl, rfl, rfl⟩ := map_eq_cons_iff.mp hL'
  refine ⟨L1, e, L2, rfl, ?_, ?_, ?_⟩
  · unfold findNearestLowerSeqRangeListElement
    rw [if_neg (h.size_ne_zero hL)]
    simp only [← hstart, findLower_eq_walk, hwalk]
  · intro hne
    rw [← h.lower_at]
    exact hy (fun hnil => hne (map_eq_nil_iff.mp hnil))
  · intro x hx
    rw [← h.lower_eq (show x ∈ L1 ++ e :: L2 by simp [hx])]
    exact not_le.mp (hafter x.1 (mem_map_of_mem hx))

lemma Holds.findNearestUpper (he : e ∈ L) (hE : IsRangeList (L.map Prod.snd)) (seqnum : ℕ) :
    ∃ L1 e' L2, L = L1 ++ e' :: L2 ∧
      s.findNearestUpperSeqRangeListElement e.1 seqnum = e'.1 ∧
      (∀ x ∈ L1, x.2.upper < seqnum) ∧ (L2 ≠ [] → seqnum ≤ e'.2.upper) := by
  have hmem : e.1 ∈ L.map Prod.fst := mem_map_of_mem he
  have he0 : e.1 ≠ 0 := h.ne_zero _ (mem_append_left f hmem)
  -- the same search on the reversed list
  have hrev : ∀ {l1 x l2}, (L.map Prod.fst).reverse = l1 ++ x :: l2 →
      Rings s (l2.reverse ++ x :: l1.reverse) f := by
    intro l1 x l2 hl
    have heq : L.map Prod.fst = l2.reverse ++ x :: l1.reverse := by
      rw [← reverse_reverse (L.map Prod.fst), hl]
      simp
    exact heq ▸ h.toRings
  obtain ⟨m1, y, m2, hm, hwalk, hy, hafter⟩ :=
    walk_spec (P := fun p => seqnum ≤ s.upper p) h.list.reverse.isChain
      (nodup_reverse.mpr h.nodup_list)
      (fun l1 x l2 hl => (hrev hl).next_eq_headp_iff.trans reverse_eq_nil_iff)
      (fun l1 x l2 hl => (hrev hl).eq_headp_iff.trans reverse_eq_nil_iff)
      (pairwise_reverse.mpr ((h.increasing hE).imp fun hpq hp => hp.trans hpq.2))
      (mem_reverse.mpr hmem) (length_reverse.trans_le h.length_le_rounds)
  rw [← map_reverse] at hm
  obtain ⟨L2, L', hL, rfl, hL'⟩ := map_eq_append_iff.mp hm
  obtain ⟨e', L1, rfl, rfl, rfl⟩ := map_eq_cons_iff.mp hL'
  have hsplit : L = L1.reverse ++ e' :: L2.reverse := by
    rw [← reverse_reverse L, hL]
    simp
  refine ⟨L1.reverse, e', L2.reverse, hsplit, ?_, ?_, ?_⟩
  · unfold findNearestUpperSeqRangeListElement
    rw [if_neg (h.size_ne_zero (ne_nil_of_mem he))]
    simp only [if_neg he0, findUpper_eq_walk, hwalk]
  · intro x hx
    rw [← h.upper_eq (show x ∈ L by rw [hsplit]; exact mem_append_left _ hx)]
    exact not_le.mp (hafter x.1 (mem_map_of_mem (mem_reverse.mp hx)))
  · intro hne
    rw [← h.upper_eq (show e' ∈ L by rw [hsplit]; simp)]
    exact hy (fun hnil => hne (by rw [map_eq_nil_iff.mp hnil]; rfl))

end

/-! ### The place of a range -/

/-- The results of the two searches for the range from `lo` to `hi`: it belongs at one element, or
it spans the elements between two of them. -/
inductive Located (lo hi : ℕ) : List (ℕ × Range) → ℕ → ℕ → Prop
  | single {L1 L2 : List (ℕ × Range)} {e : ℕ × Range} (hlower : L1 ≠ [] → e.2.lower ≤ lo)
    (hupper : L2 ≠ [] → hi ≤ e.2.upper) : Located lo hi (L1 ++ e :: L2) e.1 e.1
  | span {L1 M L2 : List (ℕ × Range)} {e e' : ℕ × Range} (hlower : L1 ≠ [] → e.2.lower ≤ lo)
    (hafter : ∀ x ∈ M ++ e' :: L2, lo < x.2.lower) (hbefore : ∀ x ∈ L1 ++ e :: M, x.2.upper < hi)
    (hupper : L2 ≠ [] → hi ≤ e'.2.upper) : Located lo hi (L1 ++ e :: (M ++ e' :: L2)) e.1 e'.1

private lemma before_of_append {x y : ℕ × Range} (hE : IsRangeList ((L1 ++ L2).map Prod.snd))
    (hx : x ∈ L1) (hy : y ∈ L2) : x.2.upper + 1 < y.2.lower := by
  rw [map_append, isRangeList_append] at hE
  exact hE.2.2 x.2 (mem_map_of_mem hx) y.2 (mem_map_of_mem hy)

lemma Holds.located (h : Holds c s L f) (hL : L ≠ []) (hE : IsRangeList (L.map Prod.snd))
    (hle : lo ≤ hi) :
    ∃ s' p q, s.findNearestLowerSeqRangeListElement lo = (p, s') ∧ Holds c s' L f ∧
      s'.findNearestUpperSeqRangeListElement p hi = q ∧ p ≠ 0 ∧ Located lo hi L p q := by
  obtain ⟨L1, e, L2, hL1, hlow, hlower, hafter⟩ := h.findNearestLower hL hE lo
  have he : e ∈ L := by simp [hL1]
  have hs := h.setHint he
  obtain ⟨K1, e', K2, hK1, hup, hbefore, hupper⟩ := hs.findNearestUpper he hE hi
  refine ⟨_, e.1, e'.1, hlow, hs, hup, h.ne_zero _ (mem_append_left f (mem_map_of_mem he)), ?_⟩
  -- compare the two places
  rcases append_eq_append_iff.mp (hL1.symm.trans hK1) with ⟨M, hK, hM⟩ | ⟨M, hK, hM⟩
  · cases M with
    | nil =>
      obtain ⟨rfl, rfl⟩ := cons.inj hM
      rw [hL1]
      exact Located.single hlower hupper
    | cons x M =>
      obtain ⟨rfl, rfl⟩ := cons.inj hM
      rw [hL1]
      exact Located.span hlower hafter (hK ▸ hbefore) hupper
  · cases M with
    | nil =>
      obtain ⟨rfl, rfl⟩ := cons.inj hM
      rw [hL1]
      exact Located.single hlower hupper
    | cons x M =>
      -- the upper element cannot be in front of the lower one
      exfalso
      obtain ⟨rfl, rfl⟩ := cons.inj hM
      have hgap : e'.2.upper + 1 < e.2.lower :=
        before_of_append (hL1 ▸ hE) (by simp [hK]) mem_cons_self
      have h1 := hlower (by simp [hK])
      have h2 := hupper (by simp)
      omega

lemma Holds.span_ne (h : Holds c s (L1 ++ e :: (M ++ e' :: L2)) f) : e.1 ≠ e'.1 :=
  (h.ne_of_mem (show e' ∈ L1 ++ (M ++ e' :: L2) by simp)).symm

/-- What an answer says about the range from `lo` to `hi`: no number of it is recorded, some are,
or all are. -/
def Answers (lo hi : ℕ) (L : List (ℕ × Range)) : Recorded → Prop
  | .no => ∀ x ∈ L, x.2.upper < lo ∨ hi < x.2.lower
  | .partially => (∃ x ∈ L, x.2.lower ≤ hi ∧ lo ≤ x.2.upper) ∧
      ∀ x ∈ L, ¬(x.2.lower ≤ lo ∧ hi ≤ x.2.upper)
  | .complete => ∃ x ∈ L, x.2.lower ≤ lo ∧ hi ≤ x.2.upper

section OneElement

variable (hE : IsRangeList ((L1 ++ e :: L2).map Prod.snd))
  (hlower : L1 ≠ [] → e.2.lower ≤ lo) (hupper : L2 ≠ [] → hi ≤ e.2.upper)

include hE

include hlower in
/-- What is in front of the element found by the lower search ends before the range begins. -/
lemma before_of_lower : ∀ x ∈ L1, x.2.upper + 1 < lo := fun _ hx =>
  (before_of_append hE hx mem_cons_self).trans_le (hlower (ne_nil_of_mem hx))

include hupper in
/-- What is behind the element found by the upper search begins after the range has ended. -/
lemma after_of_upper : ∀ x ∈ L2,
      hi + 1 < x.2.lower ∧ e.2.upper + 1 < x.2.lower ∧ x.2.lower ≤ x.2.upper := by
  intro x hx
  have hle := hupper (ne_nil_of_mem hx)
  rw [append_cons] at hE
  have hlt := before_of_append hE (show e ∈ L1 ++ [e] by simp) hx
  exact ⟨by omega, hlt, lower_le_upper hE (mem_append_right _ hx)⟩

include hlower in
private lemma insert_front :
    insert lo hi ((L1 ++ e :: L2).map Prod.snd) =
      L1.map Prod.snd ++ insert lo hi (e.2 :: L2.map Prod.snd) := by
  rw [map_append, insert_append_of_before, map_cons]
  exact forall_mem_map.mpr (before_of_lower hE hlower)

include hlower hupper in
private lemma insert_single (hle : lo ≤ hi) (hlo : lo ≤ e.2.upper + 1) (hhi : e.2.lower ≤ hi + 1)
    (p : ℕ) :
    (L1 ++ (p, ⟨min lo e.2.lower, max hi e.2.upper⟩) :: L2).map Prod.snd =
      insert lo hi ((L1 ++ e :: L2).map Prod.snd) := by
  rw [insert_front hE hlower, map_append, map_cons, insert_cons_of_touch hlo hhi,
    insert_eq_cons (by omega)]
  refine forall_mem_map.mpr fun x hx => ?_
  have hafter := after_of_upper hE hupper x hx
  omega

include hlower in
/-- What is in front of the element found by the lower search stays... -/
private lemma erase_front (hle : lo ≤ hi) :
    RangeList.erase lo hi ((L1 ++ e :: L2).map Prod.snd) =
      L1.map Prod.snd ++ (cut lo hi e.2 ++ RangeList.erase lo hi (L2.map Prod.snd)) := by
  rw [map_append, map_cons, erase_append, erase_cons, erase_of_disjoint hle]
  refine forall_mem_map.mpr fun x hx => ?_
  have hbefore := before_of_lower hE hlower x hx
  exact ⟨lower_le_upper hE (by simp [hx]), .inl (by omega)⟩

include hupper in
/-- ... and so does what is behind the one found by the upper search. -/
private lemma erase_back (hle : lo ≤ hi) :
    RangeList.erase lo hi (L2.map Prod.snd) = L2.map Prod.snd := by
  refine erase_of_disjoint hle (forall_mem_map.mpr fun x hx => ?_)
  have hafter := after_of_upper hE hupper x hx
  exact ⟨hafter.2.2, .inr (by omega)⟩

include hlower hupper in
private lemma erase_single (hle : lo ≤ hi) :
    RangeList.erase lo hi ((L1 ++ e :: L2).map Prod.snd) =
      L1.map Prod.snd ++ (cut lo hi e.2 ++ L2.map Prod.snd) := by
  rw [erase_front hE hlower hle, erase_back hE hupper hle]

include hlower hupper in
private lemma answers_single (hle : lo ≤ hi) {a : Recorded} (ha : Answers lo hi [e] a) :
    Answers lo hi (L1 ++ e :: L2) a := by
  have hrest : ∀ x ∈ L1 ++ L2, x.2.upper < lo ∨ hi < x.2.lower := by
    intro x hx
    rcases mem_append.mp hx with hx | hx
    · have hbefore := before_of_lower hE hlower x hx
      exact .inl (by omega)
    · have hafter := after_of_upper hE hupper x hx
      exact .inr (by omega)
  have hmem : ∀ x ∈ L1 ++ e :: L2, x = e ∨ x ∈ L1 ++ L2 :=
    fun x hx => mem_cons.mp (perm_middle.mem_iff.mp hx)
  cases a with
  | no =>
    intro x hx
    rcases hmem x hx with rfl | hx
    · exact ha x (by simp)
    · exact hrest x hx
  | partially =>
    obtain ⟨⟨y, hy, hmeet⟩, hnot⟩ := ha
    rw [mem_singleton] at hy
    subst hy
    refine ⟨⟨y, mem_append_cons_self, hmeet⟩, ?_⟩
    intro x hx
    rcases hmem x hx with rfl | hx
    · exact hnot x (by simp)
    · have hx' := hrest x hx
      omega
  | complete =>
    obtain ⟨y, hy, hcover⟩ := ha
    rw [mem_singleton] at hy
    subst hy
    exact ⟨y, mem_append_cons_self, hcover⟩

end OneElement

/-! ### Adding a range -/

lemma succ64_eq (h : x < 2 ^ 64 - 1) : succ64 x = x + 1 := by
  unfold succ64
  omega

lemma pred64_eq (h : 1 ≤ x) (h' : x < 2 ^ 64) : pred64 x = x - 1 := by
  unfold pred64
  omega

/-- A call has added the range from `lo` to `hi`; or it has failed, for there is no element to be
had and the range neither meets nor touches one recorded. -/
def Inserts (c : Storage) (lo hi : ℕ) (L : List (ℕ × Range)) (f : List ℕ)
    (result : Bool × SeqTrackingList) : Prop :=
  ∃ L' f', Holds c result.2 L' f' ∧
    if result.1 then L'.map Prod.snd = RangeList.insert lo hi (L.map Prod.snd)
    else L' = L ∧ f = [] ∧ c.Fixed ∧ ∀ x ∈ L, x.2.upper + 1 < lo ∨ hi + 1 < x.2.lower

lemma Inserts.of_holds (h : Holds c s' L' f')
    (heq : L'.map Prod.snd = insert lo hi (L.map Prod.snd)) :
    Inserts c lo hi L f (true, s') := ⟨L', f', h, heq⟩

lemma Holds.addRange_inserts (h : Holds c s (L1 ++ L2) f) (hsane : c.Sane)
    (hE : IsRangeList ((L1 ++ L2).map Prod.snd)) {prevp : ℕ}
    (hprevp : prevp = (L1.map Prod.fst).getLastD 0) (hle : lo ≤ hi)
    (hbefore : ∀ x ∈ L1, x.2.upper + 1 < lo) (hafter : ∀ x ∈ L2, hi + 1 < x.2.lower) :
    Inserts c lo hi (L1 ++ L2) f (s.addRange prevp lo hi) := by
  rcases h.addRange_any hsane hprevp lo hi with
    ⟨hadd, hf, hfixed⟩ | ⟨s', r, K1, K2, f', hadd, hs', hK1, hK2⟩
  · rw [hadd]
    refine ⟨L1 ++ L2, f, h, rfl, hf, hfixed, ?_⟩
    intro x hx
    rcases mem_append.mp hx with hx | hx
    · exact .inl (hbefore x hx)
    · exact .inr (hafter x hx)
  · rw [hadd]
    refine Inserts.of_holds hs' ?_
    rw [map_append, map_cons, hK1, hK2, map_append, insert_append_of_before, insert_eq_cons hle]
    · refine forall_mem_map.mpr fun x hx => ⟨hafter x hx, ?_⟩
      exact lower_le_upper hE (mem_append_right L1 hx)
    · exact forall_mem_map.mpr hbefore

lemma Holds.raiseUpper (h : Holds c s (L1 ++ e :: L2) f) (v : ℕ) :
    Holds c (if v > s.upper e.1 then s.setUpper e.1 v else s)
      (L1 ++ (e.1, ⟨e.2.lower, max v e.2.upper⟩) :: L2) f := by
  rw [h.upper_at]
  split_ifs with hv
  · rw [max_eq_left (le_of_lt hv)]
    exact h.setUpper v
  · rw [max_eq_right (not_lt.mp hv)]
    exact h

lemma Holds.reduceLower (h : Holds c s (L1 ++ e :: L2) f) (v : ℕ) :
    Holds c (if v < s.lower e.1 then s.setLower e.1 v else s)
      (L1 ++ (e.1, ⟨min v e.2.lower, e.2.upper⟩) :: L2) f := by
  rw [h.lower_at]
  split_ifs with hv
  · rw [min_eq_left (le_of_lt hv)]
    exact h.setLower v
  · rw [min_eq_right (not_lt.mp hv)]
    exact h

/-- The ranges of a list are nonempty, in order and apart, and `upper + 1` does not wrap around. -/
structure WellFormed (L : List (ℕ × Range)) : Prop where
  isRangeList : IsRangeList (L.map Prod.snd)
  lower_pos : ∀ e ∈ L, 1 ≤ e.2.lower
  upper_lt : ∀ e ∈ L, e.2.upper < 2 ^ 64 - 1

section Swallowed

variable (hw : WellFormed (L1 ++ e :: (M ++ L2))) (hlower : L1 ≠ [] → e.2.lower ≤ lo)
  (hM : ∀ x ∈ M, lo < x.2.lower ∧ x.2.upper < hi)

include hw hM

private lemma insert_within {v : ℕ} (hv : v ≤ lo) :
    insert v hi ((M ++ L2).map Prod.snd) = insert v hi (L2.map Prod.snd) := by
  rw [map_append, insert_append_of_within]
  refine forall_mem_map.mpr fun x hx => ?_
  have hx' := hM x hx
  exact ⟨by omega, lower_le_upper hw.isRangeList (by simp [hx]), by omega⟩

include hlower

private lemma insert_span_lower (heu : e.2.upper < hi) (hlo : lo ≤ e.2.upper + 1) :
    insert lo hi ((L1 ++ e :: (M ++ L2)).map Prod.snd) =
      L1.map Prod.snd ++ insert (min lo e.2.lower) hi (L2.map Prod.snd) := by
  have hne := lower_le_upper hw.isRangeList mem_append_cons_self
  rw [insert_front hw.isRangeList hlower, insert_cons_of_touch hlo (by omega),
    max_eq_left (le_of_lt heu), insert_within hw hM (min_le_left _ _)]

private lemma insert_span_inner (hlo : e.2.upper + 1 < lo) :
    insert lo hi ((L1 ++ e :: (M ++ L2)).map Prod.snd) =
      L1.map Prod.snd ++ e.2 :: insert lo hi (L2.map Prod.snd) := by
  rw [insert_front hw.isRangeList hlower, insert_cons_of_before hlo, insert_within hw hM le_rfl]

end Swallowed

section UpperEnd

variable (hE : IsRangeList ((L1 ++ e' :: L2).map Prod.snd)) (hupper : L2 ≠ [] → hi ≤ e'.2.upper)

include hE hupper

/-- The end of the insertion: the range is melted with the element at its upper end... -/
private lemma insert_upper_touch (hlo : lo < e'.2.lower) (htouch : e'.2.lower ≤ hi + 1) :
    insert lo hi ((e' :: L2).map Prod.snd) = ⟨lo, max hi e'.2.upper⟩ :: L2.map Prod.snd := by
  have hne := lower_le_upper hE mem_append_cons_self
  rw [map_cons, insert_cons_of_touch (by omega) htouch, min_eq_left (le_of_lt hlo),
    insert_eq_cons (by omega)]
  refine forall_mem_map.mpr fun x hx => ?_
  have hafter := after_of_upper hE hupper x hx
  omega

/-- ... or stays in front of it. -/
private lemma insert_upper_apart (hle : lo ≤ hi) (hapart : hi + 1 < e'.2.lower) :
    insert lo hi ((e' :: L2).map Prod.snd) = ⟨lo, hi⟩ :: (e' :: L2).map Prod.snd := by
  apply insert_eq_cons hle
  refine forall_mem_map.mpr fun x hx => ⟨?_, lower_le_upper hE (mem_append_right _ hx)⟩
  rcases mem_cons.mp hx with rfl | hx
  · exact hapart
  · exact (after_of_upper hE hupper x hx).1

end UpperEnd

private lemma Holds.consolidate {g : List ℕ} (ht : Holds c s (L1 ++ (p, r) :: e' :: L2) g)
    (htouch : e'.2.lower ≤ r.upper + 1 → (L1 ++ (p, ⟨r.lower, max r.upper e'.2.upper⟩) :: L2).map
      Prod.snd = insert lo hi (L.map Prod.snd))
    (hapart : r.upper + 1 < e'.2.lower → (L1 ++ (p, r) :: e' :: L2).map Prod.snd =
      insert lo hi (L.map Prod.snd)) :
    Inserts c lo hi L f (if r.upper + 1 ≥ s.lower e'.1 then
      (true, (s.setUpper p (if s.upper e'.1 < r.upper then r.upper else
        s.upper e'.1)).freeSeqRangeListElement e'.1)
      else (true, s)) := by
  have he' : e' ∈ L1 ++ (p, r) :: e' :: L2 := by simp
  rw [ht.lower_eq he', ht.upper_eq he']
  by_cases h1 : r.upper + 1 ≥ e'.2.lower
  · rw [if_pos h1]
    have hfree := ht.setUpper (if e'.2.upper < r.upper then r.upper else e'.2.upper)
    rw [append_cons] at hfree
    obtain ⟨L', f', hL', hmap⟩ := hfree.freeElement_any
    refine Inserts.of_holds hL' ?_
    have hmax :
        (if e'.2.upper < r.upper then r.upper else e'.2.upper) = max r.upper e'.2.upper := by
      split_ifs <;> omega
    rw [hmap, ← htouch h1, hmax]
    simp
  · rw [if_neg h1]
    exact Inserts.of_holds ht (hapart (not_le.mp h1))

private lemma Holds.addRange_nil (h : Holds c s [] f) (hsane : c.Sane) (hle : lo ≤ hi) :
    Inserts c lo hi [] f (s.addRange 0 lo hi) := by
  have h0 : Holds c s ([] ++ []) f := h
  exact h0.addRange_inserts hsane isRangeList_nil rfl hle (by simp) (by simp)

private lemma recordChecked_single (hlo : 1 ≤ lo) (hle : lo ≤ hi)
    (hfind : s.findNearestLowerSeqRangeListElement lo = (p, s'))
    (hup : s'.findNearestUpperSeqRangeListElement p hi = p) (hp0 : p ≠ 0) :
    s.recordChecked lo hi = some (s.record lo hi) := by
  unfold recordChecked record
  simp only [hfind, hup, hp0, if_false, if_true, Nat.ne_of_gt hlo, not_lt.mpr hle, gt_iff_lt]
  rw [← apply_ite some, ← apply_ite some]

/-! ### Erasing a range -/

/-- A call has erased the range from `lo` to `hi`; or it has failed, for there is no element to be
had and one had to be split. -/
def Erases (c : Storage) (lo hi : ℕ) (L : List (ℕ × Range)) (f : List ℕ)
    (result : Bool × SeqTrackingList) : Prop :=
  ∃ L' f', Holds c result.2 L' f' ∧
    if result.1 then L'.map Prod.snd = RangeList.erase lo hi (L.map Prod.snd)
    else L' = L ∧ f = [] ∧ c.Fixed ∧ ∃ x ∈ L, x.2.lower ≤ lo ∧ hi < x.2.upper

lemma Erases.of_holds (h : Holds c s' L' f')
    (heq : L'.map Prod.snd = RangeList.erase lo hi (L.map Prod.snd)) :
    Erases c lo hi L f (true, s') := ⟨L', f', h, heq⟩

/-- No element has to be split while the storage would have to grow for it: `erase` goes on to use
the handle of the element in the old array. -/
def SplitsInPlace (c : Storage) (lo hi : ℕ) (L : List (ℕ × Range)) (f : List ℕ) : Prop :=
  f = [] → c.Fixed ∨ ∀ x ∈ L, ¬(x.2.lower ≤ lo ∧ hi < x.2.upper)

/-- An element whose range has become empty is given back. -/
abbrev dropEmpty (s : SeqTrackingList) (p : ℕ) : SeqTrackingList :=
  if s.upper p < s.lower p then s.freeSeqRangeListElement p else s

private lemma Holds.dropEmpty (h : Holds c s (L1 ++ e :: L2) f) :
    ∃ L' f', Holds c (s.dropEmpty e.1) L' f' ∧
      L'.map Prod.snd = L1.map Prod.snd ++
        ((if e.2.lower ≤ e.2.upper then [e.2] else []) ++ L2.map Prod.snd) := by
  rw [SeqTrackingList.dropEmpty, h.lower_at, h.upper_at]
  by_cases hempty : e.2.upper < e.2.lower
  · rw [if_pos hempty, if_neg (not_le.mpr hempty)]
    obtain ⟨L', f', hL', hmap⟩ := h.freeElement_any
    exact ⟨L', f', hL', by rw [hmap, map_append]; rfl⟩
  · rw [if_neg hempty, if_pos (not_lt.mp hempty)]
    exact ⟨_, f, h, by simp⟩

/-- What `erase` does with the element at the lower end of a range that goes on beyond it.  The list
can move only if the whole element is given back. -/
private lemma Holds.eraseLowerEnd {t : SeqTrackingList} (h : Holds c s (L1 ++ e :: L2) f)
    (hlo : 1 ≤ lo) (hlo' : lo < 2 ^ 64) (hu : e.2.upper < hi)
    (ht : t = if lo ≤ s.lower e.1 then s.freeSeqRangeListElement e.1
        else if lo ≤ s.upper e.1 then (s.setUpper e.1 (pred64 lo)).dropEmpty e.1 else s) :
    (¬(lo ≤ e.2.lower ∧ s.ShrinksBy 1) → t.array = s.array ∧
      ∃ K f', Holds c t (L1 ++ (K ++ L2)) f' ∧ K.map Prod.snd = cut lo hi e.2) ∧
    (lo ≤ e.2.lower ∧ s.ShrinksBy 1 → t.array ≠ s.array) := by
  rw [h.lower_at, h.upper_at, pred64_eq hlo hlo'] at ht
  rw [cut, if_neg (not_lt.mpr (le_of_lt hu)), append_nil]
  by_cases h1 : lo ≤ e.2.lower
  · rw [if_pos h1] at ht
    rw [if_neg (not_lt.mpr h1), ht]
    constructor
    · intro hnot
      obtain ⟨hfreed, harray⟩ := h.free_stays fun hshrinks => hnot ⟨h1, hshrinks⟩
      exact ⟨harray, [], _, hfreed, rfl⟩
    · rintro ⟨-, hshrinks⟩
      exact h.free_moves hshrinks
  refine ⟨fun _ => ?_, fun hmoves => absurd hmoves.1 h1⟩
  rw [if_neg h1] at ht
  rw [if_pos (not_le.mp h1)]
  by_cases h2 : lo ≤ e.2.upper
  · have hset := h.setUpper (lo - 1)
    have hnonempty :
        ¬(s.setUpper e.1 (lo - 1)).upper e.1 < (s.setUpper e.1 (lo - 1)).lower e.1 := by
      have hupper : (s.setUpper e.1 (lo - 1)).upper e.1 = lo - 1 := hset.upper_at
      have hlower : (s.setUpper e.1 (lo - 1)).lower e.1 = e.2.lower := hset.lower_at
      omega
    rw [if_pos h2, SeqTrackingList.dropEmpty, if_neg hnonempty] at ht
    rw [min_eq_right (by omega), ht]
    exact ⟨rfl, [(e.1, ⟨e.2.lower, lo - 1⟩)], f, hset, rfl⟩
  · rw [if_neg h2] at ht
    rw [min_eq_left (by omega), ht]
    exact ⟨rfl, [e], f, h, rfl⟩

private lemma Holds.eraseUpperEnd (h : Holds c s (L1 ++ e :: L2) f) (hhi : hi < 2 ^ 64 - 1)
    (hl : lo < e.2.lower) :
    ∃ L' f', Holds c (if hi ≥ s.upper e.1 then s.freeSeqRangeListElement e.1
        else if hi ≥ s.lower e.1 then (s.setLower e.1 (succ64 hi)).dropEmpty e.1 else s) L' f' ∧
      L'.map Prod.snd = L1.map Prod.snd ++ (cut lo hi e.2 ++ L2.map Prod.snd) := by
  rw [h.lower_at, h.upper_at, succ64_eq hhi, cut, if_neg (not_lt.mpr (le_of_lt hl)), nil_append]
  by_cases h1 : hi ≥ e.2.upper
  · rw [if_pos h1, if_neg (not_lt.mpr h1)]
    obtain ⟨L', f', hL', hmap⟩ := h.freeElement_any
    exact ⟨L', f', hL', by rw [hmap, map_append]; rfl⟩
  rw [if_neg h1, if_pos (not_le.mp h1)]
  by_cases h2 : hi ≥ e.2.lower
  · rw [if_pos h2, max_eq_right (by omega)]
    obtain ⟨L', f', hL', hmap⟩ := (h.setLower (hi + 1)).dropEmpty
    rw [if_pos (show hi + 1 ≤ e.2.upper by omega)] at hmap
    exact ⟨L', f', hL', hmap⟩
  · rw [if_neg h2, max_eq_left (by omega)]
    exact ⟨_, f, h, by simp⟩

private lemma cut_left (hlo : 1 ≤ lo) (hmeet : lo ≤ r.upper) :
    cut lo hi r = (if r.lower ≤ lo - 1 then [⟨r.lower, lo - 1⟩] else []) ++
      if hi < r.upper then [⟨max r.lower (hi + 1), r.upper⟩] else [] := by
  rw [cut, min_eq_right (by omega : lo - 1 ≤ r.upper)]
  by_cases h : r.lower < lo
  · rw [if_pos h, if_pos (show r.lower ≤ lo - 1 by omega)]
  · rw [if_neg h, if_neg (show ¬r.lower ≤ lo - 1 by omega)]

lemma Holds.listSize_eq_arraySize_iff (h : Holds c s L f) : s.listSize = s.arraySize ↔ f = [] := by
  rw [h.listSize_eq, h.arraySize_eq, ← length_eq_zero_iff]
  omega

lemma Holds.not_fixed_iff (h : Holds c s L f) : s.growBy ≠ 0 ∧ s.mallocOk = true ↔ ¬c.Fixed := by
  have hgrow : s.growBy = c.growBy := congrArg Storage.growBy h.storage_eq
  have hmalloc : s.mallocOk = c.mallocOk := congrArg Storage.mallocOk h.storage_eq
  rw [Storage.Fixed, not_or, Bool.not_eq_false, hgrow, hmalloc]

/-! ### Asking for a range -/

private lemma answers_gap (hw : WellFormed (L1 ++ e :: e' :: L2))
    (hlower : L1 ≠ [] → e.2.lower ≤ lo) (hupper : L2 ≠ [] → hi ≤ e'.2.upper)
    (hgap : e.2.upper < lo ∧ hi < e'.2.lower) : Answers lo hi (L1 ++ e :: e' :: L2) .no := by
  have hE : IsRangeList (((L1 ++ [e]) ++ e' :: L2).map Prod.snd) := by simpa using hw.isRangeList
  intro x hx
  rcases mem_append.mp hx with hx | hx
  · have hx' := before_of_lower hw.isRangeList hlower x hx
    exact .inl (by omega)
  · rcases mem_cons.mp hx with rfl | hx
    · exact .inl hgap.1
    · rcases mem_cons.mp hx with rfl | hx
      · exact .inr hgap.2
      · have hx' := after_of_upper hE hupper x hx
        exact .inr (by omega)

private lemma Holds.next_eq_iff (h : Holds c s (L1 ++ e :: (M ++ e' :: L2)) f) :
    s.next e.1 = e'.1 ↔ M = [] := by
  cases M with
  | nil => simpa using h.next_eq.1
  | cons x M =>
    have hsplit : L1 ++ e :: (x :: M ++ e' :: L2) = (L1 ++ [e]) ++ x :: (M ++ e' :: L2) := by simp
    have hnext : s.next e.1 = x.1 := h.next_eq.1
    rw [hsplit] at h
    have hne := h.ne_of_mem (show e' ∈ (L1 ++ [e]) ++ (M ++ e' :: L2) by simp)
    simp [hnext, hne.symm]

/-- The answer is right; the range is inserted if nothing of it was recorded, and otherwise nothing
happens. -/
def Checks (c : Storage) (lo hi : ℕ) (L : List (ℕ × Range)) (f : List ℕ)
    (result : Recorded × Bool × SeqTrackingList) : Prop :=
  Answers lo hi L result.1 ∧
    if result.1 = .no then Inserts c lo hi L f result.2
    else result.2.1 = true ∧ Holds c result.2.2 L f

/-- In the gap between two neighbours, `recordIfNotRecorded` leaves out the tests of `record` whose
outcome is known there. -/
private lemma Holds.record_gap (hs : Holds c s' (L1 ++ e :: e' :: L2) f)
    (hw : WellFormed (L1 ++ e :: e' :: L2)) (hlo : 1 ≤ lo) (hle : lo ≤ hi)
    (hfind : s.findNearestLowerSeqRangeListElement lo = (e.1, s'))
    (hup : s'.findNearestUpperSeqRangeListElement e.1 hi = e'.1) (he0 : e.1 ≠ 0)
    (hgap : e.2.upper < lo ∧ hi < e'.2.lower) :
    s.record lo hi =
      if lo ≤ succ64 (s'.upper e.1) then
        if succ64 hi ≥ (s'.setUpper e.1 hi).lower e'.1 then
          (true, ((s'.setUpper e.1 hi).setUpper e.1
            ((s'.setUpper e.1 hi).upper e'.1)).freeSeqRangeListElement e'.1)
        else (true, s'.setUpper e.1 hi)
      else if succ64 hi < s'.lower e'.1 then s'.addRange e.1 lo hi
      else (true, s'.setLower e'.1 lo) := by
  have he' : e' ∈ L1 ++ e :: e' :: L2 := by simp
  have hne : e.1 ≠ e'.1 := (hs.ne_of_mem (show e' ∈ L1 ++ e' :: L2 by simp)).symm
  have hl := hs.lower_at
  have hu' : s'.upper e'.1 = e'.2.upper := hs.upper_eq he'
  have hr := lower_le_upper hw.isRangeList mem_append_cons_self
  have hr' := lower_le_upper hw.isRangeList he'
  have hnext : s'.next e.1 = e'.1 := hs.next_eq.1
  have h1 : ¬lo < s'.lower e.1 := by omega
  have h2 : ¬s'.upper e'.1 < hi := by omega
  unfold record
  simp only [hfind, hup, he0, hne, if_false, if_true, Nat.ne_of_gt hlo, not_lt.mpr hle, gt_iff_lt,
    lower_setUpper, upper_setUpper, upper_setLower, next_setUpper, next_setLower, hnext, h1, h2,
    freeOverlapped_self, Function.update_of_ne hne.symm]

/-! ### A range at one element -/

section OneElement

variable (hs : Holds c s' (L1 ++ e :: L2) f) (hsane : c.Sane) (hw : WellFormed (L1 ++ e :: L2))
  (hlo : 1 ≤ lo) (hle : lo ≤ hi) (hhi : hi < 2 ^ 64 - 1) (hlower : L1 ≠ [] → e.2.lower ≤ lo)
  (hupper : L2 ≠ [] → hi ≤ e.2.upper)

include hs hsane hw hlo hle hhi hlower hupper

/-- The range lies inside one element, which is split.  If a larger array is needed for that, the
handle of the element is a stale one. -/
private lemma Holds.eraseInner (hl : e.2.lower ≤ lo) (hu : hi < e.2.upper) :
    ResultUnless (f = [] ∧ ¬c.Fixed)
      (let (tmp, t) := s'.getSeqRangeListElement e.1
      let (ok, t) := if tmp = 0 then (false, t)
        else (true, (t.setUpper tmp (t.upper e.1)).setLower tmp (succ64 hi))
      if !ok then some (false, t)
      else t.withHandles s'.array (some (true, (t.setUpper e.1 (pred64 lo)).dropEmpty e.1)))
      (Erases c lo hi (L1 ++ e :: L2) f) := by
  have hsplit : L1 ++ e :: L2 = (L1 ++ [e]) ++ L2 := append_cons L1 e L2
  have hlast : e.1 = ((L1 ++ [e]).map Prod.fst).getLastD 0 := by simp
  cases f with
  | nil =>
    by_cases hfixed : c.Fixed
    · rw [hs.getElement_full hfixed]
      exact .some (fun hmoves => hmoves.2 hfixed) ⟨_, _, hs, rfl, rfl, hfixed, e, by simp, hl, hu⟩
    · refine ⟨fun hnot => absurd ⟨rfl, hfixed⟩ hnot, fun _ => ?_⟩
      rw [hsplit] at hs
      rcases hs.getElement_any hsane hlast with
        ⟨-, -, hfixed'⟩ | ⟨t, r, -, -, -, -, hget, hr0, -, -, -, hbrk⟩
      · exact absurd hfixed' hfixed
      · simp only [hget, if_neg hr0, Bool.not_true, Bool.false_eq_true, if_false]
        rw [withHandles, if_neg]
        intro harray
        exact (hbrk rfl).ne' (congrArg Prod.snd harray)
  | cons r f =>
    rw [hsplit] at hs
    obtain ⟨t, hget, ht, hbase, hbrk⟩ := hs.getElement hlast
    have hr0 : r ≠ 0 := hs.ne_zero r (by simp)
    have hr : t.upper e.1 = e.2.upper := ht.upper_eq (by simp)
    simp only [hget, if_neg hr0, hr, succ64_eq hhi, pred64_eq hlo (by omega : lo < 2 ^ 64),
      Bool.not_true, Bool.false_eq_true, if_false]
    have ht1 := (ht.setUpper e.2.upper).setLower (hi + 1)
    rw [append_assoc, singleton_append] at ht1
    obtain ⟨L', f', hL', hmap⟩ := (ht1.setUpper (lo - 1)).dropEmpty
    rw [withHandles, if_pos (Prod.ext hbase hbrk)]
    refine .some (fun hmoves => cons_ne_nil r f hmoves.1) (Erases.of_holds hL' ?_)
    rw [erase_single hw.isRangeList hlower hupper hle, hmap, cut_left hlo (by omega), if_pos hu,
      max_eq_right (by omega)]
    simp

variable (hfind : s.findNearestLowerSeqRangeListElement lo = (e.1, s'))
  (hup : s'.findNearestUpperSeqRangeListElement e.1 hi = e.1) (he0 : e.1 ≠ 0)

include hfind hup he0

private lemma Holds.record_single : Inserts c lo hi (L1 ++ e :: L2) f (s.record lo hi) := by
  have hE := hw.isRangeList
  have hl := hs.lower_at
  have hu := hs.upper_at
  unfold record
  simp only [hfind, hup, he0, if_false, if_true, Nat.ne_of_gt hlo, not_lt.mpr hle, gt_iff_lt,
    succ64_eq hhi, pred64_eq hlo (by omega : lo < 2 ^ 64)]
  by_cases h1 : hi + 1 < s'.lower e.1
  · -- the range goes in front of all others
    have hnil : L1 = [] := by
      by_contra hne
      have := hlower hne
      omega
    subst hnil
    have hhead : e.1 = s'.headp := (Rings.eq_headp_iff hs.toRings).mpr rfl
    rw [if_pos h1, if_pos hhead]
    have hs0 : Holds c s' ([] ++ e :: L2) f := hs
    refine hs0.addRange_inserts hsane hE rfl hle (by simp) ?_
    intro x hx
    rcases mem_cons.mp hx with rfl | hx
    · exact hl ▸ h1
    · exact (after_of_upper hE hupper x hx).1
  rw [if_neg h1]
  by_cases h2 : s'.upper e.1 < lo - 1
  · -- the range goes behind all others
    have hnil : L2 = [] := by
      by_contra hne
      have := hupper hne
      omega
    subst hnil
    rw [if_pos h2]
    have hsplit : L1 ++ [e] = (L1 ++ [e]) ++ [] := (append_nil _).symm
    rw [hsplit] at hs ⊢
    refine hs.addRange_inserts hsane (hsplit ▸ hE) (by simp) hle ?_ (by simp)
    intro x hx
    rcases mem_append.mp hx with hx | hx
    · exact before_of_lower hE hlower x hx
    · rw [mem_singleton] at hx
      subst hx
      omega
  -- the range is melted with the element
  rw [if_neg h2]
  refine Inserts.of_holds ((hs.raiseUpper hi).reduceLower lo) ?_
  exact insert_single hE hlower hupper hle (by omega) (by omega) e.1

private lemma Holds.erase_single : ResultUnless (s.EraseMovesRange lo hi) (s.eraseChecked lo hi)
      (Erases c lo hi (L1 ++ e :: L2) f) := by
  have hE := hw.isRangeList
  have hne := lower_le_upper hE mem_append_cons_self
  have hl := hs.lower_at
  have hu := hs.upper_at
  have hvalid : ¬(lo = 0 ∨ lo > hi) := by omega
  unfold EraseMovesRange eraseChecked
  simp only [hfind, hup, he0, hvalid, if_false, ne_eq, not_true, not_false_iff, true_and]
  rw [hs.listSize_eq_arraySize_iff, ← ne_eq s'.growBy, hs.not_fixed_iff]
  by_cases hmeet : s'.lower e.1 ≤ hi ∧ lo ≤ s'.upper e.1
  swap
  · -- nothing to erase
    rw [if_neg hmeet]
    refine .some (fun hmoves => hmeet ⟨by omega, by omega⟩) (Erases.of_holds hs ?_)
    rw [SeqTrackingList.erase_single hE hlower hupper hle, cut_of_disjoint hle hne (by omega)]
    simp
  rw [if_pos hmeet]
  by_cases h1 : lo < s'.lower e.1
  · rw [if_pos h1, succ64_eq hhi]
    obtain ⟨L', f', hL', hmap⟩ := (hs.setLower (hi + 1)).dropEmpty
    refine .some (fun hmoves => by omega) (Erases.of_holds hL' ?_)
    rw [SeqTrackingList.erase_single hE hlower hupper hle, hmap, cut,
      if_neg (show ¬e.2.lower < lo by omega), max_eq_right (by omega)]
    rfl
  rw [if_neg h1]
  -- what is left is below the range, and perhaps above it
  have hbelow : ¬hi < e.2.upper → Erases c lo hi (L1 ++ e :: L2) f
      (true, (s'.setUpper e.1 (pred64 lo)).dropEmpty e.1) := by
    intro hnot
    rw [pred64_eq hlo (by omega)]
    obtain ⟨L', g, hL', hmap⟩ := (hs.setUpper (lo - 1)).dropEmpty
    refine Erases.of_holds hL' ?_
    rw [SeqTrackingList.erase_single hE hlower hupper hle, hmap, cut_left hlo (by omega),
      if_neg hnot, append_nil]
  by_cases h2 : hi > s'.upper e.1
  · rw [if_pos h2]
    exact .some (fun hmoves => by omega) (hbelow (by omega))
  rw [if_neg h2]
  by_cases h3 : s'.upper e.1 > hi
  · have hmoves : (s'.lower e.1 ≤ lo ∧ hi < s'.upper e.1 ∧ f = [] ∧ ¬c.Fixed) ↔
        f = [] ∧ ¬c.Fixed := by
      rw [and_iff_right (not_lt.mp h1), and_iff_right h3]
    rw [hmoves]
    simp only [if_pos h3]
    exact hs.eraseInner hsane hw hlo hle hhi hlower hupper (by omega) (by omega)
  · simp only [if_neg h3, Bool.not_true, Bool.false_eq_true, if_false]
    rw [withHandles, if_pos rfl]
    exact .some (fun hmoves => h3 hmoves.2.1) (hbelow (by omega))

private lemma Holds.check_single :
    Checks c lo hi (L1 ++ e :: L2) f (s.recordIfNotRecorded lo hi) := by
  have hl := hs.lower_at
  have hu := hs.upper_at
  have hno : e.2.upper < lo ∨ hi < e.2.lower → Answers lo hi (L1 ++ e :: L2) .no := fun hout =>
    answers_single hw.isRangeList hlower hupper hle (by simpa [Answers] using hout)
  -- where nothing is recorded, `record` does the same
  have hrecord := hs.record_single hsane hw hlo hle hhi hlower hupper hfind hup he0
  unfold record at hrecord
  unfold recordIfNotRecorded
  simp only [hfind, hup, he0, or_self, if_false, if_true, Nat.ne_of_gt hlo, not_lt.mpr hle,
    gt_iff_lt, succ64_eq hhi, pred64_eq hlo (by omega : lo < 2 ^ 64)] at hrecord ⊢
  by_cases h1 : hi + 1 < s'.lower e.1
  · rw [if_pos h1] at hrecord ⊢
    exact ⟨hno (.inr (by omega)), hrecord⟩
  rw [if_neg h1] at hrecord ⊢
  by_cases h2 : s'.upper e.1 < lo - 1
  · rw [if_pos h2] at hrecord ⊢
    exact ⟨hno (.inl (by omega)), hrecord⟩
  rw [if_neg h2] at hrecord ⊢
  by_cases h3 : hi ≥ s'.lower e.1 ∧ lo ≤ s'.upper e.1
  swap
  · rw [if_neg h3]
    exact ⟨hno (by omega), hrecord⟩
  rw [if_pos h3]
  by_cases h4 : lo ≥ s'.lower e.1 ∧ hi ≤ s'.upper e.1
  · rw [if_pos h4]
    exact ⟨⟨e, mem_append_cons_self, by omega⟩, rfl, hs⟩
  · rw [if_neg h4]
    refine ⟨answers_single hw.isRangeList hlower hupper hle ⟨⟨e, by simp, by omega⟩, ?_⟩, rfl, hs⟩
    intro x hx
    rw [mem_singleton] at hx
    subst hx
    omega

end OneElement

/-! ### A range that spans several elements -/

section Span

variable (hs : Holds c s' (L1 ++ e :: (M ++ e' :: L2)) f) (hsane : c.Sane)
  (hw : WellFormed (L1 ++ e :: (M ++ e' :: L2))) (hlo : 1 ≤ lo) (hle : lo ≤ hi)
  (hhi : hi < 2 ^ 64 - 1) (hlower : L1 ≠ [] → e.2.lower ≤ lo)
  (hafter : ∀ x ∈ M ++ e' :: L2, lo < x.2.lower) (hbefore : ∀ x ∈ L1 ++ e :: M, x.2.upper < hi)
  (hupper : L2 ≠ [] → hi ≤ e'.2.upper)
  (hfind : s.findNearestLowerSeqRangeListElement lo = (e.1, s'))
  (hup : s'.findNearestUpperSeqRangeListElement e.1 hi = e'.1) (he0 : e.1 ≠ 0)

section

include hafter hbefore

private lemma within_of_span : ∀ x ∈ M, lo < x.2.lower ∧ x.2.upper < hi :=
  fun x hx => ⟨hafter x (by simp [hx]), hbefore x (by simp [hx])⟩

include hw

private lemma eq_nil_of_span (heq : lo = hi) : M = [] := by
  rw [eq_nil_iff_forall_not_mem]
  intro x hx
  have hx' := within_of_span hafter hbefore x hx
  have hne := lower_le_upper hw.isRangeList (show x ∈ L1 ++ e :: (M ++ e' :: L2) by simp [hx])
  omega

private lemma answers_span (hmeet : lo ≤ e.2.upper ∨ hi ≥ e'.2.lower ∨ M ≠ []) :
    Answers lo hi (L1 ++ e :: (M ++ e' :: L2)) .partially := by
  have hne : ∀ x ∈ L1 ++ e :: (M ++ e' :: L2), x.2.lower ≤ x.2.upper :=
    fun _ => lower_le_upper hw.isRangeList
  constructor
  · rcases hmeet with hmeet | hmeet | hmeet
    · have h1 := hne e (by simp)
      have h2 := hbefore e (by simp)
      exact ⟨e, by simp, by omega, hmeet⟩
    · have h1 := hne e' (by simp)
      have h2 := hafter e' (by simp)
      exact ⟨e', by simp, hmeet, by omega⟩
    · obtain ⟨x, M', rfl⟩ := exists_cons_of_ne_nil hmeet
      have h1 := hne x (by simp)
      have h2 := within_of_span hafter hbefore x mem_cons_self
      exact ⟨x, by simp, by omega, by omega⟩
  · intro x hx hcover
    rw [append_cons, mem_append] at hx
    rcases hx with hx | hx
    · have := hbefore x (by simp only [mem_append, mem_cons] at hx ⊢; tauto)
      omega
    · have := hafter x hx
      omega

include hle hlower hupper in
private lemma erase_span :
    RangeList.erase lo hi ((L1 ++ e :: (M ++ e' :: L2)).map Prod.snd) =
      L1.map Prod.snd ++ (cut lo hi e.2 ++ (cut lo hi e'.2 ++ L2.map Prod.snd)) := by
  have hE : IsRangeList (((L1 ++ e :: M) ++ e' :: L2).map Prod.snd) := by
    simpa using hw.isRangeList
  rw [erase_front hw.isRangeList hlower hle, map_append, map_cons, erase_append, erase_cons,
    erase_of_within, erase_back hE hupper hle, nil_append]
  refine forall_mem_map.mpr fun x hx => ?_
  have hx' := within_of_span hafter hbefore x hx
  exact ⟨by omega, by omega⟩

end

include hs hsane hw hlo hle hhi hlower hafter hbefore hupper hfind hup he0

private lemma Holds.record_span : ResultUnless (s.RecordMoves lo hi) (s.recordChecked lo hi)
      (Inserts c lo hi (L1 ++ e :: (M ++ e' :: L2)) f) := by
  have hne : e.1 ≠ e'.1 := hs.span_ne
  have hu := hs.upper_at
  have hl' := hs.lower_eq (show e' ∈ L1 ++ e :: (M ++ e' :: L2) by simp)
  have heu : e.2.upper < hi := hbefore e (by simp)
  have hel : lo < e'.2.lower := hafter e' (by simp)
  have hM := within_of_span hafter hbefore
  have hE : IsRangeList (((L1 ++ e :: M) ++ e' :: L2).map Prod.snd) := by
    simpa using hw.isRangeList
  have hwrap : e.2.upper < 2 ^ 64 - 1 := hw.upper_lt e (by simp)
  unfold RecordMoves recordChecked
  simp only [hfind, hup, he0, hne, if_false, Nat.ne_of_gt hlo, not_lt.mpr hle, gt_iff_lt,
    succ64_eq hhi, hs.between_eq, ne_eq, not_false_iff, true_and]
  by_cases h1 : lo ≤ succ64 (s'.upper e.1)
  · rw [if_pos h1, if_pos h1]
    rw [hu, succ64_eq hwrap] at h1
    -- consolidate with the lower element
    have hs1 := (hs.setUpper hi).reduceLower lo
    have harray : s'.array = (if lo < (s'.setUpper e.1 hi).lower e.1 then
        (s'.setUpper e.1 hi).setLower e.1 lo else s'.setUpper e.1 hi).array := by
      split_ifs <;> rfl
    refine (hs1.freeOverlappedChecked harray).bind_resultUnless harray
      (hs1.shrinksBy_congr hs).mp fun t hnot ht _ => ?_
    rw [← apply_ite some]
    rw [append_assoc, singleton_append] at ht
    refine .some (fun hmoves => hnot ((hs1.shrinksBy_congr hs).mpr hmoves))
      (ht.consolidate (fun htouch => ?_) (fun hapart => ?_))
    · rw [insert_span_lower hw hlower hM heu h1, insert_upper_touch hE hupper (by omega) htouch]
      simp
    · rw [insert_span_lower hw hlower hM heu h1, insert_upper_apart hE hupper (by omega) hapart]
      simp
  rw [if_neg h1, if_neg h1]
  rw [hu, succ64_eq hwrap, not_le] at h1
  by_cases h2 : hi + 1 < s'.lower e'.1
  · rw [if_pos h2, if_pos h2]
    rw [hl'] at h2
    have hins := insert_span_inner hw hlower hM h1
    rw [insert_upper_apart hE hupper hle h2] at hins
    cases M with
    | nil =>
      -- a new element between the two
      rw [if_pos hs.next_eq.1]
      have hsplit : L1 ++ e :: ([] ++ e' :: L2) = (L1 ++ [e]) ++ e' :: L2 := by simp
      rw [hsplit] at hs hw ⊢
      refine .some (fun hmoves => lt_irrefl 0 hmoves.1)
        (hs.addRange_inserts hsane hw.isRangeList (by simp) hle ?_ ?_)
      · intro x hx
        rcases mem_append.mp hx with hx | hx
        · exact before_of_lower (hsplit ▸ hw.isRangeList) hlower x hx
        · rw [mem_singleton] at hx
          exact hx ▸ h1
      · intro x hx
        rcases mem_cons.mp hx with rfl | hx
        · exact h2
        · exact (after_of_upper hE hupper x hx).1
    | cons x M =>
      -- the next element is used for the range
      have hx : s'.next e.1 = x.1 := hs.next_eq.1
      have hsplit : L1 ++ e :: (x :: M ++ e' :: L2) = (L1 ++ [e]) ++ x :: (M ++ e' :: L2) := by simp
      rw [hsplit] at hs
      have hxe : x.1 ≠ e'.1 :=
        (hs.ne_of_mem (show e' ∈ (L1 ++ [e]) ++ (M ++ e' :: L2) by simp)).symm
      rw [hx, if_neg hxe, length_cons, show M.length + 1 - 2 = M.length - 1 by omega]
      have hholds := (hs.setLower lo).setUpper hi
      have hfrees := hholds.freeOverlappedChecked (show s'.array = _ from rfl)
      refine hfrees.resultUnless.map ?_
      rintro t ⟨L', f', ht, hL'⟩
      refine Inserts.of_holds ht ?_
      rw [hins, hL']
      simp
  · -- consolidate with the upper element
    rw [if_neg h2, if_neg h2]
    rw [hl', not_lt] at h2
    have hsplit : L1 ++ e :: (M ++ e' :: L2) = (L1 ++ e :: M) ++ e' :: L2 := by simp
    have hs1 := hs
    rw [hsplit] at hs1
    have hs2 := (hs1.setLower lo).raiseUpper hi
    rw [append_assoc, cons_append] at hs2
    have harray : s'.array = (if hi > (s'.setLower e'.1 lo).upper e'.1 then
        (s'.setLower e'.1 lo).setUpper e'.1 hi else s'.setLower e'.1 lo).array := by
      split_ifs <;> rfl
    have hfrees := (hs2.freeOverlappedChecked harray).resultUnless
    rw [hs2.shrinksBy_congr hs] at hfrees
    refine hfrees.map ?_
    rintro t ⟨L', f', ht, hL'⟩
    refine Inserts.of_holds ht ?_
    rw [insert_span_inner hw hlower hM h1, insert_upper_touch hE hupper hel h2, hL']
    simp

omit hsane in
private lemma Holds.erase_span : ResultUnless (s.EraseMovesRange lo hi) (s.eraseChecked lo hi)
      (Erases c lo hi (L1 ++ e :: (M ++ e' :: L2)) f) := by
  have hne : e.1 ≠ e'.1 := hs.span_ne
  have hvalid : ¬(lo = 0 ∨ lo > hi) := by omega
  unfold EraseMovesRange eraseChecked
  simp only [hfind, hup, he0, hvalid, if_false, ne_eq, hne, not_false_iff, if_true, hs.between_eq,
    hs.lower_at]
  -- first the elements in between
  refine (hs.freeOverlappedChecked rfl).bind_resultUnless rfl (fun hshrinks => ?_)
    fun t hnot ht harray => ?_
  · split_ifs
    · exact hshrinks.mono (by omega)
    · exact hshrinks
  have hone : t.ShrinksBy 1 ↔ s'.ShrinksBy (M.length + 1) := by
    rw [ht.shrinksBy_iff, hs.shrinksBy_iff, length_append, length_map]
    constructor <;> rintro ⟨-, h1, h2, h3⟩ <;> exact ⟨by omega, h1, h2, by omega⟩
  -- then the one at the lower end
  rw [append_assoc, singleton_append] at ht
  obtain ⟨hstays, hmoves⟩ := ht.eraseLowerEnd hlo (by omega) (hbefore e (by simp)) rfl
  by_cases hearly : lo ≤ e.2.lower ∧ t.ShrinksBy 1
  · have hstale := hmoves hearly
    rw [harray] at hstale
    rw [withHandles, if_neg hstale, if_pos hearly.1]
    exact ⟨fun hnot => absurd (hone.mp hearly.2) hnot, fun _ => rfl⟩
  -- then the one at the upper end
  obtain ⟨harray', K, g, hK, hcut⟩ := hstays hearly
  rw [withHandles, if_pos (harray'.trans harray)]
  rw [← append_assoc] at hK
  obtain ⟨L', g', hL', hmap⟩ := hK.eraseUpperEnd hhi (hafter e' (by simp))
  refine .some (fun hshrinks => ?_) (Erases.of_holds hL' ?_)
  · split_ifs at hshrinks with hwhole
    · exact hearly ⟨hwhole, hone.mpr hshrinks⟩
    · exact hnot hshrinks
  · rw [SeqTrackingList.erase_span hw hle hlower hafter hbefore hupper, hmap, map_append, hcut,
      append_assoc]

private lemma Holds.check_span :
    Checks c lo hi (L1 ++ e :: (M ++ e' :: L2)) f (s.recordIfNotRecorded lo hi) := by
  have hne : e.1 ≠ e'.1 := hs.span_ne
  have hu := hs.upper_at
  have hl := hs.lower_eq (show e' ∈ L1 ++ e :: (M ++ e' :: L2) by simp)
  have hvalid : ¬(lo = 0 ∨ lo > hi) := by omega
  unfold recordIfNotRecorded
  simp only [hfind, hup, he0, hne, hvalid, if_false, ne_eq, hs.next_eq_iff]
  by_cases hmeet : lo ≤ s'.upper e.1 ∨ hi ≥ s'.lower e'.1 ∨ ¬M = []
  · rw [if_pos hmeet]
    rw [hu, hl] at hmeet
    exact ⟨answers_span hw hafter hbefore hmeet, rfl, hs⟩
  · rw [if_neg hmeet]
    rw [hu, hl, not_or, not_or, not_not] at hmeet
    obtain ⟨h1, h2, rfl⟩ := hmeet
    have hgap : e.2.upper < lo ∧ hi < e'.2.lower := ⟨not_le.mp h1, not_le.mp h2⟩
    have hans := answers_gap hw hlower hupper hgap
    -- it is inserted as `record` does it
    have hspan := hs.record_span hsane hw hlo hle hhi hlower hafter hbefore hupper hfind hup he0
    obtain ⟨r, hr, hrecord⟩ := hspan.result (by
      unfold RecordMoves
      simp only [hfind, hup, hs.between_eq]
      rintro ⟨-, hmoves⟩
      split_ifs at hmoves <;> exact lt_irrefl 0 hmoves.1)
    rw [← recordChecked_eq hr] at hrecord
    rw [hs.record_gap hw hlo hle hfind hup he0 hgap] at hrecord
    split_ifs at hrecord ⊢ <;> exact ⟨hans, hrecord⟩

end Span

/-! ### Every range -/

/-- **`record` inserts the range**, unless it uses a handle after the list has moved. -/
theorem Holds.recordChecked (h : Holds c s L f) (hsane : c.Sane) (hw : WellFormed L) (hlo : 1 ≤ lo)
    (hle : lo ≤ hi) (hhi : hi < 2 ^ 64 - 1) :
    ResultUnless (s.RecordMoves lo hi) (s.recordChecked lo hi) (Inserts c lo hi L f) := by
  by_cases hL : L = []
  · subst hL
    unfold RecordMoves recordChecked
    simp only [findNearestLower_nil h, findNearestUpper_nil h, if_true, Nat.ne_of_gt hlo, if_false,
      not_lt.mpr hle, gt_iff_lt, ne_eq, not_true, false_and]
    exact .some not_false (h.addRange_nil hsane hle)
  · obtain ⟨s', p, q, hfind, hs', hup, hp0, hloc⟩ := h.located hL hw.isRangeList hle
    cases hloc with
    | single hlower hupper =>
      rw [recordChecked_single hlo hle hfind hup hp0]
      refine .some ?_ (hs'.record_single hsane hw hlo hle hhi hlower hupper hfind hup hp0)
      unfold RecordMoves
      simp [hfind, hup]
    | span hlower hafter hbefore hupper =>
      exact hs'.record_span hsane hw hlo hle hhi hlower hafter hbefore hupper hfind hup hp0

/-- No handle of `record` gets stale if the storage does not shrink, or if there is no loop over
overlapped elements. -/
lemma Holds.not_recordMoves (h : Holds c s L f) (hmove : c.shrinkBy = 0 ∨ lo = hi)
    (hw : WellFormed L) (hle : lo ≤ hi) : ¬s.RecordMoves lo hi := by
  intro hmoves
  have hL : L ≠ [] := by
    rintro rfl
    unfold RecordMoves at hmoves
    simp only [findNearestLower_nil h, findNearestUpper_nil h, ne_eq, not_true, false_and] at hmoves
  obtain ⟨s', p, q, hfind, hs', hup, -, hloc⟩ := h.located hL hw.isRangeList hle
  unfold RecordMoves at hmoves
  simp only [hfind, hup] at hmoves
  obtain ⟨hne, hmoves⟩ := hmoves
  have hshrinks : s'.ShrinksBy (s'.between p q) := by
    split_ifs at hmoves
    · exact hmoves
    · exact hmoves.mono (by omega)
    · exact hmoves.mono (by omega)
  rcases hmove with hc | rfl
  · exact (hs'.shrinksBy_iff.mp hshrinks).2.1 hc
  · cases hloc with
    | single => exact hne rfl
    | span hlower hafter hbefore hupper =>
      obtain rfl := eq_nil_of_span hw hafter hbefore rfl
      rw [hs'.between_eq] at hshrinks
      exact lt_irrefl 0 hshrinks.1

section

variable (h : Holds c s L f)

include h

/-- **`record` inserts the range**, if its handles stay valid: the storage does not shrink, or there
is no loop over overlapped elements. -/
theorem Holds.record (hsane : c.Sane) (hmove : c.shrinkBy = 0 ∨ lo = hi) (hw : WellFormed L)
    (hlo : 1 ≤ lo) (hle : lo ≤ hi) (hhi : hi < 2 ^ 64 - 1) :
    Inserts c lo hi L f (s.record lo hi) := by
  obtain ⟨r, hr, hinserts⟩ :=
    (h.recordChecked hsane hw hlo hle hhi).result (h.not_recordMoves hmove hw hle)
  rwa [recordChecked_eq hr]

/-- **`erase` cuts the range out**, unless it uses a handle after the list has moved. -/
theorem Holds.eraseChecked (hsane : c.Sane) (hw : WellFormed L) (hlo : 1 ≤ lo) (hle : lo ≤ hi)
    (hhi : hi < 2 ^ 64 - 1) :
    ResultUnless (s.EraseMovesRange lo hi) (s.eraseChecked lo hi) (Erases c lo hi L f) := by
  by_cases hL : L = []
  · subst hL
    unfold EraseMovesRange eraseChecked
    simp only [findNearestLower_nil h, findNearestUpper_nil h, if_true, ne_eq, not_true, if_false,
      false_and]
    exact .some not_false (Erases.of_holds h rfl)
  · obtain ⟨s', p, q, hfind, hs', hup, hp0, hloc⟩ := h.located hL hw.isRangeList hle
    cases hloc with
    | single hlower hupper =>
      exact hs'.erase_single hsane hw hlo hle hhi hlower hupper hfind hup hp0
    | span hlower hafter hbefore hupper =>
      exact hs'.erase_span hw hlo hle hhi hlower hafter hbefore hupper hfind hup hp0

/-- No handle of `erase` gets stale if the storage does not shrink, or if the range is a single
number; and no element is split while the storage grows. -/
lemma Holds.not_eraseMovesRange (hmove : c.shrinkBy = 0 ∨ lo = hi)
    (hplace : SplitsInPlace c lo hi L f) (hw : WellFormed L) (hle : lo ≤ hi) :
    ¬s.EraseMovesRange lo hi := by
  intro hmoves
  have hL : L ≠ [] := by
    rintro rfl
    unfold EraseMovesRange at hmoves
    simp only [findNearestLower_nil h, findNearestUpper_nil h, ne_eq, not_true, if_false,
      false_and] at hmoves
  obtain ⟨s', p, q, hfind, hs', hup, hp0, hloc⟩ := h.located hL hw.isRangeList hle
  unfold EraseMovesRange at hmoves
  simp only [hfind, hup] at hmoves
  cases hloc with
  | @single L1 L2 e hlower hupper =>
    rw [if_neg (not_not.mpr rfl), hs'.lower_at, hs'.upper_at, hs'.listSize_eq_arraySize_iff,
      hs'.not_fixed_iff] at hmoves
    obtain ⟨-, hl, hu, hf, hfixed⟩ := hmoves
    exact (hplace hf).elim hfixed fun hnot => hnot e mem_append_cons_self ⟨hl, hu⟩
  | @span L1 M L2 e e' hlower hafter hbefore hupper =>
    rw [if_pos hs'.span_ne, hs'.between_eq, hs'.lower_at] at hmoves
    rcases hmove with hc | rfl
    · exact (hs'.shrinksBy_iff.mp hmoves).2.1 hc
    · -- there is nothing between the two elements, and the number lies behind the first
      obtain rfl := eq_nil_of_span hw hafter hbefore rfl
      have hbehind := hbefore e (by simp)
      have hnonempty := lower_le_upper hw.isRangeList mem_append_cons_self
      rw [if_neg (by omega)] at hmoves
      exact lt_irrefl 0 hmoves.1

/-- **`erase` cuts the range out**, if its handles stay valid: the storage does not shrink, or the
range is a single number; and no element is split while the storage grows. -/
theorem Holds.erase (hsane : c.Sane) (hmove : c.shrinkBy = 0 ∨ lo = hi)
    (hplace : SplitsInPlace c lo hi L f) (hw : WellFormed L) (hlo : 1 ≤ lo) (hle : lo ≤ hi)
    (hhi : hi < 2 ^ 64 - 1) : Erases c lo hi L f (s.erase lo hi) := by
  obtain ⟨r, hr, herases⟩ :=
    (h.eraseChecked hsane hw hlo hle hhi).result (h.not_eraseMovesRange hmove hplace hw hle)
  rwa [eraseChecked_eq hr]

/-- **`isRecorded` answers what is recorded.** -/
theorem Holds.isRecorded (hw : WellFormed L) (hle : lo ≤ hi) :
    Answers lo hi L (s.isRecorded lo hi).1 ∧ Holds c (s.isRecorded lo hi).2 L f := by
  by_cases hL : L = []
  · subst hL
    have heq : s.isRecorded lo hi = (.no, s) := by
      unfold isRecorded
      simp only [findNearestLower_nil h, if_true]
    rw [heq]
    exact ⟨by simp [Answers], h⟩
  · obtain ⟨s', p, q, hfind, hs', hup, hp0, hloc⟩ := h.located hL hw.isRangeList hle
    unfold SeqTrackingList.isRecorded
    simp only [hfind, hup, hp0, if_false]
    cases hloc with
    | @single L1 L2 e hlower hupper =>
      simp only [ne_eq, not_true, if_false, hs'.lower_at, hs'.upper_at]
      split_ifs with h1 h2
      · refine ⟨answers_single hw.isRangeList hlower hupper hle ?_, hs'⟩
        exact ⟨e, by simp, h2⟩
      · refine ⟨answers_single hw.isRangeList hlower hupper hle ?_, hs'⟩
        exact ⟨⟨e, by simp, h1⟩, by simpa using h2⟩
      · refine ⟨answers_single hw.isRangeList hlower hupper hle ?_, hs'⟩
        have hout : e.2.upper < lo ∨ hi < e.2.lower := by omega
        simpa [Answers] using hout
    | @span L1 M L2 e e' hlower hafter hbefore hupper =>
      have hne : e.1 ≠ e'.1 := hs'.span_ne
      have hu := hs'.upper_at
      have hl := hs'.lower_eq (show e' ∈ L1 ++ e :: (M ++ e' :: L2) by simp)
      simp only [ne_eq, hne, not_false_iff, if_true, hs'.next_eq_iff, hu, hl]
      split_ifs with h1 h2
      · refine ⟨?_, hs'⟩
        subst h1
        exact answers_gap hw hlower hupper ⟨h2.1, h2.2⟩
      · exact ⟨answers_span hw hafter hbefore (by omega), hs'⟩
      · exact ⟨answers_span hw hafter hbefore (.inr (.inr h1)), hs'⟩

/-- **`recordIfNotRecorded` answers what is recorded**, and inserts the range if nothing of it
is. -/
theorem Holds.recordIfNotRecorded (hsane : c.Sane) (hw : WellFormed L) (hlo : 1 ≤ lo)
    (hle : lo ≤ hi) (hhi : hi < 2 ^ 64 - 1) : Checks c lo hi L f (s.recordIfNotRecorded lo hi) := by
  by_cases hL : L = []
  · subst hL
    unfold recordIfNotRecorded
    simp only [findNearestLower_nil h, if_true, or_self, if_false, Nat.ne_of_gt hlo,
      not_lt.mpr hle, gt_iff_lt]
    exact ⟨by simp [Answers], h.addRange_nil hsane hle⟩
  · obtain ⟨s', p, q, hfind, hs', hup, hp0, hloc⟩ := h.located hL hw.isRangeList hle
    cases hloc with
    | single hlower hupper =>
      exact hs'.check_single hsane hw hlo hle hhi hlower hupper hfind hup hp0
    | span hlower hafter hbefore hupper =>
      exact hs'.check_span hsane hw hlo hle hhi hlower hafter hbefore hupper hfind hup hp0

end

/-! ### Runs -/

private lemma WellFormed.of_map {E : List Range} (hL : L.map Prod.snd = E) (hE : IsRangeList E)
    (hbounds : ∀ r ∈ E, 1 ≤ r.lower ∧ r.upper < 2 ^ 64 - 1) : WellFormed L := by
  subst hL
  exact ⟨hE, fun e he => (hbounds e.2 (mem_map_of_mem he)).1,
    fun e he => (hbounds e.2 (mem_map_of_mem he)).2⟩

private lemma WellFormed.bounds (hw : WellFormed L) :
    ∀ r ∈ L.map Prod.snd, 1 ≤ r.lower ∧ r.upper < 2 ^ 64 - 1 := by
  intro r hr
  obtain ⟨e, he, rfl⟩ := mem_map.mp hr
  exact ⟨hw.lower_pos e he, hw.upper_lt e he⟩

/-- The parameters of fixed storage. -/
def fixedStorage (mallocOk : Bool) : Storage := ⟨0, 0, mallocOk⟩

lemma fixedStorage_sane (mallocOk : Bool) : (fixedStorage mallocOk).Sane := ⟨le_rfl, le_rfl⟩

/-- A list in good order. -/
def Valid (c : Storage) (s : SeqTrackingList) : Prop := ∃ L f, Holds c s L f ∧ WellFormed L

lemma WellFormed.insert (hw : WellFormed L)
    (hL' : L'.map Prod.snd = insert lo hi (L.map Prod.snd)) (hlo : 1 ≤ lo) (hle : lo ≤ hi)
    (hhi : hi < 2 ^ 64 - 1) : WellFormed L' :=
  WellFormed.of_map hL' (hw.isRangeList.insert hle) (bounds_insert hw.bounds hlo hhi)

lemma WellFormed.erase (hw : WellFormed L)
    (hL' : L'.map Prod.snd = RangeList.erase lo hi (L.map Prod.snd)) (hle : lo ≤ hi) :
    WellFormed L' := WellFormed.of_map hL' (hw.isRangeList.erase hle)
    (bounds_erase hw.isRangeList.nonempty hw.bounds)

private lemma Inserts.valid (h : Inserts c lo hi L f result) (hw : WellFormed L) (hlo : 1 ≤ lo)
    (hle : lo ≤ hi) (hhi : hi < 2 ^ 64 - 1) : Valid c result.2 := by
  obtain ⟨L', f', hholds, hresult⟩ := h
  split_ifs at hresult with hok
  · exact ⟨L', f', hholds, hw.insert hresult hlo hle hhi⟩
  · exact ⟨L', f', hholds, hresult.1 ▸ hw⟩

private lemma Erases.valid (h : Erases c lo hi L f result) (hw : WellFormed L) (hle : lo ≤ hi) :
    Valid c result.2 := by
  obtain ⟨L', f', hholds, hresult⟩ := h
  split_ifs at hresult with hok
  · exact ⟨L', f', hholds, hw.erase hresult hle⟩
  · exact ⟨L', f', hholds, hresult.1 ▸ hw⟩

lemma Holds.find (h : Holds c s L f) (hw : WellFormed L) (seqnum : ℕ) :
    Holds c (s.findNearestLowerSeqRangeListElement seqnum).2 L f := by
  by_cases hL : L = []
  · subst hL
    rwa [findNearestLower_nil h]
  · obtain ⟨L1, e, L2, rfl, hfind, -⟩ := h.findNearestLower hL hw.isRangeList seqnum
    rw [hfind]
    exact h.setHint (by simp)

private lemma step_invalid (hinvalid : call.lower = 0 ∨ call.lower > call.upper) :
    s.step call = (s.findNearestLowerSeqRangeListElement call.lower).2 := by
  cases call <;> dsimp only [Call.lower, Call.upper] at hinvalid ⊢
  case record lo hi =>
    show (s.record lo hi).2 = _
    unfold record
    by_cases h1 : lo = 0
    · simp only [if_pos h1]
    · simp only [if_neg h1, if_pos (hinvalid.resolve_left h1)]
  case erase lo hi =>
    show (s.erase lo hi).2 = _
    unfold erase
    simp only [if_pos hinvalid]
    split_ifs <;> rfl
  case recordIfNotRecorded lo hi =>
    show (s.recordIfNotRecorded lo hi).2.2 = _
    unfold recordIfNotRecorded
    simp only [if_pos hinvalid]

lemma InPlace.upper_lt (h : s.InPlace call) : call.upper < 2 ^ 64 - 1 := by
  cases call with
  | record lower upper => exact h.1
  | erase lower upper => exact h.1
  | recordIfNotRecorded lower upper => exact h

/-- **Every call that uses no stale handle keeps a list in good order.** -/
theorem Valid.step_inPlace (h : Valid c s) (hsane : c.Sane) (hcall : s.InPlace call) :
    Valid c (s.step call) := by
  obtain ⟨L, f, hholds, hw⟩ := h
  have hbound := hcall.upper_lt
  by_cases hvalid : 1 ≤ call.lower ∧ call.lower ≤ call.upper
  swap
  · rw [step_invalid (by omega)]
    exact ⟨L, f, hholds.find hw _, hw⟩
  obtain ⟨hlo, hle⟩ := hvalid
  cases call <;> dsimp only [Call.lower, Call.upper] at hlo hle hbound
  case record lo hi =>
    obtain ⟨r, hr, hinserts⟩ :=
      (hholds.recordChecked hsane hw hlo hle hbound).result (hcall.2 hlo hle)
    show Valid c (s.record lo hi).2
    rw [recordChecked_eq hr]
    exact hinserts.valid hw hlo hle hbound
  case erase lo hi =>
    obtain ⟨r, hr, herases⟩ :=
      (hholds.eraseChecked hsane hw hlo hle hbound).result (hcall.2 hlo hle)
    show Valid c (s.erase lo hi).2
    rw [eraseChecked_eq hr]
    exact herases.valid hw hle
  case recordIfNotRecorded lo hi =>
    obtain ⟨-, hchecks⟩ := hholds.recordIfNotRecorded hsane hw hlo hle hbound
    show Valid c (s.recordIfNotRecorded lo hi).2.2
    split_ifs at hchecks with hno
    · exact hchecks.valid hw hlo hle hbound
    · exact ⟨L, f, hchecks.2, hw⟩

section

variable (h : Valid (fixedStorage mallocOk) s)

include h

lemma Valid.inPlace_fixed (hcall : call.upper < 2 ^ 64 - 1) : s.InPlace call := by
  obtain ⟨L, f, hholds, hw⟩ := h
  have hplace : ∀ lo hi, SplitsInPlace (fixedStorage mallocOk) lo hi L f :=
    fun _ _ _ => .inl (.inl rfl)
  cases call with
  | record lo hi => exact ⟨hcall, fun _ hle => hholds.not_recordMoves (.inl rfl) hw hle⟩
  | erase lo hi =>
    exact ⟨hcall, fun _ hle => hholds.not_eraseMovesRange (.inl rfl) (hplace lo hi) hw hle⟩
  | recordIfNotRecorded lo hi => exact hcall

/-- **Every call keeps a list with fixed storage in good order.** -/
theorem Valid.step (hcall : call.upper < 2 ^ 64 - 1) :
    Valid (fixedStorage mallocOk) (s.step call) :=
  h.step_inPlace (fixedStorage_sane mallocOk) (h.inPlace_fixed hcall)

lemma Valid.run {calls : List Call} (hcalls : ∀ c ∈ calls, c.upper < 2 ^ 64 - 1) :
    Valid (fixedStorage mallocOk) (s.run calls) := by
  induction calls generalizing s with
  | nil => exact h
  | cons c calls ih =>
    rw [forall_mem_cons] at hcalls
    exact ih (h.step hcalls.1) hcalls.2

end

/-! ### The constructor -/

/-- The parameters of the storage the constructor sets up. -/
def createdStorage (startGrowBy startShrinkBy : ℕ) (shared mallocOk : Bool) : Storage :=
  if shared then fixedStorage mallocOk else ⟨startGrowBy, startShrinkBy, mallocOk⟩

lemma createdStorage_sane (startGrowBy startShrinkBy : ℕ) (shared mallocOk : Bool) :
    (createdStorage startGrowBy startShrinkBy shared mallocOk).Sane := by
  unfold createdStorage
  split_ifs
  · exact fixedStorage_sane mallocOk
  · exact ⟨Int.natCast_nonneg _, Int.natCast_nonneg _⟩

lemma toLong_eq (h : x < 2 ^ 63) : toLong x = x := by
  unfold toLong
  rw [Nat.mod_eq_of_lt (by omega), if_pos h]

private lemma freeNew_holds {arraySize : ℤ} {baseArray : ℕ} (hpos : 0 ≤ arraySize)
    (hbase : 0 < arraySize → baseArray = 1) (hroom : c.shrinkBy = 0 ∨ arraySize ≤ c.shrinkBy)
    (hs : s = { mem := fun _ => ⟨0, 0, 0, 0⟩, brk := 1 + arraySize.toNat, mallocOk := c.mallocOk,
                baseArray := baseArray, arraySize := arraySize, listSize := arraySize,
                growBy := c.growBy, shrinkBy := c.shrinkBy, headp := 0, freep := 0, hintp := 0 }) :
    ∃ f, Holds c (freeNew arraySize.toNat 0 s) [] f := by
  have hbrk : s.brk = 1 + arraySize.toNat := by rw [hs]
  have hbuild : Building c s [] [] arraySize.toNat := by
    refine ⟨⟨⟨trivial, trivial, ?_, ?_, nodup_nil, by simp⟩, by simp, .inl ?_, ?_, by simp,
      ?_⟩, ?_, ?_⟩
    · rw [hs]; rfl
    · rw [hs]; rfl
    · rw [hs]
    · rw [hs]; rfl
    · omega
    · rw [hs]
      simp [Int.toNat_of_nonneg hpos]
    · rw [hs]
      simpa using hroom
  have hzero : arraySize.toNat = 0 ∨ s.baseArray = 1 := by
    rw [hs]
    rcases eq_or_lt_of_le hpos with hzero | hlt
    · exact .inl (by omega)
    · exact .inr (hbase hlt)
  rcases hzero with hzero | hone
  · rw [hzero] at hbuild ⊢
    refine ⟨[], hbuild.toLaid, hbuild.listSize_eq, ?_⟩
    show s.arraySize = 0
    rw [hs]
    show arraySize = 0
    omega
  · obtain ⟨hloop, harray⟩ := hbuild.freeNew (i := 0) (fun _ => by omega) (by simp) (by omega)
    refine ⟨_, hloop.toLaid, hloop.listSize_eq, ?_⟩
    rw [harray, hs]
    simp [Int.toNat_of_nonneg hpos]

/-- **The constructor makes a list that holds nothing.** -/
theorem create_holds {startSize startGrowBy startShrinkBy : ℕ} {shared : Bool}
    (hg : startGrowBy < 2 ^ 63) (hk : startShrinkBy < 2 ^ 63)
    (h : create startSize startGrowBy startShrinkBy shared mallocOk = some s) :
    ∃ f, Holds (createdStorage startGrowBy startShrinkBy shared mallocOk) s [] f := by
  unfold create at h
  rw [toLong_eq hg, toLong_eq hk] at h
  generalize hstart : (if startShrinkBy ≠ 0 ∧ startSize > startShrinkBy then startShrinkBy else
    startSize) = start at h
  dsimp only at h
  generalize hbase : (if toLong start > 0 ∧ mallocOk = true then 1 else 0) = baseArray at h
  generalize hsize : (if toLong start > 0 ∧ baseArray = 0 then 0 else toLong start) = arraySize at h
  have hstorage : 0 < arraySize → baseArray = 1 := by
    intro hpos
    rw [← hsize] at hpos
    split_ifs at hpos with hcond
    · exact absurd hpos (lt_irrefl 0)
    · rw [← hbase] at hcond ⊢
      split_ifs at hcond ⊢ with hmalloc
      · rfl
      · exact absurd ⟨hpos, rfl⟩ hcond
  -- there are not more elements than the list may have to spare
  have hroom : startShrinkBy = 0 ∨ arraySize ≤ startShrinkBy := by
    by_cases hzero : startShrinkBy = 0
    · exact .inl hzero
    · right
      have hle : start ≤ startShrinkBy := by
        rw [← hstart]
        split_ifs <;> omega
      rw [← hsize, toLong_eq (lt_of_le_of_lt hle hk)]
      split_ifs <;> omega
  have hcreated : createdStorage startGrowBy startShrinkBy shared mallocOk =
      ⟨if shared then 0 else startGrowBy, if shared then 0 else startShrinkBy, mallocOk⟩ := by
    cases shared <;> rfl
  have hroom' : (if shared then (0 : ℤ) else startShrinkBy) = 0 ∨
      arraySize ≤ if shared then (0 : ℤ) else startShrinkBy := by
    cases shared
    · exact hroom.imp_left fun hzero => by simp [hzero]
    · exact .inl rfl
  rw [hcreated]
  generalize (if shared then (0 : ℤ) else startGrowBy) = growBy at *
  generalize (if shared then (0 : ℤ) else startShrinkBy) = shrinkBy at *
  split_ifs at h with h1 hempty
  cases h
  rcases lt_or_ge arraySize 0 with hneg | hpos
  · -- a negative size: the assertion would have failed
    rw [Int.toNat_of_nonpos (le_of_lt hneg)] at hempty
    exact absurd hempty (ne_of_lt hneg)
  · exact freeNew_holds hpos hstorage hroom' rfl

/-! ### The representation invariant -/

/-- The representation invariant of a list with the elements `l` and the unused elements `f`. -/
structure RepInvariant (s : SeqTrackingList) (l f : List ℕ) : Prop where
  /-- `l` runs around the list, from `headp` on. -/
  list : IsRing s.next s.prev l
  headp_eq : s.headp = l.headD 0
  reachable : ∀ p, p ∈ l ↔ s.headp ≠ 0 ∧ ∃ n, s.next^[n] s.headp = p
  /-- `f` runs around the free list. -/
  free : IsRing s.next s.prev f
  freep_eq : s.freep = f.headD 0
  nodup : (l ++ f).Nodup
  lower_pos : ∀ p ∈ l, 1 ≤ s.lower p
  lower_le_upper : ∀ p ∈ l, s.lower p ≤ s.upper p
  /-- The ranges increase and leave a gap. -/
  gaps : l.Pairwise fun p q => s.lower q > s.upper p + 1
  listSize_eq : s.listSize = l.length
  arraySize_eq : s.listSize + f.length = s.arraySize
  hint : s.hintp = 0 ∨ s.hintp ∈ l

lemma Valid.repInvariant (h : Valid c s) : ∃ l f, RepInvariant s l f := by
  obtain ⟨L, f, hholds, hw⟩ := h
  refine ⟨L.map Prod.fst, f, hholds.list, hholds.headp_eq, ?_, hholds.free, hholds.freep_eq,
    hholds.nodup, ?_, ?_, ?_, ?_, ?_, hholds.hint⟩
  · intro p
    cases L with
    | nil =>
      have hheadp : s.headp = 0 := hholds.headp_eq
      simp [hheadp]
    | cons e L =>
      have hheadp : s.headp = e.1 := hholds.headp_eq
      have he0 : e.1 ≠ 0 := hholds.ne_zero e.1 (by simp)
      have hiterate := hholds.list.mem_iff_iterate (y := p)
      rw [hheadp]
      exact hiterate.trans (and_iff_right he0).symm
  · intro p hp
    obtain ⟨e, he, rfl⟩ := mem_map.mp hp
    rw [hholds.lower_eq he]
    exact hw.lower_pos e he
  · intro p hp
    obtain ⟨e, he, rfl⟩ := mem_map.mp hp
    rw [hholds.lower_eq he, hholds.upper_eq he]
    exact lower_le_upper hw.isRangeList he
  · have hbefore := hw.isRangeList.before
    rw [pairwise_map] at hbefore ⊢
    refine hbefore.imp_of_mem fun {x y} hx hy hxy => ?_
    rw [hholds.upper_eq hx, hholds.lower_eq hy]
    exact hxy
  · rw [length_map]
    exact hholds.listSize_eq
  · rw [hholds.listSize_eq, hholds.arraySize_eq]

/-- The numbers up to the end of the first range, if it begins with 1. -/
lemma Holds.largestInOrder_spec {c : Storage} {L : List (ℕ × Range)} {f : List ℕ}
    (h : Holds c s L f) (hw : WellFormed L) :
    (∀ m, 1 ≤ m → m ≤ s.largestInOrder → m ∈ nums (L.map Prod.snd)) ∧
      s.largestInOrder + 1 ∉ nums (L.map Prod.snd) := by
  cases L with
  | nil =>
    have hheadp : s.headp = 0 := h.headp_eq
    simp only [largestInOrder, hheadp, ne_eq, not_true, if_false]
    exact ⟨fun m h1 h2 => by omega, by simp [mem_nums]⟩
  | cons e L =>
    have hheadp : s.headp = e.1 := h.headp_eq
    have he : e ∈ e :: L := mem_cons_self
    have he0 : e.1 ≠ 0 := h.ne_zero e.1 (by simp)
    have hE := hw.isRangeList
    have hr : e.2 ∈ (e :: L).map Prod.snd := mem_map_of_mem he
    simp only [largestInOrder, hheadp, ne_eq, he0, not_false_iff, if_true,
      h.lower_eq he, h.upper_eq he]
    split_ifs with hone
    · exact ⟨fun m h1 h2 => ⟨e.2, hr, by omega, h2⟩, hE.notMem_of_next hr (.inl rfl)⟩
    · refine ⟨fun m h1 h2 => by omega, ?_⟩
      -- the first range begins behind 1, and the others behind it
      rintro ⟨x, hx, h1, h2⟩
      have hpos := hw.lower_pos e he
      rcases mem_cons.mp hx with rfl | hx
      · omega
      · have hbefore := (isRangeList_cons.mp hE).2.1 x hx
        unfold RangeList.Before at hbefore
        omega

/-- **The representation invariant holds in every state a list with fixed storage reaches.** -/
theorem run_repInvariant (startSize : ℕ) (shared mallocOk : Bool) (calls : List Call)
    (hcreate : create startSize 0 0 shared mallocOk = some s)
    (hcalls : ∀ c ∈ calls, c.upper < 2 ^ 64 - 1) : ∃ l f, RepInvariant (s.run calls) l f := by
  obtain ⟨f, hholds⟩ := create_holds (by decide) (by decide) hcreate
  have hstorage : createdStorage 0 0 shared mallocOk = fixedStorage mallocOk := by
    cases shared <;> rfl
  rw [hstorage] at hholds
  have hvalid : Valid (fixedStorage mallocOk) s :=
    ⟨[], f, hholds, isRangeList_nil, by simp, by simp⟩
  exact (hvalid.run hcalls).repInvariant

/-- Two elements that are melted, one that is split, and one that does not fit any more. -/
theorem run_repInvariant_three :
    ∃ s, create 3 0 0 false true = some s ∧
      ∃ l f, RepInvariant (s.run [.record 5 7, .record 1 2, .recordIfNotRecorded 3 3, .record 4 4,
        .erase 2 2, .erase 6 6, .record 100 (2 ^ 64 - 2)]) l f := by
  have hsome : (create 3 0 0 false true).isSome := by decide
  obtain ⟨s, hs⟩ := Option.isSome_iff_exists.mp hsome
  exact ⟨s, hs, run_repInvariant 3 false true _ hs (by decide)⟩

end Lampi.SeqTrackingList
