import Lampi.Lib.LinkedRing
import Lampi.Queue.SeqTrackingList

/-!
# The links of a sequence tracking list

The pointer side of `SeqTrackingList`.  `Rings s l f` says that the elements at the addresses `l`,
in this order, form the list at `headp`, and those at `f` the free list.  Each piece of link
surgery in `freeSeqRangeListElement` and `getSeqRangeListElement` moves one address out of or into
one of the two lists and leaves everything else alone (`Frame`): `Rings.unlink`,
`Rings.appendFree`, `Rings.takeFree`, `Rings.linkIn_after` and `Rings.linkIn_front`.
-/

namespace Lampi.SeqTrackingList

open LinkedRing Function List

/-! ### Writing a field -/

section Fields

variable (s : SeqTrackingList) (p v : ℕ)

@[simp] lemma next_setNext : (s.setNext p v).next = update s.next p v := by
  funext q
  by_cases h : q = p
  · subst h; simp [next, setNext]
  · simp [next, setNext, h]

@[simp] lemma prev_setPrev : (s.setPrev p v).prev = update s.prev p v := by
  funext q
  by_cases h : q = p
  · subst h; simp [prev, setPrev]
  · simp [prev, setPrev, h]

@[simp] lemma lower_setLower : (s.setLower p v).lower = update s.lower p v := by
  funext q
  by_cases h : q = p
  · subst h; simp [lower, setLower]
  · simp [lower, setLower, h]

@[simp] lemma upper_setUpper : (s.setUpper p v).upper = update s.upper p v := by
  funext q
  by_cases h : q = p
  · subst h; simp [upper, setUpper]
  · simp [upper, setUpper, h]

private lemma update_field {β : Type} (g : SeqRangeListElement → β) (e : SeqRangeListElement)
    (he : g e = g (s.mem p)) : (fun q => g (update s.mem p e q)) = fun q => g (s.mem q) := by
  funext q
  by_cases h : q = p
  · subst h; rw [update_self, he]
  · rw [update_of_ne h]

@[simp] lemma prev_setNext : (s.setNext p v).prev = s.prev := update_field s p (·.prev) _ rfl

@[simp] lemma lower_setNext : (s.setNext p v).lower = s.lower := update_field s p (·.lower) _ rfl

@[simp] lemma upper_setNext : (s.setNext p v).upper = s.upper := update_field s p (·.upper) _ rfl

@[simp] lemma next_setPrev : (s.setPrev p v).next = s.next := update_field s p (·.next) _ rfl

@[simp] lemma lower_setPrev : (s.setPrev p v).lower = s.lower := update_field s p (·.lower) _ rfl

@[simp] lemma upper_setPrev : (s.setPrev p v).upper = s.upper := update_field s p (·.upper) _ rfl

@[simp] lemma next_setLower : (s.setLower p v).next = s.next := update_field s p (·.next) _ rfl

@[simp] lemma prev_setLower : (s.setLower p v).prev = s.prev := update_field s p (·.prev) _ rfl

@[simp] lemma upper_setLower : (s.setLower p v).upper = s.upper :=
  update_field s p (·.upper) _ rfl

@[simp] lemma next_setUpper : (s.setUpper p v).next = s.next := update_field s p (·.next) _ rfl

@[simp] lemma prev_setUpper : (s.setUpper p v).prev = s.prev := update_field s p (·.prev) _ rfl

@[simp] lemma lower_setUpper : (s.setUpper p v).lower = s.lower :=
  update_field s p (·.lower) _ rfl

@[simp] lemma headp_setNext : (s.setNext p v).headp = s.headp := rfl

@[simp] lemma headp_setPrev : (s.setPrev p v).headp = s.headp := rfl

@[simp] lemma freep_setNext : (s.setNext p v).freep = s.freep := rfl

@[simp] lemma freep_setPrev : (s.setPrev p v).freep = s.freep := rfl

end Fields

/-! ### What link surgery leaves alone -/

/-- How the storage of a list may change. -/
structure Storage where
  growBy : ℤ
  shrinkBy : ℤ
  mallocOk : Bool

def storage (s : SeqTrackingList) : Storage := ⟨s.growBy, s.shrinkBy, s.mallocOk⟩

/-- The ranges, the sizes, the hint and the storage are the same in both states. -/
structure Frame (s s' : SeqTrackingList) : Prop where
  lower : s'.lower = s.lower
  upper : s'.upper = s.upper
  listSize : s'.listSize = s.listSize
  arraySize : s'.arraySize = s.arraySize
  storage : s'.storage = s.storage
  hintp : s'.hintp = s.hintp
  baseArray : s'.baseArray = s.baseArray
  brk : s'.brk = s.brk

lemma Frame.trans {s' s'' : SeqTrackingList} (h : Frame s s') (h' : Frame s' s'') :
    Frame s s'' where
  lower := h'.lower.trans h.lower
  upper := h'.upper.trans h.upper
  listSize := h'.listSize.trans h.listSize
  arraySize := h'.arraySize.trans h.arraySize
  storage := h'.storage.trans h.storage
  hintp := h'.hintp.trans h.hintp
  baseArray := h'.baseArray.trans h.baseArray
  brk := h'.brk.trans h.brk

variable (s : SeqTrackingList)

lemma Frame.setNext (p v : ℕ) : Frame s (s.setNext p v) :=
  ⟨lower_setNext s p v, upper_setNext s p v, rfl, rfl, rfl, rfl, rfl, rfl⟩

lemma Frame.setPrev (p v : ℕ) : Frame s (s.setPrev p v) :=
  ⟨lower_setPrev s p v, upper_setPrev s p v, rfl, rfl, rfl, rfl, rfl, rfl⟩

private lemma Frame.heads (headp freep : ℕ) :
    Frame s { s with headp, freep } := ⟨rfl, rfl, rfl, rfl, rfl, rfl, rfl, rfl⟩

/-! ### The two rings -/

/-- The list at `headp` runs through `l` and the free list through `f`. -/
structure Rings (l f : List ℕ) : Prop where
  list : IsRing s.next s.prev l
  free : IsRing s.next s.prev f
  headp_eq : s.headp = l.headD 0
  freep_eq : s.freep = f.headD 0
  nodup : (l ++ f).Nodup
  ne_zero : ∀ p ∈ l ++ f, p ≠ 0

variable {s : SeqTrackingList} {l l1 l2 f : List ℕ} {p r : ℕ}

lemma Rings.nodup_list (h : Rings s l f) : l.Nodup := h.nodup.of_append_left

lemma Rings.nodup_free (h : Rings s l f) : f.Nodup := h.nodup.of_append_right

lemma Rings.notMem_free (h : Rings s l f) (hp : p ∈ l) : p ∉ f :=
  fun hf => (nodup_append.mp h.nodup).2.2 p hp p hf rfl

/-- Writes to the links of elements of one ring do not disturb a disjoint one. -/
lemma IsRing.update_of_disjoint {next prev : ℕ → ℕ} {a b v w : ℕ}
    (h : IsRing next prev f) (ha : a ∉ f) (hb : b ∉ f) :
    IsRing (update next a v) (update prev b w) f := by
  refine h.congr fun x hx => ⟨?_, ?_⟩
  · exact update_of_ne (fun hxa : x = a => ha (hxa ▸ hx)) _ _
  · exact update_of_ne (fun hxb : x = b => hb (hxb ▸ hx)) _ _

/-! ### Taking an element out of the list -/

/-- Closing the gap an element leaves does not change the element's own link, also when it is the
only one of its ring. -/
private lemma update_next_prev (s : SeqTrackingList) (p : ℕ) :
    update s.next (s.prev p) (s.next p) p = s.next p := by
  by_cases h : p = s.prev p
  · nth_rewrite 3 [h]
    exact update_self _ _ _
  · exact update_of_ne h _ _

private lemma unlink_eq (hp : s.next p ≠ 0) :
    s.unlink p =
      { (s.setNext (s.prev p) (s.next p)).setPrev (s.next p) (s.prev p) with
        headp := if p = s.headp then if s.next p ≠ p then s.next p else 0 else s.headp } := by
  unfold unlink
  simp only [hp, ne_eq, not_false_iff, if_true, next_setNext, prev_setNext, update_next_prev,
    next_setPrev, headp_setPrev, headp_setNext]
  split_ifs <;> rfl

lemma Rings.unlink (h : Rings s (l1 ++ p :: l2) f) :
    Rings (s.unlink p) (l1 ++ l2) f ∧ Frame s (s.unlink p) := by
  have hmem : p ∈ l1 ++ p :: l2 := by simp
  obtain ⟨hnext, hprev⟩ := h.list.neighbours_mem hmem
  have hne : s.next p ≠ 0 := h.ne_zero _ (mem_append_left f hnext)
  have hsub : (l1 ++ l2).Sublist (l1 ++ p :: l2) :=
    (Sublist.refl l1).append (sublist_cons_self p l2)
  rw [unlink_eq hne]
  refine ⟨?_, (Frame.setNext s _ _).trans ((Frame.setPrev _ _ _).trans (Frame.heads _ _ _))⟩
  have hlinks : IsRing (update s.next (s.prev p) (s.next p))
      (update s.prev (s.next p) (s.prev p)) (l1 ++ l2) := h.list.unlink h.nodup_list
  have hfree : IsRing (update s.next (s.prev p) (s.next p))
      (update s.prev (s.next p) (s.prev p)) f :=
    IsRing.update_of_disjoint h.free (h.notMem_free hprev) (h.notMem_free hnext)
  refine
    { list := ?_
      free := ?_
      headp_eq := ?_
      freep_eq := h.freep_eq
      nodup := h.nodup.sublist (hsub.append (Sublist.refl f))
      ne_zero := fun q hq => h.ne_zero q ((hsub.append (Sublist.refl f)).subset hq) }
  · show IsRing ((s.setNext _ _).setPrev _ _).next ((s.setNext _ _).setPrev _ _).prev _
    simpa using hlinks
  · show IsRing ((s.setNext _ _).setPrev _ _).next ((s.setNext _ _).setPrev _ _).prev _
    simpa using hfree
  · show (if p = s.headp then if s.next p ≠ p then s.next p else 0 else s.headp) = _
    cases l1 with
    | cons q l1 =>
      -- `p` is not the first element
      have hpq : p ≠ s.headp := by
        rw [h.headp_eq]
        rintro rfl
        exact (nodup_cons.mp h.nodup_list).1 (by simp)
      rw [if_neg hpq]
      exact h.headp_eq
    | nil =>
      have hhead : p = s.headp := h.headp_eq.symm
      rw [if_pos hhead]
      cases l2 with
      | nil => rw [if_neg (not_not.mpr h.list.next_singleton.1)]; rfl
      | cons q l2 =>
        have hq : s.next p = q := h.list.next_eq.1
        have hqp : q ≠ p := by
          rintro rfl
          exact (nodup_cons.mp h.nodup_list).1 (by simp)
        rw [hq, if_pos hqp]
        rfl

/-! ### Putting an element on the free list -/

lemma Rings.appendFree (h : Rings s l f) (hp : p ≠ 0) (hmem : p ∉ l ++ f) :
    Rings (s.appendFree p) l (f ++ [p]) ∧ Frame s (s.appendFree p) := by
  have hpl : p ∉ l := fun hp => hmem (mem_append_left f hp)
  have hpf : p ∉ f := fun hp => hmem (mem_append_right l hp)
  have hnodup : (l ++ (f ++ [p])).Nodup := by
    rw [← append_assoc, ← concat_eq_append]
    exact h.nodup.concat hmem
  have hpos : ∀ q ∈ l ++ (f ++ [p]), q ≠ 0 := by
    intro q hq
    rw [← append_assoc, mem_append, mem_singleton] at hq
    rcases hq with hq | rfl
    · exact h.ne_zero q hq
    · exact hp
  cases f with
  | nil =>
    have hfreep : s.freep = 0 := h.freep_eq
    have heq : s.appendFree p = { (s.setPrev p p).setNext p p with freep := p } := by
      unfold appendFree
      rw [if_pos hfreep]
      rfl
    rw [heq]
    refine ⟨⟨?_, ?_, h.headp_eq, rfl, hnodup, hpos⟩,
      (Frame.setPrev s _ _).trans ((Frame.setNext _ _ _).trans (Frame.heads _ _ _))⟩
    · show IsRing ((s.setPrev p p).setNext p p).next ((s.setPrev p p).setNext p p).prev l
      simpa using IsRing.update_of_disjoint h.list hpl hpl
    · show IsRing ((s.setPrev p p).setNext p p).next ((s.setPrev p p).setNext p p).prev [p]
      simp [IsRing, Linked]
  | cons q f =>
    have hfreep : s.freep = q := h.freep_eq
    have hq : q ∈ q :: f := mem_cons_self
    obtain ⟨⟨m, hm⟩, hlast⟩ := h.free.eq_append_last
    have hzl : s.prev q ∉ l := fun hz => h.notMem_free hz (h.free.neighbours_mem hq).2
    have hql : q ∉ l := fun hq' => h.notMem_free hq' hq
    have heq : s.appendFree p =
        (((s.setNext (s.prev q) p).setNext p q).setPrev q p).setPrev p (s.prev q) := by
      unfold appendFree
      rw [if_neg (hfreep.symm ▸ h.ne_zero q (mem_append_right l hq))]
      simp only [hfreep, freep_setNext]
    rw [heq]
    refine ⟨⟨?_, ?_, h.headp_eq, h.freep_eq, hnodup, hpos⟩,
      (Frame.setNext s _ _).trans ((Frame.setNext _ _ _).trans
        ((Frame.setPrev _ _ _).trans (Frame.setPrev _ _ _)))⟩
    · have hl := IsRing.update_of_disjoint (v := q) (w := s.prev q)
        (IsRing.update_of_disjoint (v := p) (w := p) h.list hzl hql) hpl hpl
      simpa using hl
    · have hring := h.free
      rw [hm] at hring hpf
      have hnodup' : (m ++ [s.prev q]).Nodup := hm ▸ h.nodup_free
      have hcons := hring.cons hnodup' hpf
      rw [hlast, ← hm] at hcons
      have hrot : IsRing _ _ ([p] ++ (q :: f)) := hcons
      simpa using hrot.rotate

/-! ### Taking an element off the free list -/

lemma Rings.takeFree (h : Rings s l (r :: f)) :
    s.takeFree.1 = r ∧ Rings s.takeFree.2 l f ∧ Frame s s.takeFree.2 := by
  have hr : r ∈ r :: f := mem_cons_self
  have hfreep : s.freep = r := h.freep_eq
  obtain ⟨hnextm, hprevm⟩ := h.free.neighbours_mem hr
  have heq : s.takeFree = (r,
      { (s.setNext (s.prev r) (s.next r)).setPrev (s.next r) (s.prev r) with
        freep := if s.next r = r then 0 else s.next r }) := by
    unfold SeqTrackingList.takeFree
    simp only [hfreep, freep_setNext, freep_setPrev, prev_setNext, next_setNext, next_setPrev,
      update_next_prev]
    split_ifs <;> rfl
  rw [heq]
  refine ⟨rfl, ?_, (Frame.setNext s _ _).trans ((Frame.setPrev _ _ _).trans (Frame.heads _ _ _))⟩
  have hnotl : ∀ q ∈ r :: f, q ∉ l := fun q hq hl => h.notMem_free hl hq
  have hsub : (l ++ f).Sublist (l ++ r :: f) := (Sublist.refl l).append (sublist_cons_self r f)
  refine
    { list := ?_
      free := ?_
      headp_eq := h.headp_eq
      freep_eq := ?_
      nodup := h.nodup.sublist hsub
      ne_zero := fun q hq => h.ne_zero q (hsub.subset hq) }
  · show IsRing ((s.setNext _ _).setPrev _ _).next ((s.setNext _ _).setPrev _ _).prev l
    simpa using IsRing.update_of_disjoint h.list (hnotl _ hprevm) (hnotl _ hnextm)
  · show IsRing ((s.setNext _ _).setPrev _ _).next ((s.setNext _ _).setPrev _ _).prev f
    simpa using h.free.tail h.nodup_free
  · show (if s.next r = r then 0 else s.next r) = _
    cases f with
    | nil => rw [if_pos h.free.next_singleton.1]; rfl
    | cons q f =>
      have hfront : IsRing s.next s.prev ([] ++ r :: q :: f) := h.free
      have hq : s.next r = q := hfront.next_eq.1
      have hqr : q ≠ r := by
        rintro rfl
        exact (nodup_cons.mp h.nodup_free).1 mem_cons_self
      rw [hq, if_neg hqr]
      rfl

/-! ### Putting an element into the list -/

private lemma nodup_insert (h : Rings s (l1 ++ l2) f) (hmem : r ∉ (l1 ++ l2) ++ f) :
    ((l1 ++ r :: l2) ++ f).Nodup := by
  rw [append_assoc, cons_append, nodup_middle, nodup_cons, ← append_assoc]
  exact ⟨hmem, h.nodup⟩

private lemma ne_zero_insert (h : Rings s (l1 ++ l2) f) (hr : r ≠ 0) :
    ∀ q ∈ (l1 ++ r :: l2) ++ f, q ≠ 0 := by
  intro q hq
  rw [append_assoc, cons_append] at hq
  rcases mem_cons.mp (perm_middle.mem_iff.mp hq) with rfl | hq
  · exact hr
  · exact h.ne_zero q (by rwa [append_assoc])

lemma Rings.linkIn_after (h : Rings s (l1 ++ p :: l2) f) (hr : r ≠ 0)
    (hmem : r ∉ (l1 ++ p :: l2) ++ f) :
    Rings (s.linkIn p r) (l1 ++ p :: r :: l2) f ∧ Frame s (s.linkIn p r) := by
  have hp : p ∈ l1 ++ p :: l2 := by simp
  have hp0 : p ≠ 0 := h.ne_zero p (mem_append_left f hp)
  have hrl : r ∉ l1 ++ p :: l2 := fun hr => hmem (mem_append_left f hr)
  have hrf : r ∉ f := fun hr => hmem (mem_append_right _ hr)
  obtain ⟨hnextm, -⟩ := h.list.neighbours_mem hp
  have heq : s.linkIn p r =
      (((s.setNext p r).setNext r (s.next p)).setPrev (s.next p) r).setPrev r p := by
    unfold linkIn
    rw [if_pos hp0]
  have hsplit : l1 ++ p :: l2 = (l1 ++ [p]) ++ l2 := by simp
  have hsplit' : l1 ++ p :: r :: l2 = (l1 ++ [p]) ++ r :: l2 := by simp
  have hheadp : s.headp = (l1 ++ p :: r :: l2).headD 0 := by
    rw [h.headp_eq]
    cases l1 <;> rfl
  rw [heq]
  refine ⟨⟨?_, ?_, hheadp, h.freep_eq, ?_, ?_⟩,
    (Frame.setNext s _ _).trans ((Frame.setNext _ _ _).trans
      ((Frame.setPrev _ _ _).trans (Frame.setPrev _ _ _)))⟩
  · simpa using h.list.insertAfter h.nodup_list hrl
  · have hf := IsRing.update_of_disjoint (v := s.next p) (w := p)
      (IsRing.update_of_disjoint (v := r) (w := r) h.free (h.notMem_free hp)
        (h.notMem_free hnextm)) hrf hrf
    simpa using hf
  · rw [hsplit']
    rw [hsplit] at h hmem
    exact nodup_insert h hmem
  · rw [hsplit']
    rw [hsplit] at h
    exact ne_zero_insert h hr

lemma Rings.linkIn_front (h : Rings s l f) (hr : r ≠ 0) (hmem : r ∉ l ++ f) :
    Rings (s.linkIn 0 r) (r :: l) f ∧ Frame s (s.linkIn 0 r) := by
  have hrl : r ∉ l := fun hr => hmem (mem_append_left f hr)
  have hrf : r ∉ f := fun hr => hmem (mem_append_right _ hr)
  have h' : Rings s ([] ++ l) f := h
  have hnodup : ((r :: l) ++ f).Nodup := nodup_insert h' hmem
  have hpos : ∀ q ∈ (r :: l) ++ f, q ≠ 0 := ne_zero_insert h' hr
  cases l with
  | nil =>
    have hheadp : s.headp = 0 := h.headp_eq
    have heq : s.linkIn 0 r = { (s.setPrev r r).setNext r r with headp := r } := by
      unfold linkIn
      rw [if_neg (not_not.mpr rfl), if_neg (not_not.mpr hheadp)]
      rfl
    rw [heq]
    refine ⟨⟨?_, ?_, rfl, h.freep_eq, hnodup, hpos⟩,
      (Frame.setPrev s _ _).trans ((Frame.setNext _ _ _).trans (Frame.heads _ _ _))⟩
    · show IsRing ((s.setPrev r r).setNext r r).next ((s.setPrev r r).setNext r r).prev [r]
      simp [IsRing, Linked]
    · show IsRing ((s.setPrev r r).setNext r r).next ((s.setPrev r r).setNext r r).prev f
      simpa using IsRing.update_of_disjoint h.free hrf hrf
  | cons q l =>
    have hheadp : s.headp = q := h.headp_eq
    have hq : q ∈ q :: l := mem_cons_self
    have hqr : q ≠ r := fun hqr => hrl (hqr ▸ hq)
    obtain ⟨⟨m, hm⟩, hlast⟩ := h.list.eq_append_last
    have hzm : s.prev q ∈ q :: l := (h.list.neighbours_mem hq).2
    have hzr : s.prev q ≠ r := fun hzr => hrl (hzr ▸ hzm)
    have heq : s.linkIn 0 r =
        { (((s.setNext r q).setPrev r (s.prev q)).setPrev q r).setNext (s.prev q) r with
          headp := r } := by
      unfold linkIn
      rw [if_neg (not_not.mpr rfl), if_pos (hheadp.symm ▸ h.ne_zero q (mem_append_left f hq))]
      have hread : update (update s.prev r (s.prev q)) q r r = s.prev q := by
        rw [update_of_ne hqr.symm, update_self]
      simp only [hheadp, headp_setNext, headp_setPrev, prev_setNext, prev_setPrev, hread]
    rw [heq]
    refine ⟨⟨?_, ?_, rfl, h.freep_eq, hnodup, hpos⟩,
      (Frame.setNext s _ _).trans ((Frame.setPrev _ _ _).trans ((Frame.setPrev _ _ _).trans
        ((Frame.setNext _ _ _).trans (Frame.heads _ _ _))))⟩
    · show IsRing ((((s.setNext r q).setPrev r (s.prev q)).setPrev q r).setNext (s.prev q) r).next
        ((((s.setNext r q).setPrev r (s.prev q)).setPrev q r).setNext (s.prev q) r).prev _
      have hring := h.list
      rw [hm] at hring hrl
      have hcons := hring.cons (hm ▸ h.nodup_list) hrl
      rw [hlast, ← hm] at hcons
      simp only [next_setNext, next_setPrev, prev_setNext, prev_setPrev]
      rwa [update_comm hzr, update_comm hqr] at hcons
    · show IsRing ((((s.setNext r q).setPrev r (s.prev q)).setPrev q r).setNext (s.prev q) r).next
        ((((s.setNext r q).setPrev r (s.prev q)).setPrev q r).setNext (s.prev q) r).prev _
      have hf := IsRing.update_of_disjoint (v := r) (w := r)
        (IsRing.update_of_disjoint (v := q) (w := s.prev q) h.free hrf hrf)
        (h.notMem_free hzm) (h.notMem_free hq)
      simpa using hf

/-! ### The ends of the list -/

lemma Rings.eq_headp_iff (h : Rings s (l1 ++ p :: l2) f) : p = s.headp ↔ l1 = [] := by
  rw [h.headp_eq]
  cases l1 with
  | nil => simp
  | cons q l1 =>
    have hnodup := h.nodup_list
    rw [cons_append, nodup_cons] at hnodup
    have hpq : p ≠ q := fun hpq => hnodup.1 (hpq ▸ by simp)
    simp [hpq]

lemma Rings.next_eq_headp_iff (h : Rings s (l1 ++ p :: l2) f) : s.next p = s.headp ↔ l2 = [] := by
  cases l2 with
  | nil =>
    have hnext : s.next p = s.headp := by
      rw [h.headp_eq]
      cases l1 with
      | nil => exact h.list.next_singleton.1
      | cons q l1 => exact h.list.next_last.1
    simp [hnext]
  | cons q l2 =>
    have hsplit : l1 ++ p :: q :: l2 = (l1 ++ [p]) ++ q :: l2 := by simp
    rw [h.list.next_eq.1]
    rw [hsplit] at h
    simp [h.eq_headp_iff]

/-- Only the links and the two heads count for the rings. -/
lemma Rings.congr (h : Rings s l f) (hnext : s'.next = s.next) (hprev : s'.prev = s.prev)
    (hheadp : s'.headp = s.headp) (hfreep : s'.freep = s.freep) : Rings s' l f where
  list := by rw [hnext, hprev]; exact h.list
  free := by rw [hnext, hprev]; exact h.free
  headp_eq := hheadp.trans h.headp_eq
  freep_eq := hfreep.trans h.freep_eq
  nodup := h.nodup
  ne_zero := h.ne_zero

end Lampi.SeqTrackingList
