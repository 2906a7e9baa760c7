import Mathlib.Data.List.Nodup
import Mathlib.Data.List.Range

/-!
# Circular doubly linked lists

`IsRing next prev l` says that the links of the elements of `l` run through the list in its order
and from its last element back to the first, forwards along `next` and backwards along `prev`.

A ring has no distinguished first element (`IsRing.rotate`), so that unlinking and inserting have
to be understood at one place only: in front of the list.  `IsRing.unlink` and `IsRing.insertAfter`
are the two link surgeries in the form programs write them, as updates of two link fields, and
`IsRing.congr` is the frame rule: writes to elements outside the ring do not matter.

`walk` is a search for the place where a property of the elements changes, from any start and in
both directions; `walk_spec` says that it finds it.
-/

namespace LinkedRing

open Function List Nat

variable {A : Type*}

/-- `y` follows `x`. -/
def Linked (next prev : A → A) (x y : A) : Prop := next x = y ∧ prev y = x

/-- The links run through the list and back to its first element. -/
def IsRing (next prev : A → A) : List A → Prop
  | [] => True
  | x :: l => List.IsChain (Linked next prev) (x :: l ++ [x])

variable {next prev : A → A} {x y : A} {l1 l2 l : List A} {next' prev' : A → A}

lemma isRing_append_iff :
    IsRing next prev (x :: l1 ++ y :: l2) ↔
      IsChain (Linked next prev) (x :: l1 ++ [y]) ∧
        IsChain (Linked next prev) (y :: l2 ++ [x]) := by
  have heq : x :: (l1 ++ y :: l2) ++ [x] = (x :: l1) ++ y :: (l2 ++ [x]) := by simp
  show IsChain _ (x :: (l1 ++ y :: l2) ++ [x]) ↔ _
  rw [heq, isChain_split, cons_append, cons_append]

lemma IsRing.rotate (h : IsRing next prev (l1 ++ l2)) : IsRing next prev (l2 ++ l1) := by
  cases l1 with
  | nil => rwa [append_nil]
  | cons x l1 =>
    cases l2 with
    | nil => rwa [append_nil] at h
    | cons y l2 =>
      rw [isRing_append_iff] at h ⊢
      exact h.symm

lemma IsRing.congr (h : IsRing next prev l) (hl : ∀ x ∈ l, next' x = next x ∧ prev' x = prev x) :
    IsRing next' prev' l := by
  cases l with
  | nil => trivial
  | cons x l =>
    refine IsChain.imp_of_mem_imp (fun a b ha hb hab => ?_) h
    have hmem : ∀ c, c ∈ x :: l ++ [x] → c ∈ x :: l := by
      intro c hc
      rcases mem_append.mp hc with hc | hc
      · exact hc
      · rw [mem_singleton] at hc
        exact hc ▸ mem_cons_self
    exact ⟨(hl a (hmem a ha)).1.trans hab.1, (hl b (hmem b hb)).2.trans hab.2⟩

/-! ### Reading the links -/

lemma IsRing.isChain (h : IsRing next prev l) : l.IsChain (Linked next prev) := by
  cases l with
  | nil => exact isChain_nil
  | cons x l => exact IsChain.left_of_append h

lemma IsRing.next_eq (h : IsRing next prev (l1 ++ x :: y :: l2)) : next x = y ∧ prev y = x := by
  have h' := h.rotate
  exact (isChain_cons_cons.mp h').1

lemma IsRing.next_last (h : IsRing next prev (x :: l ++ [y])) : next y = x ∧ prev x = y := by
  have h' : IsRing next prev ([] ++ y :: x :: l) := h.rotate
  exact h'.next_eq

lemma IsRing.next_singleton (h : IsRing next prev [x]) : next x = x ∧ prev x = x :=
  (isChain_cons_cons.mp h).1

lemma IsRing.eq_append_last (h : IsRing next prev (x :: l)) :
    (∃ m, x :: l = m ++ [prev x]) ∧ next (prev x) = x := by
  rcases eq_nil_or_concat l with rfl | ⟨t, z, rfl⟩
  · obtain ⟨hn, hp⟩ := h.next_singleton
    exact ⟨⟨[], by rw [hp]; rfl⟩, by rw [hp, hn]⟩
  · rw [concat_eq_append, ← cons_append] at h ⊢
    obtain ⟨hn, hp⟩ := h.next_last
    exact ⟨⟨x :: t, by rw [hp]⟩, by rw [hp, hn]⟩

lemma IsRing.neighbours_mem (h : IsRing next prev l) (hx : x ∈ l) : next x ∈ l ∧ prev x ∈ l := by
  obtain ⟨l1, l2, rfl⟩ := append_of_mem hx
  have hrot : IsRing next prev (x :: (l2 ++ l1)) := h.rotate
  have hmem : ∀ y, y ∈ x :: (l2 ++ l1) → y ∈ l1 ++ x :: l2 := by
    intro y hy
    simp only [mem_cons, mem_append] at hy ⊢
    tauto
  refine ⟨hmem _ ?_, hmem _ ?_⟩
  · cases hl : l2 ++ l1 with
    | nil =>
      rw [hl] at hrot
      rw [hrot.next_singleton.1]
      exact mem_cons_self
    | cons y t =>
      rw [hl] at hrot
      have h' : IsRing next prev ([] ++ x :: y :: t) := hrot
      rw [h'.next_eq.1]
      exact mem_cons_of_mem x mem_cons_self
  · obtain ⟨⟨m, hm⟩, -⟩ := hrot.eq_append_last
    rw [hm]
    exact mem_append_right m (mem_singleton_self _)

lemma IsRing.reverse (h : IsRing next prev l) : IsRing prev next l.reverse := by
  cases l with
  | nil => trivial
  | cons x l =>
    have hrot : IsRing prev next ([x] ++ l.reverse) := by
      show IsChain _ (x :: l.reverse ++ [x])
      have hrev : x :: l.reverse ++ [x] = (x :: l ++ [x]).reverse := by simp
      rw [hrev, isChain_reverse]
      exact IsChain.imp (fun a b hab => And.symm hab) h
    rw [reverse_cons]
    exact hrot.rotate

/-- The elements of a ring are those the links lead to. -/
lemma IsRing.mem_iff_iterate (h : IsRing next prev (x :: l)) :
    y ∈ x :: l ↔ ∃ n, next^[n] x = y := by
  constructor
  · intro hy
    obtain ⟨l1, l2, hl⟩ := append_of_mem hy
    induction l1 using reverseRecOn generalizing y l2 with
    | nil => exact ⟨0, (cons.inj hl).1⟩
    | append_singleton l1 z ih =>
      have hl' : x :: l = l1 ++ z :: y :: l2 := by simpa using hl
      have hz : z ∈ x :: l := by simp [hl']
      obtain ⟨n, hn⟩ := ih hz (y :: l2) hl'
      rw [hl'] at h
      exact ⟨n + 1, by rw [iterate_succ_apply', hn, h.next_eq.1]⟩
  · rintro ⟨n, rfl⟩
    induction n with
    | zero => exact mem_cons_self
    | succ n ih =>
      rw [iterate_succ_apply']
      exact (h.neighbours_mem ih).1

/-! ### Searching -/

section Walk

variable [DecidableEq A] (P : A → Prop) [DecidablePred P] (next prev : A → A)
  (first last : A → Prop) [DecidablePred first] [DecidablePred last] (start : A)

/-- The search goes forwards while the next element has the property, backwards while the element
does not.  It stops at both ends, and on coming back to its start. -/
def walk : ℕ → A → A
  | 0, x => x
  | rounds + 1, x =>
    if P x then
      if last x then x
      else if ¬P (next x) then x
      else if next x ≠ start then walk rounds (next x)
      else next x
    else if first x then x
    else if prev x ≠ start then walk rounds (prev x)
    else prev x

variable {P next prev first last start} {l : List A} {rounds : ℕ}

variable (hchain : l.IsChain (Linked next prev))

include hchain

private lemma walk_forward (hlast : ∀ l1 x l2, l = l1 ++ x :: l2 → (last x ↔ l2 = []))
    (hP : l.Pairwise fun a b => P b → P a) (hl : l = l1 ++ x :: l2) (hx : P x) (hstart : start ∉ l2)
    (hrounds : l2.length < rounds) :
    ∃ m1 y m2, l = m1 ++ y :: m2 ∧ walk P next prev first last start rounds x = y ∧
      (m1 ≠ [] → P y) ∧ ∀ z ∈ m2, ¬P z := by
  induction l2 generalizing l1 x rounds with
  | nil =>
    obtain ⟨rounds, rfl⟩ := exists_eq_add_one_of_ne_zero (Nat.ne_zero_of_lt hrounds)
    refine ⟨l1, x, [], hl, ?_, fun _ => hx, by simp⟩
    rw [walk, if_pos hx, if_pos ((hlast _ _ _ hl).mpr rfl)]
  | cons y l2 ih =>
    obtain ⟨rounds, rfl⟩ := exists_eq_add_one_of_ne_zero (Nat.ne_zero_of_lt hrounds)
    have hne : ¬last x := fun h => cons_ne_nil y l2 ((hlast _ _ _ hl).mp h)
    have hnext : next x = y := by
      rw [hl, isChain_append_cons_cons] at hchain
      exact hchain.2.1.1
    rw [walk, if_pos hx, if_neg hne, hnext]
    by_cases hy : P y
    · have hys : y ≠ start := fun h => hstart (h ▸ mem_cons_self)
      rw [if_neg (not_not.mpr hy), if_pos hys]
      have hl' : l = (l1 ++ [x]) ++ y :: l2 := by simp [hl]
      exact ih hl' hy (fun h => hstart (mem_cons_of_mem y h)) (by simpa using hrounds)
    · rw [if_pos hy]
      refine ⟨l1, x, y :: l2, hl, rfl, fun _ => hx, ?_⟩
      intro z hz hPz
      rcases mem_cons.mp hz with rfl | hz
      · exact hy hPz
      · rw [hl, pairwise_append, pairwise_cons, pairwise_cons] at hP
        exact hy (hP.2.1.2.1 z hz hPz)

private lemma walk_backward (hfirst : ∀ l1 x l2, l = l1 ++ x :: l2 → (first x ↔ l1 = []))
    (hlast : ∀ l1 x l2, l = l1 ++ x :: l2 → (last x ↔ l2 = [])) (hl : l = l1 ++ x :: l2) (hx : ¬P x)
    (hafter : ∀ z ∈ l2, ¬P z) (hstart : start ∉ l1) (hrounds : l1.length < rounds) :
    ∃ m1 y m2, l = m1 ++ y :: m2 ∧ walk P next prev first last start rounds x = y ∧
      (m1 ≠ [] → P y) ∧ ∀ z ∈ m2, ¬P z := by
  induction l1 using reverseRecOn generalizing x l2 rounds with
  | nil =>
    obtain ⟨rounds, rfl⟩ := exists_eq_add_one_of_ne_zero (Nat.ne_zero_of_lt hrounds)
    refine ⟨[], x, l2, hl, ?_, absurd rfl, hafter⟩
    rw [walk, if_neg hx, if_pos ((hfirst _ _ _ hl).mpr rfl)]
  | append_singleton l1 w ih =>
    obtain ⟨rounds, rfl⟩ := exists_eq_add_one_of_ne_zero (Nat.ne_zero_of_lt hrounds)
    have hne : ¬first x := fun h =>
      append_ne_nil_of_right_ne_nil l1 (cons_ne_nil w []) ((hfirst _ _ _ hl).mp h)
    have hl' : l = l1 ++ w :: x :: l2 := by simp [hl]
    obtain ⟨hnext, hprev⟩ : Linked next prev w x := by
      rw [hl', isChain_append_cons_cons] at hchain
      exact hchain.2.1
    have hws : w ≠ start := fun h => hstart (h ▸ by simp)
    have hafter' : ∀ z ∈ x :: l2, ¬P z := forall_mem_cons.mpr ⟨hx, hafter⟩
    rw [walk, if_neg hx, if_neg hne, hprev, if_pos hws]
    by_cases hw : P w
    · -- one more look back at `x`, which does not have the property
      have hrounds' : l1.length < rounds := by simpa using hrounds
      obtain ⟨rounds, rfl⟩ := exists_eq_add_one_of_ne_zero (Nat.ne_zero_of_lt hrounds')
      have hnl : ¬last w := fun h => cons_ne_nil x l2 ((hlast _ _ _ hl').mp h)
      refine ⟨l1, w, x :: l2, hl', ?_, fun _ => hw, hafter'⟩
      rw [walk, if_pos hw, if_neg hnl, hnext, if_pos hx]
    · exact ih hl' hw hafter' (fun h => hstart (mem_append_left _ h)) (by simpa using hrounds)

/-- **The search finds the last element with the property**, or the first element if none has
it. -/
theorem walk_spec (hnodup : l.Nodup) (hfirst : ∀ l1 x l2, l = l1 ++ x :: l2 → (first x ↔ l1 = []))
    (hlast : ∀ l1 x l2, l = l1 ++ x :: l2 → (last x ↔ l2 = []))
    (hP : l.Pairwise fun a b => P b → P a) (hstart : start ∈ l) (hrounds : l.length ≤ rounds) :
    ∃ m1 y m2, l = m1 ++ y :: m2 ∧ walk P next prev first last start rounds start = y ∧
      (m1 ≠ [] → P y) ∧ ∀ z ∈ m2, ¬P z := by
  obtain ⟨l1, l2, hl⟩ := append_of_mem hstart
  have hnot : start ∉ l1 ∧ start ∉ l2 := by
    rw [hl, nodup_middle, nodup_cons, mem_append, not_or] at hnodup
    exact hnodup.1
  have hlen : l.length = l1.length + l2.length + 1 := by simp [hl]; omega
  by_cases hx : P start
  · exact walk_forward hchain hlast hP hl hx hnot.2 (by omega)
  · refine walk_backward hchain hfirst hlast hl hx ?_ hnot.1 (by omega)
    intro z hz hPz
    rw [hl, pairwise_append, pairwise_cons] at hP
    exact hx (hP.2.1.1 z hz hPz)

end Walk

/-! ### Link surgery -/

/-- A chain whose links are rewritten only at its last element and behind it stays a chain. -/
private lemma isChain_update {m : List A} {z : A} (h : IsChain (Linked next prev) (m ++ [z]))
    (hz : next z = x) (hx : x ∉ (m ++ [z]).tail) (hy : y ∉ (m ++ [z]).tail)
    (hnext : ∀ a ∈ m ++ [z], a ≠ z → next' a = next a)
    (hprev : ∀ b ∈ m ++ [z], b ≠ y → prev' b = prev b) :
    IsChain (Linked next' prev') (m ++ [z]) := by
  refine IsChain.imp_of_mem_tail_imp (fun a b ha hb hab => ?_) h
  have haz : a ≠ z := by
    rintro rfl
    exact hx (hz ▸ hab.1 ▸ hb)
  have hby : b ≠ y := fun h => hy (h ▸ hb)
  exact ⟨(hnext a ha haz).trans hab.1, (hprev b (mem_of_mem_tail hb) hby).trans hab.2⟩

variable [DecidableEq A] {p : A}

lemma IsRing.tail (h : IsRing next prev (x :: l)) (hnodup : (x :: l).Nodup) :
    IsRing (update next (prev x) (next x)) (update prev (next x) (prev x)) l := by
  cases l with
  | nil => trivial
  | cons y t =>
    obtain ⟨m, z, hmz⟩ : ∃ m z, y :: t = m ++ [z] :=
      ⟨_, _, (dropLast_append_getLast (cons_ne_nil y t)).symm⟩
    have hx : x ∉ m ++ [z] := hmz ▸ (nodup_cons.mp hnodup).1
    have hy : y ∉ (m ++ [z]).tail := by
      rw [← hmz]
      exact (nodup_cons.mp (nodup_cons.mp hnodup).2).1
    -- the neighbours of `x`
    have hfront : IsRing next prev ([] ++ x :: y :: t) := h
    obtain ⟨hxy, -⟩ := hfront.next_eq
    obtain ⟨hzx, hxz⟩ : next z = x ∧ prev x = z := by
      rw [hmz, ← cons_append] at h
      exact h.next_last
    have hchain : IsChain (Linked next prev) (m ++ [z]) := by
      rw [← hmz]
      exact (isChain_cons_cons.mp h).2.left_of_append
    rw [hxy, hxz]
    show IsChain _ (y :: t ++ [y])
    rw [hmz, append_assoc, singleton_append, isChain_append_cons_cons]
    refine ⟨?_, ⟨update_self _ _ _, update_self _ _ _⟩, isChain_singleton y⟩
    exact isChain_update hchain hzx (fun hmem => hx (mem_of_mem_tail hmem)) hy
      (fun a _ ha => update_of_ne ha _ _) (fun b _ hb => update_of_ne hb _ _)

lemma IsRing.unlink (h : IsRing next prev (l1 ++ x :: l2)) (hnodup : (l1 ++ x :: l2).Nodup) :
    IsRing (update next (prev x) (next x)) (update prev (next x) (prev x))
      (l1 ++ l2) := by
  have h' : IsRing next prev (x :: (l2 ++ l1)) := h.rotate
  have hnodup' : (x :: (l2 ++ l1)).Nodup :=
    (perm_append_comm : (l1 ++ x :: l2).Perm (x :: l2 ++ l1)).nodup_iff.mp hnodup
  exact (h'.tail hnodup').rotate

lemma IsRing.cons (h : IsRing next prev (l ++ [p])) (hnodup : (l ++ [p]).Nodup)
    (hx : x ∉ l ++ [p]) : IsRing (update (update next p x) x (next p))
      (update (update prev (next p) x) x p) (x :: (l ++ [p])) := by
  have hpx : p ≠ x := fun h => hx (h ▸ mem_append_right l (mem_singleton_self p))
  obtain ⟨y, t, hyt⟩ := exists_cons_of_ne_nil (append_ne_nil_of_right_ne_nil l (cons_ne_nil p []))
  -- the first element and the last one
  obtain ⟨hpy, -⟩ : next p = y ∧ prev y = p := by
    cases l with
    | nil =>
      obtain ⟨rfl, -⟩ := cons.inj hyt
      exact h.next_singleton
    | cons y' l' =>
      obtain ⟨rfl, -⟩ := cons.inj hyt
      exact h.next_last
  have hyx : y ≠ x := fun h => hx (hyt ▸ h ▸ mem_cons_self)
  have hy : y ∉ (l ++ [p]).tail := by
    rw [hyt] at hnodup ⊢
    exact (nodup_cons.mp hnodup).1
  have hchain : IsChain (Linked next prev) (l ++ [p]) := by
    rw [hyt] at h ⊢
    exact IsChain.left_of_append h
  have hchain' : IsChain (Linked (update (update next p x) x (next p))
      (update (update prev (next p) x) x p)) (l ++ [p]) := by
    refine isChain_update hchain hpy hy hy (fun a ha hap => ?_) (fun b hb hby => ?_)
    · have hax : a ≠ x := fun h => hx (h ▸ ha)
      rw [update_of_ne hax, update_of_ne hap]
    · have hbx : b ≠ x := fun h => hx (h ▸ hb)
      rw [update_of_ne hbx, update_of_ne (hpy.symm ▸ hby)]
  show IsChain _ (x :: (l ++ [p]) ++ [x])
  rw [cons_append, append_assoc, singleton_append]
  have hlast : IsChain (Linked (update (update next p x) x (next p))
      (update (update prev (next p) x) x p)) (l ++ p :: [x]) := by
    rw [isChain_append_cons_cons]
    refine ⟨hchain', ⟨?_, ?_⟩, isChain_singleton x⟩
    · rw [update_of_ne hpx, update_self]
    · rw [update_self]
  have hfirst : l ++ p :: [x] = y :: (t ++ [x]) := by
    rw [← cons_append, ← hyt, append_assoc, singleton_append]
  rw [hfirst] at hlast ⊢
  refine isChain_cons_cons.mpr ⟨⟨?_, ?_⟩, hlast⟩
  · rw [update_self, hpy]
  · rw [update_of_ne hyx, hpy, update_self]

lemma IsRing.insertAfter (h : IsRing next prev (l1 ++ p :: l2)) (hnodup : (l1 ++ p :: l2).Nodup)
    (hx : x ∉ l1 ++ p :: l2) : IsRing (update (update next p x) x (next p))
      (update (update prev (next p) x) x p) (l1 ++ p :: x :: l2) := by
  have hsplit : l1 ++ p :: l2 = (l1 ++ [p]) ++ l2 := by simp
  have hperm : (l2 ++ l1 ++ [p]).Perm (l1 ++ p :: l2) := by
    rw [hsplit, append_assoc]
    exact perm_append_comm
  rw [hsplit] at h
  have h' := h.rotate
  rw [← append_assoc] at h'
  have hcons := h'.cons (hperm.nodup_iff.mpr hnodup) fun hmem => hx (hperm.mem_iff.mp hmem)
  rw [append_assoc, ← cons_append] at hcons
  have hback := hcons.rotate
  rwa [append_assoc, singleton_append] at hback

/-! ### Arrays -/

/-- The elements of an array, each linked to the ones beside it. -/
lemma isRing_range' {next prev : ℕ → ℕ} {a n : ℕ}
    (hnext : ∀ i < n, next (a + i) = if i + 1 = n then a else a + i + 1)
    (hprev : ∀ i < n, prev (a + i) = if i = 0 then a + (n - 1) else a + i - 1) :
    IsRing next prev (range' a n) := by
  cases n with
  | zero => trivial
  | succ n =>
    show IsChain _ (a :: range' (a + 1) n ++ [a])
    rw [← range'_succ, range'_concat, append_assoc, singleton_append,
      isChain_append_cons_cons, ← range'_concat]
    refine ⟨?_, ⟨?_, ?_⟩, isChain_singleton a⟩
    · refine (isChain_range' a (n + 1) 1).imp_of_mem_imp fun x y hx hy hxy => ?_
      rw [mem_range'_1] at hx hy
      obtain ⟨i, rfl⟩ := Nat.exists_eq_add_of_le hx.1
      have h1 := hnext i (by omega)
      have h2 := hprev (i + 1) (by omega)
      rw [if_neg (by omega)] at h1 h2
      subst hxy
      exact ⟨h1, h2⟩
    · rw [Nat.one_mul, hnext n n.lt_succ_self, if_pos rfl]
    · have h0 := hprev 0 n.succ_pos
      rw [if_pos rfl, Nat.add_zero] at h0
      rw [h0, Nat.one_mul, Nat.add_sub_cancel]

end LinkedRing
