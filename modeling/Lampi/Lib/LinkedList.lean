import Lampi.Lib.LinkedRing

/-!
# Doubly linked lists between two ends

`IsList next prev head tail l` says that the links lead from `head` through the elements of `l`, in
order, to `tail`, and back.  What lies behind the ends does not matter.  With the ends linked to
each other such a list is a ring (`isList_iff_isRing`), so that unlinking and appending come from
there: `IsList.unlink` and `IsList.append` are the two surgeries in the form programs write them,
and `IsList.congr` is the frame rule.  The links determine the list (`IsList.unique`).
-/

namespace LinkedList

open LinkedRing Function List

variable {A : Type*} {next prev : A → A} {head tail : A} {l : List A} {x : A} {l1 l2 : List A}

/-- The links lead from one end through the list to the other end, and back. -/
def IsList (next prev : A → A) (head tail : A) (l : List A) : Prop :=
  List.IsChain (Linked next prev) (head :: l ++ [tail])

/-- The links of the ends and the elements are all that counts. -/
lemma IsList.congr {next' prev' : A → A} (h : IsList next prev head tail l)
    (hl : ∀ x ∈ head :: l ++ [tail], next' x = next x ∧ prev' x = prev x) :
    IsList next' prev' head tail l := by
  refine IsChain.imp_of_mem_imp (fun a b ha hb hab => ?_) h
  exact ⟨(hl a ha).1.trans hab.1, (hl b hb).2.trans hab.2⟩

/-! ### Reading the links -/

lemma IsList.links (h : IsList next prev head tail l) (l1 l2 : List A) {y : A}
    (hl : head :: l ++ [tail] = l1 ++ x :: y :: l2) : next x = y ∧ prev y = x := by
  unfold IsList at h
  rw [hl, isChain_append_cons_cons] at h
  exact h.2.1

/-- Wherever the list is cut, the last node of the first part and the first node of the second part
are linked. -/
lemma IsList.linked_append (h : IsList next prev head tail (l1 ++ l2)) :
    Linked next prev ((head :: l1).getLast (by simp)) ((l2 ++ [tail]).head (by simp)) := by
  obtain ⟨y, t, hyt⟩ := exists_cons_of_ne_nil
    (append_ne_nil_of_right_ne_nil l2 (cons_ne_nil tail []))
  have hfirst : (l2 ++ [tail]).head (by simp) = y := by simp only [hyt, head_cons]
  rw [hfirst]
  refine h.links (head :: l1).dropLast t ?_
  rw [← hyt, ← singleton_append (l := l2 ++ [tail]), ← append_assoc,
    dropLast_append_getLast, cons_append, cons_append, append_assoc]

lemma IsList.neighbours_mem (h : IsList next prev head tail (l1 ++ x :: l2)) :
    next x ∈ l2 ++ [tail] ∧ prev x ∈ head :: l1 := by
  constructor
  · have hcut : IsList next prev head tail ((l1 ++ [x]) ++ l2) := by
      rwa [append_assoc, singleton_append]
    have hx : (head :: (l1 ++ [x])).getLast (by simp) = x := by simp
    have hlinked := hcut.linked_append.1
    rw [hx] at hlinked
    rw [hlinked]
    exact head_mem _
  · rw [show prev x = _ from h.linked_append.2]
    exact getLast_mem _

/-- **The links determine the list.** -/
theorem IsList.unique {l' : List A} (h : IsList next prev head tail l)
    (h' : IsList next prev head tail l') (hl : tail ∉ l) (hl' : tail ∉ l') : l = l' := by
  induction l generalizing head l' with
  | nil =>
    cases l' with
    | nil => rfl
    | cons y l' =>
      refine absurd ?_ hl'
      rw [← (h.links [] [] rfl).1, (h'.links [] (l' ++ [tail]) rfl).1]
      exact mem_cons_self
  | cons x l ih =>
    cases l' with
    | nil =>
      refine absurd ?_ hl
      rw [← (h'.links [] [] rfl).1, (h.links [] (l ++ [tail]) rfl).1]
      exact mem_cons_self
    | cons y l' =>
      obtain rfl : x = y := (h.links [] (l ++ [tail]) rfl).1.symm.trans
        (h'.links [] (l' ++ [tail]) rfl).1
      rw [ih (IsChain.tail h) (IsChain.tail h') (fun hin => hl (mem_cons_of_mem _ hin))
        fun hin => hl' (mem_cons_of_mem _ hin)]

/-! ### Link surgery -/

variable [DecidableEq A]

/-- With its ends linked to each other the list is a ring. -/
lemma isList_iff_isRing (hnodup : (head :: l ++ [tail]).Nodup) :
    IsList next prev head tail l ↔
      IsRing (update next tail head) (update prev head tail) (head :: l ++ [tail]) := by
  show _ ↔ IsChain _ (head :: (l ++ [tail]) ++ [head])
  have hends : head :: (l ++ [tail]) ++ [head] = head :: l ++ tail :: [head] := by simp
  rw [hends, isChain_append_cons_cons]
  have hsame : IsChain (Linked (update next tail head) (update prev head tail))
      (head :: l ++ [tail]) ↔ IsList next prev head tail l := by
    rw [IsList, isChain_iff_getElem, isChain_iff_getElem]
    refine forall_congr' fun i => forall_congr' fun hi => ?_
    -- no step begins at the last element or leads to the first
    have hlast : (head :: l ++ [tail])[i] ≠ tail := by
      intro heq
      have hidx : (head :: l ++ [tail])[l.length + 1] = tail := by simp
      have := (hnodup.getElem_inj_iff).mp (heq.trans hidx.symm)
      simp at hi
      omega
    have hfirst : (head :: l ++ [tail])[i + 1] ≠ head := by
      intro heq
      have hidx : (head :: l ++ [tail])[0] = head := rfl
      have := hnodup.getElem_inj_iff.mp (heq.trans hidx.symm)
      omega
    rw [Linked, Linked, update_of_ne hlast, update_of_ne hfirst]
  rw [hsame]
  exact ⟨fun h => ⟨h, ⟨update_self .., update_self ..⟩, isChain_singleton _⟩, fun h => h.1⟩

lemma IsList.unlink (h : IsList next prev head tail (l1 ++ x :: l2))
    (hnodup : (head :: (l1 ++ x :: l2) ++ [tail]).Nodup) :
    IsList (update next (prev x) (next x)) (update prev (next x) (prev x)) head tail
      (l1 ++ l2) := by
  obtain ⟨hnext, hprev⟩ := h.neighbours_mem
  have hring := (isList_iff_isRing hnodup).mp h
  have hsplit : head :: (l1 ++ x :: l2) ++ [tail] = (head :: l1) ++ x :: (l2 ++ [tail]) := by simp
  have hsplit' : head :: (l1 ++ l2) ++ [tail] = (head :: l1) ++ (l2 ++ [tail]) := by simp
  rw [hsplit] at hring hnodup
  have hparts := nodup_append.mp hnodup
  have hnodup' : (head :: (l1 ++ l2) ++ [tail]).Nodup := by
    rw [hsplit']
    exact hnodup.sublist ((Sublist.refl _).append (sublist_cons_self _ _))
  have hunlinked := hring.unlink hnodup
  have hxhead : x ≠ head := fun heq =>
    hparts.2.2 head mem_cons_self x mem_cons_self heq.symm
  have hxtail : x ≠ tail := by
    rintro rfl
    exact (nodup_cons.mp hparts.2.1).1 mem_concat_self
  have hprevtail : prev x ≠ tail := fun heq => hparts.2.2 _ (heq ▸ hprev) tail
    (mem_cons_of_mem _ mem_concat_self) rfl
  have hnexthead : next x ≠ head := fun heq =>
    hparts.2.2 head mem_cons_self _ (mem_cons_of_mem _ (heq ▸ hnext)) rfl
  rw [isList_iff_isRing hnodup', hsplit']
  rwa [update_of_ne hxtail, update_of_ne hxhead, update_comm hprevtail.symm,
    update_comm hnexthead.symm] at hunlinked

lemma IsList.append (h : IsList next prev head tail l) (hnodup : (head :: l ++ [tail]).Nodup)
    (hx : x ∉ head :: l ++ [tail]) :
    IsList (update (update next (prev tail) x) x tail) (update (update prev x (prev tail)) tail x)
      head tail (l ++ [x]) := by
  have hring := (isList_iff_isRing hnodup).mp h
  -- the last element, or the end if there is none
  obtain ⟨m, p, hmp⟩ : ∃ m p, head :: l = m ++ [p] :=
    ⟨_, _, (dropLast_append_getLast (cons_ne_nil head l)).symm⟩
  have hsplit : head :: l ++ [tail] = m ++ p :: [tail] := by rw [hmp]; simp
  have hsplit' : head :: (l ++ [x]) ++ [tail] = m ++ p :: x :: [tail] := by
    rw [← cons_append, hmp]
    simp
  obtain ⟨hnext, hprev⟩ := h.links m [] hsplit
  have hnodup' : (head :: (l ++ [x]) ++ [tail]).Nodup := by
    have hmiddle : head :: (l ++ [x]) ++ [tail] = (head :: l) ++ x :: [tail] := by simp
    rw [hmiddle, nodup_middle, nodup_cons]
    exact ⟨hx, hnodup⟩
  have hptail : p ≠ tail := by
    rintro rfl
    rw [hsplit] at hnodup
    exact (nodup_cons.mp hnodup.of_append_right).1 (mem_singleton_self _)
  have hxtail : x ≠ tail := by
    rintro rfl
    exact hx mem_concat_self
  have hxhead : x ≠ head := by
    rintro rfl
    exact hx mem_cons_self
  have htailhead : tail ≠ head := by
    rintro rfl
    exact (nodup_cons.mp hnodup).1 mem_concat_self
  rw [hsplit] at hring hnodup hx
  have hinserted := hring.insertAfter hnodup hx
  rw [isList_iff_isRing hnodup', hsplit', hprev]
  rw [update_of_ne hptail, hnext] at hinserted
  rwa [update_comm hptail.symm, update_comm hxtail.symm, update_comm htailhead.symm,
    update_comm hxhead.symm, update_comm hxtail.symm] at hinserted

end LinkedList
