import Lampi.Queue.Equiv.Matching

/-!
# Correctness of the receive queues

Fragments arrive and receives are posted in any order.  As long as no copy counts more bytes than
the fragment has (`Communicator.Exact`), the communicator pairs messages and receives as the
reference matcher does (`run_matchesReference`), and every fragment and every receive is where it
should be (`run_conserved`).

`run_cutRun` shows what happens when the buffer of a non-contiguous receive ends inside a fragment.
-/

namespace Lampi

open OrderedMatching Function List Communicator BaseRecvFragDesc

variable {messages : Messages} {arrived A A' : List BaseRecvFragDesc} {N : ℕ → ℕ}
  {ok : ℕ → List BaseRecvFragDesc} {late : Set ℕ} {m : Matcher Posting ℕ ℕ}
  {s s' t : Communicator} {f g : BaseRecvFragDesc} {p : Posting} {src n id proc : ℕ} {late' : Set ℕ}
  {m' : Matcher Posting ℕ ℕ} {kept rest : List BaseRecvFragDesc} {fuel groupSize : ℕ}
  {events : List Event} {q : Posting × ℕ × ℕ}

/-! ### The history only grows -/

namespace Communicator

variable (s)

lemma checkPosted_grows (f : BaseRecvFragDesc) : Grows s (s.checkPostedRecvListForMatch f).1 := by
  rw [checkPosted_eq]
  match s.candidates f with
  | [] => exact Grows.refl s
  | (true, _) :: _ => exact ⟨prefix_refl _, rfl⟩
  | (false, _) :: rest =>
    rw [takeFirst]
    split_ifs <;> exact ⟨prefix_refl _, rfl⟩

lemma searchOkToMatch_grows (id proc n : ℕ) (kept rest : List BaseRecvFragDesc)
    (s : Communicator) : Grows s (searchOkToMatch id proc n kept rest s).1 := by
  induction rest generalizing kept s with
  | nil => exact Grows.refl s
  | cons f rest ih =>
    have hprocess := ((s.setOkToMatch proc (kept ++ rest)).processMatchedData_frame id f).2
    simp only [searchOkToMatch]
    split_ifs
    · exact hprocess
    · exact Grows.trans hprocess (ih _ _)
    · exact ih _ _

lemma matchAheadOfSeq_grows (proc fuel : ℕ) (s : Communicator) :
    Grows s (matchAheadOfSeq proc fuel s) := by
  induction fuel generalizing s with
  | zero => exact Grows.refl s
  | succ fuel ih =>
    unfold matchAheadOfSeq
    dsimp only
    split
    · exact Grows.refl s
    case h_2 kept f rest hspan =>
      have hfound := s.checkPosted_grows f
      set found := s.checkPostedRecvListForMatch f
      have hplace := ((found.1.setAheadOfSeq proc (kept ++ rest)).place_stays proc f found.2).2
      set placed := (found.1.setAheadOfSeq proc (kept ++ rest)).place proc f found.2
      have hplaced : Grows s (placed.1.completeIf placed.2 found.2) :=
        hfound.trans (Grows.trans hplace (completeIf_frame ..).2)
      refine Grows.trans ?_ (ih _)
      split_ifs
      · exact hplaced
      · exact hplaced.trans (takeSameMessage_grows ..)

variable (f)

/-- What `handleReceivedFrag` does with a fragment in sequence before it advances: it is processed
with the receive found for it, with what the search finds, or put on `OkToMatchRecvFrags`. -/
def matchInSequence : Communicator × Bool :=
  let found := s.checkPostedRecvListForMatch f
  let placed := found.1.place f.srcProcID f found.2
  match found.2 with
  | some id => if placed.2 then placed else placed.1.searchForFragsWithSpecifiedISendSeqNum id
  | none => placed

/-- The first part of it: no search. -/
def placeFound : Communicator × Bool :=
  (s.checkPostedRecvListForMatch f).1.place f.srcProcID f (s.checkPostedRecvListForMatch f).2

lemma matchInSequence_cases :
    s.matchInSequence f = s.placeFound f ∨ ∃ id, (s.checkPostedRecvListForMatch f).2 = some id ∧
      (s.placeFound f).2 = false ∧
      s.matchInSequence f = (s.placeFound f).1.searchForFragsWithSpecifiedISendSeqNum id := by
  unfold matchInSequence
  dsimp only
  split
  case h_1 id hid =>
    split_ifs with hdone
    · exact .inl rfl
    · exact .inr ⟨id, hid, Bool.eq_false_of_not_eq_true hdone, rfl⟩
  case h_2 => exact .inl rfl

lemma placeFound_grows : Grows (s.placeFound f).1 (s.matchInSequence f).1 := by
  rcases s.matchInSequence_cases f with h | ⟨id, -, -, h⟩ <;> rw [h]
  · exact Grows.refl _
  · exact searchOkToMatch_grows ..

lemma matchInSequence_grows : Grows s (s.matchInSequence f).1 :=
  (s.checkPosted_grows f).trans (Grows.trans (place_stays ..).2 (s.placeFound_grows f))

variable {f}

variable {s}

lemma handleReceivedFrag_of_eq (h : f.isendSeq = s.nextExpectedIsendSeqs f.srcProcID) :
    s.handleReceivedFrag f =
      (((s.matchInSequence f).1.advance f.srcProcID).matchFragsInAheadOfSequenceList
        f.srcProcID).completeIf (s.matchInSequence f).2 (s.checkPostedRecvListForMatch f).2 := by
  have hempty : ∀ t : Communicator,
      (if (t.aheadOfSeqRecvFrags f.srcProcID).length > 0 then
          t.matchFragsInAheadOfSequenceList f.srcProcID
        else t) = t.matchFragsInAheadOfSequenceList f.srcProcID := by
    intro t
    split_ifs with hlength
    · rfl
    · unfold matchFragsInAheadOfSequenceList
      rw [Nat.eq_zero_of_not_pos hlength]
      rfl
  unfold handleReceivedFrag
  rw [if_pos h]
  dsimp only
  rw [hempty]
  rfl

lemma handleReceivedFrag_of_lt (h : f.isendSeq < s.nextExpectedIsendSeqs f.srcProcID) :
    s.handleReceivedFrag f = (s.place f.srcProcID f (s.isThisMissingFrag f)).1.completeIf
        (s.place f.srcProcID f (s.isThisMissingFrag f)).2 (s.isThisMissingFrag f) := by
  unfold handleReceivedFrag
  rw [if_neg (Nat.ne_of_lt h), if_pos h]

lemma handleReceivedFrag_of_gt (h : s.nextExpectedIsendSeqs f.srcProcID < f.isendSeq) :
    s.handleReceivedFrag f =
      s.setAheadOfSeq f.srcProcID (s.aheadOfSeqRecvFrags f.srcProcID ++ [f]) := by
  unfold handleReceivedFrag
  rw [if_neg (Nat.ne_of_gt h), if_neg (Nat.lt_asymm h)]

/-- A fragment of message `n` is handled as `fragOrder` says. -/
theorem handleReceivedFrag_fragOrder {width : ℕ} (hf : f.isendSeq = isendSeqOf width n) :
    s.handleReceivedFrag f = match fragOrder width n (s.nextExpectedIsendSeqs f.srcProcID) with
      | .lt => (s.place f.srcProcID f (s.isThisMissingFrag f)).1.completeIf
          (s.place f.srcProcID f (s.isThisMissingFrag f)).2 (s.isThisMissingFrag f)
      | .eq => (((s.matchInSequence f).1.advance f.srcProcID).matchFragsInAheadOfSequenceList
          f.srcProcID).completeIf (s.matchInSequence f).2 (s.checkPostedRecvListForMatch f).2
      | .gt => s.setAheadOfSeq f.srcProcID (s.aheadOfSeqRecvFrags f.srcProcID ++ [f]) := by
  unfold fragOrder
  rw [← hf]
  split_ifs with heq hlt
  · exact handleReceivedFrag_of_eq heq
  · exact handleReceivedFrag_of_lt hlt
  · exact handleReceivedFrag_of_gt (by omega)

/-- The test of `matchAheadOfSeq`, as long as the number expected fits. -/
lemma bne_eq_not_isNextMessage {width : ℕ} (hf : f.isendSeq = isendSeqOf width n)
    (hnext : s.nextExpectedIsendSeqs proc < 2 ^ width) :
    (f.isendSeq != s.nextExpectedIsendSeqs proc) =
      !isNextMessage width n (s.nextExpectedIsendSeqs proc) := by
  rw [hf, isNextMessage, Nat.mod_eq_of_lt hnext]
  rfl

variable (s)

lemma handleReceivedFrag_grows (f : BaseRecvFragDesc) : Grows s (s.handleReceivedFrag f) := by
  rcases Nat.lt_trichotomy f.isendSeq (s.nextExpectedIsendSeqs f.srcProcID) with h | h | h
  · rw [handleReceivedFrag_of_lt h]
    exact (s.place_stays _ f _).2.trans (completeIf_frame ..).2
  · rw [handleReceivedFrag_of_eq h]
    refine Grows.trans ?_ (completeIf_frame ..).2
    exact (s.matchInSequence_grows f).trans (matchAheadOfSeq_grows f.srcProcID _
      ((s.matchInSequence f).1.advance f.srcProcID))
  · rw [handleReceivedFrag_of_gt h]
    exact ⟨prefix_refl _, rfl⟩

lemma checkSpecified_grows (id proc : ℕ) :
    Grows s (s.checkSpecifiedFragListsForMatch id proc).1 := by
  cases hspan : (s.okToMatchRecvFrags proc).span (fun f => !s.wants f id) with
  | mk kept rest =>
    cases rest with
    | nil =>
      unfold checkSpecifiedFragListsForMatch
      rw [hspan]
      exact Grows.refl s
    | cons f rest =>
      rw [checkSpecified_of_span hspan]
      have hfirst := (s.copyFirst_frame id proc f (kept ++ rest)).2.2
      split_ifs
      · exact hfirst
      · have hsame := copySameMessage_grows id proc f kept rest
          ((s.copyFirst id proc f (kept ++ rest)).enlist id)
        exact hfirst.trans hsame

lemma irecvStart_grows (peer : Option ℕ) (tag : ℤ) (length : ℕ) (datatype : Option CommittedType) :
    Grows (s.begun peer tag length datatype) (s.irecvStart peer tag length datatype) := by
  rw [irecvStart_eq]
  split
  · cases peer <;> exact ⟨prefix_refl _, rfl⟩
  · exact checkSpecified_grows ..

end Communicator

/-! ### The invariant -/

/-- Of the fragments that arrived, those in sequence (`A`) are where `Core` says; the others are on
the list of fragments ahead of sequence of their process. -/
structure Queues (messages : Messages) (arrived A : List BaseRecvFragDesc) (late : Set ℕ)
    (m : Matcher Posting ℕ ℕ) (s : Communicator) : Prop where
  core : Core messages A s.nextExpectedIsendSeqs s.okToMatchRecvFrags late m s
  isFrag : ∀ f ∈ arrived, messages.IsFrag f
  nodup : (arrived.map key).Nodup
  count : ∀ f, arrived.count f = A.count f + (s.aheadOfSeqRecvFrags f.srcProcID).count f
  ahead_src : ∀ src, ∀ f ∈ s.aheadOfSeqRecvFrags src, f.srcProcID = src
  ahead_le : ∀ src, ∀ f ∈ s.aheadOfSeqRecvFrags src, s.nextExpectedIsendSeqs src ≤ f.isendSeq
  first : ∀ src n, n < s.nextExpectedIsendSeqs src → ∃ f ∈ A, messages.FragOf src n f

/-- The first fragment of the next message of a process has not arrived. -/
def Communicator.Settled (s : Communicator) (src : ℕ) : Prop :=
  ∀ f ∈ s.aheadOfSeqRecvFrags src, f.isendSeq ≠ s.nextExpectedIsendSeqs src

lemma Stays.settled (h : Stays s s') (hs : s.Settled src) : s'.Settled src := by
  unfold Settled
  rw [h.ahead, h.next]
  exact hs

section Invariant

variable (h : Queues messages arrived A late m s)

include h

lemma Queues.mem_of_ahead (hf : f ∈ s.aheadOfSeqRecvFrags src) : f ∈ arrived := by
  have hcount := h.count f
  rw [h.ahead_src src f hf] at hcount
  have := count_pos_iff.mpr hf
  exact count_pos_iff.mp (by omega)

lemma Queues.mem_of_mem (hf : f ∈ A) : f ∈ arrived := by
  have hcount := h.count f
  have := count_pos_iff.mpr hf
  exact count_pos_iff.mp (by omega)

lemma Queues.mem_or (hf : f ∈ arrived) : f ∈ A ∨ f ∈ s.aheadOfSeqRecvFrags f.srcProcID := by
  have hcount := h.count f
  have hpos := count_pos_iff.mpr hf
  rcases Nat.eq_zero_or_pos (A.count f) with hzero | hpos'
  · exact .inr (count_pos_iff.mp (by omega))
  · exact .inl (count_pos_iff.mp hpos')

/-- The next number expected from a process is the first of which nothing has arrived. -/
lemma Queues.frontier_eq (hsettled : s.Settled src) :
    frontier arrived src = s.nextExpectedIsendSeqs src := by
  refine (Nat.find_eq_iff _).mpr ⟨fun f hf hsrc hseq => ?_, fun n hn hmissing => ?_⟩
  · subst hsrc
    rcases h.mem_or hf with hin | hin
    · exact Nat.ne_of_lt (h.core.held.early f hin) hseq
    · exact hsettled f hin hseq
  · obtain ⟨f, hf, hfrag⟩ := h.first src n hn
    exact hmissing f (h.mem_of_mem hf) hfrag.src_eq hfrag.seq_eq

/-- The fragments in sequence and those ahead of sequence of one process are different. -/
lemma Queues.nodup_ahead (src : ℕ) : ((A ++ s.aheadOfSeqRecvFrags src).map key).Nodup := by
  have hsub : (A ++ s.aheadOfSeqRecvFrags src).Subperm arrived := by
    refine subperm_ext_iff.mpr fun f _ => ?_
    rw [count_append, h.count f]
    by_cases hsrc : f.srcProcID = src
    · rw [hsrc]
    · rw [count_eq_zero_of_not_mem fun hf => hsrc (h.ahead_src src f hf)]
      omega
  obtain ⟨l, hperm, hsublist⟩ := hsub
  exact (hperm.map _).nodup_iff.mp (h.nodup.sublist (hsublist.map _))

lemma Queues.transfer
    (hcore : Core messages A s.nextExpectedIsendSeqs s'.okToMatchRecvFrags late' m' s')
    (hstays : Stays s s') : Queues messages arrived A late' m' s' := by
  obtain ⟨hahead, hnext, -⟩ := hstays
  refine ⟨hnext ▸ hcore, h.isFrag, h.nodup, ?_, ?_, ?_, ?_⟩
  · rw [hahead]
    exact h.count
  · rw [hahead]
    exact h.ahead_src
  · rw [hahead, hnext]
    exact h.ahead_le
  · rw [hnext]
    exact h.first

variable (hnodup : ((arrived ++ [f]).map key).Nodup)

include hnodup

lemma Queues.fresh : f.key ∉ A.map key := by
  intro hin
  obtain ⟨g, hg, hkey⟩ := mem_map.mp hin
  rw [map_append] at hnodup
  exact (nodup_append.mp hnodup).2.2 _ (mem_map_of_mem (h.mem_of_mem hg)) _
    (mem_singleton_self _) hkey

lemma Queues.arrive (hf : messages.IsFrag f)
    (hcore : Core messages (A ++ [f]) s'.nextExpectedIsendSeqs s'.okToMatchRecvFrags late' m' s')
    (hahead : s'.aheadOfSeqRecvFrags = s.aheadOfSeqRecvFrags)
    (hle : ∀ src, ∀ g ∈ s.aheadOfSeqRecvFrags src, s'.nextExpectedIsendSeqs src ≤ g.isendSeq)
    (hfirst : ∀ src n, n < s'.nextExpectedIsendSeqs src →
      n < s.nextExpectedIsendSeqs src ∨ messages.FragOf src n f) :
    Queues messages (arrived ++ [f]) (A ++ [f]) late' m' s' := by
  refine ⟨hcore, forall_mem_append.mpr ⟨h.isFrag, by simpa using hf⟩, hnodup, fun g => ?_,
    by rw [hahead]; exact h.ahead_src, by rw [hahead]; exact hle, fun src n hn => ?_⟩
  · rw [hahead, count_append, count_append, h.count g]
    omega
  · rcases hfirst src n hn with hlt | hfrag
    · exact exists_mem_append_left _ (h.first src n hlt)
    · exact ⟨f, by simp, hfrag⟩

end Invariant

/-! ### Fragments ahead of sequence -/

/-- One round of `matchFragsInAheadOfSequenceList`, with the fragment it found. -/
def Communicator.matchRound (s : Communicator) (proc : ℕ) (kept : List BaseRecvFragDesc)
    (f : BaseRecvFragDesc) (rest : List BaseRecvFragDesc) : Communicator :=
  let found := s.checkPostedRecvListForMatch f
  let placed := (found.1.setAheadOfSeq proc (kept ++ rest)).place proc f found.2
  let s' := placed.1.completeIf placed.2 found.2
  if placed.2 then s'
  else takeSameMessage proc (s.nextExpectedIsendSeqs proc) found.2 kept rest s'

lemma Core.matchRound (h : Core messages A s.nextExpectedIsendSeqs s.okToMatchRecvFrags late m s)
    (hn : s.nextExpectedIsendSeqs proc = n) (hf : messages.FragOf proc n f)
    (hahead : s.aheadOfSeqRecvFrags proc = kept ++ f :: rest)
    (hrest : ∀ g ∈ rest, messages.IsFrag g ∧ g.srcProcID = proc)
    (hnodup : ((A ++ f :: rest).map key).Nodup)
    (hfirst : ∀ src n, n < s.nextExpectedIsendSeqs src → ∃ f ∈ A, messages.FragOf src n f)
    (ht : s.matchRound proc kept f rest = t) (hexact : t.Exact) :
    Core messages (A ++ f :: rest.filter (·.isendSeq = n))
        (update s.nextExpectedIsendSeqs proc (n + 1)) t.okToMatchRecvFrags late
        (m.offer messages.compatible proc n) t ∧
      t.aheadOfSeqRecvFrags =
        update s.aheadOfSeqRecvFrags proc (kept ++ rest.filter (·.isendSeq ≠ n)) ∧
      t.nextExpectedIsendSeqs = s.nextExpectedIsendSeqs ∧ t.groupSize = s.groupSize := by
  subst hn
  -- the fragment that was found is treated as the others of its message
  have hround : Communicator.takeSameMessage proc (s.nextExpectedIsendSeqs proc)
      (s.checkPostedRecvListForMatch f).2 kept (f :: rest) (s.checkPostedRecvListForMatch f).1 =
        t := by
    rw [← ht, Communicator.takeSameMessage, if_pos hf.seq_eq]
    rfl
  obtain ⟨hcore, hassigned, hframe⟩ := h.offer hf
  obtain ⟨hcore, haheadT, hnextT, hgroupT⟩ := hcore.takeSameMessage hassigned
    (by rw [hframe.ahead, hahead]) (forall_mem_cons.mpr ⟨⟨hf.isFrag, hf.src_eq⟩, hrest⟩) hnodup
    (fun k _ hlt => hfirst proc k hlt) hround hexact
  rw [filter_cons_of_pos (by simpa using hf.seq_eq)] at hcore
  rw [filter_cons_of_neg (by simpa using hf.seq_eq), hframe.ahead] at haheadT
  exact ⟨hcore, haheadT, hnextT.trans hframe.next, hgroupT.trans hframe.groupSize⟩

private lemma count_filter_seq (l : List BaseRecvFragDesc) (n : ℕ) (g : BaseRecvFragDesc) :
    (l.filter (·.isendSeq = n)).count g + (l.filter (·.isendSeq ≠ n)).count g = l.count g := by
  rw [← count_append]
  refine Perm.count_eq ?_ g
  have hperm := filter_append_perm (fun f : BaseRecvFragDesc => decide (f.isendSeq = n)) l
  simpa using hperm

section Round

variable (h : Queues messages arrived A late m s)
  (hahead : s.aheadOfSeqRecvFrags proc = kept ++ f :: rest)

include h hahead

private lemma Queues.round_hyps :
    (∀ g ∈ kept ++ f :: rest, messages.IsFrag g ∧ g.srcProcID = proc) ∧
      ((A ++ f :: rest).map key).Nodup := by
  constructor
  · rw [← hahead]
    exact fun g hg => ⟨h.isFrag g (h.mem_of_ahead hg), h.ahead_src proc g hg⟩
  · have hall := h.nodup_ahead proc
    rw [hahead] at hall
    exact hall.sublist (((sublist_append_right kept _).append_left A).map _)

/-- **A round keeps the invariant**: the next message of the process is offered. -/
theorem Queues.matchRound (hn : s.nextExpectedIsendSeqs proc = n)
    (hkept : ∀ g ∈ kept, g.isendSeq ≠ n) (hseq : f.isendSeq = n)
    (ht : s.matchRound proc kept f rest = t) (hexact : t.Exact) :
    (∃ A', Queues messages arrived A' late (m.offer messages.compatible proc n)
        (t.advance proc)) ∧
      (t.advance proc).aheadOfSeqRecvFrags =
        update s.aheadOfSeqRecvFrags proc (kept ++ rest.filter (·.isendSeq ≠ n)) ∧
      (t.advance proc).nextExpectedIsendSeqs = update s.nextExpectedIsendSeqs proc (n + 1) ∧
      t.groupSize = s.groupSize := by
  obtain ⟨hin, hnodup⟩ := h.round_hyps hahead
  have hrest : ∀ g ∈ rest, messages.IsFrag g ∧ g.srcProcID = proc :=
    fun g hg => hin g (by simp [hg])
  obtain ⟨hfrag, hsrc⟩ := hin f (by simp)
  have hf : messages.FragOf proc n f := ⟨hfrag, hsrc, hseq⟩
  obtain ⟨hcore, haheadA, hnextR, hgroupR⟩ :=
    h.core.matchRound hn hf hahead hrest hnodup h.first ht hexact
  have hnext : (t.advance proc).nextExpectedIsendSeqs =
      update s.nextExpectedIsendSeqs proc (n + 1) := by
    simp only [advance, hnextR, hn]
  change (t.advance proc).aheadOfSeqRecvFrags = _ at haheadA
  refine ⟨⟨A ++ f :: rest.filter (·.isendSeq = n), ?_, h.isFrag, h.nodup, ?_, ?_, ?_, ?_⟩, haheadA,
    hnext, hgroupR⟩
  · rw [hnext]
    exact hcore.of_eq rfl rfl rfl rfl rfl rfl
  · intro g
    rw [haheadA, h.count g, count_append, count_cons]
    by_cases hg : g.srcProcID = proc
    · rw [hg, update_self, hahead, count_append, count_append, count_cons,
        ← count_filter_seq rest n g]
      omega
    · have hne : (f == g) = false := by
        rw [beq_eq_false_iff_ne]
        rintro rfl
        exact hg hsrc
      have hzero : (rest.filter (·.isendSeq = n)).count g = 0 :=
        count_eq_zero_of_not_mem fun hgin => hg (hrest g (mem_of_mem_filter hgin)).2
      rw [update_of_ne hg, hne, hzero]
      simp
  · rw [haheadA]
    refine (forall_update_iff s.aheadOfSeqRecvFrags fun src l =>
      ∀ g ∈ l, g.srcProcID = src).mpr ⟨forall_mem_append.mpr ⟨fun g hg => ?_, fun g hg => ?_⟩,
        fun src _ => h.ahead_src src⟩
    · exact (hin g (by simp [hg])).2
    · exact (hrest g (mem_of_mem_filter hg)).2
  · intro src g hg
    rw [haheadA] at hg
    rw [hnext]
    by_cases hproc : src = proc
    · subst hproc
      rw [update_self] at hg ⊢
      have hle : n ≤ g.isendSeq := by
        rw [← hn]
        refine h.ahead_le src g ?_
        rw [hahead]
        rcases mem_append.mp hg with hg | hg
        · simp [hg]
        · simp [mem_of_mem_filter hg]
      have hne : g.isendSeq ≠ n := by
        rcases mem_append.mp hg with hg | hg
        · exact hkept g hg
        · simpa using (mem_filter.mp hg).2
      omega
    · rw [update_of_ne hproc] at hg ⊢
      exact h.ahead_le src g hg
  · intro src k hk
    rw [hnext] at hk
    rw [← hn] at hk
    rcases lt_or_of_lt_update_succ hk with hk | ⟨rfl, rfl⟩
    · exact exists_mem_append_left _ (h.first src k hk)
    · exact ⟨f, by simp, hn ▸ hf⟩

end Round

private lemma span_seq (l : List BaseRecvFragDesc) (n : ℕ) :
    (∀ f ∈ l, f.isendSeq ≠ n) ∧ l.span (fun f => f.isendSeq != n) = (l, []) ∨
      ∃ kept f rest, l = kept ++ f :: rest ∧ (∀ g ∈ kept, g.isendSeq ≠ n) ∧ f.isendSeq = n ∧
        l.span (fun f => f.isendSeq != n) = (kept, f :: rest) := by
  have hsplit := takeWhile_append_dropWhile (p := fun f : BaseRecvFragDesc => f.isendSeq != n)
    (l := l)
  have hkept : ∀ g ∈ l.takeWhile (fun f => f.isendSeq != n), g.isendSeq ≠ n :=
    fun g hg => by simpa using mem_takeWhile_imp hg
  rw [span_eq_takeWhile_dropWhile]
  cases hdrop : l.dropWhile (fun f => f.isendSeq != n) with
  | nil =>
    rw [hdrop, append_nil] at hsplit
    rw [hsplit] at hkept ⊢
    exact .inl ⟨hkept, rfl⟩
  | cons f rest =>
    rw [hdrop] at hsplit
    have hf := head_dropWhile_not (fun f : BaseRecvFragDesc => f.isendSeq != n) (l := l)
      (by simp [hdrop])
    refine .inr ⟨_, f, rest, hsplit.symm, hkept, ?_, rfl⟩
    simpa [hdrop] using hf

lemma Communicator.matchAheadOfSeq_of_none (hspan : (s.aheadOfSeqRecvFrags proc).span (fun f =>
      f.isendSeq != s.nextExpectedIsendSeqs proc) = (s.aheadOfSeqRecvFrags proc, [])) :
    matchAheadOfSeq proc (fuel + 1) s = s := by
  unfold matchAheadOfSeq
  dsimp only
  rw [hspan]

lemma Communicator.matchAheadOfSeq_of_some (hspan : (s.aheadOfSeqRecvFrags proc).span (fun f =>
      f.isendSeq != s.nextExpectedIsendSeqs proc) = (kept, f :: rest)) :
    matchAheadOfSeq proc (fuel + 1) s =
      matchAheadOfSeq proc fuel ((s.matchRound proc kept f rest).advance proc) := by
  rw [matchAheadOfSeq]
  rw [hspan]
  rfl

lemma Reference.offerAll_succ (src n count : ℕ) :
    Reference.offerAll messages src n (count + 1) m =
      Reference.offerAll messages src (n + 1) count (m.offer messages.compatible src n) := rfl

/-- **`matchFragsInAheadOfSequenceList`** offers messages of the process until the first fragment of
the next one has not arrived. -/
theorem Queues.matchAheadOfSeq (fuel : ℕ) (h : Queues messages arrived A late m s)
    (hsettled : ∀ src, src ≠ proc → s.Settled src)
    (hfuel : (s.aheadOfSeqRecvFrags proc).length ≤ fuel)
    (ht : matchAheadOfSeq proc fuel s = t) (hexact : t.Exact) :
    ∃ A' count, Queues messages arrived A' late
        (Reference.offerAll messages proc (s.nextExpectedIsendSeqs proc) count m) t ∧
      t.nextExpectedIsendSeqs =
        update s.nextExpectedIsendSeqs proc (s.nextExpectedIsendSeqs proc + count) ∧
      t.groupSize = s.groupSize ∧ ∀ src, t.Settled src := by
  induction fuel generalizing A m s with
  | zero =>
    obtain rfl : s = t := ht
    refine ⟨A, 0, h, (update_eq_self _ _).symm, rfl, fun src => ?_⟩
    by_cases hproc : src = proc
    · subst hproc
      intro f hf
      rw [length_eq_zero_iff.mp (Nat.le_zero.mp hfuel)] at hf
      exact absurd hf not_mem_nil
    · exact hsettled src hproc
  | succ fuel ih =>
    rcases span_seq (s.aheadOfSeqRecvFrags proc) (s.nextExpectedIsendSeqs proc) with
      ⟨hnone, hspan⟩ | ⟨kept, f, rest, hahead, hkept, hseq, hspan⟩
    · rw [matchAheadOfSeq_of_none hspan] at ht
      subst ht
      refine ⟨A, 0, h, (update_eq_self _ _).symm, rfl, fun src => ?_⟩
      by_cases hproc : src = proc
      · subst hproc
        exact hnone
      · exact hsettled src hproc
    · rw [matchAheadOfSeq_of_some hspan] at ht
      have hgrows := matchAheadOfSeq_grows proc fuel ((s.matchRound proc kept f rest).advance proc)
      rw [ht] at hgrows
      obtain ⟨⟨B, hround⟩, haheadR, hnextR, hgroupR⟩ :=
        h.matchRound hahead rfl hkept hseq rfl (hexact.of_grows hgrows)
      generalize (s.matchRound proc kept f rest) = r at *
      have hsettled' : ∀ src, src ≠ proc → (r.advance proc).Settled src := by
        intro src hproc
        unfold Settled
        rw [haheadR, hnextR, update_of_ne hproc, update_of_ne hproc]
        exact hsettled src hproc
      have hfuel' : ((r.advance proc).aheadOfSeqRecvFrags proc).length ≤ fuel := by
        rw [hahead, length_append, length_cons] at hfuel
        rw [haheadR, update_self, length_append]
        have := length_filter_le (fun g => decide (g.isendSeq ≠ s.nextExpectedIsendSeqs proc)) rest
        omega
      obtain ⟨C, count, hqueues, hnext, hgroup, hall⟩ := ih hround hsettled' hfuel' ht
      rw [hnextR, update_self] at hqueues hnext
      refine ⟨C, count + 1, ?_, ?_, hgroup.trans hgroupR, hall⟩
      · exact hqueues
      · rw [hnext, update_idem, Nat.add_assoc, Nat.add_comm 1 count]

/-! ### A fragment arrives -/

private lemma searchOkToMatch_of_forall (kept : List BaseRecvFragDesc)
    (hrest : ∀ f ∈ rest, f.isendSeq ≠ n) : searchOkToMatch id proc n kept rest s = (s, false) := by
  induction rest generalizing kept with
  | nil => rfl
  | cons f rest ih =>
    obtain ⟨hf, hrest⟩ := forall_mem_cons.mp hrest
    rw [searchOkToMatch, if_neg hf]
    exact ih _ hrest

/-- The search for more fragments of a message that has just been offered finds none. -/
lemma Core.search_eq {matched : Option ℕ} {done : Bool}
    (h : Core messages A N s.okToMatchRecvFrags late m s)
    (hassigned : Assigned messages A' m s src n done matched) (hid : matched = some id) :
    s.searchForFragsWithSpecifiedISendSeqNum id = (s, false) := by
  subst hid
  obtain ⟨q, hq, rfl, hmsg, -⟩ := hassigned
  obtain ⟨hseq, hpeer, -⟩ := h.receives.pairs q hq
  refine searchOkToMatch_of_forall _ fun f hf heq => ?_
  rw [hpeer] at hf
  rw [hseq] at heq
  have heligible := h.held.ok_eligible _ f hf
  exact h.waiting.proper.eligible _ _ heligible q hq (by rw [heq])

section Arrives

variable (h : Queues messages arrived A ∅ m s) (hnodup : ((arrived ++ [f]).map key).Nodup)
  (hf : messages.IsFrag f)

include h hnodup hf

lemma Queues.matchInSequence (hsettled : s.Settled f.srcProcID)
    (hseq : f.isendSeq = s.nextExpectedIsendSeqs f.srcProcID)
    (hexact : (s.matchInSequence f).1.Exact) : Queues messages (arrived ++ [f]) (A ++ [f])
        (withLate ∅ (s.matchInSequence f).2 (s.checkPostedRecvListForMatch f).2)
        (m.offer messages.compatible f.srcProcID f.isendSeq)
        ((s.matchInSequence f).1.advance f.srcProcID) ∧ Stays s (s.matchInSequence f).1 := by
  have hfragOf : messages.FragOf f.srcProcID (s.nextExpectedIsendSeqs f.srcProcID) f :=
    ⟨hf, rfl, hseq⟩
  obtain ⟨hoffered, hfound, hframe⟩ := h.core.offer hfragOf
  have hstays : Stays s (s.placeFound f).1 := hframe.stays.trans (place_stays ..).1
  obtain ⟨hplaced, hassigned⟩ := hoffered.place hfound hfragOf (h.fresh hnodup)
    (fun k _ hlt => h.first _ k hlt) (hexact.of_grows (s.placeFound_grows f))
  change Core _ _ _ (s.placeFound f).1.okToMatchRecvFrags (withLate _ (s.placeFound f).2 _) _
    (s.placeFound f).1 at hplaced
  have hresult : s.matchInSequence f = s.placeFound f := by
    rcases s.matchInSequence_cases f with hplace | ⟨id, hid, hdone, hsearch⟩
    · exact hplace
    · rw [hsearch, hplaced.search_eq hassigned hid, ← hdone]
  rw [hresult]
  generalize s.placeFound f = placed at *
  have hnextA : (placed.1.advance f.srcProcID).nextExpectedIsendSeqs =
      update s.nextExpectedIsendSeqs f.srcProcID
        (s.nextExpectedIsendSeqs f.srcProcID + 1) := by
    simp only [advance, hstays.next]
  rw [hseq]
  refine ⟨h.arrive hnodup hf ?_ hstays.ahead ?_ ?_, hstays⟩
  · rw [hnextA]
    exact hplaced.of_eq rfl rfl rfl rfl rfl rfl
  · rw [hnextA]
    refine (forall_update_iff s.nextExpectedIsendSeqs fun src k =>
      ∀ g ∈ s.aheadOfSeqRecvFrags src, k ≤ g.isendSeq).mpr ⟨fun g hg => ?_, fun src _ =>
        h.ahead_le src⟩
    exact lt_of_le_of_ne (h.ahead_le _ g hg) (hsettled g hg).symm
  · intro src k hk
    rw [hnextA] at hk
    exact (lt_or_of_lt_update_succ hk).imp_right fun ⟨hsrc, hk⟩ =>
      ⟨hf, hsrc.symm, hseq.trans hk.symm⟩

/-- **`isThisMissingFrag`** finds the receive of the message, if the message has one. -/
theorem Queues.isThisMissingFrag (hlt : f.isendSeq < s.nextExpectedIsendSeqs f.srcProcID) :
    Assigned messages A m s f.srcProcID f.isendSeq false (s.isThisMissingFrag f) := by
  -- a receive on the matched list that passes the test has the fragment's message
  have hfound : ∀ id ∈ s.matchedRecv f.srcProcID,
      (f.isendSeq == (s.recvs id).isendSeq && f.srcProcID == (s.recvs id).resltsPeer) = true →
        ∃ q ∈ m.pairs, q.1.id = id ∧ q.2 = (f.srcProcID, f.isendSeq) := by
    intro id hid htest
    obtain ⟨q, hq, rfl, hsrc⟩ := h.core.receives.matched _ id hid
    rw [Bool.and_eq_true, beq_iff_eq, beq_iff_eq, (h.core.receives.pairs q hq).isendSeq] at htest
    exact ⟨q, hq, rfl, Prod.ext hsrc htest.1.symm⟩
  rcases h.core.waiting.cover f.srcProcID f.isendSeq hlt with heligible | ⟨q, hq, hmsg⟩
  · have hnone : s.isThisMissingFrag f = none := by
      refine find?_eq_none.mpr fun id hid htest => ?_
      obtain ⟨q, hq, -, hmsg⟩ := hfound id hid htest
      exact h.core.waiting.proper.eligible _ _ heligible q hq hmsg
    rw [hnone]
    exact ⟨heligible, rfl⟩
  · obtain ⟨hsrc, hseq⟩ : q.2.1 = f.srcProcID ∧ q.2.2 = f.isendSeq := by simp [hmsg]
    have hdesc := h.core.receives.pairs q hq
    rw [hsrc, hseq] at hdesc
    rcases hdesc.state with ⟨hactive, -⟩ | ⟨-, hall, -⟩
    · have hsome : s.isThisMissingFrag f = some q.1.id := by
        cases hfind : s.isThisMissingFrag f with
        | none =>
          refine absurd ?_ (find?_eq_none.mp hfind q.1.id hactive)
          simp [hdesc.isendSeq, hdesc.resltsPeer]
        | some id =>
          obtain ⟨r, hr, rfl, hmsg'⟩ := hfound id (mem_of_find?_eq_some hfind)
            (by simpa using find?_some hfind)
          rw [h.core.waiting.proper.message r hr q hq (hmsg'.trans hmsg.symm)]
      rw [hsome]
      exact ⟨q, hq, rfl, hmsg, fun _ => hactive, nofun⟩
    · exact absurd (hall f ⟨hf, rfl, rfl⟩) (h.fresh hnodup)

lemma Queues.handleReceivedFrag_of_lt (hlt : f.isendSeq < s.nextExpectedIsendSeqs f.srcProcID)
    (ht : s.handleReceivedFrag f = t) (hexact : t.Exact) :
    Queues messages (arrived ++ [f]) (A ++ [f]) ∅ m t ∧ Stays s t := by
  have hassigned := h.isThisMissingFrag hnodup hf hlt
  have hfirst : ∀ k ∈ m.eligible f.srcProcID, k < f.isendSeq →
      ∃ g ∈ A, messages.FragOf f.srcProcID k g :=
    fun k _ hk => h.first _ k (Nat.lt_trans hk hlt)
  rw [Communicator.handleReceivedFrag_of_lt hlt] at ht
  subst ht
  have hexactP : (s.place f.srcProcID f (s.isThisMissingFrag f)).1.Exact :=
    hexact.of_grows (completeIf_frame ..).2
  obtain ⟨hplaced, -⟩ := h.core.place hassigned ⟨hf, rfl, rfl⟩ (h.fresh hnodup) hfirst hexactP
  have hplace := (s.place_stays f.srcProcID f (s.isThisMissingFrag f)).1
  generalize s.place f.srcProcID f (s.isThisMissingFrag f) = placed at *
  have hframe := (placed.1.completeIf_frame placed.2 (s.isThisMissingFrag f)).1
  have hstays := hplace.trans hframe.stays
  refine ⟨h.arrive hnodup hf ?_ hstays.ahead ?_ fun src n hn => .inl (hstays.next ▸ hn), hstays⟩
  · rw [hstays.next, hframe.ok]
    exact hplaced.completeIf
  · rw [hstays.next]
    exact h.ahead_le

lemma Queues.handleReceivedFrag_of_gt (hgt : s.nextExpectedIsendSeqs f.srcProcID < f.isendSeq) :
    Queues messages (arrived ++ [f]) A ∅ m (s.handleReceivedFrag f) := by
  rw [Communicator.handleReceivedFrag_of_gt hgt]
  have hmem : ∀ src, ∀ g ∈ (s.setAheadOfSeq f.srcProcID
      (s.aheadOfSeqRecvFrags f.srcProcID ++ [f])).aheadOfSeqRecvFrags src,
      g ∈ s.aheadOfSeqRecvFrags src ∨ g = f ∧ src = f.srcProcID := by
    intro src g hg
    simp only [setAheadOfSeq] at hg
    by_cases hsrc : src = f.srcProcID
    · subst hsrc
      simpa using hg
    · rw [update_of_ne hsrc] at hg
      exact .inl hg
  refine ⟨h.core.of_eq rfl rfl rfl rfl rfl rfl, ?_, hnodup, ?_, ?_, ?_, h.first⟩
  · exact forall_mem_append.mpr ⟨h.isFrag, by simpa using hf⟩
  · intro g
    rw [count_append, h.count g]
    simp only [setAheadOfSeq]
    by_cases hsrc : g.srcProcID = f.srcProcID
    · rw [hsrc, update_self, count_append]
      omega
    · have hne : f ≠ g := by
        rintro rfl
        exact hsrc rfl
      rw [update_of_ne hsrc, count_singleton, beq_false_of_ne hne]
      simp
  · intro src g hg
    rcases hmem src g hg with hin | ⟨rfl, rfl⟩
    · exact h.ahead_src src g hin
    · rfl
  · intro src g hg
    rcases hmem src g hg with hin | ⟨rfl, rfl⟩
    · exact h.ahead_le src g hin
    · exact Nat.le_of_lt hgt

/-- **`handleReceivedFrag`** offers the messages of the process that have become eligible. -/
theorem Queues.handleReceivedFrag (hsettled : ∀ src, s.Settled src)
    (ht : s.handleReceivedFrag f = t) (hexact : t.Exact) :
    ∃ A' count, Queues messages (arrived ++ [f]) A' ∅
        (Reference.offerAll messages f.srcProcID (s.nextExpectedIsendSeqs f.srcProcID) count m) t ∧
      t.nextExpectedIsendSeqs = update s.nextExpectedIsendSeqs f.srcProcID
        (s.nextExpectedIsendSeqs f.srcProcID + count) ∧
      t.groupSize = s.groupSize ∧ ∀ src, t.Settled src := by
  rcases Nat.lt_trichotomy f.isendSeq (s.nextExpectedIsendSeqs f.srcProcID) with hlt | heq | hgt
  · obtain ⟨hqueues, hstays⟩ := h.handleReceivedFrag_of_lt hnodup hf hlt ht hexact
    refine ⟨A ++ [f], 0, hqueues, ?_, hstays.groupSize, fun src => hstays.settled (hsettled src)⟩
    rw [hstays.next, Nat.add_zero, update_eq_self]
  · rw [handleReceivedFrag_of_eq heq] at ht
    subst ht
    have hexactL := hexact.of_grows (completeIf_frame ..).2
    have hexactS : (s.matchInSequence f).1.Exact := hexactL.of_grows
      (matchAheadOfSeq_grows f.srcProcID _ ((s.matchInSequence f).1.advance _))
    obtain ⟨hqueues, hstays⟩ := h.matchInSequence hnodup hf (hsettled f.srcProcID) heq hexactS
    have hnextA : ((s.matchInSequence f).1.advance f.srcProcID).nextExpectedIsendSeqs =
        update s.nextExpectedIsendSeqs f.srcProcID (f.isendSeq + 1) := by
      simp only [advance, hstays.next, heq]
    have hsettledA : ∀ src, src ≠ f.srcProcID →
        ((s.matchInSequence f).1.advance f.srcProcID).Settled src := by
      intro src hsrc
      unfold Settled
      rw [hnextA, update_of_ne hsrc]
      exact hstays.ahead ▸ hsettled src
    obtain ⟨B, count, hqueuesL, hnextL, hgroupL, hsettledL⟩ :=
      hqueues.matchAheadOfSeq _ hsettledA (Nat.le_refl _)
        (t := matchFragsInAheadOfSequenceList _ _) rfl hexactL
    rw [hnextA, update_self] at hqueuesL hnextL
    generalize matchFragsInAheadOfSequenceList
      ((s.matchInSequence f).1.advance f.srcProcID) f.srcProcID = t at *
    have hframe := (t.completeIf_frame (s.matchInSequence f).2
      (s.checkPostedRecvListForMatch f).2).1
    refine ⟨B, count + 1, hqueuesL.transfer ?_ hframe.stays, ?_,
      hframe.groupSize.trans (hgroupL.trans hstays.groupSize),
      fun src => hframe.stays.settled (hsettledL src)⟩
    · rw [hframe.ok, Reference.offerAll_succ, ← heq]
      exact hqueuesL.core.completeIf
    · rw [hframe.next, hnextL, update_idem, ← heq, Nat.add_assoc, Nat.add_comm 1 count]
  · subst ht
    refine ⟨A, 0, h.handleReceivedFrag_of_gt hnodup hf hgt, ?_, ?_, fun src => ?_⟩
    all_goals rw [Communicator.handleReceivedFrag_of_gt hgt]
    · exact (update_eq_self _ _).symm
    · rfl
    · intro g hg
      simp only [setAheadOfSeq] at hg ⊢
      by_cases hsrc : src = f.srcProcID
      · subst hsrc
        rw [update_self, mem_append, mem_singleton] at hg
        rcases hg with hg | rfl
        · exact hsettled _ g hg
        · exact Nat.ne_of_gt hgt
      · rw [update_of_ne hsrc] at hg
        exact hsettled src g hg

end Arrives

/-! ### A receive is posted -/

lemma Communicator.begun_begins (s : Communicator) (peer : Option ℕ) (tag : ℤ) (length : ℕ)
    (datatype : Option CommittedType) :
    Begins s ⟨s.nextIrecvIdCounter, peer, tag⟩ (s.begun peer tag length datatype) := by
  refine ⟨fun j hj => ?_, ?_, ?_, ?_, ?_, ?_, rfl, rfl, rfl, rfl, rfl, ⟨rfl, rfl, rfl, rfl⟩⟩
  · exact update_of_ne hj _ _
  all_goals simp [begun, setRecv, RecvDesc.counted]

lemma Begins.posts (h : Begins s p t) : Posts s p (t.postRecv p.id p.peer) := by
  obtain ⟨hne, htag, hseq, hcounted, hdone, -, hwild, hspecific, hmatched, hprocessed, hcounter,
      -⟩ :=
    h
  cases hpeer : p.peer with
  | none =>
    refine ⟨fun j hj => ?_, ?_, ?_, fun src => ?_, hmatched, hprocessed, hcounter⟩
    · rw [← hne j hj]
      exact update_of_ne hj _ _
    · simp only [postRecv, checkProcsForWildMatch, setRecv, update_self]
      exact ⟨htag, hseq, hcounted, hdone, by simp [hpeer]⟩
    · rw [if_pos hpeer, ← hwild]
      rfl
    · rw [if_neg (by simp [hpeer]), append_nil, ← hspecific]
      rfl
  | some src =>
    refine ⟨fun j hj => ?_, ?_, ?_, fun src' => ?_, hmatched, hprocessed, hcounter⟩
    · rw [← hne j hj]
      exact update_of_ne hj _ _
    · simp only [postRecv, postSpecific, setPostedSpecific, setRecv, update_self]
      exact ⟨htag, hseq, hcounted, hdone, by simp [hpeer]⟩
    · rw [if_neg (by simp [hpeer]), append_nil, ← hwild]
      rfl
    · simp only [postRecv, postSpecific, setPostedSpecific, setRecv]
      by_cases hsrc : src' = src
      · subst hsrc
        rw [update_self, if_pos hpeer, hspecific]
      · rw [update_of_ne hsrc, if_neg (by simp [hpeer, Ne.symm hsrc]), append_nil, hspecific]

/-- **`irecv_start`** posts a receive. -/
theorem Queues.irecvStart {peer : Option ℕ} {tag : ℤ} {length : ℕ} {datatype : Option CommittedType}
    (h : Queues messages arrived A ∅ m s) (hpos : 1 ≤ s.nextIrecvIdCounter)
    (ht : s.irecvStart peer tag length datatype = t) (hexact : t.Exact) :
    Queues messages arrived A ∅ (m.post messages.compatible ⟨s.nextIrecvIdCounter, peer, tag⟩
      (Reference.sources s.groupSize peer)) t ∧ Stays s t := by
  set p : Posting := ⟨s.nextIrecvIdCounter, peer, tag⟩ with hp
  have hbegins := s.begun_begins peer tag length datatype
  have hsources : ∀ src ∈ Reference.sources s.groupSize peer,
      p.peer = none ∨ p.peer = some src := by
    cases peer <;> simp [hp, Reference.sources]
  rw [irecvStart_eq] at ht
  split at ht
  case h_1 hnone =>
    subst ht
    have hstays : Stays s ((s.begun peer tag length datatype).postRecv p.id peer) := by
      cases peer <;> exact ⟨rfl, rfl, rfl⟩
    have hok : ((s.begun peer tag length datatype).postRecv p.id peer).okToMatchRecvFrags =
        s.okToMatchRecvFrags := by cases peer <;> rfl
    refine ⟨h.transfer ?_ hstays, hstays⟩
    rw [Matcher.post_of_forall, hok]
    · exact h.core.post rfl hpos hbegins.posts
    · exact fun src hsrc => h.core.find_eligible_eq_none (hsources src hsrc) h.first
        (Bool.eq_false_of_not_eq_true (find?_eq_none.mp hnone src hsrc))
  case h_2 src hsome =>
    obtain ⟨hany, before, after, hprocs, hbefore⟩ := find?_eq_some_iff_append.mp hsome
    subst ht
    obtain ⟨n, t, hresult, hfind, hcore, hstays⟩ :=
      h.core.checkSpecified (hsources src (by simp [hprocs])) h.first hbegins rfl hpos hany hexact
    rw [hresult]
    refine ⟨h.transfer ?_ hstays, hstays⟩
    rw [hprocs, Matcher.post_append_cons _ _ hfind]
    · exact hcore
    · exact fun i hi => h.core.find_eligible_eq_none (hsources i (by simp [hprocs, hi])) h.first
        (by simpa using hbefore i hi)

/-! ### Runs -/

/-- The communicator follows the reference matcher. -/
structure Follows (messages : Messages) (groupSize : ℕ) (r : Reference) (s : Communicator) :
    Prop where
  queues : ∃ A, Queues messages r.arrived A ∅ r.matcher s
  settled : ∀ src, s.Settled src
  counter : s.nextIrecvIdCounter = r.nextId
  pos : 1 ≤ r.nextId
  groupSize_eq : s.groupSize = groupSize

lemma init_follows (messages : Messages) (groupSize : ℕ) :
    Follows messages groupSize Reference.init (Communicator.init groupSize) := by
  refine ⟨⟨[], ⟨⟨?_, ?_, ?_⟩, ?_, ?_, ?_, ?_, ?_, ?_⟩⟩, ?_, rfl, Nat.le_refl 1, rfl⟩
  · constructor <;> simp [Communicator.init, Reference.init, Matcher.empty]
  · refine ⟨Matcher.empty_proper, ?_, ?_, ?_, ?_, ?_, ?_⟩ <;>
      simp [Reference.init, Matcher.empty, allReceives, Communicator.init]
  · constructor <;> simp [Communicator.init, Reference.init, Matcher.empty, allReceives]
    omega
  all_goals simp [Communicator.init, Reference.init, Settled]

/-- **One event**: the communicator goes on to follow the reference matcher. -/
theorem Follows.step {r : Reference} (h : Follows messages groupSize r s) (event : Event)
    (hevent : ∀ f, event = .arrive f → messages.IsFrag f ∧ ((r.arrived ++ [f]).map key).Nodup)
    (hexact : (s.step event).Exact) :
    Follows messages groupSize (r.step messages groupSize event) (s.step event) := by
  obtain ⟨⟨A, hqueues⟩, hsettled, hcounter, hpos, hgroup⟩ := h
  cases event with
  | arrive f =>
    obtain ⟨hf, hnodup⟩ := hevent f rfl
    obtain ⟨B, count, hqueues', hnext, hgroup', hsettled'⟩ :=
      hqueues.handleReceivedFrag hnodup hf hsettled rfl hexact
    have hbefore := hqueues.frontier_eq (hsettled f.srcProcID)
    have hafter := hqueues'.frontier_eq (hsettled' f.srcProcID)
    rw [hnext, update_self] at hafter
    refine ⟨⟨B, ?_⟩, hsettled', ?_, hpos, hgroup'.trans hgroup⟩
    · simp only [Reference.step, hbefore, hafter, Nat.add_sub_cancel_left]
      exact hqueues'
    · exact (s.handleReceivedFrag_grows f).2.trans hcounter
  | post peer tag length datatype =>
    obtain ⟨hqueues', hstays⟩ := hqueues.irecvStart (hcounter ▸ hpos) rfl hexact
    rw [hcounter, hgroup] at hqueues'
    refine ⟨⟨A, hqueues'⟩, fun src => ?_, ?_, Nat.le_succ_of_le hpos, hstays.groupSize.trans hgroup⟩
    · exact hstays.settled (hsettled src)
    · refine (s.irecvStart_grows peer tag length datatype).2.trans ?_
      exact congrArg (· + 1) hcounter

lemma Reference.run_arrived (messages : Messages) (groupSize : ℕ) (events : List Event) :
    (Reference.run messages groupSize events).arrived = arrivals events := by
  induction events using reverseRecOn with
  | nil => rfl
  | append_singleton events event ih =>
    simp only [Reference.run, foldl_append, arrivals, filterMap_append] at ih ⊢
    cases event with
    | arrive f => simpa [Reference.step] using ih
    | post peer tag length datatype => simpa [Reference.step] using ih

lemma Messages.Delivers.of_append {events' : List Event}
    (h : messages.Delivers (events ++ events')) : messages.Delivers events := by
  obtain ⟨hfrag, hnodup⟩ := h
  simp only [arrivals, filterMap_append] at hfrag hnodup
  exact ⟨fun f hf => hfrag f (mem_append_left _ hf),
    hnodup.sublist ((sublist_append_left _ _).map _)⟩

lemma Communicator.step_processed (s : Communicator) (event : Event) :
    s.processed <+: (s.step event).processed := by
  cases event with
  | arrive f => exact (s.handleReceivedFrag_grows f).1
  | post peer tag length datatype => exact (s.irecvStart_grows peer tag length datatype).1

/-- **Every run** follows the reference matcher, as long as the copies count right. -/
theorem run_follows (hdelivers : messages.Delivers events)
    (hexact : ((Communicator.init groupSize).run events).Exact) :
    Follows messages groupSize (Reference.run messages groupSize events)
      ((Communicator.init groupSize).run events) := by
  induction events using reverseRecOn with
  | nil => exact init_follows messages groupSize
  | append_singleton events event ih =>
    simp only [run, Reference.run, foldl_append, foldl_cons, foldl_nil] at hexact ih ⊢
    have hexact' : (events.foldl step (Communicator.init groupSize)).Exact :=
      fun e he => hexact e ((step_processed _ event).subset he)
    refine (ih hdelivers.of_append hexact').step event (fun f hf => ?_) hexact
    subst hf
    have harrived := Reference.run_arrived messages groupSize events
    simp only [Reference.run] at harrived
    obtain ⟨hfrag, hnodup⟩ := hdelivers
    simp only [arrivals, filterMap_append] at hfrag hnodup harrived
    rw [harrived]
    exact ⟨hfrag f (by simp), hnodup⟩

/-! ### Pairing -/

/-- The communicator has paired messages and receives as the reference matcher does: a fragment of
message `n` of process `src` was copied into a receive just if the matcher pairs them, fragments go
to one receive just if they are of one message, and no fragment of a message with a receive is held
back. -/
structure MatchesReference (messages : Messages) (groupSize : ℕ)
    (events : List Event) (s : Communicator) : Prop where
  pairs_iff : ∀ id src n,
    (∃ e ∈ s.processed, e.recv = id ∧ e.frag.srcProcID = src ∧ e.frag.isendSeq = n) ↔
      ∃ q ∈ (Reference.run messages groupSize events).matcher.pairs, q.1.id = id ∧ q.2 = (src, n)
  same_receive : ∀ e ∈ s.processed, ∀ e' ∈ s.processed, e.recv = e'.recv ↔
    e.frag.srcProcID = e'.frag.srcProcID ∧ e.frag.isendSeq = e'.frag.isendSeq
  copied : ∀ f ∈ arrivals events, ∀ e ∈ s.processed,
    e.frag.srcProcID = f.srcProcID → e.frag.isendSeq = f.isendSeq → ∃ e' ∈ s.processed, e'.frag = f

/-- A fragment in sequence of a message with a receive was copied. -/
lemma Core.mem_processed (h : Core messages A N ok late m s) (hf : f ∈ A) (hq : q ∈ m.pairs)
    (hmsg : q.2 = (f.srcProcID, f.isendSeq)) : ∃ e ∈ s.processed, e.frag = f := by
  rcases h.held.mem_or hf with hok | hprocessed
  · exact absurd hmsg (h.waiting.proper.eligible _ _ (h.held.ok_eligible _ f hok) q hq)
  · exact mem_map.mp hprocessed

/-- **Messages are matched in order.**  Fragments arrive in any order, receives are posted at any
time; messages and receives are paired as the reference matcher pairs them, if no copy counts more
bytes than the fragment has. -/
theorem run_matchesReference {groupSize : ℕ} {events : List Event}
    (hdelivers : messages.Delivers events)
    (hexact : ((Communicator.init groupSize).run events).Exact) :
    MatchesReference messages groupSize events ((Communicator.init groupSize).run events) := by
  obtain ⟨⟨A, hqueues⟩, -, -⟩ := run_follows hdelivers hexact
  rw [Reference.run_arrived] at hqueues
  generalize (Communicator.init groupSize).run events = s at *
  have hcore := hqueues.core
  have hheld := hcore.held
  refine ⟨fun id src n => ⟨?_, ?_⟩, fun e he e' he' => ?_, fun f hf e he hsrc hseq => ?_⟩
  · rintro ⟨e, he, rfl, rfl, rfl⟩
    obtain ⟨q, hq, hid, hmsg⟩ := hheld.paired e he
    exact ⟨q, hq, hid, hmsg⟩
  · rintro ⟨q, hq, rfl, hmsg⟩
    obtain ⟨hsrc, hseq⟩ : q.2.1 = src ∧ q.2.2 = n := by simp [hmsg]
    have hlt := hcore.waiting.pairs_lt q hq
    rw [hsrc, hseq] at hlt
    obtain ⟨f, hf, -, rfl, rfl⟩ := hqueues.first src n hlt
    obtain ⟨e, he, rfl⟩ := hcore.mem_processed hf hq hmsg
    obtain ⟨r, hr, hid, hmsg'⟩ := hheld.paired e he
    refine ⟨e, he, ?_, rfl, rfl⟩
    rw [← hid, hcore.waiting.proper.message r hr q hq (hmsg'.trans hmsg.symm)]
  · obtain ⟨q, hq, hid, hmsg⟩ := hheld.paired e he
    obtain ⟨q', hq', hid', hmsg'⟩ := hheld.paired e' he'
    constructor
    · intro heq
      have hsame : q = q' := hcore.waiting.pair_unique hq hq' (by rw [hid, hid', heq])
      rw [hsame, hmsg', Prod.mk.injEq] at hmsg
      exact ⟨hmsg.1.symm, hmsg.2.symm⟩
    · rintro ⟨hsrc, hseq⟩
      rw [hsrc, hseq] at hmsg
      rw [← hid, ← hid', hcore.waiting.proper.message q hq q' hq' (hmsg.trans hmsg'.symm)]
  · obtain ⟨q, hq, -, hmsg⟩ := hheld.paired e he
    rw [hsrc, hseq] at hmsg
    rcases hqueues.mem_or hf with hin | hin
    · exact hcore.mem_processed hin hq hmsg
    · have hlt := hcore.waiting.pairs_lt q hq
      have hle := hqueues.ahead_le _ f hin
      rw [hmsg] at hlt
      exact absurd hlt (Nat.not_lt_of_le hle)

section Cut

/-- Every message is 9 bytes long, in fragments of 4, 4 and 1 bytes. -/
def nineBytes : Messages := fun _ _ => ⟨7, [4, 4, 1], Or.inr (by decide)⟩

/-- A type of two single bytes, not marked as contiguous. -/
def twoBytes : CommittedType where
  typeMap := [⟨1, 0⟩, ⟨1, 1⟩]
  lowerBound := 0
  extent := 2
  opIndex := 0
  contiguous := false
  packedSize := 2
  packedSize_eq := rfl
  positions_eq := Bool.noConfusion
  positions_ne_nil _ := by decide

/-- A receive of two bytes is posted, a message of nine arrives.  The first fragment counts as four
bytes copied and two discarded, so the receive is complete after the second. -/
def cutRun : List Event :=
  [.post none anyTag 2 (some twoBytes),
    .arrive ((nineBytes 0 0).frag 0 0 0 true),
    .arrive ((nineBytes 0 0).frag 0 0 1 true),
    .arrive ((nineBytes 0 0).frag 0 0 2 true), .post none anyTag 9 none]

/-- The last fragment of the message goes to the next receive. -/
theorem run_cutRun :
    nineBytes.Delivers cutRun ∧
      ((Communicator.init 1).run cutRun).processed.map (fun e => (e.recv, e.frag.seqOffset)) =
        [(1, 0), (1, 4), (2, 8)] ∧
      ¬MatchesReference nineBytes 1 cutRun ((Communicator.init 1).run cutRun) := by
  refine ⟨⟨by decide, by decide +kernel⟩, by decide +kernel, fun h => ?_⟩
  have hsame := h.same_receive
  revert hsame
  decide

/-- Two messages, with the second first and the fragments of the first out of order; a receive for
each, the first one cut off between two fragments. -/
def reorderedRun : List Event :=
  [.arrive ((nineBytes 0 1).frag 0 1 0 true),
    .post none anyTag 4 (some twoBytes),
    .arrive ((nineBytes 0 0).frag 0 0 2 true),
    .arrive ((nineBytes 0 0).frag 0 0 0 true),
    .post (some 0) 7 9 none, .arrive ((nineBytes 0 0).frag 0 0 1 true)]

private lemma reorderedRun_delivers : nineBytes.Delivers reorderedRun :=
  ⟨by decide, by decide +kernel⟩

private lemma reorderedRun_exact : ((Communicator.init 1).run reorderedRun).Exact := by
  unfold Communicator.Exact
  decide

theorem run_matchesReference_reorderedRun :
    nineBytes.Delivers reorderedRun ∧ ((Communicator.init 1).run reorderedRun).Exact ∧
      MatchesReference nineBytes 1 reorderedRun ((Communicator.init 1).run reorderedRun) :=
  ⟨reorderedRun_delivers, reorderedRun_exact,
    run_matchesReference reorderedRun_delivers reorderedRun_exact⟩

end Cut

/-! ### Conservation -/

/-- The lists a receive can be on. -/
inductive Place
  | specific (src : ℕ)
  | wild
  | matched (src : ℕ)
  deriving DecidableEq

/-- The value of `WhichQueue` for the list. -/
def Place.queue : Place → RecvQueue
  | .specific _ => .postedIrecv
  | .wild => .postedWildIrecv
  | .matched _ => .matchedIrecv

def Communicator.on (s : Communicator) : Place → List ℕ
  | .specific src => s.postedSpecificRecv src
  | .wild => s.postedWildRecv
  | .matched src => s.matchedRecv src

/-- Fragments and receives are where they should be, each in one place. -/
structure Conserved (arrived : List BaseRecvFragDesc) (s : Communicator) : Prop where
  frag : ∀ f ∈ arrived, (s.aheadOfSeqRecvFrags f.srcProcID).count f +
    (s.okToMatchRecvFrags f.srcProcID).count f + (s.processed.map Processed.frag).count f = 1
  ahead : ∀ src, ∀ f ∈ s.aheadOfSeqRecvFrags src,
    f ∈ arrived ∧ f.srcProcID = src ∧ s.nextExpectedIsendSeqs src < f.isendSeq
  okToMatch : ∀ src, ∀ f ∈ s.okToMatchRecvFrags src,
    f ∈ arrived ∧ f.srcProcID = src ∧ f.isendSeq < s.nextExpectedIsendSeqs src ∧
      (∀ id ∈ s.matchedRecv src, (s.recvs id).isendSeq ≠ f.isendSeq) ∧
      ∀ e ∈ s.processed, e.frag.srcProcID = src → e.frag.isendSeq ≠ f.isendSeq
  processed : ∀ e ∈ s.processed, e.frag ∈ arrived
  receive : ∀ id, 1 ≤ id → id < s.nextIrecvIdCounter →
    ((s.recvs id).messageDone = false ∧ ∃ place, (s.on place).count id = 1 ∧
        (s.recvs id).whichQueue = place.queue ∧ ∀ other, other ≠ place → id ∉ s.on other) ∨
      ((s.recvs id).messageDone = true ∧ ∀ place, id ∉ s.on place)

lemma Receives.mem_on (h : Receives messages A late m s) {place : Place} (hid : id ∈ s.on place) :
    (∃ p ∈ m.posted, p.id = id ∧
        (place = .wild ∧ p.peer = none ∨ ∃ src, place = .specific src ∧ p.peer = some src)) ∨
      ∃ q ∈ m.pairs, q.1.id = id ∧ place = .matched q.2.1 := by
  cases place with
  | specific src =>
    simp only [Communicator.on, h.specific, mem_map, mem_filter, decide_eq_true_eq] at hid
    obtain ⟨p, ⟨hp, hpeer⟩, rfl⟩ := hid
    exact .inl ⟨p, hp, rfl, .inr ⟨src, rfl, hpeer⟩⟩
  | wild =>
    simp only [Communicator.on, h.wild, mem_map, mem_filter, decide_eq_true_eq] at hid
    obtain ⟨p, ⟨hp, hpeer⟩, rfl⟩ := hid
    exact .inl ⟨p, hp, rfl, .inl ⟨rfl, hpeer⟩⟩
  | matched src =>
    obtain ⟨q, hq, hqid, rfl⟩ := h.matched src id hid
    exact .inr ⟨q, hq, hqid, rfl⟩

private lemma count_posted {l : List Posting} (hl : l.Pairwise fun p q => p.id < q.id)
    {c : Posting → Bool} (hp : p ∈ l) (hc : c p = true) :
    ((l.filter c).map Posting.id).count p.id = 1 := by
  refine count_eq_one_of_mem ?_ (mem_map_of_mem (mem_filter.mpr ⟨hp, hc⟩))
  rw [Nodup, pairwise_map]
  exact (hl.filter c).imp Nat.ne_of_lt

/-- A receive that waits is on the list its `WhichQueue` names, and on no other. -/
lemma Core.on_posted (h : Core messages A N ok late m s) (hp : p ∈ m.posted) :
    ∃ place, (s.on place).count p.id = 1 ∧ (s.recvs p.id).whichQueue = place.queue ∧
      ∀ other, other ≠ place → p.id ∉ s.on other := by
  have hdesc := h.receives.posted p hp
  have hothers : ∀ other, p.id ∈ s.on other →
      other = .wild ∧ p.peer = none ∨ ∃ src, other = .specific src ∧ p.peer = some src := by
    intro other hid
    rcases h.receives.mem_on hid with ⟨p', hp', hid', hplace⟩ | ⟨q, hq, hid', -⟩
    · rwa [h.waiting.ids p' (mem_allReceives_of_posted hp') p (mem_allReceives_of_posted hp) hid']
        at hplace
    · exact absurd hid' (h.waiting.posted_ne hp hq)
  cases hpeer : p.peer with
  | none =>
    refine ⟨.wild, ?_, by rw [hdesc.whichQueue, if_pos hpeer]; rfl, fun other hne hid => ?_⟩
    · rw [Communicator.on, h.receives.wild]
      exact count_posted h.waiting.posted_sorted hp (by simpa using hpeer)
    · rcases hothers other hid with ⟨rfl, -⟩ | ⟨src, -, hsrc⟩
      · exact hne rfl
      · exact absurd (hpeer.symm.trans hsrc) nofun
  | some src =>
    refine ⟨.specific src, ?_, ?_, fun other hne hid => ?_⟩
    · rw [Communicator.on, h.receives.specific]
      exact count_posted h.waiting.posted_sorted hp (by simpa using hpeer)
    · rw [hdesc.whichQueue, if_neg (by simp [hpeer])]
      rfl
    · rcases hothers other hid with ⟨-, hnone⟩ | ⟨src', rfl, hsrc⟩
      · exact absurd (hpeer.symm.trans hnone) nofun
      · rw [Option.some.inj (hpeer.symm.trans hsrc)] at hne
        exact hne rfl

/-- A receive with a message is on the matched list, or complete and on no list. -/
lemma Core.on_paired (h : Core messages A N ok ∅ m s) (hq : q ∈ m.pairs) :
    ((s.recvs q.1.id).messageDone = false ∧ ∃ place, (s.on place).count q.1.id = 1 ∧
        (s.recvs q.1.id).whichQueue = place.queue ∧ ∀ other, other ≠ place → q.1.id ∉ s.on other) ∨
      ((s.recvs q.1.id).messageDone = true ∧ ∀ place, q.1.id ∉ s.on place) := by
  have hothers : ∀ other, q.1.id ∈ s.on other → other = .matched q.2.1 := by
    intro other hid
    rcases h.receives.mem_on hid with ⟨p', hp', hid', -⟩ | ⟨q', hq', hid', hplace⟩
    · exact absurd hid'.symm (h.waiting.posted_ne hp' hq)
    · rwa [h.waiting.pair_unique hq' hq hid'] at hplace
  rcases (h.receives.pairs q hq).state with ⟨hactive, hqueue, hdone, -⟩ | ⟨hout, -, hdone⟩
  · refine .inl ⟨hdone, .matched q.2.1, ?_, hqueue, fun other hne hid => hne (hothers other hid)⟩
    exact count_eq_one_of_mem (h.receives.matched_nodup _) hactive
  · refine .inr ⟨hdone.resolve_right (Set.notMem_empty _), fun place hid => ?_⟩
    rw [hothers place hid] at hid
    exact hout hid

/-- **Nothing is lost**: every fragment that arrived is on one list or was copied once, and every
receive is on the list its `WhichQueue` names or complete. -/
theorem run_conserved {groupSize : ℕ} {events : List Event} (hdelivers : messages.Delivers events)
    (hexact : ((Communicator.init groupSize).run events).Exact) :
    Conserved (arrivals events) ((Communicator.init groupSize).run events) := by
  obtain ⟨⟨A, hqueues⟩, hsettled, -⟩ := run_follows hdelivers hexact
  rw [Reference.run_arrived] at hqueues
  generalize (Communicator.init groupSize).run events = s at *
  have hcore := hqueues.core
  have hheld := hcore.held
  refine ⟨fun f hf => ?_, fun src f hf => ?_, fun src f hf => ?_, fun e he => ?_, ?_⟩
  · have hone : (arrivals events).count f = 1 := count_eq_one_of_mem (hqueues.nodup.of_map _) hf
    rw [hqueues.count f, hheld.count f] at hone
    omega
  · have hle := hqueues.ahead_le src f hf
    have hne := hsettled src f hf
    exact ⟨hqueues.mem_of_ahead hf, hqueues.ahead_src src f hf, by omega⟩
  · have hsrc := hheld.ok_src src f hf
    have hin := hheld.mem_of_ok hf
    have heligible := hheld.ok_eligible src f hf
    refine ⟨hqueues.mem_of_mem hin, hsrc, hsrc ▸ hheld.early f hin, fun id hid heq => ?_,
      fun e he hsrc' heq => ?_⟩
    · obtain ⟨q, hq, rfl, hqsrc⟩ := hcore.receives.matched src id hid
      rw [(hcore.receives.pairs q hq).isendSeq] at heq
      exact hcore.waiting.proper.eligible src _ heligible q hq (Prod.ext hqsrc heq)
    · obtain ⟨q, hq, -, hmsg⟩ := hheld.paired e he
      rw [hsrc', heq] at hmsg
      exact hcore.waiting.proper.eligible src _ heligible q hq hmsg
  · refine hqueues.mem_of_mem (count_pos_iff.mp ?_)
    have hpos := count_pos_iff.mpr (mem_map_of_mem (f := Processed.frag) he)
    rw [hheld.count e.frag]
    omega
  · intro id hpos hlt
    obtain ⟨p, hp, rfl⟩ := hcore.receives.issued id hpos hlt
    rcases mem_append.mp hp with hp | hp
    · exact .inl ⟨(hcore.receives.posted p hp).messageDone, hcore.on_posted hp⟩
    · obtain ⟨q, hq, rfl⟩ := mem_map.mp hp
      exact hcore.on_paired hq

theorem run_conserved_reorderedRun :
    nineBytes.Delivers reorderedRun ∧ ((Communicator.init 1).run reorderedRun).Exact ∧
      Conserved (arrivals reorderedRun) ((Communicator.init 1).run reorderedRun) :=
  ⟨reorderedRun_delivers, reorderedRun_exact,
    run_conserved reorderedRun_delivers reorderedRun_exact⟩

/-- A fragment arrives before a receive is posted for it. -/
def earlyRun : List Event := [.arrive ((nineBytes 0 0).frag 0 0 0 true), .post none anyTag 9 none]

/-- The fragment is copied by `checkSpecifiedFragListsForMatch` itself; it is on no list, and was
never passed to `ProcessMatchedData`. -/
theorem run_earlyRun :
    nineBytes.Delivers earlyRun ∧ ((Communicator.init 1).run earlyRun).Exact ∧
      ∃ f ∈ arrivals earlyRun,
        f ∉ ((Communicator.init 1).run earlyRun).aheadOfSeqRecvFrags f.srcProcID ∧
        f ∉ ((Communicator.init 1).run earlyRun).okToMatchRecvFrags f.srcProcID ∧
        ∀ e ∈ ((Communicator.init 1).run earlyRun).processed, e.frag = f →
          e.handler ≠ .processMatchedData := by
  refine ⟨⟨by decide, by decide +kernel⟩, ?_, ?_⟩
  · unfold Communicator.Exact
    decide
  · decide

end Lampi
