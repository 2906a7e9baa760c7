import Lampi.Queue.Equiv.Communicator
import Lampi.Queue.Equiv.Selection

/-!
# What the functions of the receive queues do

One specification for each function of the communicator, in terms of the relation `Core` to the
reference matcher:

* `Core.checkPosted_cases`: the receive found for a fragment is the earliest that accepts it.
* `Core.place`: a fragment of a message that was offered goes to the receive of the message or on
  the list to match.
* `Core.takeSameMessage` and `Core.copySameMessage`: the loops over the other fragments of a message
  take all of them.
-/

namespace Lampi

open OrderedMatching Function List Communicator BaseRecvFragDesc

variable {messages : Messages} {A : List BaseRecvFragDesc} {N : ℕ → ℕ}
  {ok : ℕ → List BaseRecvFragDesc} {late : Set ℕ} {m : Matcher Posting ℕ ℕ}
  {s s' t : Communicator} {f g : BaseRecvFragDesc} {p : Posting} {src n id : ℕ} {s'' : Communicator}
  {q : Posting × ℕ × ℕ} {matched : Option ℕ} {rest kept : List BaseRecvFragDesc} {proc : ℕ}

/-! ### Copying -/

/-- Only receives and the history have changed. -/
structure Frame (s s' : Communicator) : Prop where
  ok : s'.okToMatchRecvFrags = s.okToMatchRecvFrags
  ahead : s'.aheadOfSeqRecvFrags = s.aheadOfSeqRecvFrags
  next : s'.nextExpectedIsendSeqs = s.nextExpectedIsendSeqs
  groupSize : s'.groupSize = s.groupSize

/-- The fragments ahead of sequence and the numbers expected have not changed. -/
structure Stays (s s' : Communicator) : Prop where
  ahead : s'.aheadOfSeqRecvFrags = s.aheadOfSeqRecvFrags
  next : s'.nextExpectedIsendSeqs = s.nextExpectedIsendSeqs
  groupSize : s'.groupSize = s.groupSize

lemma Stays.refl (s : Communicator) : Stays s s :=
  ⟨rfl, rfl, rfl⟩

lemma Stays.trans (h : Stays s s') (h' : Stays s' s'') : Stays s s'' :=
  ⟨h'.ahead.trans h.ahead, h'.next.trans h.next, h'.groupSize.trans h.groupSize⟩

lemma Frame.stays (h : Frame s s') : Stays s s' :=
  { h with }

namespace Communicator

/-- Fragments were processed; no receive was posted. -/
def Grows (s s' : Communicator) : Prop :=
  s.processed <+: s'.processed ∧ s'.nextIrecvIdCounter = s.nextIrecvIdCounter

lemma Grows.refl (s : Communicator) : Grows s s :=
  ⟨prefix_refl _, rfl⟩

lemma Grows.trans (h : Grows s s') (h' : Grows s' s'') : Grows s s'' :=
  ⟨h.1.trans h'.1, h'.2.trans h.2⟩

lemma Exact.of_grows (h : s'.Exact) (hgrows : Grows s s') : s.Exact :=
  fun e he => h e (hgrows.1.subset he)

lemma Grows.record (h : Grows s s') (id : ℕ) (f : BaseRecvFragDesc) (handler : Handler) :
    Grows s (s'.record id f handler) :=
  ⟨h.1.trans (prefix_append _ _), h.2⟩

variable (s)

lemma deliveredToAppLock_frame (id copied discarded : ℕ) :
    Frame s (s.deliveredToAppLock id copied discarded).1 ∧
      Grows s (s.deliveredToAppLock id copied discarded).1 := by
  simp only [deliveredToAppLock]
  split_ifs <;> exact ⟨⟨rfl, rfl, rfl, rfl⟩, prefix_refl _, rfl⟩

lemma copyToAppLock_frame (id : ℕ) (f : BaseRecvFragDesc) :
    Frame s (s.copyToAppLock id f).1 ∧ Grows s (s.copyToAppLock id f).1 := by
  unfold copyToAppLock
  split
  · exact s.deliveredToAppLock_frame _ _ _
  · exact ⟨⟨rfl, rfl, rfl, rfl⟩, Grows.refl s⟩

lemma copyToApp_frame (id : ℕ) (f : BaseRecvFragDesc) :
    Frame s (s.copyToApp id f) ∧ Grows s (s.copyToApp id f) := by
  unfold copyToApp deliveredToApp
  split
  · obtain ⟨⟨h1, h2, h3, h4⟩, hgrows⟩ := s.deliveredToAppLock_frame id _ _
    dsimp only
    split_ifs <;> exact ⟨⟨h1, h2, h3, h4⟩, hgrows⟩
  · exact ⟨⟨rfl, rfl, rfl, rfl⟩, Grows.refl s⟩

lemma processMatchedData_frame (id : ℕ) (f : BaseRecvFragDesc) :
    Frame s (s.processMatchedData id f).1 ∧ Grows s (s.processMatchedData id f).1 := by
  obtain ⟨⟨h1, h2, h3, h4⟩, hgrows⟩ := s.copyToAppLock_frame id f
  exact ⟨⟨h1, h2, h3, h4⟩, hgrows.record id f .processMatchedData⟩

lemma place_stays (proc : ℕ) (f : BaseRecvFragDesc) (matched : Option ℕ) :
    Stays s (s.place proc f matched).1 ∧ Grows s (s.place proc f matched).1 := by
  cases matched with
  | some id => exact (s.processMatchedData_frame id f).imp_left Frame.stays
  | none => exact ⟨⟨rfl, rfl, rfl⟩, prefix_refl _, rfl⟩

lemma completeIf_frame (done : Bool) (matched : Option ℕ) :
    Frame s (s.completeIf done matched) ∧ Grows s (s.completeIf done matched) := by
  cases matched <;> cases done <;> exact ⟨⟨rfl, rfl, rfl, rfl⟩, prefix_refl _, rfl⟩

variable {s}

lemma copyToAppLock_copies (hqueue : (s.recvs id).whichQueue = .matchedIrecv)
    (hpeer : (s.recvs id).resltsPeer = src) (hmessage : (s.recvs id).messageDone = false)
    (handler : Handler) :
    Copies s id f src (s.copyToAppLock id f).2 ((s.copyToAppLock id f).1.record id f handler) ∧
      (((s.copyToAppLock id f).1.record id f handler).recvs id).messageDone = false := by
  subst hpeer
  simp only [copyToAppLock, deliveredToAppLock, record]
  split
  case h_2 hcopy =>
    have hzero : (s.recvs id).bytesCounted f = 0 := by
      unfold RecvDesc.bytesCounted
      rw [hcopy]
    refine ⟨⟨fun _ _ => rfl, rfl, rfl, rfl, ⟨_, handler, rfl, ?_⟩, rfl, rfl, rfl, rfl, by rintro ⟨⟩,
      fun _ => ⟨hqueue, hmessage⟩⟩, hmessage⟩
    rw [hzero]
    rfl
  case h_1 bytes hcopy =>
    set r := s.recvs id with hr
    set t := s.setRecv id fun r => { r with
      dataReceived := r.dataReceived + bytes.1
      dataInBitBucket := r.dataInBitBucket + bytes.2 } with ht
    have hrecv : t.recvs id = { r with
        dataReceived := r.dataReceived + bytes.1
        dataInBitBucket := r.dataInBitBucket + bytes.2 } := by
      simp [ht, hr, setRecv]
    have hcounted : (t.recvs id).counted = r.counted + (t.recvs id).bytesCounted f := by
      have hbytes : (t.recvs id).bytesCounted f = r.bytesCounted f := by
        rw [hrecv]
        rfl
      rw [hbytes, RecvDesc.bytesCounted, hcopy, hrecv]
      simp only [RecvDesc.counted]
      omega
    have hne : ∀ j, j ≠ id → t.recvs j = s.recvs j := fun j hj => by simp [ht, setRecv, hj]
    have hqueue' : (t.recvs id).whichQueue = .matchedIrecv := by rw [hrecv, ← hqueue]
    have hmessage' : (t.recvs id).messageDone = false := by rw [hrecv, ← hmessage]
    have hpeer' : (t.recvs id).resltsPeer = r.resltsPeer := by rw [hrecv]
    split_ifs with hfull
    · refine ⟨⟨hne, ?_, hpeer', ?_, ⟨_, handler, rfl, hcounted⟩, rfl, rfl, rfl, ?_, fun _ => hfull,
        by rintro ⟨⟩⟩, hmessage'⟩
      · rw [show (t.setMatched _ _).recvs = t.recvs from rfl, hrecv]
      · rw [show (t.setMatched _ _).recvs = t.recvs from rfl, hrecv]
      · rw [if_pos rfl, hpeer']
        rfl
    · refine ⟨⟨hne, ?_, hpeer', ?_, ⟨_, handler, rfl, hcounted⟩, rfl, rfl, rfl, rfl, by rintro ⟨⟩,
        fun _ => ⟨hqueue', hmessage'⟩⟩, hmessage'⟩
      · rw [hrecv]
      · rw [hrecv]

end Communicator

/-! ### The history only grows -/

namespace Communicator

variable (s)

lemma takeSameMessage_grows (proc n : ℕ) (matched : Option ℕ)
    (kept rest : List BaseRecvFragDesc) (s : Communicator) :
    Grows s (takeSameMessage proc n matched kept rest s) := by
  induction rest generalizing kept s with
  | nil => exact Grows.refl s
  | cons f rest ih =>
    have hplace := ((s.setAheadOfSeq proc (kept ++ rest)).place_stays proc f matched).2
    simp only [takeSameMessage]
    split_ifs
    · exact Grows.trans hplace (completeIf_frame ..).2
    · exact Grows.trans hplace ((completeIf_frame ..).2.trans (ih _ _))
    · exact ih _ _

/-- One round of the loop of `checkSpecifiedFragListsForMatch` for a fragment of the message. -/
def copyOne (id proc : ℕ) (f : BaseRecvFragDesc) (left : List BaseRecvFragDesc) : Communicator :=
  let copied := s.copyToAppLock id f
  let s := if copied.2 then copied.1.complete id else copied.1
  (s.setOkToMatch proc left).record id f .irecvStart

lemma copyOne_frame (id proc : ℕ) (f : BaseRecvFragDesc) (left : List BaseRecvFragDesc) :
    (s.copyOne id proc f left).okToMatchRecvFrags = update s.okToMatchRecvFrags proc left ∧
      Stays s (s.copyOne id proc f left) ∧ Grows s (s.copyOne id proc f left) := by
  obtain ⟨hframe, hgrows⟩ := s.copyToAppLock_frame id f
  simp only [copyOne]
  refine ⟨?_, ?_, Grows.record ?_ id f .irecvStart⟩
  · rw [← hframe.ok]
    split_ifs <;> rfl
  · split_ifs <;> exact { hframe.stays with }
  · split_ifs <;> exact hgrows

variable {s}

lemma copySameMessage_cons (id proc : ℕ) (first f : BaseRecvFragDesc)
    (kept rest : List BaseRecvFragDesc) (s : Communicator) :
    copySameMessage id proc first kept (f :: rest) s =
      if f.isendSeq = first.isendSeq ∧ f.srcProcID = first.srcProcID ∧ f.tag = first.tag then
        if ((s.copyOne id proc f (kept ++ rest)).recvs id).messageDone then
          s.copyOne id proc f (kept ++ rest)
        else copySameMessage id proc first kept rest (s.copyOne id proc f (kept ++ rest))
      else copySameMessage id proc first (kept ++ [f]) rest s := rfl

lemma copySameMessage_grows (id proc : ℕ) (first : BaseRecvFragDesc)
    (kept rest : List BaseRecvFragDesc) (s : Communicator) :
    Grows s (copySameMessage id proc first kept rest s) := by
  induction rest generalizing kept s with
  | nil => exact Grows.refl s
  | cons f rest ih =>
    rw [copySameMessage_cons]
    split_ifs
    · exact (s.copyOne_frame id proc f _).2.2
    · exact (s.copyOne_frame id proc f _).2.2.trans (ih _ _)
    · exact ih _ _

end Communicator

/-! ### Searching the posted receives -/

private lemma Moves.fillInTag (h : Moves s id f s') : Moves s id f (s'.fillInTag id f) := by
  have hrecv : (s'.fillInTag id f).recvs id = { s'.recvs id with resltsTag := f.tag } := by
    simp [Communicator.fillInTag, setRecv]
  have hne : ∀ j, j ≠ id → (s'.fillInTag id f).recvs j = s'.recvs j := fun j hj => by
    simp [Communicator.fillInTag, setRecv, hj]
  refine { h with recvs_ne := fun j hj => (hne j hj).trans (h.recvs_ne j hj), isendSeq := ?_
                  resltsPeer := ?_, resltsLength := ?_, counted := ?_, messageDone := ?_
                  whichQueue := ?_ }
  · rw [hrecv, ← h.isendSeq]
  · rw [hrecv, ← h.resltsPeer]
  · rw [hrecv, ← h.resltsLength]
  · rw [hrecv, ← h.counted]
    rfl
  · rw [hrecv, ← h.messageDone]
  · rw [hrecv, ← h.whichQueue]

private lemma fillIn_moves (t : Communicator) (hrecvs : t.recvs = s.recvs)
    (hwild : t.postedWildRecv = s.postedWildRecv.erase id)
    (hspecific : ∀ src, t.postedSpecificRecv src = (s.postedSpecificRecv src).erase id)
    (hmatched : t.matchedRecv = s.matchedRecv) (hprocessed : t.processed = s.processed)
    (hcounter : t.nextIrecvIdCounter = s.nextIrecvIdCounter) : Moves s id f (t.fillIn id f) := by
  have hrecv : (t.fillIn id f).recvs id = { s.recvs id with
      isendSeq := f.isendSeq, resltsLength := f.msgLength, resltsPeer := f.srcProcID
      whichQueue := .matchedIrecv } := by
    simp [fillIn, setRecv, setMatched, hrecvs]
  refine ⟨fun j hj => ?_, ?_, ?_, ?_, ?_, ?_, ?_, hwild, hspecific, ?_, hprocessed, hcounter⟩
  · simp [fillIn, setRecv, setMatched, hj, hrecvs]
  · rw [hrecv]
  · rw [hrecv]
  · rw [hrecv]
  · rw [hrecv]
    rfl
  · rw [hrecv]
  · rw [hrecv]
  · rw [← hmatched]
    rfl

private lemma matchWild_moves (hid : ∀ src, id ∉ s.postedSpecificRecv src) :
    Moves s id f (s.matchWild id f) := by
  have hmoves : Moves s id f
      ({ s with postedWildRecv := s.postedWildRecv.erase id }.fillIn id f) :=
    fillIn_moves _ rfl rfl (fun src => (erase_of_not_mem (hid src)).symm) rfl rfl rfl
  exact hmoves.fillInTag

private lemma matchSpecific_moves (hid : id ∉ s.postedWildRecv)
    (hid' : ∀ src, src ≠ f.srcProcID → id ∉ s.postedSpecificRecv src) :
    Moves s id f (s.matchSpecific id f) := by
  refine fillIn_moves _ rfl (erase_of_not_mem hid).symm (fun src => ?_) rfl rfl rfl
  by_cases hsrc : src = f.srcProcID
  · subst hsrc
    simp [setPostedSpecific]
  · simp [setPostedSpecific, hsrc, erase_of_not_mem (hid' src hsrc)]

/-- **`checkPostedRecvListForMatch`** finds the earliest receive that accepts the message. -/
theorem Core.checkPosted_cases (h : Core messages A N ok late m s) (f : BaseRecvFragDesc) :
    (s.checkPostedRecvListForMatch f = (s, none) ∧
        m.posted.find? (fun p => p.accepts f.srcProcID f.tag) = none) ∨
      ∃ p ∈ m.posted, ∃ s', s.checkPostedRecvListForMatch f = (s', some p.id) ∧
        m.posted.find? (fun p => p.accepts f.srcProcID f.tag) = some p ∧ Moves s p.id f s' ∧
        Frame s s' := by
  have hids : ∀ p ∈ m.posted, ∀ q ∈ m.posted, p.id = q.id → p = q := fun p hp q hq =>
    h.waiting.ids p (mem_allReceives_of_posted hp) q (mem_allReceives_of_posted hq)
  have hwild : ∀ j ∈ s.postedWildRecv, ∃ q ∈ m.posted, q.peer = none ∧ q.id = j := by
    intro j hj
    simpa [h.receives.wild, and_assoc] using hj
  have hspecific : ∀ src, ∀ j ∈ s.postedSpecificRecv src,
      ∃ q ∈ m.posted, q.peer = some src ∧ q.id = j := by
    intro src j hj
    simpa [h.receives.specific, and_assoc] using hj
  have hwants : ∀ q ∈ m.posted, s.wants f q.id = RecvDesc.tagMatches q.tag f.tag := by
    intro q hq
    rw [wants, (h.receives.posted q hq).tag]
  have hsorted : ∀ c : Posting → Bool, ((m.posted.filter c).map Posting.id).Pairwise fun i j =>
      (s.recvs i).irecvSeq < (s.recvs j).irecvSeq := by
    intro c
    rw [pairwise_map]
    refine (h.waiting.posted_sorted.sublist filter_sublist).imp_of_mem fun hp hq hlt => ?_
    rwa [(h.receives.posted _ (mem_of_mem_filter hp)).irecvSeq,
      (h.receives.posted _ (mem_of_mem_filter hq)).irecvSeq]
  have haccepts : ∀ q ∈ m.posted, q.accepts f.srcProcID f.tag = true →
      q.id ∈ s.postedSpecificRecv f.srcProcID ++ s.postedWildRecv ∧ s.wants f q.id = true := by
    intro q hq hq'
    rw [Posting.accepts, ← RecvDesc.tagMatches_eq, Bool.and_eq_true, Bool.or_eq_true] at hq'
    refine ⟨mem_append.mpr (hq'.1.symm.imp ?_ ?_), by rw [hwants q hq, hq'.2]⟩
    · rw [h.receives.specific]
      exact fun hpeer => mem_map_of_mem (mem_filter.mpr ⟨hq, by simpa using hpeer⟩)
    · rw [h.receives.wild]
      exact fun hpeer => mem_map_of_mem (mem_filter.mpr ⟨hq, by simpa using hpeer⟩)
  rw [checkPosted_eq]
  obtain ⟨hnil, hno⟩ | ⟨wild, id, rest, hcons, hin, hwant, hleast⟩ :=
    s.candidates_cases (h.receives.specific _ ▸ hsorted _) (h.receives.wild ▸ hsorted _)
  · refine .inl ⟨by rw [hnil]; rfl, find?_eq_none.mpr fun q hq hq' => ?_⟩
    obtain ⟨hmem, hq'⟩ := haccepts q hq hq'
    rw [hno _ hmem] at hq'
    exact absurd hq' (by decide)
  · obtain ⟨p, hp, hpeer, rfl⟩ : ∃ p ∈ m.posted,
        (p.peer = if wild then none else some f.srcProcID) ∧ p.id = id := by
      cases wild
      · exact hspecific _ _ hin
      · exact hwild _ hin
    have haccept : p.accepts f.srcProcID f.tag = true := by
      rw [Posting.accepts, ← RecvDesc.tagMatches_eq, ← hwants p hp, hwant, hpeer]
      cases wild <;> simp
    have hfind : m.posted.find? (fun p => p.accepts f.srcProcID f.tag) = some p := by
      refine find?_eq_some_of_least h.waiting.posted_sorted hp haccept fun q hq hq' => ?_
      obtain ⟨hmem, hq'⟩ := haccepts q hq hq'
      have hle := hleast _ hmem hq'
      rw [(h.receives.posted p hp).irecvSeq, (h.receives.posted q hq).irecvSeq] at hle
      exact not_lt.mpr hle
    rw [hcons]
    refine .inr ⟨p, hp, ?_⟩
    cases wild with
    | true =>
      refine ⟨_, rfl, hfind, matchWild_moves fun src hin => ?_, ⟨rfl, rfl, rfl, rfl⟩⟩
      obtain ⟨q, hq, hpeer', hid⟩ := hspecific src _ hin
      rw [hids q hq p hp hid, hpeer] at hpeer'
      cases hpeer'
    | false =>
      have hmoves : Moves s p.id f (s.matchSpecific p.id f) := by
        refine matchSpecific_moves (fun hin => ?_) (fun src hne hin => ?_)
        · obtain ⟨q, hq, hpeer', hid⟩ := hwild _ hin
          rw [hids q hq p hp hid, hpeer] at hpeer'
          cases hpeer'
        · obtain ⟨q, hq, hpeer', hid⟩ := hspecific src _ hin
          rw [hids q hq p hp hid, hpeer] at hpeer'
          exact hne (Option.some.inj hpeer').symm
      refine ⟨_, rfl, hfind, ?_⟩
      split_ifs
      · exact ⟨hmoves, ⟨rfl, rfl, rfl, rfl⟩⟩
      · exact ⟨hmoves.fillInTag, ⟨rfl, rfl, rfl, rfl⟩⟩

/-! ### Fragments in sequence -/

/-- The relation is about the receives and the history only. -/
lemma Core.of_eq (h : Core messages A N ok late m s) (hrecvs : s'.recvs = s.recvs)
    (hwild : s'.postedWildRecv = s.postedWildRecv)
    (hspecific : s'.postedSpecificRecv = s.postedSpecificRecv)
    (hmatched : s'.matchedRecv = s.matchedRecv) (hprocessed : s'.processed = s.processed)
    (hcounter : s'.nextIrecvIdCounter = s.nextIrecvIdCounter) : Core messages A N ok late m s' := by
  obtain ⟨hheld, hwaiting, hreceives⟩ := h
  refine ⟨hprocessed ▸ hheld, hwaiting, ?_⟩
  refine ⟨hwild ▸ hreceives.wild, hspecific ▸ hreceives.specific, hrecvs ▸ hreceives.posted,
    fun p hp => ?_, hmatched ▸ hreceives.matched_nodup, hmatched ▸ hreceives.matched,
    hcounter ▸ hreceives.bound, hcounter ▸ hreceives.issued, hreceives.late_paired⟩
  exact (hreceives.pairs p hp).congr (by rw [hrecvs]) (by rw [hprocessed]) (by rw [hmatched])
    Iff.rfl
    fun _ _ => id

/-- What is known of a message and the receive found for it, if any, when some fragments were
processed: without a receive it waits; with one that is not done it is on the matched list; with one
that is done all fragments have arrived. -/
def Assigned (messages : Messages) (A : List BaseRecvFragDesc) (m : Matcher Posting ℕ ℕ)
    (s : Communicator) (src n : ℕ) (done : Bool) : Option ℕ → Prop
  | some id => ∃ q ∈ m.pairs, q.1.id = id ∧ q.2 = (src, n) ∧
      (done = false → id ∈ s.matchedRecv src) ∧
      (done = true → ∀ g, messages.FragOf src n g → g.key ∈ A.map key)
  | none => n ∈ m.eligible src ∧ done = false

/-- The receives to be marked as complete, with the one that was found. -/
def withLate (late : Set ℕ) (done : Bool) : Option ℕ → Set ℕ
  | some id => if done then insert id late else late
  | none => late

lemma Core.process (h : Core messages A N ok late m s) (hq : q ∈ m.pairs)
    (hactive : q.1.id ∈ s.matchedRecv q.2.1) (hf : messages.FragOf q.2.1 q.2.2 f)
    (hfresh : f.key ∉ A.map key) (hexact : (s.processMatchedData q.1.id f).1.Exact) :
    Core messages (A ++ [f]) N ok (withLate late (s.processMatchedData q.1.id f).2 (some q.1.id)) m
        (s.processMatchedData q.1.id f).1 ∧
      Assigned messages (A ++ [f]) m (s.processMatchedData q.1.id f).1 q.2.1 q.2.2
        (s.processMatchedData q.1.id f).2 (some q.1.id) := by
  obtain ⟨-, hpeer, -, -, hstate⟩ := h.receives.pairs q hq
  obtain ⟨-, hqueue, hmessage, hlate⟩ | ⟨hout, -⟩ := hstate
  case inr => exact absurd hactive hout
  obtain ⟨hcopies, -⟩ := copyToAppLock_copies (f := f) hqueue hpeer hmessage .processMatchedData
  change Copies s q.1.id f q.2.1 (s.processMatchedData q.1.id f).2
    (s.processMatchedData q.1.id f).1 at hcopies
  generalize s.processMatchedData q.1.id f = result at hcopies hexact ⊢
  obtain ⟨t, done⟩ := result
  have hcore : Core messages (A ++ [f]) N ok (withLate late done (some q.1.id)) m t := by
    refine h.copies hq hactive hf hfresh hcopies hexact ?_ ?_ ?_
    · intro j hj
      cases done
      · rfl
      · simp [withLate, hj]
    · rintro rfl
      exact .inr (by simp [withLate])
    · rintro rfl
      exact hlate
  refine ⟨hcore, q, hq, rfl, rfl, ?_, ?_⟩
  · rintro rfl
    rw [hcopies.matched]
    exact hactive
  · rintro rfl
    obtain ⟨-, -, -, hnot⟩ | ⟨-, hall, -⟩ := (hcore.receives.pairs q hq).state
    · exact absurd (by simp [withLate]) hnot
    · exact hall

/-- **`place`**: a fragment of a message that was offered goes to the receive of the message, or on
the list to match. -/
theorem Core.place (h : Core messages A N s.okToMatchRecvFrags late m s)
    (hassigned : Assigned messages A m s src n false matched) (hf : messages.FragOf src n f)
    (hfresh : f.key ∉ A.map key)
    (hfirst : ∀ k ∈ m.eligible src, k < n → ∃ g ∈ A, messages.FragOf src k g)
    (hexact : (s.place src f matched).1.Exact) :
    Core messages (A ++ [f]) N (s.place src f matched).1.okToMatchRecvFrags
        (withLate late (s.place src f matched).2 matched) m (s.place src f matched).1 ∧
      Assigned messages (A ++ [f]) m (s.place src f matched).1 src n (s.place src f matched).2
        matched := by
  cases matched with
  | some id =>
    obtain ⟨q, hq, rfl, hmsg, hactive, -⟩ := hassigned
    obtain ⟨rfl, rfl⟩ : q.2.1 = src ∧ q.2.2 = n := by simp [hmsg]
    have hok : (s.place q.2.1 f (some q.1.id)).1.okToMatchRecvFrags = s.okToMatchRecvFrags :=
      (s.processMatchedData_frame q.1.id f).1.ok
    rw [hok]
    exact h.process hq (hactive rfl) hf hfresh hexact
  | none =>
    obtain ⟨heligible, -⟩ := hassigned
    refine ⟨?_, heligible, rfl⟩
    have hcore := h.appendOkToMatch hf heligible hfresh fun k hk hlt => by
      obtain ⟨g, hg, hgfrag⟩ := hfirst k hk hlt
      obtain ⟨-, rfl, rfl⟩ := hgfrag
      exact ⟨g, h.held.mem_ok h.waiting.proper hg hk, rfl⟩
    exact hcore.of_eq rfl rfl rfl rfl rfl rfl

lemma Core.completeIf {done : Bool} (h : Core messages A N ok (withLate late done matched) m s) :
    Core messages A N ok late m (s.completeIf done matched) := by
  cases matched with
  | none => exact h
  | some id =>
    cases done with
    | false => exact h
    | true =>
      obtain ⟨q, hq, rfl⟩ := h.receives.late_paired id (by simp [withLate])
      exact Core.complete hq h

lemma key_not_mem_of_nodup (h : ((A ++ f :: rest).map key).Nodup) : f.key ∉ A.map key := by
  rw [map_append, map_cons] at h
  exact fun hin => (nodup_append.mp h).2.2 _ hin _ mem_cons_self rfl

lemma none_left (hall : ∀ g, messages.FragOf src n g → g.key ∈ A.map key)
    (hrest : ∀ g ∈ rest, messages.IsFrag g ∧ g.srcProcID = src)
    (hnodup : ((A ++ rest.filter (·.isendSeq = n)).map key).Nodup) :
    rest.filter (·.isendSeq = n) = [] ∧ rest.filter (·.isendSeq ≠ n) = rest := by
  have hnone : ∀ g ∈ rest, g.isendSeq ≠ n := by
    intro g hg hseq
    obtain ⟨hgfrag, hgsrc⟩ := hrest g hg
    have hg' : g ∈ rest.filter (·.isendSeq = n) := mem_filter.mpr ⟨hg, by simpa using hseq⟩
    rw [map_append] at hnodup
    exact (nodup_append.mp hnodup).2.2 _ (hall g ⟨hgfrag, hgsrc, hseq⟩) _
      (mem_map_of_mem hg') rfl
  exact ⟨filter_eq_nil_iff.mpr fun g hg => by simpa using hnone g hg,
    filter_eq_self.mpr fun g hg => by simpa using hnone g hg⟩

lemma Assigned.all (h : Assigned messages A m s src n true matched) :
    ∀ g, messages.FragOf src n g → g.key ∈ A.map key := by
  cases matched with
  | none => exact absurd h.2 (by decide)
  | some id =>
    obtain ⟨q, -, -, -, -, hall⟩ := h
    exact hall rfl

/-- The inner loop of `matchFragsInAheadOfSequenceList` takes all fragments of the message off the
list. -/
lemma Core.takeSameMessage (h : Core messages A N s.okToMatchRecvFrags late m s)
    (hassigned : Assigned messages A m s proc n false matched)
    (hahead : s.aheadOfSeqRecvFrags proc = kept ++ rest)
    (hrest : ∀ f ∈ rest, messages.IsFrag f ∧ f.srcProcID = proc)
    (hnodup : ((A ++ rest).map key).Nodup)
    (hfirst : ∀ k ∈ m.eligible proc, k < n → ∃ g ∈ A, messages.FragOf proc k g)
    (ht : takeSameMessage proc n matched kept rest s = t) (hexact : t.Exact) :
    Core messages (A ++ rest.filter (·.isendSeq = n)) N t.okToMatchRecvFrags late m t ∧
      t.aheadOfSeqRecvFrags =
        update s.aheadOfSeqRecvFrags proc (kept ++ rest.filter (·.isendSeq ≠ n)) ∧
      t.nextExpectedIsendSeqs = s.nextExpectedIsendSeqs ∧ t.groupSize = s.groupSize := by
  induction rest generalizing kept A s with
  | nil =>
    subst ht
    refine ⟨by simpa [takeSameMessage] using h, ?_, rfl, rfl⟩
    rw [filter_nil, ← hahead]
    exact (update_eq_self _ _).symm
  | cons f rest ih =>
    obtain ⟨⟨hfrag, hsrc⟩, hrest⟩ := forall_mem_cons.mp hrest
    by_cases hseq : f.isendSeq = n
    case neg =>
      simp only [takeSameMessage, if_neg hseq] at ht
      rw [filter_cons_of_neg (by simpa using hseq), filter_cons_of_pos (by simpa using hseq)]
      have hnodup' : ((A ++ rest).map key).Nodup :=
        hnodup.sublist (((sublist_cons_self f rest).append_left A).map _)
      simpa using ih h hassigned (by simpa using hahead) hrest hnodup' hfirst ht
    case pos =>
      simp only [takeSameMessage, if_pos hseq] at ht
      rw [filter_cons_of_pos (by simpa using hseq), filter_cons_of_neg (by simpa using hseq)]
      have hcore : Core messages A N (s.setAheadOfSeq proc (kept ++ rest)).okToMatchRecvFrags late m
          (s.setAheadOfSeq proc (kept ++ rest)) := h.of_eq rfl rfl rfl rfl rfl rfl
      have hassignedT : Assigned messages A m (s.setAheadOfSeq proc (kept ++ rest)) proc n false
          matched := hassigned
      have hexact' : ((s.setAheadOfSeq proc (kept ++ rest)).place proc f matched).1.Exact := by
        refine hexact.of_grows ?_
        rw [← ht]
        split_ifs
        · exact (completeIf_frame ..).2
        · exact (completeIf_frame ..).2.trans (takeSameMessage_grows ..)
      obtain ⟨hplaced, hassigned'⟩ := hcore.place hassignedT ⟨hfrag, hsrc, hseq⟩
        (key_not_mem_of_nodup hnodup) hfirst hexact'
      have hnodup' : (((A ++ [f]) ++ rest).map key).Nodup := by simpa using hnodup
      have hstays := ((s.setAheadOfSeq proc (kept ++ rest)).place_stays proc f matched).1
      generalize (s.setAheadOfSeq proc (kept ++ rest)).place proc f matched = placed at *
      obtain ⟨u, done⟩ := placed
      have hcompleted := hplaced.completeIf
      have hframe := (u.completeIf_frame done matched).1
      obtain ⟨haheadU, hnextU, hgroupU⟩ := hstays.trans hframe.stays
      cases done with
      | true =>
        -- all fragments of the message have arrived, so no more are on the list
        obtain ⟨htaken, hleft⟩ := none_left hassigned'.all hrest
          (hnodup'.sublist ((filter_sublist.append_left _).map _))
        simp only [if_true] at ht
        subst ht
        rw [htaken, hleft, hframe.ok]
        exact ⟨hcompleted, haheadU, hnextU, hgroupU⟩
      | false =>
        have hsame : u.completeIf false matched = u := by cases matched <;> rfl
        rw [hsame] at ht hcompleted haheadU hnextU hgroupU
        obtain ⟨h1, h2, h3, h4⟩ := ih hcompleted hassigned'
          (by rw [haheadU]; simp [setAheadOfSeq]) hrest hnodup'
          (fun k hk hlt => exists_mem_append_left _ (hfirst k hk hlt)) ht
        refine ⟨by simpa using h1, ?_, h3.trans hnextU, h4.trans hgroupU⟩
        rw [h2, haheadU]
        exact update_idem ..

/-- The next message of a process is offered: `checkPostedRecvListForMatch` for its first
fragment. -/
lemma Core.offer (h : Core messages A N s.okToMatchRecvFrags late m s)
    (hf : messages.FragOf src (N src) f) : Core messages A (update N src (N src + 1))
        (s.checkPostedRecvListForMatch f).1.okToMatchRecvFrags late
        (m.offer messages.compatible src (N src)) (s.checkPostedRecvListForMatch f).1 ∧
      Assigned messages A (m.offer messages.compatible src (N src))
        (s.checkPostedRecvListForMatch f).1 src (N src) false
        (s.checkPostedRecvListForMatch f).2 ∧ Frame s (s.checkPostedRecvListForMatch f).1 := by
  have hcompatible : (fun p : Posting => messages.compatible p src (N src)) =
      fun p => p.accepts f.srcProcID f.tag := by
    rw [hf.isFrag.tag_eq, hf.src_eq, hf.seq_eq]
    rfl
  obtain ⟨hresult, hfind⟩ | ⟨p, hp, t, hresult, hfind, hmoves, hframe⟩ := h.checkPosted_cases f
  · have hoffer : m.offer messages.compatible src (N src) = m.await src (N src) := by
      rw [Matcher.offer, hcompatible, hfind]
    rw [hresult, hoffer]
    exact ⟨h.await src, ⟨by simp [Matcher.await], rfl⟩, ⟨rfl, rfl, rfl, rfl⟩⟩
  · have hoffer : m.offer messages.compatible src (N src) = m.pairOffered p src (N src) := by
      rw [Matcher.offer, hcompatible, hfind]
    rw [hresult, hoffer, hframe.ok]
    refine ⟨h.pairOffered hp hf hmoves, ?_, hframe⟩
    refine ⟨(p, src, N src), by simp [Matcher.pairOffered], rfl, rfl, fun _ => ?_, by rintro ⟨⟩⟩
    rw [hmoves.matched, hf.src_eq]
    simp

/-! ### Posted receives -/

/-- A fragment that is already on the list to match is copied, and the receive marked if it is
complete. -/
lemma Core.copyOne {left : List BaseRecvFragDesc} (h : Core messages A N ok late m s)
    (hq : q ∈ m.pairs) (hactive : q.1.id ∈ s.matchedRecv q.2.1) (hf : messages.FragOf q.2.1 q.2.2 f)
    (hfresh : f.key ∉ A.map key) (hexact : (s.copyOne q.1.id q.2.1 f left).Exact) :
    Core messages (A ++ [f]) N ok late m (s.copyOne q.1.id q.2.1 f left) ∧
      Assigned messages (A ++ [f]) m (s.copyOne q.1.id q.2.1 f left) q.2.1 q.2.2
        ((s.copyOne q.1.id q.2.1 f left).recvs q.1.id).messageDone (some q.1.id) := by
  obtain ⟨-, hpeer, -, -, hstate⟩ := h.receives.pairs q hq
  obtain ⟨-, hqueue, hmessage, hlate⟩ | ⟨hout, -⟩ := hstate
  case inr => exact absurd hactive hout
  obtain ⟨hcopies, hmessage'⟩ := copyToAppLock_copies (f := f) hqueue hpeer hmessage .irecvStart
  simp only [Communicator.copyOne] at hexact ⊢
  generalize s.copyToAppLock q.1.id f = result at hcopies hmessage' hexact ⊢
  obtain ⟨t, done⟩ := result
  cases done with
  | false =>
    simp only [Bool.false_eq_true, if_false] at hexact ⊢
    have hcore : Core messages (A ++ [f]) N ok late m (t.record q.1.id f .irecvStart) :=
      h.copies hq hactive hf hfresh hcopies hexact (fun _ _ => Iff.rfl) (by rintro ⟨⟩)
        fun _ => hlate
    refine ⟨hcore.of_eq rfl rfl rfl rfl rfl rfl, q, hq, rfl, rfl, fun _ => ?_, fun htrue => ?_⟩
    · rw [show ((t.setOkToMatch q.2.1 left).record q.1.id f .irecvStart).matchedRecv =
        (t.record q.1.id f .irecvStart).matchedRecv from rfl, hcopies.matched]
      exact hactive
    · exact absurd (hmessage'.symm.trans htrue) (by decide)
  | true =>
    have hrecv :
        (t.complete q.1.id).recvs q.1.id = { t.recvs q.1.id with messageDone := true } := by
      simp [Communicator.complete, setRecv]
    have hprocessed : (((t.complete q.1.id).setOkToMatch q.2.1 left).record q.1.id f
        .irecvStart).processed = (t.record q.1.id f .irecvStart).processed := by
      simp only [Communicator.record, setOkToMatch, hrecv]
      rfl
    have hexact' : (t.record q.1.id f .irecvStart).Exact := by
      intro e he
      exact hexact e (hprocessed ▸ he)
    have hlated : Core messages (A ++ [f]) N ok (insert q.1.id late) m
        (t.record q.1.id f .irecvStart) :=
      h.copies hq hactive hf hfresh hcopies hexact' (fun j hj => by simp [hj])
        (fun _ => .inr (Set.mem_insert _ _)) (by rintro ⟨⟩)
    have hall := (hlated.receives.pairs q hq).state
    refine ⟨(Core.complete hq hlated).of_eq rfl rfl rfl rfl hprocessed rfl, q, hq, rfl, rfl,
      fun hfalse => ?_, fun _ => ?_⟩
    · have htrue : ((t.complete q.1.id).recvs q.1.id).messageDone = true := by rw [hrecv]
      exact absurd (hfalse.symm.trans htrue) (by decide)
    · obtain ⟨-, -, -, hnot⟩ | ⟨-, hall, -⟩ := hall
      · exact absurd (Set.mem_insert _ _) hnot
      · exact hall

/-- The loop of `checkSpecifiedFragListsForMatch` copies all fragments of the message that are on
the list. -/
lemma Core.copySameMessage {first : BaseRecvFragDesc} (h : Core messages A N
      (update s.okToMatchRecvFrags q.2.1 (kept ++ rest.filter (·.isendSeq ≠ q.2.2))) late m s)
    (hq : q ∈ m.pairs) (hactive : q.1.id ∈ s.matchedRecv q.2.1)
    (hfirst : messages.FragOf q.2.1 q.2.2 first) (hok : s.okToMatchRecvFrags q.2.1 = kept ++ rest)
    (hrest : ∀ f ∈ rest, messages.IsFrag f ∧ f.srcProcID = q.2.1)
    (hnodup : ((A ++ rest.filter (·.isendSeq = q.2.2)).map key).Nodup)
    (ht : copySameMessage q.1.id q.2.1 first kept rest s = t) (hexact : t.Exact) :
    Core messages (A ++ rest.filter (·.isendSeq = q.2.2)) N t.okToMatchRecvFrags late m t ∧
      Stays s t := by
  induction rest generalizing kept A s with
  | nil =>
    subst ht
    simp only [filter_nil, append_nil] at h hok ⊢
    rw [← hok, update_eq_self] at h
    exact ⟨h, Stays.refl s⟩
  | cons f rest ih =>
    obtain ⟨⟨hfrag, hsrc⟩, hrest⟩ := forall_mem_cons.mp hrest
    rw [copySameMessage_cons] at ht
    by_cases hseq : f.isendSeq = q.2.2
    case neg =>
      have hcond : ¬(f.isendSeq = first.isendSeq ∧ f.srcProcID = first.srcProcID ∧
          f.tag = first.tag) := fun hsame => hseq (hsame.1.trans hfirst.seq_eq)
      rw [if_neg hcond] at ht
      rw [filter_cons_of_pos (by simpa using hseq)] at h
      rw [filter_cons_of_neg (by simpa using hseq)] at hnodup ⊢
      exact ih (by simpa using h) hactive (by simpa using hok) hrest hnodup ht
    case pos =>
      have hcond : f.isendSeq = first.isendSeq ∧ f.srcProcID = first.srcProcID ∧
          f.tag = first.tag := by
        have htag := hfrag.tag_eq
        rw [hsrc, hseq, ← hfirst.seq_eq, ← hfirst.src_eq, ← hfirst.isFrag.tag_eq] at htag
        exact ⟨hseq.trans hfirst.seq_eq.symm, hsrc.trans hfirst.src_eq.symm, htag⟩
      rw [if_pos hcond] at ht
      rw [filter_cons_of_neg (by simpa using hseq)] at h
      rw [filter_cons_of_pos (by simpa using hseq)] at hnodup ⊢
      have hexact' : (s.copyOne q.1.id q.2.1 f (kept ++ rest)).Exact := by
        refine hexact.of_grows ?_
        rw [← ht]
        split_ifs
        · exact Grows.refl _
        · exact copySameMessage_grows ..
      obtain ⟨hcore, hassigned⟩ :=
        h.copyOne hq hactive ⟨hfrag, hsrc, hseq⟩ (key_not_mem_of_nodup hnodup) hexact'
      obtain ⟨hokC, hstays, -⟩ := s.copyOne_frame q.1.id q.2.1 f (kept ++ rest)
      generalize s.copyOne q.1.id q.2.1 f (kept ++ rest) = u at *
      have hnodup' : (((A ++ [f]) ++ rest.filter (·.isendSeq = q.2.2)).map
          key).Nodup := by simpa using hnodup
      cases hdone : (u.recvs q.1.id).messageDone with
      | true =>
        rw [hdone] at hassigned ht
        -- all fragments of the message have arrived, so no more are on the list
        obtain ⟨htaken, hleft⟩ := none_left hassigned.all hrest hnodup'
        rw [if_pos rfl] at ht
        subst ht
        rw [htaken, hokC]
        rw [hleft] at hcore
        exact ⟨hcore, hstays⟩
      | false =>
        rw [hdone] at hassigned ht
        obtain ⟨-, -, -, -, hactive', -⟩ := hassigned
        have hcore' : Core messages (A ++ [f]) N (update u.okToMatchRecvFrags q.2.1
            (kept ++ rest.filter (·.isendSeq ≠ q.2.2))) late m u := by
          rw [hokC, update_idem]
          exact hcore
        obtain ⟨hcopied, hstays'⟩ := ih hcore' (hactive' rfl) (by rw [hokC]; simp) hrest hnodup' ht
        exact ⟨by simpa using hcopied, hstays.trans hstays'⟩

/-- What `irecv_start` does before it looks for a message. -/
structure Begins (s : Communicator) (p : Posting) (s' : Communicator) : Prop where
  recvs_ne : ∀ j, j ≠ p.id → s'.recvs j = s.recvs j
  tag : (s'.recvs p.id).postedTag = p.tag
  irecvSeq : (s'.recvs p.id).irecvSeq = p.id
  counted : (s'.recvs p.id).counted = 0
  messageDone : (s'.recvs p.id).messageDone = false
  whichQueue : (s'.recvs p.id).whichQueue = .onNoList
  wild : s'.postedWildRecv = s.postedWildRecv
  specific : s'.postedSpecificRecv = s.postedSpecificRecv
  matched : s'.matchedRecv = s.matchedRecv
  processed : s'.processed = s.processed
  counter : s'.nextIrecvIdCounter = s.nextIrecvIdCounter + 1
  frame : Frame s s'

private lemma copyToApp_spec (hqueue : (s.recvs id).whichQueue = .onNoList)
    (hmessage : (s.recvs id).messageDone = false) :
    ∃ received discarded done, s.copyToApp id f = s.setRecv id (fun r => { r with
        dataReceived := r.dataReceived + received
        dataInBitBucket := r.dataInBitBucket + discarded
        messageDone := done }) ∧
      (s.recvs id).bytesCounted f = received + discarded ∧
      (done = true →
        (s.recvs id).resltsLength ≤ (s.recvs id).counted + (received + discarded)) := by
  unfold copyToApp RecvDesc.bytesCounted
  cases hcopy : (s.recvs id).copyData f with
  | none =>
    refine ⟨0, 0, false, ?_, rfl, nofun⟩
    have hsame : s.recvs id = { s.recvs id with messageDone := false } := by
      rw [← hmessage]
    simp only [setRecv, Nat.add_zero]
    rw [← hsame, update_eq_self]
  | some bytes =>
    simp only [deliveredToApp, deliveredToAppLock,
      setRecv, update_self, hqueue, reduceCtorEq, if_false]
    split_ifs with hfull hdone hdone
    · refine ⟨bytes.1, bytes.2, true, ?_, rfl, fun _ => ?_⟩
      · simp [complete, setRecv, update_idem]
      · simp only [RecvDesc.counted] at hfull ⊢
        omega
    · exact absurd rfl hdone
    · exact absurd hdone (by decide)
    · refine ⟨bytes.1, bytes.2, false, ?_, rfl, nofun⟩
      simp [← hmessage]

private lemma perm_otherFrags (h : Core messages A N ok late m s) (hn : n ∈ m.eligible src) :
    (otherFrags src n A ++ (ok src).filter (·.isendSeq = n)).Perm A := by
  rw [perm_iff_count]
  intro g
  rw [count_append]
  have hcount := h.held.count g
  by_cases hg : g.srcProcID = src ∧ g.isendSeq = n
  · obtain ⟨rfl, rfl⟩ := hg
    have hzero := count_eq_zero.mpr (h.held.not_mem_processed h.waiting.proper hn)
    have hother : (otherFrags g.srcProcID g.isendSeq A).count g = 0 := by
      rw [count_eq_zero]
      simp [otherFrags]
    have hfilter : ((ok g.srcProcID).filter (·.isendSeq = g.isendSeq)).count g =
        (ok g.srcProcID).count g := count_filter (by simp)
    omega
  · have hother : (otherFrags src n A).count g = A.count g := count_filter (decide_eq_true hg)
    have hfilter : ((ok src).filter (·.isendSeq = n)).count g = 0 := by
      rw [count_eq_zero, mem_filter]
      rintro ⟨hin, hseq⟩
      exact hg ⟨h.held.ok_src src g hin, by simpa using hseq⟩
    omega

/-- The messages of a process that wait are those with fragments on the list to match; a receive
finds the earliest it accepts. -/
private lemma find_eligible (h : Core messages A N ok late m s)
    (hfirst : ∀ src n, n < N src → ∃ f ∈ A, messages.FragOf src n f)
    {accepts : ℕ → Bool} {wants : BaseRecvFragDesc → Bool}
    (hwants : ∀ f ∈ ok src, wants f = accepts f.isendSeq) :
    ((ok src).find? wants = none ∧ (m.eligible src).find? accepts = none) ∨
      ∃ kept f rest, ok src = kept ++ f :: rest ∧ (∀ g ∈ kept, wants g = false) ∧
        wants f = true ∧ (m.eligible src).find? accepts = some f.isendSeq := by
  cases hfind : (ok src).find? wants with
  | none =>
    refine .inl ⟨rfl, find?_eq_none.mpr fun n hn hacc => ?_⟩
    obtain ⟨f, hf, -, rfl, rfl⟩ := hfirst src n (h.waiting.eligible_lt src n hn)
    have hin := h.held.mem_ok h.waiting.proper hf hn
    exact find?_eq_none.mp hfind f hin (by rw [hwants f hin, hacc])
  | some f =>
    obtain ⟨hf, kept, rest, hok, hkept⟩ := find?_eq_some_iff_append.mp hfind
    have hin : f ∈ ok src := by simp [hok]
    refine .inr ⟨kept, f, rest, hok, fun g hg => by simpa using hkept g hg, hf, ?_⟩
    refine find?_eq_some_of_least (h.waiting.sorted src) (h.held.ok_eligible src f hin)
      (by rw [← hwants f hin, hf]) fun n hn hacc hlt => ?_
    obtain ⟨g, hg, rfl⟩ := h.held.ok_order src kept f rest hok n hn hlt
    have hno := hkept g hg
    rw [hwants g (by simp [hok, hg]), hacc] at hno
    exact absurd hno (by decide)

private lemma span_of_append {l : List BaseRecvFragDesc} {c : BaseRecvFragDesc → Bool}
    (hl : l = kept ++ f :: rest) (hkept : ∀ g ∈ kept, c g = true) (hf : c f = false) :
    l.span c = (kept, f :: rest) := by
  rw [span_eq_takeWhile_dropWhile, hl, takeWhile_append_of_pos hkept,
    dropWhile_append_of_pos hkept, takeWhile_cons_of_neg (by simp [hf]),
    dropWhile_cons_of_neg (by simp [hf]), append_nil]

/-- A receive that has begun and found a message, as if it were on the matched list already. -/
def Communicator.started (s : Communicator) (id : ℕ) (f : BaseRecvFragDesc) : Communicator :=
  let s := s.setRecv id fun r => { r with
    isendSeq := f.isendSeq
    resltsLength := f.msgLength
    resltsTag := f.tag
    resltsPeer := f.srcProcID
    whichQueue := .matchedIrecv }
  s.setMatched f.srcProcID (s.matchedRecv f.srcProcID ++ [id])

private lemma started_recvs : (s.started id f).recvs id = { s.recvs id with
    isendSeq := f.isendSeq, resltsLength := f.msgLength, resltsTag := f.tag
    resltsPeer := f.srcProcID, whichQueue := .matchedIrecv } := by
  simp [started, setRecv, setMatched]

private lemma Begins.started (h : Begins s p t) :
    Starts s p.id f.srcProcID f.isendSeq f.msgLength (t.started p.id f) := by
  have hrecv : (t.started p.id f).recvs p.id = _ := started_recvs
  refine ⟨⟨fun j hj => ?_, ?_, ?_, ?_, ?_, ?_, ?_, ?_, h.processed⟩, h.wild, h.specific,
    h.counter⟩
  · rw [← h.recvs_ne j hj]
    simp [Communicator.started, setRecv, setMatched, hj]
  · rw [hrecv]
  · rw [hrecv]
  · rw [hrecv]
  · rw [hrecv, ← h.counted]
    rfl
  · rw [hrecv, ← h.messageDone]
  · rw [hrecv]
  · rw [← h.matched]
    rfl

/-- The first fragment is copied into a receive that has just found its message. -/
def Communicator.copyFirst (s : Communicator) (id proc : ℕ) (f : BaseRecvFragDesc)
    (left : List BaseRecvFragDesc) : Communicator :=
  let s := s.setRecv id fun r => { r with
    isendSeq := f.isendSeq
    resltsLength := f.msgLength
    resltsTag := f.tag
    resltsPeer := f.srcProcID }
  let s := s.copyToApp id f
  (s.setOkToMatch proc left).record id f .irecvStart

lemma Communicator.copyFirst_frame (s : Communicator) (id proc : ℕ) (f : BaseRecvFragDesc)
    (left : List BaseRecvFragDesc) :
    (s.copyFirst id proc f left).okToMatchRecvFrags = update s.okToMatchRecvFrags proc left ∧
      Stays s (s.copyFirst id proc f left) ∧ Grows s (s.copyFirst id proc f left) := by
  obtain ⟨hframe, hgrows⟩ := copyToApp_frame (s.setRecv id fun r => { r with
    isendSeq := f.isendSeq
    resltsLength := f.msgLength
    resltsTag := f.tag
    resltsPeer := f.srcProcID }) id f
  refine ⟨?_, { hframe.stays with }, Grows.record hgrows id f .irecvStart⟩
  simp only [copyFirst, record, setOkToMatch, hframe.ok]
  rfl

/-- A receive is put on the matched list. -/
def Communicator.enlist (s : Communicator) (id : ℕ) : Communicator :=
  let s := s.setRecv id fun r => { r with whichQueue := .matchedIrecv }
  s.setMatched (s.recvs id).resltsPeer (s.matchedRecv (s.recvs id).resltsPeer ++ [id])

lemma Communicator.checkSpecified_of_span
    (hspan : (s.okToMatchRecvFrags proc).span (fun frag => !s.wants frag id) = (kept, f :: rest)) :
    s.checkSpecifiedFragListsForMatch id proc =
      if ((s.copyFirst id proc f (kept ++ rest)).recvs id).messageDone then
        (s.copyFirst id proc f (kept ++ rest), true)
      else (copySameMessage id proc f kept rest
        ((s.copyFirst id proc f (kept ++ rest)).enlist id), true) := by
  unfold checkSpecifiedFragListsForMatch
  rw [hspan]
  rfl

private lemma Begins.copyFirst_eq (h : Begins s p t) (proc : ℕ)
    (f : BaseRecvFragDesc) (left : List BaseRecvFragDesc) :
    ∃ received discarded done, t.copyFirst p.id proc f left =
      { t with
        recvs := update t.recvs p.id { t.recvs p.id with
          isendSeq := f.isendSeq
          resltsLength := f.msgLength
          resltsTag := f.tag
          resltsPeer := f.srcProcID
          dataReceived := (t.recvs p.id).dataReceived + received
          dataInBitBucket := (t.recvs p.id).dataInBitBucket + discarded
          messageDone := done }
        okToMatchRecvFrags := update t.okToMatchRecvFrags proc left
        processed := t.processed ++ [⟨p.id, f, received + discarded, .irecvStart⟩] } ∧
      (done = true → f.msgLength ≤ received + discarded) := by
  set u := t.setRecv p.id fun r => { r with
    isendSeq := f.isendSeq
    resltsLength := f.msgLength
    resltsTag := f.tag
    resltsPeer := f.srcProcID } with hu
  have hrecv : u.recvs p.id = { t.recvs p.id with
      isendSeq := f.isendSeq, resltsLength := f.msgLength, resltsTag := f.tag
      resltsPeer := f.srcProcID } := by
    simp [hu, setRecv]
  have hqueue : (u.recvs p.id).whichQueue = .onNoList := by rw [hrecv, ← h.whichQueue]
  have hmessage : (u.recvs p.id).messageDone = false := by rw [hrecv, ← h.messageDone]
  have hcounted : (u.recvs p.id).counted = 0 := by
    rw [hrecv, ← h.counted]
    rfl
  obtain ⟨received, discarded, done, hcopy, hbytes, hfull⟩ :=
    copyToApp_spec (f := f) hqueue hmessage
  refine ⟨received, discarded, done, ?_, fun hdone => ?_⟩
  · have hrecord : ((u.setRecv p.id fun r => { r with
        dataReceived := r.dataReceived + received
        dataInBitBucket := r.dataInBitBucket + discarded
        messageDone := done }).recvs p.id).bytesCounted f = received + discarded := by
      rw [← hbytes]
      simp only [setRecv, update_self]
      rfl
    simp only [copyFirst, ← hu, hcopy, record, setOkToMatch]
    rw [show (u.setRecv p.id _).recvs p.id = _ from rfl, hrecord]
    simp [hu, setRecv, update_idem]
  · have hfull := hfull hdone
    rw [hcounted, hrecv, Nat.zero_add] at hfull
    exact hfull

/-- For a receive that is not on the matched list, `copyFirst` copies as into one that is; it is put
on the list afterwards if it is not complete. -/
private lemma Begins.copies (h : Begins s p t)
    (hnot : p.id ∉ s.matchedRecv f.srcProcID) (proc : ℕ) (left : List BaseRecvFragDesc) :
    (((t.copyFirst p.id proc f left).recvs p.id).messageDone = true ∧
        Copies (t.started p.id f) p.id f f.srcProcID true (t.copyFirst p.id proc f left)) ∨
      (((t.copyFirst p.id proc f left).recvs p.id).messageDone = false ∧
        Copies (t.started p.id f) p.id f f.srcProcID false
          ((t.copyFirst p.id proc f left).enlist p.id)) := by
  obtain ⟨received, discarded, done, heq, hfull⟩ := h.copyFirst_eq proc f left
  rw [heq]
  have hstarted_ne : ∀ j, j ≠ p.id → (t.started p.id f).recvs j = t.recvs j := fun j hj => by
    simp [Communicator.started, setRecv, setMatched, hj]
  cases done with
  | true =>
    refine .inl ⟨by simp, fun j hj => ?_, ?_, ?_, ?_, ⟨_, .irecvStart, rfl, ?_⟩, rfl, rfl, rfl, ?_,
      fun _ => ?_, by rintro ⟨⟩⟩
    · simp [hstarted_ne j hj, hj]
    · simp [started_recvs]
    · simp [started_recvs]
    · simp [started_recvs]
    · simp only [update_self, started_recvs, RecvDesc.counted]
      omega
    · have hmatched : t.matchedRecv f.srcProcID = s.matchedRecv f.srcProcID := by rw [h.matched]
      have herase : (t.matchedRecv f.srcProcID ++ [p.id]).erase p.id =
          t.matchedRecv f.srcProcID := by
        rw [hmatched, erase_append_right _ hnot]
        simp
      simp only [Communicator.started, setMatched, setRecv, update_self, update_idem, herase]
      exact (update_eq_self _ _).symm
    · simp only [update_self, RecvDesc.counted]
      have := hfull rfl
      omega
  | false =>
    refine .inr ⟨by simp, fun j hj => ?_, ?_, ?_, ?_, ⟨_, .irecvStart, rfl, ?_⟩, rfl, rfl, rfl, ?_,
      by rintro ⟨⟩, fun _ => ?_⟩
    · simp [hstarted_ne j hj, hj, enlist, setRecv, setMatched]
    · simp [started_recvs, enlist, setRecv, setMatched]
    · simp [started_recvs, enlist, setRecv, setMatched]
    · simp [started_recvs, enlist, setRecv, setMatched]
    · simp only [enlist, setRecv, setMatched, update_self, started_recvs, RecvDesc.counted]
      omega
    · simp [enlist, setRecv, setMatched, Communicator.started]
    · simp [enlist, setRecv, setMatched]

section Accepts

variable (h : Core messages A N s.okToMatchRecvFrags late m s)
  (hpeer : p.peer = none ∨ p.peer = some src)
  (hfirst : ∀ src n, n < N src → ∃ f ∈ A, messages.FragOf src n f)

include h hpeer

private lemma tagMatches_eq_compatible : ∀ g ∈ s.okToMatchRecvFrags src,
    RecvDesc.tagMatches p.tag g.tag = messages.compatible p src g.isendSeq := by
  intro g hg
  have hpeer' : (p.peer == none || p.peer == some src) = true := by simpa using hpeer
  rw [Messages.compatible, Posting.accepts, hpeer', Bool.true_and, ← RecvDesc.tagMatches_eq,
    (h.held.isFrag g (h.held.mem_of_ok hg)).tag_eq, h.held.ok_src src g hg]

include hfirst

/-- If no fragment on the list is for the receive, no message that waits is. -/
lemma Core.find_eligible_eq_none
    (hany : (s.okToMatchRecvFrags src).any (fun f => RecvDesc.tagMatches p.tag f.tag) = false) :
    (m.eligible src).find? (messages.compatible p src) = none := by
  obtain ⟨-, hfind⟩ | ⟨kept, f, rest, hok, -, hf, -⟩ :=
    find_eligible h hfirst (tagMatches_eq_compatible h hpeer)
  · exact hfind
  · simp [hok, hf] at hany

/-- **`checkSpecifiedFragListsForMatch`** finds the earliest message of the process that the receive
accepts, and copies the fragments that have arrived. -/
theorem Core.checkSpecified (hbegins : Begins s p t) (hp : p.id = s.nextIrecvIdCounter)
    (hcounter : 1 ≤ p.id)
    (hany : (s.okToMatchRecvFrags src).any (fun f => RecvDesc.tagMatches p.tag f.tag) = true)
    (hexact : (t.checkSpecifiedFragListsForMatch p.id src).1.Exact) :
    ∃ n s', t.checkSpecifiedFragListsForMatch p.id src = (s', true) ∧
      (m.eligible src).find? (messages.compatible p src) = some n ∧
      Core messages A N s'.okToMatchRecvFrags late (m.pairPosted p src n) s' ∧ Stays s s' := by
  have hokT := hbegins.frame.ok
  have hisFrag : ∀ g ∈ s.okToMatchRecvFrags src, messages.IsFrag g ∧ g.srcProcID = src :=
    fun g hg => ⟨h.held.isFrag g (h.held.mem_of_ok hg), h.held.ok_src src g hg⟩
  have hcompatible := tagMatches_eq_compatible h hpeer
  obtain ⟨hnone, -⟩ | ⟨kept, f, rest, hok, hkept, hf, hfind⟩ := find_eligible h hfirst hcompatible
  · exact absurd hany (by simpa using hnone)
  · refine ⟨f.isendSeq, ?_⟩
    have hspan : (t.okToMatchRecvFrags src).span (fun g => !t.wants g p.id) =
        (kept, f :: rest) := by
      simp only [hokT, wants, hbegins.tag]
      exact span_of_append hok (fun g hg => by simp [hkept g hg]) (by simp [hf])
    have hfin : f ∈ s.okToMatchRecvFrags src := by simp [hok]
    obtain ⟨hfrag, hsrc⟩ := hisFrag f hfin
    have hn := h.held.ok_eligible src f hfin
    -- all fragments of the message come after this one
    have hkept_ne : ∀ g ∈ kept, g.isendSeq ≠ f.isendSeq := by
      intro g hg heq
      have hgin : g ∈ s.okToMatchRecvFrags src := by simp [hok, hg]
      have hno := hkept g hg
      rw [hcompatible g hgin, heq, ← hcompatible f hfin, hf] at hno
      exact absurd hno (by decide)
    have htaken : (s.okToMatchRecvFrags src).filter (·.isendSeq = f.isendSeq) =
        f :: rest.filter (·.isendSeq = f.isendSeq) := by
      rw [hok, filter_append, filter_eq_nil_iff.mpr fun g hg =>
        by simpa using hkept_ne g hg, nil_append, filter_cons_of_pos (by simp)]
    have hleft : (s.okToMatchRecvFrags src).filter (·.isendSeq ≠ f.isendSeq) =
        kept ++ rest.filter (·.isendSeq ≠ f.isendSeq) := by
      rw [hok, filter_append, filter_eq_self.mpr fun g hg => by simpa using hkept_ne g hg,
        filter_cons_of_neg (by simp)]
    have hperm := perm_otherFrags h hn
    rw [htaken] at hperm
    have hkeys : ((otherFrags src f.isendSeq A ++
        f :: rest.filter (·.isendSeq = f.isendSeq)).map key).Nodup :=
      (hperm.map _).nodup_iff.mpr h.held.nodup
    subst hsrc
    have hstarts := hbegins.started (f := f)
    rw [hfrag.msgLength_eq] at hstarts
    have hcore := h.pairPosted hp hn hcounter hstarts
    rw [hleft] at hcore
    set q : Posting × ℕ × ℕ := (p, f.srcProcID, f.isendSeq) with hqdef
    have hq : q ∈ (m.pairPosted p f.srcProcID f.isendSeq).pairs := by
      simp [Matcher.pairPosted, hqdef]
    have hactive : q.1.id ∈ (t.started p.id f).matchedRecv q.2.1 := by
      simp [hstarts.matched, hqdef]
    have hfragOf : messages.FragOf q.2.1 q.2.2 f := ⟨hfrag, rfl, rfl⟩
    have hfresh := key_not_mem_of_nodup hkeys
    have hne : ∀ r ∈ m.pairs, r.1.id ≠ p.id := fun r hr => h.id_ne hp (mem_allReceives_of_pair hr)
    rw [checkSpecified_of_span hspan] at hexact ⊢
    obtain ⟨hokF, hstaysF, -⟩ := t.copyFirst_frame p.id f.srcProcID f (kept ++ rest)
    rw [hokT] at hokF
    have hstays := hbegins.frame.stays.trans hstaysF
    have hleft' : ∀ g ∈ rest, messages.IsFrag g ∧ g.srcProcID = f.srcProcID := fun g hg =>
      hisFrag g (by simp [hok, hg])
    obtain ⟨hdone, hcopies⟩ | ⟨hdone, hcopies⟩ :=
      hbegins.copies (h.receives.not_mem_matched hne _) f.srcProcID (kept ++ rest)
    · rw [if_pos hdone] at hexact ⊢
      have hcopied := hcore.copies hq hactive hfragOf hfresh hcopies hexact
        (fun _ _ => Iff.rfl) (fun _ => .inl hdone) (by rintro ⟨⟩)
      -- the receive is complete, so no fragment of the message is left
      obtain ⟨-, -, hmessage, -⟩ | ⟨-, hall, -⟩ := (hcopied.receives.pairs q hq).state
      · exact absurd (hmessage.symm.trans hdone) (by decide)
      · obtain ⟨hnil, hself⟩ := none_left hall hleft' (by simpa using hkeys)
        rw [hnil] at hperm
        rw [hself, ← hokF] at hcopied
        exact ⟨_, rfl, hfind, hcopied.perm hperm, hstays⟩
    · rw [if_neg (by rw [hdone]; decide)] at hexact ⊢
      have hexact' := hexact.of_grows (copySameMessage_grows ..)
      have hcopied := hcore.copies hq hactive hfragOf hfresh hcopies hexact'
        (fun _ _ => Iff.rfl) (by rintro ⟨⟩) (fun _ => h.receives.not_mem_late hne)
      generalize ht : t.copyFirst p.id f.srcProcID f (kept ++ rest) = u at *
      have hokE : (u.enlist p.id).okToMatchRecvFrags = u.okToMatchRecvFrags := rfl
      have hactiveE : q.1.id ∈ (u.enlist p.id).matchedRecv q.2.1 := by
        rw [hcopies.matched]
        exact hactive
      have hcopied' : Core messages (otherFrags f.srcProcID f.isendSeq A ++ [f]) N
          (update (u.enlist p.id).okToMatchRecvFrags q.2.1
            (kept ++ rest.filter (·.isendSeq ≠ q.2.2))) late
          (m.pairPosted p f.srcProcID f.isendSeq) (u.enlist p.id) := by
        rw [hokE, hokF, hqdef, update_idem]
        exact hcopied
      obtain ⟨hsame, hstaysS⟩ := hcopied'.copySameMessage hq hactiveE hfragOf
        (by rw [hokE, hokF, hqdef, update_self]) hleft' (by simpa using hkeys) rfl hexact
      have hstaysE : Stays u (u.enlist p.id) := ⟨rfl, rfl, rfl⟩
      exact ⟨_, rfl, hfind, hsame.perm (by simpa using hperm), hstays.trans (hstaysE.trans hstaysS)⟩

end Accepts

end Lampi
