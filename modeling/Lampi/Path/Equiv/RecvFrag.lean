import Lampi.Path.RecvFrag
import Lampi.Queue.Equiv.SeqTracking

/-!
# Invariants of the receiving side

First, what each step of the receiver can do.  Then three invariants of a receiver, each kept by
arrival, processing and `SendUnsentAcks`:

* `Receiver.Inv`: every descriptor and every acknowledgement belongs to a fragment that was sent.
* `Receiver.Sound`: what is recorded as delivered was accepted, and so was what acknowledgements
  report as good, one by one or cumulatively.  UDP needs that no copy fails.
* `Receiver.Once`: no number is accepted twice.  This needs that erasing a number from the list of
  received ones is safe (`Receiver.EraseSafe`).
-/

namespace Lampi

open List RecvFragDesc Option

variable {path : Path} {me : ℕ} {frag frag' : RecvFragDesc} {seqs seqs' : DataSeqs}
  {res : Resources} {r r' : Receiver} {ack : Ack} {sent : List Ack} {result : AckResult}
  {copyError accepted : Bool} {postedLength i : ℕ} {retry : ℕ → Resources}
  {frags : List RecvFragDesc} {status : AckStatus}

/-! ### What `AckData` does -/

/-- What `processRecvDataSeqs` does to the lists, and the status it reports. -/
inductive RecvFragDesc.Updates (frag : RecvFragDesc) (seqs : DataSeqs) : AckStatus → DataSeqs → Prop
  | recorded (hunique : frag.isDuplicate = .unique) (hok : frag.dataOK = true)
      (h :
        (seqs.delivered.recordIfNotRecorded frag.header.fragSeq frag.header.fragSeq).2.1 = true) :
      frag.Updates seqs .dataGood
        { seqs with
          delivered :=
            (seqs.delivered.recordIfNotRecorded frag.header.fragSeq frag.header.fragSeq).2.2 }
  | erased (hunique : frag.isDuplicate = .unique) (hbad : frag.dataOK = false)
      (h : (seqs.received.erase frag.header.fragSeq frag.header.fragSeq).1 = true) :
      frag.Updates seqs .dataCorrupt
        { seqs with received := (seqs.received.erase frag.header.fragSeq frag.header.fragSeq).2 }
  | delivered (h : frag.isDuplicate = .delivered) : frag.Updates seqs .dataGood seqs
  | received (h : frag.isDuplicate = .received) : frag.Updates seqs .aggInfoOnly seqs

/-- The acknowledgement is the answer of process `me` to a fragment with this header. -/
structure Ack.Answers (ack : Ack) (me : ℕ) (header : DataHeader) : Prop where
  srcProc : ack.srcProc = me
  sendFragDesc : ack.sendFragDesc = header.sendFragDesc
  thisFragSeq : ack.ackStatus ≠ .aggInfoOnly → ack.thisFragSeq = header.fragSeq

lemma RecvFragDesc.processRecvDataSeqs_cases
    (h : frag.processRecvDataSeqs (frag.blankAck me) seqs = some (ack, seqs')) :
    frag.Updates seqs ack.ackStatus seqs' ∧ ack.Answers me frag.header ∧
      ack.deliveredFragSeq = seqs'.delivered.largestInOrder := by
  simp only [processRecvDataSeqs, map_eq_some_iff, Prod.exists, Prod.mk.injEq] at h
  obtain ⟨ack0, seqs0, h, rfl, rfl⟩ := h
  split at h
  case h_1 hunique =>
    split_ifs at h with hok hrecorded herased
    · cases h
      exact ⟨.recorded hunique hok hrecorded, ⟨rfl, rfl, fun _ => rfl⟩, rfl⟩
    · cases h
      exact ⟨.erased hunique (by simpa using hok) herased, ⟨rfl, rfl, fun _ => rfl⟩, rfl⟩
  case h_2 hdelivered =>
    cases h
    exact ⟨.delivered hdelivered, ⟨rfl, rfl, fun _ => rfl⟩, rfl⟩
  case h_3 hreceived =>
    cases h
    exact ⟨.received hreceived, ⟨rfl, rfl, absurd rfl⟩, rfl⟩

/-- `AckData` either builds no acknowledgement and changes nothing, or builds one for a fragment
that is to be acknowledged. -/
lemma RecvFragDesc.ackData_cases (h : frag.ackData path me seqs res = some result) :
    (result.acked = false → frag.header.wantsAck path = true) ∧
      ((result.seqs = seqs ∧ result.ack = none) ∨
        ∃ ack, result.ack = some ack ∧ frag.header.wantsAck path = true ∧
          res.haveBuffer path = true ∧ frag.Updates seqs ack.ackStatus result.seqs ∧
          ack.Answers me frag.header ∧
          ack.deliveredFragSeq = result.seqs.delivered.largestInOrder) := by
  unfold ackData at h
  split_ifs at h with hwants hbuffer
  · cases h
    exact ⟨fun hacked => absurd hacked (by simp), .inl ⟨rfl, rfl⟩⟩
  · cases h
    exact ⟨fun _ => by simpa using hwants, .inl ⟨rfl, rfl⟩⟩
  · obtain ⟨⟨ack, seqs'⟩, hprocess, rfl⟩ := map_eq_some_iff.mp h
    obtain ⟨hupdates, hanswers, hdelivered⟩ := processRecvDataSeqs_cases hprocess
    have hwants' : frag.header.wantsAck path = true := by simpa using hwants
    exact ⟨fun _ => hwants', .inr ⟨ack, rfl, hwants', by simpa using hbuffer, hupdates,
      hanswers, hdelivered⟩⟩

lemma Receiver.acknowledge_cases (h : r.acknowledge path me frag res = some (r', sent)) :
    ∃ result, frag.ackData path me r.seqs res = some result ∧
      ((result.acked = true ∧ sent = result.ack.toList ∧
        r' = { r with seqs := result.seqs, built := r.built ++ result.ack.toList }) ∨
      (result.acked = false ∧ sent = [] ∧
        r' = { r with
          seqs := result.seqs
          built := r.built ++ result.ack.toList
          unprocessedAcks := r.unprocessedAcks ++ [frag] })) := by
  obtain ⟨result, hresult, h⟩ := map_eq_some_iff.mp h
  refine ⟨result, hresult, ?_⟩
  split_ifs at h with hacked
  · cases h
    exact .inl ⟨hacked, rfl, rfl⟩
  · cases h
    exact .inr ⟨by simpa using hacked, rfl, rfl⟩

/-! ### What arrival and processing do -/

/-- `CopyToApp` only changes `DataOK`.  With GM it says whether the data was accepted; with UDP it
stays set, and the data is accepted unless the copy fails. -/
lemma RecvFragDesc.copyToApp_cases
    (h : frag.copyToApp path postedLength copyError = some (accepted, frag')) :
    frag'.header = frag.header ∧ frag'.isDuplicate = frag.isDuplicate ∧
      (path ≠ .udp → frag'.dataOK = accepted) ∧
      (path = .udp → frag.dataOK = true → frag'.dataOK = true) ∧
      (path = .udp → copyError = false → accepted = true) := by
  simp only [copyToApp] at h
  split_ifs at h
  · cases h
    simp
  · cases path with
    | gm doAck doChecksum =>
      simp only [checkData] at h
      split_ifs at h
      all_goals
        cases h
        simp
    | udp =>
      cases h
      simp

/-- Descriptors that `AckData` acknowledges as good. -/
def RecvFragDesc.Good (frag : RecvFragDesc) : Prop :=
  (frag.isDuplicate = .unique ∧ frag.dataOK = true) ∨ frag.isDuplicate = .delivered

/-- The lists after the check for a duplicate has found one. -/
def DataSeqs.checked (seqs : DataSeqs) (n : ℕ) : DataSeqs :=
  ⟨(seqs.received.recordIfNotRecorded n n).2.2, (seqs.delivered.isRecorded n n).2⟩

/-- An arriving fragment becomes pending, if it has no number or its number is new; otherwise it is
dropped, or acknowledged as a duplicate. -/
lemma Receiver.handleReceivedFrag_cases
    (h : r.handleReceivedFrag path me frag res = some (r', sent)) :
    (sent = [] ∧ ∃ received, r' = { r with
        seqs := { r.seqs with received }
        pending := r.pending ++ [frag] } ∧
      (frag.header.fragSeq = 0 ∧ received = r.seqs.received ∨
        frag.header.fragSeq ≠ 0 ∧
          r.seqs.received.recordIfNotRecorded frag.header.fragSeq frag.header.fragSeq =
            (.no, true, received))) ∨
    (frag.header.fragSeq ≠ 0 ∧
      (r.seqs.received.recordIfNotRecorded frag.header.fragSeq frag.header.fragSeq).1 ≠ .no ∧
      (sent = [] ∧ r' = { r with seqs := r.seqs.checked frag.header.fragSeq } ∨
        ∃ frag', frag'.header = frag.header ∧ frag'.isDuplicate ≠ .unique ∧
          (frag.dataOK = true → frag'.dataOK = true) ∧
          (frag'.Good →
            (r.seqs.delivered.isRecorded frag.header.fragSeq frag.header.fragSeq).1 ≠ .no) ∧
          acknowledge path me { r with seqs := r.seqs.checked frag.header.fragSeq } frag' res =
            some (r', sent))) := by
  simp only [handleReceivedFrag, DataSeqs.checked] at h ⊢
  generalize r.seqs.received.recordIfNotRecorded frag.header.fragSeq frag.header.fragSeq = record
    at h ⊢
  generalize r.seqs.delivered.isRecorded frag.header.fragSeq frag.header.fragSeq = lookup at h ⊢
  obtain ⟨answer, recorded, received⟩ := record
  split_ifs at h with hzero hanswer hdelivered horder hrecorded
  · cases h
    exact .inl ⟨rfl, r.seqs.received, rfl, .inl ⟨hzero, rfl⟩⟩
  · exact .inr ⟨hzero, hanswer, .inr
      ⟨{ frag with isDuplicate := .delivered, dataOK := true }, rfl, by simp, fun _ => rfl,
        fun _ => hdelivered, h⟩⟩
  · exact .inr ⟨hzero, hanswer, .inr
      ⟨{ frag with isDuplicate := .received }, rfl, by simp, id, by simp [Good], h⟩⟩
  · cases h
    exact .inr ⟨hzero, hanswer, .inl ⟨rfl, rfl⟩⟩
  · cases h
    refine .inl ⟨rfl, _, rfl, .inr ⟨hzero, ?_⟩⟩
    rw [show answer = .no from not_not.mp hanswer, show recorded = true by simpa using hrecorded]

/-- The receiver after it has copied the data of a pending fragment with number `n`. -/
def Receiver.copied (r : Receiver) (i n : ℕ) (accepted : Bool) : Receiver :=
  { r with
    pending := r.pending.eraseIdx i
    accepted := if accepted then r.accepted ++ [n] else r.accepted }

lemma Receiver.mem_copied {m : ℕ} (n : ℕ) (accepted : Bool) (hm : m ∈ r.accepted) :
    m ∈ (r.copied i n accepted).accepted := by
  cases accepted with
  | true => exact mem_append_left _ hm
  | false => exact hm

lemma Receiver.processMatchedData_cases
    (h : r.processMatchedData path me i postedLength copyError res = some (r', sent)) :
    ∃ frag accepted frag', r.pending[i]? = some frag ∧
      frag.copyToApp path postedLength copyError = some (accepted, frag') ∧
      (r.copied i frag.header.fragSeq accepted).acknowledge path me frag' res =
        some (r', sent) := by
  obtain ⟨frag, hfrag, h⟩ := bind_eq_some_iff.mp h
  obtain ⟨⟨accepted, frag'⟩, hcopy, h⟩ := bind_eq_some_iff.mp h
  refine ⟨frag, accepted, frag', hfrag, hcopy, ?_⟩
  rw [← (copyToApp_cases hcopy).1]
  exact h

/-! ### The loop of `SendUnsentAcks` -/

/-- `AckData` will erase the number of the fragment from the list of received ones. -/
def RecvFragDesc.erasesReceived (path : Path) (frag : RecvFragDesc) (res : Resources) : Bool :=
  frag.header.wantsAck path && res.haveBuffer path && (frag.isDuplicate == .unique && !frag.dataOK)

/-- Every erasure that the loop of `SendUnsentAcks` makes is safe. -/
def RetriesSafe (path : Path) (me : ℕ) (res : ℕ → Resources)
    (safe : DataSeqs → RecvFragDesc → Prop) : ℕ → List RecvFragDesc → DataSeqs → Prop
  | _, [], _ => True
  | i, frag :: frags, seqs =>
    (frag.erasesReceived path (res i) = true → safe seqs frag) ∧
      match frag.ackData path me seqs (res i) with
      | some result => RetriesSafe path me res safe (i + 1) frags result.seqs
      | none => True

instance decidableRetriesSafe {retry : ℕ → Resources} {safe : DataSeqs → RecvFragDesc → Prop}
    [∀ seqs frag, Decidable (safe seqs frag)] :
    ∀ i frags seqs, Decidable (RetriesSafe path me retry safe i frags seqs)
  | _, [], _ => isTrue trivial
  | i, frag :: frags, seqs =>
    have : Decidable (match frag.ackData path me seqs (retry i) with
        | some result => RetriesSafe path me retry safe (i + 1) frags result.seqs
        | none => True) :=
      match frag.ackData path me seqs (retry i) with
      | some result => decidableRetriesSafe (i + 1) frags result.seqs
      | none => isTrue trivial
    inferInstanceAs (Decidable ((frag.erasesReceived path (retry i) = true → safe seqs frag) ∧ _))

lemma retriesSafe_true (frags : List RecvFragDesc) (i : ℕ) (seqs : DataSeqs) :
    RetriesSafe path me retry (fun _ _ => True) i frags seqs := by
  induction frags generalizing i seqs with
  | nil => trivial
  | cons frag frags ih =>
    refine ⟨fun _ => trivial, ?_⟩
    split
    · exact ih _ _
    · trivial

/-- What every call of `AckData` in the loop keeps holds after the loop.  The descriptors still
queued are some of those that were. -/
lemma Receiver.sendUnsentAcks_induction {safe : DataSeqs → RecvFragDesc → Prop}
    {I : DataSeqs → List Ack → Prop}
    (hstep : ∀ frag ∈ frags, ∀ i seqs built result, I seqs built →
      (frag.erasesReceived path (retry i) = true → safe seqs frag) →
      frag.ackData path me seqs (retry i) = some result →
      I result.seqs (built ++ result.ack.toList))
    (hsafe : RetriesSafe path me retry safe i frags r.seqs) (hI : I r.seqs r.built)
    (h : sendUnsentAcks path me retry i frags r = some (r', sent)) :
    I r'.seqs r'.built ∧ r'.pending = r.pending ∧ r'.accepted = r.accepted ∧
      (∀ frag ∈ r'.unprocessedAcks, frag ∈ frags) ∧ (∀ ack ∈ r.built ++ sent, ack ∈ r'.built) := by
  induction frags generalizing i r r' sent with
  | nil =>
    cases h
    exact ⟨hI, rfl, rfl, by simp, by simp⟩
  | cons frag frags ih =>
    obtain ⟨result, hresult, h⟩ := bind_eq_some_iff.mp h
    obtain ⟨⟨r1, sent1⟩, hrest, h⟩ := map_eq_some_iff.mp h
    obtain ⟨herase, hsafe⟩ := hsafe
    rw [hresult] at hsafe
    have hI' := hstep frag mem_cons_self i _ _ _ hI herase hresult
    obtain ⟨hI1, hpending, haccepted, hqueued, hbuilt⟩ :=
      ih (fun f hf => hstep f (mem_cons_of_mem _ hf)) hsafe hI' hrest
    have hsent : ∀ ack ∈ r.built ++ (result.ack.toList ++ sent1), ack ∈ r1.built := by
      rw [← append_assoc]
      exact hbuilt
    split_ifs at h with hacked
    · cases h
      exact ⟨hI1, hpending, haccepted, fun f hf => mem_cons_of_mem _ (hqueued f hf), hsent⟩
    · cases h
      refine ⟨hI1, hpending, haccepted, ?_, ?_⟩
      · exact cons_subset_cons frag hqueued
      · intro ack hack
        rcases mem_append.mp hack with hack | hack
        · exact hsent ack (mem_append_left _ hack)
        · exact hsent ack (mem_append_right _ (mem_append_right _ hack))

/-! ### What is recorded stays recorded -/

/-- What has been accepted and built stays so, and what was sent has been built. -/
structure Receiver.Extends (r r' : Receiver) (sent : List Ack) : Prop where
  accepted : ∀ n ∈ r.accepted, n ∈ r'.accepted
  built : ∀ ack ∈ r.built ++ sent, ack ∈ r'.built

lemma Receiver.acknowledge_extends (h : r.acknowledge path me frag res = some (r', sent)) :
    r.Extends r' sent := by
  obtain ⟨result, -, ⟨-, rfl, rfl⟩ | ⟨-, rfl, rfl⟩⟩ := acknowledge_cases h
  · exact ⟨fun n hn => hn, fun ack hack => hack⟩
  · refine ⟨fun n hn => hn, fun ack hack => ?_⟩
    rw [append_nil] at hack
    exact mem_append_left _ hack

lemma Receiver.handleReceivedFrag_extends
    (h : r.handleReceivedFrag path me frag res = some (r', sent)) : r.Extends r' sent := by
  obtain ⟨rfl, received, rfl, -⟩ | ⟨-, -, ⟨rfl, rfl⟩ | ⟨frag', -, -, -, -, h⟩⟩ :=
    handleReceivedFrag_cases h
  · exact ⟨fun n hn => hn, by simp⟩
  · exact ⟨fun n hn => hn, by simp⟩
  · obtain ⟨haccepted, hbuilt⟩ := acknowledge_extends h
    exact ⟨haccepted, hbuilt⟩

lemma Receiver.processMatchedData_extends
    (h : r.processMatchedData path me i postedLength copyError res = some (r', sent)) :
    r.Extends r' sent := by
  obtain ⟨frag, accepted, frag', -, -, h⟩ := processMatchedData_cases h
  obtain ⟨haccepted, hbuilt⟩ := acknowledge_extends h
  exact ⟨fun n hn => haccepted n (mem_copied _ _ hn), hbuilt⟩

lemma Receiver.sendUnsentAcks_extends
    (h : sendUnsentAcks path me retry i frags r = some (r', sent)) : r.Extends r' sent := by
  obtain ⟨-, -, haccepted, -, hbuilt⟩ := sendUnsentAcks_induction (I := fun _ _ => True)
    (fun _ _ _ _ _ _ _ _ _ => trivial) (retriesSafe_true frags i r.seqs) trivial h
  exact ⟨fun n hn => haccepted ▸ hn, hbuilt⟩

/-! ### Everything belongs to a fragment that was sent -/

/-- Every descriptor, every accepted number and every acknowledgement belongs to a fragment whose
header is in `P`. -/
structure Receiver.Inv (path : Path) (me : ℕ) (P : DataHeader → Prop) (r : Receiver) : Prop where
  pending : ∀ frag ∈ r.pending,
    P frag.header ∧ frag.isDuplicate = .unique ∧ (path = .udp → frag.dataOK = true)
  queued : ∀ frag ∈ r.unprocessedAcks,
    P frag.header ∧ frag.header.wantsAck path = true ∧ (path = .udp → frag.dataOK = true)
  accepted : ∀ n ∈ r.accepted, ∃ header, P header ∧ header.fragSeq = n
  built : ∀ ack ∈ r.built, ∃ header, P header ∧ header.wantsAck path = true ∧ ack.Answers me header

namespace Receiver.Inv

variable {P Q : DataHeader → Prop}

lemma mono (h : r.Inv path me P) (hPQ : ∀ header, P header → Q header) : r.Inv path me Q where
  pending frag hfrag := ⟨hPQ _ (h.pending frag hfrag).1, (h.pending frag hfrag).2⟩
  queued frag hfrag := ⟨hPQ _ (h.queued frag hfrag).1, (h.queued frag hfrag).2⟩
  accepted n hn := by
    obtain ⟨header, hheader, hseq⟩ := h.accepted n hn
    exact ⟨header, hPQ _ hheader, hseq⟩
  built ack hack := by
    obtain ⟨header, hheader, hrest⟩ := h.built ack hack
    exact ⟨header, hPQ _ hheader, hrest⟩

private lemma ackData_answers (hP : P frag.header)
    (h : frag.ackData path me seqs res = some result) :
    ∀ ack ∈ result.ack.toList,
      ∃ header, P header ∧ header.wantsAck path = true ∧ ack.Answers me header := by
  intro ack hack
  obtain ⟨-, ⟨-, hnone⟩ | ⟨ack', hsome, hwants, -, -, hanswers, -⟩⟩ := ackData_cases h
  · simp [hnone] at hack
  · obtain rfl : ack = ack' := by simpa [hsome] using hack
    exact ⟨frag.header, hP, hwants, hanswers⟩

variable (h : r.Inv path me P)

include h

lemma acknowledge (hP : P frag.header) (hudp : path = .udp → frag.dataOK = true)
    (hack : r.acknowledge path me frag res = some (r', sent)) : r'.Inv path me P := by
  obtain ⟨result, hresult, hcases⟩ := acknowledge_cases hack
  have hbuilt : ∀ ack ∈ r.built ++ result.ack.toList,
      ∃ header, P header ∧ header.wantsAck path = true ∧ ack.Answers me header :=
    forall_mem_append.mpr ⟨h.built, ackData_answers hP hresult⟩
  obtain ⟨-, -, rfl⟩ | ⟨hacked, -, rfl⟩ := hcases
  · exact ⟨h.pending, h.queued, h.accepted, hbuilt⟩
  · have hwants := (ackData_cases hresult).1 hacked
    refine ⟨h.pending, forall_mem_append.mpr ⟨h.queued, ?_⟩, h.accepted, hbuilt⟩
    simpa using ⟨hP, hwants, hudp⟩

lemma handleReceivedFrag (hP : P frag.header) (hunique : frag.isDuplicate = .unique)
    (hudp : path = .udp → frag.dataOK = true)
    (hstep : r.handleReceivedFrag path me frag res = some (r', sent)) : r'.Inv path me P := by
  obtain ⟨-, received, rfl, -⟩ | ⟨-, -, ⟨-, rfl⟩ | ⟨frag', hheader, -, hdata, -, hack⟩⟩ :=
    handleReceivedFrag_cases hstep
  · refine ⟨forall_mem_append.mpr ⟨h.pending, ?_⟩, h.queued, h.accepted, h.built⟩
    simpa using ⟨hP, hunique, hudp⟩
  · exact ⟨h.pending, h.queued, h.accepted, h.built⟩
  · have hchecked : Inv path me P { r with seqs := r.seqs.checked frag.header.fragSeq } :=
      ⟨h.pending, h.queued, h.accepted, h.built⟩
    exact hchecked.acknowledge (hheader ▸ hP) (fun hp => hdata (hudp hp)) hack

lemma processMatchedData
    (hstep : r.processMatchedData path me i postedLength copyError res = some (r', sent)) :
    r'.Inv path me P := by
  obtain ⟨frag, accepted, frag', hfrag, hcopy, hack⟩ := processMatchedData_cases hstep
  obtain ⟨hP, -, hudp⟩ := h.pending frag (mem_of_getElem? hfrag)
  obtain ⟨hheader, -, -, hdata, -⟩ := copyToApp_cases hcopy
  have hcopied : (r.copied i frag.header.fragSeq accepted).Inv path me P := by
    refine ⟨fun f hf => h.pending f (mem_of_mem_eraseIdx hf), h.queued, ?_, h.built⟩
    cases accepted with
    | true => exact forall_mem_append.mpr ⟨h.accepted, by simpa using ⟨_, hP, rfl⟩⟩
    | false => exact h.accepted
  exact hcopied.acknowledge (hheader ▸ hP) (fun hp => hdata hp (hudp hp)) hack

lemma sendUnsentAcks
    (hstep : sendUnsentAcks path me retry 0 r.unprocessedAcks r = some (r', sent)) :
    r'.Inv path me P := by
  obtain ⟨hbuilt, hpending, haccepted, hqueued, -⟩ := sendUnsentAcks_induction
    (I := fun _ built => ∀ ack ∈ built,
      ∃ header, P header ∧ header.wantsAck path = true ∧ ack.Answers me header)
    (fun frag hfrag i seqs built result hbuilt _ hresult =>
      forall_mem_append.mpr ⟨hbuilt, ackData_answers (h.queued frag hfrag).1 hresult⟩)
    (retriesSafe_true r.unprocessedAcks 0 r.seqs) h.built hstep
  exact ⟨hpending ▸ h.pending, fun f hf => h.queued f (hqueued f hf), haccepted ▸ h.accepted,
    hbuilt⟩

end Receiver.Inv

/-! ### What is reported as delivered was accepted -/

/-- The fragment's number can be recorded, and a fragment that is acknowledged has one. -/
def DataHeader.Numbered (path : Path) (header : DataHeader) : Prop :=
  header.fragSeq < 2 ^ 64 - 1 ∧ (header.wantsAck path = true → 1 ≤ header.fragSeq)

/-- What is recorded as delivered is among the numbers accepted. -/
def DataSeqs.Sound (seqs : DataSeqs) (accepted : List ℕ) : Prop :=
  ∃ D, seqs.delivered.Tracks D ∧ ∀ n ∈ D, n ∈ accepted

/-- The fragments that the acknowledgement reports as delivered were accepted: those up to
`deliveredFragSeq`, and the one it is about if its status is good. -/
def Ack.Sound (ack : Ack) (accepted : List ℕ) : Prop :=
  (∀ k, 1 ≤ k → k ≤ ack.deliveredFragSeq → k ∈ accepted) ∧
    (ack.ackStatus = .dataGood → ack.thisFragSeq ∈ accepted)

section Sound

variable {A A' : List ℕ}

lemma DataSeqs.Sound.mono (h : seqs.Sound A) (hA : ∀ n ∈ A, n ∈ A') : seqs.Sound A' := by
  obtain ⟨D, hD, hsub⟩ := h
  exact ⟨D, hD, fun n hn => hA n (hsub n hn)⟩

lemma Ack.Sound.mono (h : ack.Sound A) (hA : ∀ n ∈ A, n ∈ A') : ack.Sound A' :=
  ⟨fun k h1 h2 => hA k (h.1 k h1 h2), fun hgood => hA _ (h.2 hgood)⟩

lemma RecvFragDesc.Updates.sound (h : frag.Updates seqs status seqs') (hs : seqs.Sound A)
    (hgood : frag.Good → frag.header.fragSeq ∈ A) (hn : 1 ≤ frag.header.fragSeq)
    (hn' : frag.header.fragSeq < 2 ^ 64 - 1) :
    seqs'.Sound A ∧ (status = .dataGood → frag.header.fragSeq ∈ A) := by
  cases h with
  | recorded hunique hok hrecorded =>
    have hmem : frag.header.fragSeq ∈ A := hgood (.inl ⟨hunique, hok⟩)
    obtain ⟨D, hD, hsub⟩ := hs
    obtain ⟨-, -, hD'⟩ := hD.recordIfNotRecorded hn hn'
    rw [if_pos hrecorded] at hD'
    refine ⟨⟨_, hD', fun n hin => ?_⟩, fun _ => hmem⟩
    rcases hin with rfl | hin
    · exact hmem
    · exact hsub n hin
  | erased => exact ⟨hs, fun hstatus => nomatch hstatus⟩
  | delivered hdelivered => exact ⟨hs, fun _ => hgood (.inr hdelivered)⟩
  | received => exact ⟨hs, fun hstatus => nomatch hstatus⟩

/-- `AckData` for a fragment that was accepted, if it is to be acknowledged as good. -/
lemma RecvFragDesc.ackData_sound (hs : seqs.Sound A) (hgood : frag.Good → frag.header.fragSeq ∈ A)
    (hnum : frag.header.Numbered path) (h : frag.ackData path me seqs res = some result) :
    result.seqs.Sound A ∧ ∀ ack ∈ result.ack.toList, ack.Sound A := by
  obtain ⟨-, ⟨hseqs, hnone⟩ | ⟨ack, hsome, hwants, -, hupdates, hanswers, hlargest⟩⟩ :=
    ackData_cases h
  · exact ⟨hseqs ▸ hs, by simp [hnone]⟩
  · obtain ⟨hs', hstatus⟩ := hupdates.sound hs hgood (hnum.2 hwants) hnum.1
    refine ⟨hs', ?_⟩
    simp only [hsome, toList_some, mem_singleton, forall_eq]
    refine ⟨fun k h1 h2 => ?_, fun hdata => ?_⟩
    · obtain ⟨D, hD, hsub⟩ := hs'
      exact hsub k (hD.largestInOrder.1 k h1 (hlargest ▸ h2))
    · rw [hanswers.thisFragSeq (by rw [hdata]; decide)]
      exact hstatus hdata

end Sound

/-- What the receiver has recorded as delivered, is about to acknowledge as good, or has
acknowledged, was accepted. -/
structure Receiver.Sound (r : Receiver) : Prop where
  seqs : r.seqs.Sound r.accepted
  queued : ∀ frag ∈ r.unprocessedAcks, frag.Good → frag.header.fragSeq ∈ r.accepted
  built : ∀ ack ∈ r.built, ack.Sound r.accepted

namespace Receiver.Sound

variable {P : DataHeader → Prop} (h : r.Sound)

include h

lemma acknowledge (hgood : frag.Good → frag.header.fragSeq ∈ r.accepted)
    (hnum : frag.header.Numbered path)
    (hack : r.acknowledge path me frag res = some (r', sent)) : r'.Sound := by
  obtain ⟨result, hresult, hcases⟩ := acknowledge_cases hack
  obtain ⟨hseqs, hbuilt⟩ := ackData_sound h.seqs hgood hnum hresult
  have hbuilt' : ∀ ack ∈ r.built ++ result.ack.toList, ack.Sound r.accepted :=
    forall_mem_append.mpr ⟨h.built, hbuilt⟩
  obtain ⟨-, -, rfl⟩ | ⟨-, -, rfl⟩ := hcases
  · exact ⟨hseqs, h.queued, hbuilt'⟩
  · exact ⟨hseqs, forall_mem_append.mpr ⟨h.queued, by simpa using hgood⟩, hbuilt'⟩

lemma handleReceivedFrag (hnum : frag.header.Numbered path)
    (hstep : r.handleReceivedFrag path me frag res = some (r', sent)) : r'.Sound := by
  obtain ⟨-, received, rfl, -⟩ | ⟨-, -, hdup⟩ := handleReceivedFrag_cases hstep
  · exact ⟨h.seqs, h.queued, h.built⟩
  · obtain ⟨D, hD, hsub⟩ := h.seqs
    obtain ⟨hlookup, hD'⟩ := hD.isRecorded frag.header.fragSeq
    have hchecked : Receiver.Sound { r with seqs := r.seqs.checked frag.header.fragSeq } :=
      ⟨⟨D, hD', hsub⟩, h.queued, h.built⟩
    obtain ⟨-, rfl⟩ | ⟨frag', hheader, -, -, hrecorded, hack⟩ := hdup
    · exact hchecked
    · refine hchecked.acknowledge (fun hgood => ?_) (hheader ▸ hnum) hack
      rw [hheader]
      exact hsub _ (hlookup.mp (hrecorded hgood))

variable (hinv : r.Inv path me P) (hP : ∀ header, P header → header.Numbered path)

include hinv hP

lemma processMatchedData (hcopyError : path = .udp → copyError = false)
    (hstep : r.processMatchedData path me i postedLength copyError res = some (r', sent)) :
    r'.Sound := by
  obtain ⟨frag, accepted, frag', hfrag, hcopy, hack⟩ := processMatchedData_cases hstep
  obtain ⟨hsent, hunique, hudp⟩ := hinv.pending frag (mem_of_getElem? hfrag)
  obtain ⟨hheader, hdup, hgm, -, hcopied⟩ := copyToApp_cases hcopy
  have hsub : ∀ n ∈ r.accepted, n ∈ (r.copied i frag.header.fragSeq accepted).accepted :=
    fun n => mem_copied _ _
  have hcopied' : (r.copied i frag.header.fragSeq accepted).Sound :=
    ⟨h.seqs.mono hsub, fun f hf hgood => hsub _ (h.queued f hf hgood),
      fun ack hin => (h.built ack hin).mono hsub⟩
  refine hcopied'.acknowledge ?_ (hheader ▸ hP _ hsent) hack
  rintro (⟨-, hdata⟩ | hdelivered)
  · have haccepted : accepted = true := by
      by_cases hpath : path = .udp
      · exact hcopied hpath (hcopyError hpath)
      · exact (hgm hpath).symm.trans hdata
    simp [copied, haccepted, hheader]
  · exact absurd (hdelivered.symm.trans (hdup.trans hunique)) (by decide)

lemma sendUnsentAcks
    (hstep : sendUnsentAcks path me retry 0 r.unprocessedAcks r = some (r', sent)) : r'.Sound := by
  obtain ⟨⟨hseqs, hbuilt⟩, -, haccepted, hqueued, -⟩ := sendUnsentAcks_induction
    (I := fun seqs built => seqs.Sound r.accepted ∧ ∀ ack ∈ built, ack.Sound r.accepted)
    (fun frag hfrag i seqs built result hI _ hresult => by
      obtain ⟨hseqs, hack⟩ := ackData_sound hI.1 (h.queued frag hfrag)
        (hP _ (hinv.queued frag hfrag).1) hresult
      exact ⟨hseqs, forall_mem_append.mpr ⟨hI.2, hack⟩⟩)
    (retriesSafe_true r.unprocessedAcks 0 r.seqs) ⟨h.seqs, h.built⟩ hstep
  rw [← haccepted] at hseqs hbuilt
  exact ⟨hseqs, fun f hf hgood => haccepted ▸ h.queued f (hqueued f hf) hgood, hbuilt⟩

end Receiver.Sound

/-! ### No number is accepted twice -/

variable (r)

/-- The numbers of the pending fragments. -/
def Receiver.pendingSeqs : List ℕ := r.pending.map fun frag => frag.header.fragSeq

/-- The fragment with this number has been processed successfully: it was accepted, is recorded as
delivered (`D`), or will be when its acknowledgement is sent. -/
def Receiver.Settled (D : Set ℕ) (n : ℕ) : Prop :=
  n ∈ r.accepted ∨ n ∈ D ∨ ∃ frag ∈ r.unprocessedAcks, frag.Good ∧ frag.header.fragSeq = n

/-- Fragments that are pending or settled are recorded as received (`R`), and each is one or the
other, once. -/
structure Receiver.Once (R D : Set ℕ) : Prop where
  received : r.seqs.received.Tracks R
  delivered : r.seqs.delivered.Tracks D
  accepted : ∀ n, 1 ≤ n → r.accepted.count n ≤ 1
  pending : ∀ n, 1 ≤ n → r.pendingSeqs.count n ≤ 1
  disjoint : ∀ n, 1 ≤ n → r.Settled D n → n ∉ r.pendingSeqs
  recorded : ∀ n, 1 ≤ n → r.Settled D n ∨ n ∈ r.pendingSeqs → n ∈ R

/-- No copy of the fragment is pending or was accepted, and erasing its number does not move the
list. -/
def Receiver.EraseSafe (seqs : DataSeqs) (frag : RecvFragDesc) : Prop :=
  frag.header.fragSeq ∉ r.accepted ∧ frag.header.fragSeq ∉ r.pendingSeqs ∧
    ¬seqs.received.EraseMoves frag.header.fragSeq

instance (seqs : DataSeqs) (frag : RecvFragDesc) : Decidable (r.EraseSafe seqs frag) := by
  unfold Receiver.EraseSafe
  infer_instance

variable {r}

namespace Receiver.Once

variable {P : DataHeader → Prop} {R D : Set ℕ} (h : r.Once R D)

include h

private lemma settle {D' : Set ℕ} (hR : r'.seqs.received.Tracks R)
    (hD : r'.seqs.delivered.Tracks D') (haccepted : ∀ n, 1 ≤ n → r'.accepted.count n ≤ 1)
    (hpending : r'.pendingSeqs.Sublist r.pendingSeqs)
    (hsettled : ∀ n, 1 ≤ n → r'.Settled D' n → r.Settled D n ∨ n ∈ R ∧ n ∉ r'.pendingSeqs) :
    r'.Once R D' where
  received := hR
  delivered := hD
  accepted := haccepted
  pending n hn := (hpending.count_le n).trans (h.pending n hn)
  disjoint n hn hset := by
    rcases hsettled n hn hset with hset | hnew
    · exact fun hin => h.disjoint n hn hset (hpending.subset hin)
    · exact hnew.2
  recorded n hn := by
    rintro (hset | hin)
    · rcases hsettled n hn hset with hset | hnew
      · exact h.recorded n hn (.inl hset)
      · exact hnew.1
    · exact h.recorded n hn (.inr (hpending.subset hin))

lemma enqueue (hgood : frag.Good → frag.header.fragSeq ∈ R ∧ frag.header.fragSeq ∉ r.pendingSeqs) :
    Once { r with unprocessedAcks := r.unprocessedAcks ++ [frag] } R D := by
  refine h.settle h.received h.delivered h.accepted (.refl _) ?_
  rintro m - (hm | hm | ⟨f, hf, hg⟩)
  · exact .inl (.inl hm)
  · exact .inl (.inr (.inl hm))
  · rcases mem_append.mp hf with hf | hf
    · exact .inl (.inr (.inr ⟨f, hf, hg⟩))
    · obtain rfl := mem_singleton.mp hf
      exact .inr (hg.2 ▸ hgood hg.1)

section Acknowledge

/- A fragment that is good is settled; one whose number is erased is neither settled nor pending. -/
variable (hnum : frag.header.Numbered path)
  (hgood : frag.header.wantsAck path = true → frag.Good →
    frag.header.fragSeq ∈ R ∧ frag.header.fragSeq ∉ r.pendingSeqs)
  (hbad : frag.erasesReceived path res = true →
    ¬r.Settled D frag.header.fragSeq ∧ frag.header.fragSeq ∉ r.pendingSeqs ∧
      ¬r.seqs.received.EraseMoves frag.header.fragSeq)

include hnum hgood hbad

lemma updates (hwants : frag.header.wantsAck path = true) (hbuffer : res.haveBuffer path = true)
    (hupdates : frag.Updates r.seqs status seqs') :
    ∃ R' D', Once { r with seqs := seqs' } R' D' ∧ (frag.Good → frag.header.fragSeq ∈ R') := by
  have hn := hnum.2 hwants
  cases hupdates with
  | recorded hunique hok hrecorded =>
    have hnew := hgood hwants (.inl ⟨hunique, hok⟩)
    obtain ⟨-, -, hD⟩ := h.delivered.recordIfNotRecorded hn hnum.1
    rw [if_pos hrecorded] at hD
    refine ⟨R, _, h.settle h.received hD h.accepted (.refl _) ?_, fun _ => hnew.1⟩
    rintro m - (hm | (rfl | hm) | hm)
    · exact .inl (.inl hm)
    · exact .inr hnew
    · exact .inl (.inr (.inl hm))
    · exact .inl (.inr (.inr hm))
  | erased hunique hbad' herased =>
    obtain ⟨hsettled, hpending, hmoves⟩ := hbad (by simp [erasesReceived, *])
    have hR := h.received.erase hn hnum.1 hmoves
    rw [if_pos herased] at hR
    refine ⟨_, D, ⟨hR, h.delivered, h.accepted, h.pending, h.disjoint, fun m hm hset => ?_⟩, ?_⟩
    · refine ⟨h.recorded m hm hset, ?_⟩
      rintro rfl
      exact hset.elim hsettled hpending
    · simp [Good, hunique, hbad']
  | delivered => exact ⟨R, D, h, fun hg => (hgood hwants hg).1⟩
  | received => exact ⟨R, D, h, fun hg => (hgood hwants hg).1⟩

lemma ackData (hresult : frag.ackData path me r.seqs res = some result) :
    ∃ R' D', Once { r with seqs := result.seqs, built := r.built ++ result.ack.toList } R' D' ∧
      (frag.header.wantsAck path = true → frag.Good → frag.header.fragSeq ∈ R') := by
  obtain ⟨-, ⟨hseqs, -⟩ | ⟨ack, -, hwants, hbuffer, hupdates, -⟩⟩ := ackData_cases hresult
  · rw [hseqs]
    exact ⟨R, D, { h with }, fun hw hg => (hgood hw hg).1⟩
  · obtain ⟨R', D', h', hR'⟩ := h.updates hnum hgood hbad hwants hbuffer hupdates
    exact ⟨R', D', { h' with }, fun _ => hR'⟩

lemma acknowledge (hack : r.acknowledge path me frag res = some (r', sent)) :
    ∃ R' D', r'.Once R' D' := by
  obtain ⟨result, hresult, hcases⟩ := acknowledge_cases hack
  obtain ⟨R', D', h', hR'⟩ := h.ackData hnum hgood hbad hresult
  obtain ⟨-, -, rfl⟩ | ⟨hacked, -, rfl⟩ := hcases
  · exact ⟨R', D', h'⟩
  · have hwants := (ackData_cases hresult).1 hacked
    exact ⟨R', D', h'.enqueue fun hg => ⟨hR' hwants hg, (hgood hwants hg).2⟩⟩

end Acknowledge

/-! #### Arrival -/

private lemma arrive {R' : Set ℕ} {received : SeqTrackingList} (hR : received.Tracks R')
    (hsub : R ⊆ R')
    (hnew : 1 ≤ frag.header.fragSeq → frag.header.fragSeq ∉ R ∧ frag.header.fragSeq ∈ R') :
    Once { r with
      seqs := { r.seqs with received }
      pending := r.pending ++ [frag] } R' D := by
  have hpendingSeqs : pendingSeqs { r with
      seqs := { r.seqs with received }
      pending := r.pending ++ [frag] } = r.pendingSeqs ++ [frag.header.fragSeq] := by
    simp [pendingSeqs]
  refine ⟨hR, h.delivered, h.accepted, fun m hm => ?_, fun m hm hset => ?_, fun m hm hset => ?_⟩
  · rw [hpendingSeqs, count_append]
    by_cases heq : m = frag.header.fragSeq
    · subst heq
      have hzero := count_eq_zero_of_not_mem fun hin => (hnew hm).1 (h.recorded _ hm (.inr hin))
      simp [hzero]
    · have hone := h.pending m hm
      simp only [count_singleton, beq_iff_eq, Ne.symm heq, if_false]
      omega
  · rw [hpendingSeqs, mem_append, mem_singleton]
    rintro (hin | rfl)
    · exact h.disjoint m hm hset hin
    · exact (hnew hm).1 (h.recorded _ hm (.inl hset))
  · rw [hpendingSeqs, mem_append, mem_singleton] at hset
    rcases hset with hset | hin | rfl
    · exact hsub (h.recorded m hm (.inl hset))
    · exact hsub (h.recorded m hm (.inr hin))
    · exact (hnew hm).2

lemma handleReceivedFrag (hnum : frag.header.Numbered path)
    (hstep : r.handleReceivedFrag path me frag res = some (r', sent)) : ∃ R' D', r'.Once R' D' := by
  have hreceived := h.received.recordIfNotRecorded (n := frag.header.fragSeq)
  obtain ⟨-, received, rfl, ⟨hzero, rfl⟩ | ⟨hn, hrecord⟩⟩ | ⟨hn, hdup, hcases⟩ :=
    handleReceivedFrag_cases hstep
  · exact ⟨R, D, h.arrive h.received Set.Subset.rfl (by omega)⟩
  · obtain ⟨hanswer, -, hR⟩ := hreceived (Nat.one_le_iff_ne_zero.mpr hn) hnum.1
    rw [hrecord] at hanswer hR
    exact ⟨_, D, h.arrive hR (Set.subset_insert ..)
      fun _ => ⟨fun hin => hanswer.mpr hin rfl, Set.mem_insert ..⟩⟩
  · obtain ⟨hanswer, hrecorded, hR⟩ := hreceived (Nat.one_le_iff_ne_zero.mpr hn) hnum.1
    have hin := hanswer.mp hdup
    rw [if_pos (hrecorded hin), Set.insert_eq_of_mem hin] at hR
    obtain ⟨hlookup, hD⟩ := h.delivered.isRecorded frag.header.fragSeq
    have hchecked : Once { r with seqs := r.seqs.checked frag.header.fragSeq } R D :=
      ⟨hR, hD, h.accepted, h.pending, h.disjoint, h.recorded⟩
    obtain ⟨-, rfl⟩ | ⟨frag', hheader, hne, -, hgood, hack⟩ := hcases
    · exact ⟨R, D, hchecked⟩
    · refine hchecked.acknowledge (hheader ▸ hnum) (fun _ hg => ?_) (fun herases => ?_) hack
      · -- a good duplicate is one recorded as delivered
        have hset : r.Settled D frag.header.fragSeq := .inr (.inl (hlookup.mp (hgood hg)))
        rw [hheader]
        exact ⟨hin, h.disjoint _ (Nat.one_le_iff_ne_zero.mpr hn) hset⟩
      · -- a duplicate erases nothing
        simp [erasesReceived, hne] at herases

/-! #### Processing -/

private lemma take (hfrag : r.pending[i]? = some frag) (accepted : Bool) :
    (r.copied i frag.header.fragSeq accepted).Once R D ∧
    (1 ≤ frag.header.fragSeq → frag.header.fragSeq ∈ R ∧
      frag.header.fragSeq ∉ (r.copied i frag.header.fragSeq accepted).pendingSeqs) := by
  obtain ⟨hi, rfl⟩ := List.getElem?_eq_some_iff.mp hfrag
  obtain ⟨n, hn⟩ : ∃ n, n = r.pending[i].header.fragSeq := ⟨_, rfl⟩
  rw [← hn]
  have hperm : (n :: (r.copied i n accepted).pendingSeqs).Perm r.pendingSeqs := by
    rw [hn]
    exact (getElem_cons_eraseIdx_perm hi).map fun f => f.header.fragSeq
  have hin : n ∈ r.pendingSeqs := hperm.subset mem_cons_self
  have hplace : 1 ≤ n → n ∈ R ∧ n ∉ (r.copied i n accepted).pendingSeqs := by
    intro hpos
    refine ⟨h.recorded n hpos (.inr hin), fun hmem => ?_⟩
    have hone := h.pending n hpos
    have hpositive := count_pos_iff.mpr hmem
    rw [← hperm.count_eq, count_cons_self] at hone
    omega
  refine ⟨h.settle h.received h.delivered ?_ ((eraseIdx_sublist _ i).map _) ?_, hplace⟩
  · intro m hm
    cases accepted with
    | false => exact h.accepted m hm
    | true =>
      show count m (r.accepted ++ [n]) ≤ 1
      rw [count_append, count_singleton]
      by_cases heq : n = m
      · -- the number was pending, so it had not been accepted
        subst heq
        have hzero := count_eq_zero_of_not_mem fun hacc =>
          h.disjoint n hm (.inl hacc) hin
        simp [hzero]
      · have := h.accepted m hm
        simp only [beq_iff_eq, heq, if_false]
        omega
  · rintro m hm (hacc | hset)
    · cases accepted with
      | false => exact .inl (.inl hacc)
      | true =>
        rcases mem_append.mp hacc with hacc | hacc
        · exact .inl (.inl hacc)
        · obtain rfl := mem_singleton.mp hacc
          exact .inr (hplace hm)
    · exact .inl (.inr hset)

variable (hinv : r.Inv path me P) (hP : ∀ header, P header → header.Numbered path)

include hinv hP

lemma processMatchedData (hmoves : ∀ frag frag' accepted, r.pending[i]? = some frag →
      frag.copyToApp path postedLength copyError = some (accepted, frag') →
      frag'.erasesReceived path res = true → ¬r.seqs.received.EraseMoves frag.header.fragSeq)
    (hstep : r.processMatchedData path me i postedLength copyError res = some (r', sent)) :
    ∃ R' D', r'.Once R' D' := by
  obtain ⟨frag, accepted, frag', hfrag, hcopy, hack⟩ := processMatchedData_cases hstep
  obtain ⟨hsent, hunique, hudp⟩ := hinv.pending frag (mem_of_getElem? hfrag)
  obtain ⟨hheader, -, hgm, hdata, -⟩ := copyToApp_cases hcopy
  have hnum := hP _ hsent
  obtain ⟨htaken, hplace⟩ := h.take hfrag accepted
  refine htaken.acknowledge (hheader ▸ hnum) (fun hwants _ => ?_) (fun herases => ?_) hack
  · rw [hheader] at hwants ⊢
    exact hplace (hnum.2 hwants)
  · have hbad := hmoves frag frag' accepted hfrag hcopy herases
    simp only [erasesReceived, Bool.and_eq_true, Bool.not_eq_true', hheader] at herases
    obtain ⟨⟨hwants, -⟩, -, hdataOK⟩ := herases
    have hpos := hnum.2 hwants
    -- what was accepted is good, so this fragment was not
    have hrejected : accepted = false := by
      by_cases hpath : path = .udp
      · exact absurd ((hdata hpath (hudp hpath)).symm.trans hdataOK) (by decide)
      · exact (hgm hpath).symm.trans hdataOK
    rw [hheader]
    refine ⟨fun hset => ?_, (hplace hpos).2, hbad⟩
    have hset' : r.Settled D frag.header.fragSeq := by
      rcases hset with hset | hset
      · rw [hrejected] at hset
        exact .inl hset
      · exact .inr hset
    exact h.disjoint _ hpos hset' (mem_map_of_mem (mem_of_getElem? hfrag))

/-! #### Retrying -/

omit h in
private lemma retried
    (h : (∃ R D, Once { r with seqs := seqs } R D) ∧ (path ≠ .udp → seqs.Sound r.accepted))
    (hsound : path ≠ .udp → r.Sound) (hfrag : frag ∈ r.unprocessedAcks)
    (hsafe : frag.erasesReceived path res = true → r.EraseSafe seqs frag)
    (hresult : frag.ackData path me seqs res = some result) :
    (∃ R D, Once { r with seqs := result.seqs } R D) ∧
      (path ≠ .udp → result.seqs.Sound r.accepted) := by
  obtain ⟨⟨R, D, h⟩, hseqs⟩ := h
  obtain ⟨hsent, -, hudp⟩ := hinv.queued frag hfrag
  have hnum := hP _ hsent
  have hgood : frag.header.wantsAck path = true → frag.Good →
      frag.header.fragSeq ∈ R ∧ frag.header.fragSeq ∉ r.pendingSeqs := by
    intro hwants hg
    have hset : r.Settled D frag.header.fragSeq := .inr (.inr ⟨frag, hfrag, hg, rfl⟩)
    exact ⟨h.recorded _ (hnum.2 hwants) (.inl hset), h.disjoint _ (hnum.2 hwants) hset⟩
  have hbad : frag.erasesReceived path res = true →
      ¬r.Settled D frag.header.fragSeq ∧ frag.header.fragSeq ∉ r.pendingSeqs ∧
        ¬seqs.received.EraseMoves frag.header.fragSeq := by
    intro herases
    obtain ⟨hnotAccepted, hnotPending, hmoves⟩ := hsafe herases
    -- UDP has no negative acknowledgements
    have hpath : path ≠ .udp := by
      rintro rfl
      simp [erasesReceived, hudp rfl] at herases
    refine ⟨fun hset => hnotAccepted ?_, hnotPending, hmoves⟩
    rcases hset with hset | hset | ⟨f, hf, hg, heq⟩
    · exact hset
    · obtain ⟨D', hD', hsub⟩ := hseqs hpath
      exact hsub _ (h.delivered.unique hD' ▸ hset)
    · exact heq ▸ (hsound hpath).queued f hf hg
  obtain ⟨R', D', h', -⟩ := h.ackData hnum hgood hbad hresult
  refine ⟨⟨R', D', { h' with }⟩, fun hpath => ?_⟩
  exact (ackData_sound (hseqs hpath) ((hsound hpath).queued frag hfrag) hnum hresult).1

lemma sendUnsentAcks (hsound : path ≠ .udp → r.Sound)
    (hsafe : RetriesSafe path me retry r.EraseSafe 0 r.unprocessedAcks r.seqs)
    (hstep : Receiver.sendUnsentAcks path me retry 0 r.unprocessedAcks r = some (r', sent)) :
    ∃ R' D', r'.Once R' D' := by
  obtain ⟨⟨⟨R', D', h'⟩, -⟩, hpending, haccepted, hqueued, -⟩ := sendUnsentAcks_induction
    (I := fun seqs _ => (∃ R D, Once { r with seqs := seqs } R D) ∧
      (path ≠ .udp → seqs.Sound r.accepted))
    (fun frag hfrag i seqs built result hI hsafe hresult =>
      retried hinv hP hI hsound hfrag hsafe hresult)
    hsafe ⟨⟨R, D, h⟩, fun hpath => (hsound hpath).seqs⟩ hstep
  have hpendingSeqs : r'.pendingSeqs = r.pendingSeqs := congrArg (map _) hpending
  refine ⟨R', D', h'.settle h'.received h'.delivered (haccepted ▸ h'.accepted)
    (hpendingSeqs ▸ .refl _) ?_⟩
  rintro m - (hm | hm | ⟨f, hf, hg⟩)
  · exact .inl (.inl (haccepted ▸ hm))
  · exact .inl (.inr (.inl hm))
  · exact .inl (.inr (.inr ⟨f, hqueued f hf, hg⟩))

end Receiver.Once

end Lampi
