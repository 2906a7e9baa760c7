import Lampi.Queue.Equiv.Pairing

/-!
# Probing and receiving

What holds of every fragment that arrives and of every receive that is posted holds of those in the
queues and of every copy (`Filed`, which every event keeps).  It follows that no copy counts more
bytes than the fragment has, unless the buffer of a non-contiguous receive ends inside a fragment
(`run_exact`).

`iprobe` has loops of its own over the fragments to match.  They find what `irecv_start` finds
(`probe_eq`), and the peer it reports is the source of the fragment, since every fragment waits on a
list of its source.
-/

namespace Lampi

open Function List Communicator

variable {P : ℕ → BaseRecvFragDesc → Prop} {R : ℕ → Option CommittedType → Prop}
  {s : Communicator} {f : BaseRecvFragDesc} {id proc : ℕ} {kept rest : List BaseRecvFragDesc}

/-! ### What the queues hold -/

/-- `P` holds of the fragments that wait and the process on whose list they are, and `R` of the
receives.  Every copy was one of such a fragment to such a receive. -/
structure Filed (P : ℕ → BaseRecvFragDesc → Prop) (R : ℕ → Option CommittedType → Prop)
    (s : Communicator) : Prop where
  ok : ∀ src, ∀ f ∈ s.okToMatchRecvFrags src, P src f
  ahead : ∀ src, ∀ f ∈ s.aheadOfSeqRecvFrags src, P src f
  recvs : ∀ id, R (s.recvs id).postedLength (s.recvs id).datatype
  processed : ∀ e ∈ s.processed, ∃ src r, P src e.frag ∧
    R (RecvDesc.postedLength r) r.datatype ∧ e.counted = r.bytesCounted e.frag

namespace Filed

private lemma of_append_cons {g : BaseRecvFragDesc} (h : ∀ x ∈ kept ++ g :: rest, P proc x) :
    P proc g ∧ ∀ x ∈ kept ++ rest, P proc x := by
  rw [forall_mem_append, forall_mem_cons] at h
  exact ⟨h.2.1, forall_mem_append.mpr ⟨h.1, h.2.2⟩⟩

variable (h : Filed P R s)

include h

lemma setOkToMatch (hrest : ∀ g ∈ rest, P proc g) : Filed P R (s.setOkToMatch proc rest) :=
  { h with
    ok := (forall_update_iff s.okToMatchRecvFrags fun src l => ∀ g ∈ l, P src g).mpr
      ⟨hrest, fun src _ => h.ok src⟩ }

lemma setAheadOfSeq (hrest : ∀ g ∈ rest, P proc g) : Filed P R (s.setAheadOfSeq proc rest) :=
  { h with
    ahead := (forall_update_iff s.aheadOfSeqRecvFrags fun src l => ∀ g ∈ l, P src g).mpr
      ⟨hrest, fun src _ => h.ahead src⟩ }

lemma recvs_update (id : ℕ) {r : RecvDesc} (hr : R r.postedLength r.datatype) :
    ∀ j, R (update s.recvs id r j).postedLength (update s.recvs id r j).datatype :=
  (forall_update_iff s.recvs fun _ r => R r.postedLength r.datatype).mpr
    ⟨hr, fun j _ => h.recvs j⟩

lemma record (hf : P proc f) (id : ℕ) (handler : Handler) : Filed P R (s.record id f handler) :=
  { h with
    processed := forall_mem_append.mpr ⟨h.processed, forall_mem_singleton.mpr
      ⟨proc, s.recvs id, hf, h.recvs id, rfl⟩⟩ }

lemma complete (id : ℕ) : Filed P R (s.complete id) :=
  { h with recvs := h.recvs_update id (h.recvs id) }

lemma fillInTag (id : ℕ) (f : BaseRecvFragDesc) : Filed P R (s.fillInTag id f) :=
  { h with recvs := h.recvs_update id (h.recvs id) }

lemma checkPosted (f : BaseRecvFragDesc) : Filed P R (s.checkPostedRecvListForMatch f).1 := by
  rw [checkPosted_eq]
  match s.candidates f with
  | [] => exact h
  | (true, id) :: _ =>
    refine fillInTag ?_ id f
    exact { h with recvs := h.recvs_update id (h.recvs id) }
  | (false, id) :: rest =>
    have hfilled : Filed P R (s.matchSpecific id f) :=
      { h with recvs := h.recvs_update id (h.recvs id) }
    simp only [takeFirst]
    split_ifs
    · exact hfilled
    · exact hfilled.fillInTag id f

lemma deliveredToAppLock (id copied discarded : ℕ) :
    Filed P R (s.deliveredToAppLock id copied discarded).1 := by
  have hcounted : Filed P R (s.setRecv id fun r => { r with
      dataReceived := r.dataReceived + copied
      dataInBitBucket := r.dataInBitBucket + discarded }) :=
    { h with recvs := h.recvs_update id (h.recvs id) }
  simp only [Communicator.deliveredToAppLock]
  split_ifs <;> exact { hcounted with }

lemma copyToAppLock (id : ℕ) (f : BaseRecvFragDesc) : Filed P R (s.copyToAppLock id f).1 := by
  unfold Communicator.copyToAppLock
  split
  · exact h.deliveredToAppLock id _ _
  · exact h

lemma copyToApp (id : ℕ) (f : BaseRecvFragDesc) : Filed P R (s.copyToApp id f) := by
  unfold Communicator.copyToApp deliveredToApp
  split
  · dsimp only
    split_ifs
    · exact (h.deliveredToAppLock id _ _).complete id
    · exact h.deliveredToAppLock id _ _
  · exact h

lemma processMatchedData (hf : P proc f) (id : ℕ) : Filed P R (s.processMatchedData id f).1 :=
  (h.copyToAppLock id f).record hf id _

lemma place (hf : P proc f) (matched : Option ℕ) : Filed P R (s.place proc f matched).1 := by
  cases matched with
  | some id => exact h.processMatchedData hf id
  | none => exact h.setOkToMatch (forall_mem_append.mpr ⟨h.ok proc, by simpa using hf⟩)

lemma completeIf (done : Bool) (matched : Option ℕ) : Filed P R (s.completeIf done matched) := by
  cases matched with
  | none => exact h
  | some id =>
    cases done with
    | true => exact h.complete id
    | false => exact h

lemma takeSameMessage (n : ℕ) (matched : Option ℕ) (hl : ∀ g ∈ kept ++ rest, P proc g) :
    Filed P R (takeSameMessage proc n matched kept rest s) := by
  induction rest generalizing kept s with
  | nil => exact h
  | cons g rest ih =>
    obtain ⟨hg, hleft⟩ := of_append_cons hl
    have hplaced := (h.setAheadOfSeq hleft).place hg matched
    simp only [takeSameMessage]
    split_ifs
    · exact hplaced.completeIf _ matched
    · exact ih (hplaced.completeIf _ matched) hleft
    · exact ih h (by rwa [append_assoc, singleton_append])

lemma searchOkToMatch (id n : ℕ) (hl : ∀ g ∈ kept ++ rest, P proc g) :
    Filed P R (searchOkToMatch id proc n kept rest s).1 := by
  induction rest generalizing kept s with
  | nil => exact h
  | cons g rest ih =>
    obtain ⟨hg, hleft⟩ := of_append_cons hl
    have hprocessed := (h.setOkToMatch hleft).processMatchedData hg id
    simp only [searchOkToMatch]
    split_ifs
    · exact hprocessed
    · exact ih hprocessed hleft
    · exact ih h (by rwa [append_assoc, singleton_append])

lemma matchAheadOfSeq (proc fuel : ℕ) : Filed P R (matchAheadOfSeq proc fuel s) := by
  induction fuel generalizing s with
  | zero => exact h
  | succ fuel ih =>
    simp only [matchAheadOfSeq, span_eq_takeWhile_dropWhile]
    have hsplit := takeWhile_append_dropWhile
      (p := fun frag => frag.isendSeq != s.nextExpectedIsendSeqs proc)
      (l := s.aheadOfSeqRecvFrags proc)
    split
    · exact h
    case h_2 kept g rest heq =>
      obtain ⟨hkept, hrest⟩ := Prod.mk.inj heq
      rw [hkept, hrest] at hsplit
      obtain ⟨hg, hleft⟩ := of_append_cons (hsplit.symm ▸ h.ahead proc)
      have hplaced := ((h.checkPosted g).setAheadOfSeq hleft).place hg
        (s.checkPostedRecvListForMatch g).2
      refine ih ?_
      split_ifs
      · exact { hplaced.completeIf _ _ with }
      · exact { (hplaced.completeIf _ _).takeSameMessage _ _ hleft with }

lemma handleReceivedFrag (hf : P f.srcProcID f) : Filed P R (s.handleReceivedFrag f) := by
  rcases lt_trichotomy f.isendSeq (s.nextExpectedIsendSeqs f.srcProcID) with hlt | heq | hgt
  · rw [handleReceivedFrag_of_lt hlt]
    exact (h.place hf _).completeIf _ _
  · rw [handleReceivedFrag_of_eq heq]
    have hplaced : Filed P R (s.placeFound f).1 := (h.checkPosted f).place hf _
    have hmatched : Filed P R (s.matchInSequence f).1 := by
      rcases s.matchInSequence_cases f with hf | ⟨id, -, -, hf⟩ <;> rw [hf]
      · exact hplaced
      · exact hplaced.searchOkToMatch _ _ (hplaced.ok _)
    exact (matchAheadOfSeq (s := (s.matchInSequence f).1.advance f.srcProcID) { hmatched with }
      _ _).completeIf _ _
  · rw [handleReceivedFrag_of_gt hgt]
    exact h.setAheadOfSeq (forall_mem_append.mpr ⟨h.ahead _, by simpa using hf⟩)

lemma copySameMessage (id : ℕ) (first : BaseRecvFragDesc) (hl : ∀ g ∈ kept ++ rest, P proc g) :
    Filed P R (copySameMessage id proc first kept rest s) := by
  induction rest generalizing kept s with
  | nil => exact h
  | cons g rest ih =>
    obtain ⟨hg, hleft⟩ := of_append_cons hl
    have hcopied : Filed P R (s.copyOne id proc g (kept ++ rest)) := by
      refine (setOkToMatch ?_ hleft).record hg id _
      split_ifs
      · exact (h.copyToAppLock id g).complete id
      · exact h.copyToAppLock id g
    rw [copySameMessage_cons]
    split_ifs
    · exact hcopied
    · exact ih hcopied hleft
    · exact ih h (by rwa [append_assoc, singleton_append])

lemma checkSpecified (id proc : ℕ) : Filed P R (s.checkSpecifiedFragListsForMatch id proc).1 := by
  unfold checkSpecifiedFragListsForMatch
  rw [span_eq_takeWhile_dropWhile]
  have hsplit := takeWhile_append_dropWhile (p := fun frag => !s.wants frag id)
    (l := s.okToMatchRecvFrags proc)
  split
  · exact h
  case h_2 kept g rest heq =>
    obtain ⟨hkept, hrest⟩ := Prod.mk.inj heq
    rw [hkept, hrest] at hsplit
    obtain ⟨hg, hleft⟩ := of_append_cons (hsplit.symm ▸ h.ok proc)
    have hfilled : Filed P R (s.setRecv id fun r => { r with
        isendSeq := g.isendSeq, resltsLength := g.msgLength, resltsTag := g.tag
        resltsPeer := g.srcProcID }) := { h with recvs := h.recvs_update id (h.recvs id) }
    have hcopied := ((hfilled.copyToApp id g).setOkToMatch hleft).record hg id .irecvStart
    dsimp only
    split_ifs
    · exact hcopied
    · refine copySameMessage ?_ id g hleft
      exact { hcopied with recvs := hcopied.recvs_update id (hcopied.recvs id) }

lemma irecvStart (peer : Option ℕ) (tag : ℤ) {length : ℕ} {datatype : Option CommittedType}
    (hposted : R length datatype) : Filed P R (s.irecvStart peer tag length datatype) := by
  have hbegun : Filed P R (s.begun peer tag length datatype) :=
    { h with recvs := h.recvs_update _ hposted }
  rw [irecvStart_eq]
  split
  · cases peer <;> exact { hbegun with recvs := hbegun.recvs_update _ (hbegun.recvs _) }
  · exact hbegun.checkSpecified _ _

/-- **Every event keeps what the queues hold.** -/
theorem run {events : List Event} (harrive : ∀ f, .arrive f ∈ events → P f.srcProcID f)
    (hpost : ∀ peer tag length datatype, .post peer tag length datatype ∈ events →
      R length datatype) : Filed P R (s.run events) := by
  induction events generalizing s with
  | nil => exact h
  | cons e events ih =>
    refine ih (s := s.step e) ?_ (fun f hf => harrive f (mem_cons_of_mem e hf))
      fun _ _ _ _ hp => hpost _ _ _ _ (mem_cons_of_mem e hp)
    cases e with
    | arrive f => exact h.handleReceivedFrag (harrive f mem_cons_self)
    | post peer tag length datatype =>
      exact h.irecvStart peer tag (hpost _ _ _ _ mem_cons_self)

lemma foldl {arrived : List BaseRecvFragDesc} (harrived : ∀ f ∈ arrived, P f.srcProcID f) :
    Filed P R (arrived.foldl Communicator.handleReceivedFrag s) := by
  induction arrived generalizing s with
  | nil => exact h
  | cons f arrived ih =>
    obtain ⟨hf, harrived⟩ := forall_mem_cons.mp harrived
    exact ih (h.handleReceivedFrag hf) harrived

end Filed

lemma filed_init (groupSize : ℕ) (hblank : R 0 none) : Filed P R (init groupSize) where
  ok := by simp [init]
  ahead := by simp [init]
  recvs _ := hblank
  processed := by simp [init]

/-- **No copy of a run counts more bytes than the fragment has**, unless the buffer of a
non-contiguous receive ends inside a fragment. -/
theorem Communicator.run_exact (groupSize : ℕ) {events : List Event}
    (hwhole : ∀ f, .arrive f ∈ events → ∀ peer tag length datatype,
      .post peer tag length datatype ∈ events → ¬CutsInside length datatype f.copyFrag) :
    ((init groupSize).run events).Exact := by
  have hfiled : Filed (fun _ f => .arrive f ∈ events)
      (fun length datatype => ∀ f, .arrive f ∈ events → ¬CutsInside length datatype f.copyFrag)
      ((init groupSize).run events) :=
    (filed_init groupSize fun f _ hcuts => absurd hcuts.1 (by decide)).run (fun _ hf => hf)
      fun peer tag length datatype hpost f hf => hwhole f hf peer tag length datatype hpost
  intro e he
  obtain ⟨-, r, harrived, hr, hcounted⟩ := hfiled.processed e he
  rw [hcounted]
  exact r.bytesCounted_le (hr e.frag harrived)

theorem Communicator.run_exact_reorderedRun : ((init 1).run reorderedRun).Exact := by
  apply run_exact
  intro f hf peer tag length datatype hpost
  simp only [reorderedRun, mem_cons, Event.arrive.injEq, Event.post.injEq, reduceCtorEq, false_or,
    or_false, not_mem_nil] at hf hpost
  rcases hpost with ⟨-, -, rfl, rfl⟩ | ⟨-, -, rfl, rfl⟩
  · -- four bytes of a non-contiguous type, which end between two fragments
    rcases hf with rfl | rfl | rfl | rfl <;> exact fun h => absurd h.2 (by decide)
  · exact fun h => absurd h.1 (by decide)

/-! ### Probing -/

/-- The status that describes the message of a fragment. -/
def BaseRecvFragDesc.status (f : BaseRecvFragDesc) : Status :=
  ⟨f.srcProcID, f.tag, intT f.msgLength⟩

lemma intT_natCast_iff (n : ℕ) : n = intT n ↔ n < 2 ^ 31 := by
  constructor
  · intro heq
    have hlt : intT n < 2 ^ 31 := Int.bmod_lt (m := 2 ^ 32) (by decide)
    omega
  · exact fun h => (intT_natCast h).symm

lemma Filed.probeSource_eq (h : Filed (fun src f => f.srcProcID = src) R s) (tag : ℤ) (src : ℕ) :
    s.probeSource tag src = ((s.okToMatchRecvFrags src).find? fun f =>
      RecvDesc.tagMatches tag f.tag).map BaseRecvFragDesc.status := by
  have hfind : ((s.okToMatchRecvFrags src).find? fun f => RecvDesc.tagMatches tag f.tag) =
      if tag = anyTag then (s.okToMatchRecvFrags src).find? fun f => !decide (f.tag < 0)
      else (s.okToMatchRecvFrags src).find? fun f => tag == f.tag := by
    split_ifs with hany <;> congr 1 <;> ext f <;> rw [RecvDesc.tagMatches_eq]
    · rw [if_pos hany, ← decide_not, decide_eq_decide.mpr not_lt]
    · rw [if_neg hany, BEq.comm]
  rw [probeSource, ← hfind]
  refine Option.map_congr fun f hf => ?_
  rw [BaseRecvFragDesc.status, h.ok src f (mem_of_find?_eq_some hf)]

/-- **`iprobe` reports what a receive would find.** -/
theorem Filed.probe_eq (h : Filed (fun src f => f.srcProcID = src) R s)
    (arrived : List BaseRecvFragDesc) (peer : Option ℕ) (tag : ℤ) :
    (s.iprobe arrived peer tag).2 =
      ((s.iprobe arrived peer tag).1.firstQueued peer tag).map BaseRecvFragDesc.status := by
  have hfiled : Filed _ R (arrived.foldl Communicator.handleReceivedFrag s) :=
    h.foldl fun _ _ => rfl
  cases peer with
  | none =>
    simp only [iprobe, firstQueued, Reference.sources, map_findSome?]
    congr 1
    ext1 src
    split_ifs with hempty
    · simp [length_eq_zero_iff.mp hempty]
    · exact hfiled.probeSource_eq tag src
  | some src => simp [iprobe, firstQueued, Reference.sources, hfiled.probeSource_eq]

/-- **A probe agrees with the receive posted right after it.**  What it reports is the message that
receive gets, and its length if that fits into an `int`; where it reports none, the receive matches
nothing and is posted. -/
theorem iprobe_agrees_irecvStart (groupSize : ℕ) (events : List Event)
    (arrived : List BaseRecvFragDesc) (peer : Option ℕ) (tag : ℤ) (length : ℕ)
    (datatype : Option CommittedType) :
    let probed := ((init groupSize).run events).iprobe arrived peer tag
    let id := probed.1.nextIrecvIdCounter
    let started := probed.1.irecvStart peer tag length datatype
    (∀ status, probed.2 = some status →
      ∃ f ∈ probed.1.okToMatchRecvFrags status.peer, f.status = status ∧
        Obtains probed.1 f id started ∧ (started.recvs id).resltsPeer = status.peer ∧
        (started.recvs id).resltsTag = status.tag ∧
        ((started.recvs id).resltsLength = status.length ↔ f.msgLength < 2 ^ 31)) ∧
    (probed.2 = none →
      started = (probed.1.begun peer tag length datatype).postRecv id peer ∧
        started.processed = probed.1.processed ∧ started.matchedRecv = probed.1.matchedRecv) := by
  intro probed id started
  have hfiled : Filed (fun src f => f.srcProcID = src) (fun _ _ => True)
      ((init groupSize).run events) :=
    (filed_init groupSize trivial).run (fun _ _ => rfl) fun _ _ _ _ _ => trivial
  have hprobe : probed.2 = (probed.1.firstQueued peer tag).map BaseRecvFragDesc.status :=
    hfiled.probe_eq arrived peer tag
  have hat : Filed (fun src f => f.srcProcID = src) (fun _ _ => True) probed.1 := by
    cases peer <;> exact hfiled.foldl fun _ _ => rfl
  rw [hprobe]
  constructor
  · intro status hstatus
    obtain ⟨f, hf, rfl⟩ := Option.map_eq_some_iff.mp hstatus
    obtain ⟨src, -, hfind⟩ := exists_of_findSome?_eq_some hf
    have hmem := mem_of_find?_eq_some hfind
    have hobtains := irecvStart_obtains hf length datatype
    obtain ⟨hpeer, htag, hlength, -⟩ := hobtains.reports
    refine ⟨f, ?_, rfl, hobtains, hpeer, htag, ?_⟩
    · rwa [show f.status.peer = src from hat.ok src f hmem]
    · rw [hlength]
      simp only [BaseRecvFragDesc.status, intT_natCast_iff]
  · intro hnone
    have hpost : started = _ := irecvStart_of_none (Option.map_eq_none_iff.mp hnone) length datatype
    rw [hpost]
    cases peer <;> exact ⟨rfl, rfl, rfl⟩

/-- The first fragment of a message of this length. -/
private def waitingFrag (msgLength : ℕ) : BaseRecvFragDesc := ⟨0, 7, 0, 0, 4, msgLength, true⟩

theorem iprobe_agrees_anyTag :
    let probed := ((init 1).run [.arrive (waitingFrag 12)]).iprobe [] none anyTag
    probed.2 = some ⟨0, 7, 12⟩ ∧
      ∃ f ∈ probed.1.okToMatchRecvFrags 0, f.status = ⟨0, 7, 12⟩ ∧
        Obtains probed.1 f 1 (probed.1.irecvStart none anyTag 4 none) := by
  have hagrees := (iprobe_agrees_irecvStart 1 [.arrive (waitingFrag 12)] [] none anyTag 4 none).1
    ⟨0, 7, 12⟩ (by decide +kernel)
  obtain ⟨f, hf, hstatus, hobtains, -⟩ := hagrees
  exact ⟨by decide +kernel, f, hf, hstatus, hobtains⟩

/-- The length that a probe reports of a message of 2 ^ 31 bytes is negative. -/
theorem iprobe_hugeMessage :
    let probed := ((init 1).run [.arrive (waitingFrag (2 ^ 31))]).iprobe [] none anyTag
    probed.2 = some ⟨0, 7, -2 ^ 31⟩ ∧
      ((probed.1.irecvStart none anyTag 4 none).recvs 1).resltsLength = 2 ^ 31 := by
  decide +kernel

end Lampi
