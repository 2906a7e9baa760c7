import Mathlib.Data.List.TakeWhile
import Lampi.Queue.Equiv.RecvDesc

/-!
# Which posted receive gets a fragment

`checkPostedRecvListForMatch` walks through the receives posted for the source of a fragment and
those posted for any process, and hands over between three routines.  `checkPosted_eq` describes all
of them at once: merge the two lists by `irecvSeq` and take the first receive that wants the
fragment.
-/

namespace Lampi

open List Function

namespace Communicator

variable {s : Communicator} {f : BaseRecvFragDesc} {passed left is js : List ℕ} {id proc : ℕ}
  {peer : Option ℕ} {tag : ℤ}

/-- Receives posted for one process and for any process, in the order in which they are looked at.
The flag tells the latter. -/
def merged (s : Communicator) (specifics wilds : List ℕ) : List (Bool × ℕ) :=
  (specifics.map (false, ·)).merge (wilds.map (true, ·)) fun a b =>
    (s.recvs a.2).irecvSeq ≤ (s.recvs b.2).irecvSeq

/-- The posted receives that a fragment can be for, from the first that wants it on. -/
def candidates (s : Communicator) (f : BaseRecvFragDesc) : List (Bool × ℕ) :=
  (s.merged (s.postedSpecificRecv f.srcProcID) s.postedWildRecv).dropWhile fun c => !s.wants f c.2

/-- The first of these receives gets the fragment.  The tag of a receive for this process is filled
in only if no receive for any process follows. -/
def takeFirst (s : Communicator) (f : BaseRecvFragDesc) : List (Bool × ℕ) → Communicator × Option ℕ
  | [] => (s, none)
  | (true, id) :: _ => (s.matchWild id f, some id)
  | (false, id) :: rest =>
    (if rest.any Prod.fst then s.matchSpecific id f else (s.matchSpecific id f).fillInTag id f,
      some id)

private lemma find_wants {l : List ℕ} (hl : l = passed ++ left)
    (hpassed : ∀ j ∈ passed, s.wants f j = false) :
    l.find? (s.wants f) = left.find? (s.wants f) := by
  rw [hl, find?_append, find?_eq_none.mpr (by simpa using hpassed)]
  rfl

private lemma checkSpecific_eq (hl : s.postedSpecificRecv f.srcProcID = passed ++ left)
    (hpassed : ∀ j ∈ passed, s.wants f j = false) :
    s.checkSpecificPostedRecvListForMatch f =
      s.takeFirst f ((s.merged left []).dropWhile fun c => !s.wants f c.2) := by
  rw [checkSpecificPostedRecvListForMatch, find_wants hl hpassed, merged, map_nil, merge_right]
  clear hl
  induction left with
  | nil => rfl
  | cons j left ih =>
    cases hj : s.wants f j
    · simpa [hj] using ih
    · simp [hj, takeFirst]

private lemma checkWild_eq (hl : s.postedWildRecv = passed ++ left)
    (hpassed : ∀ j ∈ passed, s.wants f j = false) :
    s.checkWildPostedRecvListForMatch f =
      s.takeFirst f ((s.merged [] left).dropWhile fun c => !s.wants f c.2) := by
  rw [checkWildPostedRecvListForMatch, find_wants hl hpassed, merged, map_nil, nil_merge]
  clear hl
  induction left with
  | nil => rfl
  | cons j left ih =>
    cases hj : s.wants f j
    · simpa [hj] using ih
    · simp [hj, takeFirst]

private lemma scan_eq (fuel : ℕ) {i j : ℕ} {passed' : List ℕ} (hfuel : is.length + js.length < fuel)
    (hi : s.postedSpecificRecv f.srcProcID = passed ++ i :: is)
    (hpassed : ∀ j ∈ passed, s.wants f j = false) (hj : s.postedWildRecv = passed' ++ j :: js)
    (hpassed' : ∀ j ∈ passed', s.wants f j = false) :
    s.scanSpecificAndWild f fuel i is j js =
      s.takeFirst f ((s.merged (i :: is) (j :: js)).dropWhile fun c => !s.wants f c.2) := by
  induction fuel generalizing i j is js passed passed' with
  | zero => omega
  | succ fuel ih =>
    simp only [scanSpecificAndWild, merged, map_cons, cons_merge_cons, decide_eq_true_eq]
    by_cases hlt : (s.recvs j).irecvSeq < (s.recvs i).irecvSeq
    · rw [if_pos hlt, if_neg (not_le.mpr hlt)]
      cases hw : s.wants f j
      · have hnext : ∀ k ∈ passed' ++ [j], s.wants f k = false :=
          forall_mem_append.mpr ⟨hpassed', by simpa using hw⟩
        rw [dropWhile_cons_of_pos (by simp [hw])]
        cases js with
        | nil => simpa [merged] using checkSpecific_eq hi hpassed
        | cons j' js =>
          have hj' : s.postedWildRecv = (passed' ++ [j]) ++ j' :: js := by simpa using hj
          simpa [merged] using ih (by simp at hfuel; omega) hi hpassed hj' hnext
      · simp [hw, takeFirst]
    · rw [if_neg hlt, if_pos (not_lt.mp hlt)]
      cases hw : s.wants f i
      · have hnext : ∀ k ∈ passed ++ [i], s.wants f k = false :=
          forall_mem_append.mpr ⟨hpassed, by simpa using hw⟩
        rw [dropWhile_cons_of_pos (by simp [hw])]
        cases is with
        | nil => simpa [merged] using checkWild_eq hj hpassed'
        | cons i' is =>
          have hi' : s.postedSpecificRecv f.srcProcID = (passed ++ [i]) ++ i' :: is := by
            simpa using hi
          simpa [merged] using ih (by simp at hfuel; omega) hi' hnext hj hpassed'
      · have hany : ((is.map (false, ·)).merge ((true, j) :: js.map (true, ·)) fun a b =>
            decide ((s.recvs a.2).irecvSeq ≤ (s.recvs b.2).irecvSeq)).any Prod.fst := by
          rw [any_eq_true]
          exact ⟨(true, j), by simp [mem_merge], rfl⟩
        rw [dropWhile_cons_of_neg (by simp [hw]), takeFirst, if_pos hany]
        rfl

/-- **`checkPostedRecvListForMatch`** gives the fragment to the first receive, in the order in which
they were posted, that wants it. -/
theorem checkPosted_eq (s : Communicator) (f : BaseRecvFragDesc) :
    s.checkPostedRecvListForMatch f = s.takeFirst f (s.candidates f) := by
  unfold checkPostedRecvListForMatch candidates
  split
  case h_1 hs =>
    rw [hs]
    exact checkWild_eq (nil_append _).symm (by simp)
  case h_2 hs hw =>
    rw [hw]
    exact checkSpecific_eq (nil_append _).symm (by simp)
  case h_3 specific specifics wild wilds hs hw =>
    rw [hs, hw]
    exact scan_eq _ (by omega) (hs.trans (nil_append _).symm) (by simp)
      (hw.trans (nil_append _).symm) (by simp)

lemma mem_merged {c : Bool × ℕ} :
    c ∈ s.merged is js ↔ c.1 = false ∧ c.2 ∈ is ∨ c.1 = true ∧ c.2 ∈ js := by
  obtain ⟨wild, id⟩ := c
  cases wild <;> simp [merged, mem_merge]

section Sorted

variable
  (hspecific : (s.postedSpecificRecv f.srcProcID).Pairwise fun i j =>
    (s.recvs i).irecvSeq < (s.recvs j).irecvSeq)
  (hwild : s.postedWildRecv.Pairwise fun i j => (s.recvs i).irecvSeq < (s.recvs j).irecvSeq)

include hspecific hwild

/-- The first candidate is the earliest of the receives that want the fragment. -/
lemma candidates_cases :
    (s.candidates f = [] ∧
        ∀ j ∈ s.postedSpecificRecv f.srcProcID ++ s.postedWildRecv, s.wants f j = false) ∨
      ∃ wild id rest, s.candidates f = (wild, id) :: rest ∧
        id ∈ (if wild then s.postedWildRecv else s.postedSpecificRecv f.srcProcID) ∧
        s.wants f id = true ∧
        ∀ j ∈ s.postedSpecificRecv f.srcProcID ++ s.postedWildRecv, s.wants f j = true →
          (s.recvs id).irecvSeq ≤ (s.recvs j).irecvSeq := by
  set l := s.merged (s.postedSpecificRecv f.srcProcID) s.postedWildRecv with hl
  have hmem : ∀ j ∈ s.postedSpecificRecv f.srcProcID ++ s.postedWildRecv, ∃ c ∈ l, c.2 = j := by
    intro j hj
    rcases mem_append.mp hj with hj | hj
    · exact ⟨(false, j), mem_merged.mpr (.inl ⟨rfl, hj⟩), rfl⟩
    · exact ⟨(true, j), mem_merged.mpr (.inr ⟨rfl, hj⟩), rfl⟩
  have hsorted : l.Pairwise fun a b => (s.recvs a.2).irecvSeq ≤ (s.recvs b.2).irecvSeq := by
    have hmerge := @pairwise_merge (Bool × ℕ)
      (fun a b => (s.recvs a.2).irecvSeq ≤ (s.recvs b.2).irecvSeq)
      (fun a b c => by simpa using le_trans) (fun a b => by simpa using le_total _ _)
      ((s.postedSpecificRecv f.srcProcID).map (false, ·)) (s.postedWildRecv.map (true, ·))
      (pairwise_map.mpr (hspecific.imp fun h => by simpa using h.le))
      (pairwise_map.mpr (hwild.imp fun h => by simpa using h.le))
    simpa [hl, merged] using hmerge
  have hfind := find?_eq_head?_dropWhile_not (fun c => s.wants f c.2) l
  change _ = (s.candidates f).head? at hfind
  cases hc : s.candidates f with
  | nil =>
    refine .inl ⟨rfl, fun j hj => ?_⟩
    obtain ⟨c, hc', rfl⟩ := hmem j hj
    rw [hc] at hfind
    simpa using find?_eq_none.mp hfind c hc'
  | cons c rest =>
    rw [hc, head?_cons] at hfind
    obtain ⟨hwants, before, after, hsplit, hbefore⟩ := find?_eq_some_iff_append.mp hfind
    refine .inr ⟨c.1, c.2, rest, rfl, ?_, hwants, fun j hj hj' => ?_⟩
    · rcases mem_merged.mp (mem_of_find?_eq_some hfind) with ⟨hflag, hin⟩ | ⟨hflag, hin⟩
      · simpa [hflag] using hin
      · simpa [hflag] using hin
    · obtain ⟨d, hd, rfl⟩ := hmem j hj
      rw [hsplit] at hd hsorted
      rcases mem_append.mp hd with hd | hd
      · exact absurd hj' (by simpa using hbefore d hd)
      · rcases mem_cons.mp hd with rfl | hd
        · exact le_rfl
        · exact (pairwise_cons.mp (pairwise_append.mp hsorted).2.1).1 d hd

/-- **Receive selection.**  With both lists in the order of posting, `checkPostedRecvListForMatch`
finds the earliest compatible receive of the two and moves it to the matched ones. -/
theorem checkPostedRecvListForMatch_selects
    (hdistinct : ∀ i ∈ s.postedSpecificRecv f.srcProcID, ∀ j ∈ s.postedWildRecv,
      (s.recvs i).irecvSeq ≠ (s.recvs j).irecvSeq) :
    let compatible := fun id => if (s.recvs id).postedTag = anyTag then 0 ≤ f.tag
      else f.tag = (s.recvs id).postedTag
    let posted := s.postedSpecificRecv f.srcProcID ++ s.postedWildRecv
    let s' := (s.checkPostedRecvListForMatch f).1
    ((s.checkPostedRecvListForMatch f).2 = none ↔ ∀ id ∈ posted, ¬compatible id) ∧
      ((s.checkPostedRecvListForMatch f).2 = none → s' = s) ∧
      ∀ id, (s.checkPostedRecvListForMatch f).2 = some id →
        (id ∈ posted ∧ compatible id ∧ ∀ j ∈ posted, compatible j →
          (s.recvs id).irecvSeq ≤ (s.recvs j).irecvSeq) ∧
        s'.postedSpecificRecv = update s.postedSpecificRecv f.srcProcID
          ((s.postedSpecificRecv f.srcProcID).erase id) ∧
        s'.postedWildRecv = s.postedWildRecv.erase id ∧
        s'.matchedRecv = update s.matchedRecv f.srcProcID (s.matchedRecv f.srcProcID ++ [id]) := by
  intro compatible posted s'
  have hcompatible : ∀ id, compatible id ↔ s.wants f id = true := by
    intro id
    simp only [compatible, wants, RecvDesc.tagMatches_eq]
    split_ifs <;> simp
  simp only [s', checkPosted_eq, hcompatible]
  obtain ⟨hnil, hno⟩ | ⟨wild, id, rest, hcons, hin, hwants, hleast⟩ :=
    candidates_cases hspecific hwild
  · rw [hnil]
    exact ⟨iff_of_true rfl fun id hid => by simp [hno id hid], fun _ => rfl, fun id h => nomatch h⟩
  · have hposted : id ∈ posted := by
      cases wild
      · exact mem_append_left _ hin
      · exact mem_append_right _ hin
    rw [hcons]
    refine ⟨?_, ?_, ?_⟩
    · refine iff_of_false ?_ fun hno => hno id hposted hwants
      cases wild <;> simp [takeFirst]
    · cases wild <;> simp [takeFirst]
    · intro j hj
      cases wild with
      | false =>
        obtain rfl : id = j := by simpa [takeFirst] using hj
        have hnot : id ∉ s.postedWildRecv := fun hw => hdistinct id hin id hw rfl
        refine ⟨⟨hposted, hwants, hleast⟩, ?_⟩
        rw [erase_of_not_mem hnot, takeFirst]
        split_ifs <;> exact ⟨rfl, rfl, rfl⟩
      | true =>
        obtain rfl : id = j := by simpa [takeFirst] using hj
        have hnot : id ∉ s.postedSpecificRecv f.srcProcID := fun hs => hdistinct id hs id hin rfl
        refine ⟨⟨hposted, hwants, hleast⟩, ?_, rfl, rfl⟩
        rw [erase_of_not_mem hnot, update_eq_self]
        rfl

end Sorted

/-- A receive for process 0 and one for any process and tag, in this order. -/
private def twoPosted (tag : ℤ) : Communicator :=
  (init 1).run [.post (some 0) tag 4 none, .post none anyTag 4 none]

private def shortFrag (tag : ℤ) : BaseRecvFragDesc := ⟨0, tag, 0, 0, 4, 4, true⟩

theorem checkPostedRecvListForMatch_selects_wild :
    ((twoPosted 5).checkPostedRecvListForMatch (shortFrag 7)).1.postedWildRecv =
      (twoPosted 5).postedWildRecv.erase 2 :=
  ((checkPostedRecvListForMatch_selects (s := twoPosted 5) (f := shortFrag 7) (by decide)
    (by decide) (by decide)).2.2 2 (by decide)).2.2.1

/-! ### The status of a receive -/

/-- The receive reports the message of this fragment. -/
def Reports (r : RecvDesc) (f : BaseRecvFragDesc) : Prop :=
  r.resltsPeer = f.srcProcID ∧ r.resltsTag = f.tag ∧ r.resltsLength = f.msgLength ∧
    r.isendSeq = f.isendSeq

instance (r : RecvDesc) (f : BaseRecvFragDesc) : Decidable (Reports r f) := by
  unfold Reports
  infer_instance

/-- The fragment goes to a receive for its source while receives for any process are still to be
looked at. -/
def StopsShort (s : Communicator) (f : BaseRecvFragDesc) : Prop :=
  ∃ id rest, s.candidates f = (false, id) :: rest ∧ ∃ j, (true, j) ∈ rest

private lemma checkPosted_reports_iff (h : (s.checkPostedRecvListForMatch f).2 = some id) :
    Reports ((s.checkPostedRecvListForMatch f).1.recvs id) f ↔
      (s.StopsShort f → (s.recvs id).resltsTag = f.tag) := by
  rw [checkPosted_eq] at h ⊢
  unfold StopsShort
  match hc : s.candidates f, h with
  | (true, j) :: rest, h =>
    obtain rfl : j = id := by simpa [takeFirst] using h
    simp [takeFirst, Reports, matchWild, fillIn, fillInTag, setRecv, setMatched]
  | (false, j) :: rest, h =>
    obtain rfl : j = id := by simpa [takeFirst] using h
    by_cases hmore : ∃ k, (true, k) ∈ rest
    · have hany : rest.any Prod.fst = true := by simpa using hmore
      simp [takeFirst, hany, hmore, Reports, matchSpecific, fillIn, setRecv, setMatched,
        setPostedSpecific]
    · have hany : rest.any Prod.fst = false := by simpa using hmore
      simp [takeFirst, hany, hmore, Reports, matchSpecific, fillIn, fillInTag, setRecv, setMatched,
        setPostedSpecific]

/-- The receive has the message of this fragment, and is not on the lists of posted receives more
than it was. -/
structure Obtains (s : Communicator) (f : BaseRecvFragDesc) (id : ℕ) (t : Communicator) : Prop where
  reports : Reports (t.recvs id) f
  wild : t.postedWildRecv = s.postedWildRecv
  specific : t.postedSpecificRecv = s.postedSpecificRecv

section Obtains

variable {t : Communicator} {id : ℕ}

private lemma Obtains.complete (h : Obtains s f id t) : Obtains s f id (t.complete id) :=
  ⟨by simpa [Reports, Communicator.complete, setRecv] using h.reports, h.wild, h.specific⟩

private lemma Obtains.deliveredToAppLock (h : Obtains s f id t) (copied discarded : ℕ) :
    Obtains s f id (t.deliveredToAppLock id copied discarded).1 := by
  have hreports : Reports ((t.setRecv id fun r => { r with
      dataReceived := r.dataReceived + copied
      dataInBitBucket := r.dataInBitBucket + discarded }).recvs id) f := by
    simpa [Reports, setRecv] using h.reports
  simp only [Communicator.deliveredToAppLock]
  split_ifs <;> exact ⟨hreports, h.wild, h.specific⟩

private lemma Obtains.copyToAppLock (h : Obtains s f id t) (g : BaseRecvFragDesc) :
    Obtains s f id (t.copyToAppLock id g).1 := by
  unfold Communicator.copyToAppLock
  split
  · exact h.deliveredToAppLock _ _
  · exact h

private lemma Obtains.copyToApp (h : Obtains s f id t) (g : BaseRecvFragDesc) :
    Obtains s f id (t.copyToApp id g) := by
  unfold Communicator.copyToApp deliveredToApp
  split
  · dsimp only
    split_ifs
    · exact (h.deliveredToAppLock _ _).complete
    · exact h.deliveredToAppLock _ _
  · exact h

private lemma Obtains.copySameMessage (first : BaseRecvFragDesc)
    {kept rest : List BaseRecvFragDesc} (h : Obtains s f id t) :
    Obtains s f id (copySameMessage id proc first kept rest t) := by
  induction rest generalizing kept t with
  | nil => exact h
  | cons g rest ih =>
    have hcopied := h.copyToAppLock g
    simp only [copySameMessage]
    split_ifs
    · exact { hcopied.complete with }
    · exact ih { hcopied.complete with }
    · exact { hcopied with }
    · exact ih { hcopied with }
    · exact ih h

/-- **`checkSpecifiedFragListsForMatch`** takes the first fragment on the list with a matching
tag. -/
private theorem checkSpecified_obtains (s : Communicator) (id proc : ℕ)
    (h : (s.okToMatchRecvFrags proc).find? (s.wants · id) = some f) :
    (s.checkSpecifiedFragListsForMatch id proc).2 = true ∧
      Obtains s f id (s.checkSpecifiedFragListsForMatch id proc).1 := by
  rw [find?_eq_head?_dropWhile_not] at h
  unfold checkSpecifiedFragListsForMatch
  rw [span_eq_takeWhile_dropWhile]
  match hdrop : (s.okToMatchRecvFrags proc).dropWhile fun f => !s.wants f id with
  | [] => simp [hdrop] at h
  | g :: rest =>
    obtain rfl : g = f := by simpa [hdrop] using h
    have hfilled : Obtains s g id (s.setRecv id fun r => { r with
        isendSeq := g.isendSeq, resltsLength := g.msgLength, resltsTag := g.tag
        resltsPeer := g.srcProcID }) := ⟨by simp [Reports, setRecv], rfl, rfl⟩
    have hcopied := hfilled.copyToApp g
    dsimp only
    split_ifs
    · exact ⟨rfl, { hcopied with }⟩
    · refine ⟨rfl, Obtains.copySameMessage g ⟨?_, hcopied.wild, hcopied.specific⟩⟩
      simpa [Reports, setRecv, record, setOkToMatch, setMatched] using hcopied.reports

end Obtains

private lemma checkSpecified_of_none (h : (s.okToMatchRecvFrags proc).find? (s.wants · id) = none) :
    s.checkSpecifiedFragListsForMatch id proc = (s, false) := by
  unfold checkSpecifiedFragListsForMatch
  rw [span_eq_takeWhile_dropWhile, dropWhile_eq_nil_iff.mpr]
  simpa using h

/-! ### Posting a receive -/

variable (s)

/-- The state in which `irecv_start` looks for a message. -/
def begun (peer : Option ℕ) (tag : ℤ) (length : ℕ) (datatype : Option CommittedType) :
    Communicator :=
  let seq := s.nextIrecvIdCounter
  let s := { s with nextIrecvIdCounter := seq + 1 }
  s.setRecv seq fun r => { r with
    postedPeer := peer
    postedTag := tag
    postedLength := length
    datatype := datatype
    irecvSeq := seq
    resltsLength := 0
    dataReceived := 0
    dataInBitBucket := 0
    messageDone := false
    whichQueue := .onNoList }

/-- The first of these processes with a fragment, on its list to match, that the receive takes. -/
def procWithMatch (id : ℕ) (procs : List ℕ) : Option ℕ :=
  procs.find? fun proc => (s.okToMatchRecvFrags proc).any (s.wants · id)

/-- A receive that found no message is put on a list. -/
def postRecv (id : ℕ) : Option ℕ → Communicator
  | none => checkProcsForWildMatch id [] s
  | some proc => s.postSpecific id proc

private lemma checkProc_eq (id proc : ℕ) (otherwise : Communicator → Communicator) :
    (if (s.okToMatchRecvFrags proc).length = 0 then otherwise s
      else if (s.checkSpecifiedFragListsForMatch id proc).2 then
        (s.checkSpecifiedFragListsForMatch id proc).1
      else otherwise (s.checkSpecifiedFragListsForMatch id proc).1) =
      if (s.okToMatchRecvFrags proc).any (s.wants · id) then
        (s.checkSpecifiedFragListsForMatch id proc).1
      else otherwise s := by
  cases hfind : (s.okToMatchRecvFrags proc).find? (s.wants · id) with
  | none =>
    have hany : (s.okToMatchRecvFrags proc).any (s.wants · id) = false := by simpa using hfind
    rw [checkSpecified_of_none hfind, hany]
    simp
  | some f =>
    have hf := mem_of_find?_eq_some hfind
    rw [if_neg (by simpa using ne_nil_of_mem hf),
      if_pos (s.checkSpecified_obtains id proc hfind).1,
        if_pos (any_eq_true.mpr ⟨f, hf, find?_some hfind⟩)]

private lemma checkProcs_eq (id : ℕ) (procs : List ℕ) :
    checkProcsForWildMatch id procs s = match s.procWithMatch id procs with
      | none => s.postRecv id none
      | some proc => (s.checkSpecifiedFragListsForMatch id proc).1 := by
  induction procs with
  | nil => rfl
  | cons proc procs ih =>
    simp only [checkProcsForWildMatch.eq_2]
    rw [checkProc_eq, ih, procWithMatch, procWithMatch, find?_cons]
    split_ifs with hany
    · simp only [hany]
    · simp only [hany]

private lemma checkSpecificMatch_eq (id proc : ℕ) :
    s.checkFragListsForSpecificMatch id proc = match s.procWithMatch id [proc] with
      | none => s.postRecv id (some proc)
      | some proc => (s.checkSpecifiedFragListsForMatch id proc).1 := by
  refine (s.checkProc_eq id proc fun s => s.postSpecific id proc).trans ?_
  rw [procWithMatch, find?_cons]
  split_ifs with hany
  · simp only [hany]
  · simp only [hany]
    rfl

private lemma procWithMatch_begun (peer : Option ℕ) (tag : ℤ) (length : ℕ)
    (datatype : Option CommittedType) (procs : List ℕ) :
    (s.begun peer tag length datatype).procWithMatch s.nextIrecvIdCounter procs =
      procs.find? fun proc =>
        (s.okToMatchRecvFrags proc).any fun f => RecvDesc.tagMatches tag f.tag := by
  simp only [procWithMatch, wants, begun, setRecv, update_self]

/-- **`irecv_start`** looks for a message at the first process that has one for the receive, or
posts the receive. -/
theorem irecvStart_eq (peer : Option ℕ) (tag : ℤ) (length : ℕ) (datatype : Option CommittedType) :
    s.irecvStart peer tag length datatype =
      match (Reference.sources s.groupSize peer).find? fun proc =>
        (s.okToMatchRecvFrags proc).any fun f => RecvDesc.tagMatches tag f.tag with
      | none => (s.begun peer tag length datatype).postRecv s.nextIrecvIdCounter peer
      | some proc => ((s.begun peer tag length datatype).checkSpecifiedFragListsForMatch
          s.nextIrecvIdCounter proc).1 := by
  rw [← s.procWithMatch_begun peer tag length datatype]
  cases peer with
  | none => exact checkProcs_eq ..
  | some proc => exact checkSpecificMatch_eq ..

/-- The fragment whose message a receive with this source and tag finds waiting. -/
def firstQueued (peer : Option ℕ) (tag : ℤ) : Option BaseRecvFragDesc :=
  (Reference.sources s.groupSize peer).findSome? fun proc =>
    (s.okToMatchRecvFrags proc).find? fun f => RecvDesc.tagMatches tag f.tag

variable {s}

lemma irecvStart_obtains (h : s.firstQueued peer tag = some f) (length : ℕ)
    (datatype : Option CommittedType) :
    Obtains s f s.nextIrecvIdCounter (s.irecvStart peer tag length datatype) := by
  obtain ⟨before, proc, after, hprocs, hfind, hbefore⟩ := findSome?_eq_some_iff.mp h
  have hproc : ((Reference.sources s.groupSize peer).find? fun proc =>
      (s.okToMatchRecvFrags proc).any fun f => RecvDesc.tagMatches tag f.tag) = some proc := by
    rw [find?_eq_some_iff_append]
    refine ⟨?_, before, after, hprocs, fun proc' hproc' => by simpa using hbefore proc' hproc'⟩
    rw [any_eq_true]
    exact ⟨f, mem_of_find?_eq_some hfind, (find?_eq_some_iff_append.mp hfind).1⟩
  rw [irecvStart_eq, hproc]
  obtain ⟨-, hobtains⟩ := checkSpecified_obtains (f := f) (s.begun peer tag length datatype)
    s.nextIrecvIdCounter proc (by simpa [wants, begun, setRecv] using hfind)
  exact ⟨hobtains.reports, hobtains.wild, hobtains.specific⟩

lemma irecvStart_of_none (h : s.firstQueued peer tag = none) (length : ℕ)
    (datatype : Option CommittedType) :
    s.irecvStart peer tag length datatype =
      (s.begun peer tag length datatype).postRecv s.nextIrecvIdCounter peer := by
  rw [irecvStart_eq, find?_eq_none.mpr]
  intro proc hproc
  simpa using findSome?_eq_none_iff.mp h proc hproc

/-- **Status of a matched receive.**  A receive that finds a waiting fragment reports its message.
A receive that an arriving fragment is given to does so just when the tag was filled in, or happens
to be right. -/
theorem matched_status_iff (s : Communicator) (f : BaseRecvFragDesc) :
    (∀ id, (s.checkPostedRecvListForMatch f).2 = some id →
      (Reports ((s.checkPostedRecvListForMatch f).1.recvs id) f ↔
        (s.StopsShort f → (s.recvs id).resltsTag = f.tag))) ∧
    ∀ (peer : Option ℕ) (tag : ℤ) (length : ℕ) (datatype : Option CommittedType),
      s.firstQueued peer tag = some f →
      Reports ((s.irecvStart peer tag length datatype).recvs s.nextIrecvIdCounter) f :=
  ⟨fun _ => checkPosted_reports_iff, fun _ _ length datatype h =>
    (irecvStart_obtains h length datatype).reports⟩

theorem matched_status_right :
    Reports (((twoPosted 0).checkPostedRecvListForMatch (shortFrag 0)).1.recvs 1) (shortFrag 0) :=
  ((matched_status_iff _ _).1 1 (by decide)).mpr fun _ => by decide

/-- A receive for process 0 and any tag is posted, then one for any process: the first gets the
message, with tag 7, and reports the tag 0 it had before. -/
theorem matched_status_wrong : let s := (twoPosted anyTag).handleReceivedFrag (shortFrag 7)
    s.processed.map (fun e => (e.recv, e.frag.tag)) = [(1, 7)] ∧ (s.recvs 1).resltsTag = 0 ∧
      ¬Reports (s.recvs 1) (shortFrag 7) := by
  decide

/-! ### Message numbers -/

lemma fragOrder_eq_iff (width seq next : ℕ) : fragOrder width seq next = compare seq next ↔
    seq < 2 ^ width ∨ seq < next ∨ next < seq % 2 ^ width := by
  have hlt := Nat.mod_lt seq (Nat.two_pow_pos width)
  have heq : seq < 2 ^ width → seq % 2 ^ width = seq := Nat.mod_eq_of_lt
  unfold fragOrder isendSeqOf
  rcases Nat.lt_trichotomy seq next with h | h | h
  · rw [Nat.compare_eq_lt.mpr h, if_neg (by omega), if_pos (by omega)]
    exact iff_of_true rfl (.inr (.inl h))
  · grind
  · rw [Nat.compare_eq_gt.mpr h]
    grind

/-- **Message numbers.**  A fragment is taken as the number of its message says just under these
conditions; so this is right for all messages just if there are no more than an `unsigned long` can
count. -/
theorem fragOrder_right_iff (width : ℕ) :
    (∀ seq next, fragOrder width seq next = compare seq next ↔
      seq < 2 ^ width ∨ seq < next ∨ next < seq % 2 ^ width) ∧
    ∀ total, (∀ seq < total, ∀ next ≤ total, fragOrder width seq next = compare seq next ∧
      (next ≤ seq → isNextMessage width seq next = decide (seq = next))) ↔ total ≤ 2 ^ width := by
  refine ⟨fragOrder_eq_iff width, fun total => ⟨fun h => ?_, fun hle seq hseq next hnext => ?_⟩⟩
  · by_contra! hlt
    obtain ⟨horder, -⟩ := h (2 ^ width) hlt (2 ^ width) hlt.le
    rw [fragOrder_eq_iff, Nat.mod_self] at horder
    simp at horder
  · refine ⟨(fragOrder_eq_iff width seq next).mpr (.inl (by omega)), fun hle' => ?_⟩
    rw [isNextMessage, isendSeqOf, Nat.mod_eq_of_lt (by omega), Nat.mod_eq_of_lt (by omega)]
    rfl

/-- With 32 bits, message `2 ^ 32` has the number 0.  When it is expected it is taken for an old
one; the receive posted for it does not get it, and it will be expected forever. -/
theorem message_overlooked : isendSeqOf 32 (2 ^ 32) = 0 ∧ fragOrder 32 (2 ^ 32) (2 ^ 32) = .lt ∧
    let s := ({ init 1 with nextExpectedIsendSeqs := fun _ => 2 ^ 32 }.step
      (.post (some 0) 7 4 none)).handleReceivedFrag ⟨0, 7, isendSeqOf 32 (2 ^ 32), 0, 4, 4, true⟩
    s.processed = [] ∧ s.postedSpecificRecv 0 = [1] ∧ s.nextExpectedIsendSeqs 0 = 2 ^ 32 := by
  decide

end Communicator

end Lampi
