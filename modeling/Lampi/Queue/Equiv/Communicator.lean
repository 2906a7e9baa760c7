import Lampi.Queue.Equiv.RecvDesc

/-!
# The receive queues follow the reference matcher

`Core` relates the lists of a communicator, without the fragments that came ahead of sequence, to
the state of the reference matcher.  It is kept by each thing the functions of the communicator do:

* a message is offered and waits (`Core.await`), or gets a receive (`Core.pairOffered`);
* a fragment is put on `OkToMatchRecvFrags` (`Core.appendOkToMatch`) or copied (`Core.copies`);
* a receive is posted and waits (`Core.post`), or gets a message (`Core.pairPosted`).

Inside the functions the lists and counters are not all up to date.  `Core` therefore has the
fragments concerned, the number of messages offered and the lists of fragments to match as
parameters of their own.
-/

namespace Lampi

open OrderedMatching Function List BaseRecvFragDesc

variable {messages : Messages} {A A' : List BaseRecvFragDesc} {N : ℕ → ℕ}
  {ok : ℕ → List BaseRecvFragDesc} {late : Set ℕ} {m : Matcher Posting ℕ ℕ}
  {s s' : Communicator} {f g : BaseRecvFragDesc} {p : Posting} {src n id : ℕ} {q : Posting × ℕ × ℕ}
  {late' : Set ℕ} {processed : List Processed}

/-! ### The relation -/

def allReceives (m : Matcher Posting ℕ ℕ) : List Posting := m.posted ++ m.pairs.map Prod.fst

/-- Which messages wait: among the first `N src` of process `src` those without a receive. -/
structure Waiting (N : ℕ → ℕ) (m : Matcher Posting ℕ ℕ) : Prop where
  proper : m.Proper
  sorted : ∀ src, (m.eligible src).Pairwise (· < ·)
  eligible_lt : ∀ src, ∀ n ∈ m.eligible src, n < N src
  pairs_lt : ∀ p ∈ m.pairs, p.2.2 < N p.2.1
  cover : ∀ src n, n < N src → n ∈ m.eligible src ∨ ∃ p ∈ m.pairs, p.2 = (src, n)
  posted_sorted : m.posted.Pairwise fun p q => p.id < q.id
  ids : ∀ p ∈ allReceives m, ∀ q ∈ allReceives m, p.id = q.id → p = q

variable (messages)

variable (A)

/-- Where the fragments are: those of messages that wait on the lists to match, in an order that
respects that of the messages, the others copied. -/
structure Held (N : ℕ → ℕ) (ok : ℕ → List BaseRecvFragDesc) (m : Matcher Posting ℕ ℕ)
    (processed : List Processed) : Prop where
  isFrag : ∀ f ∈ A, messages.IsFrag f
  early : ∀ f ∈ A, f.isendSeq < N f.srcProcID
  nodup : (A.map key).Nodup
  count : ∀ f, A.count f = (ok f.srcProcID).count f + (processed.map Processed.frag).count f
  ok_src : ∀ src, ∀ f ∈ ok src, f.srcProcID = src
  ok_eligible : ∀ src, ∀ f ∈ ok src, f.isendSeq ∈ m.eligible src
  ok_order : ∀ src kept f rest, ok src = kept ++ f :: rest →
    ∀ n ∈ m.eligible src, n < f.isendSeq → ∃ g ∈ kept, g.isendSeq = n
  paired : ∀ e ∈ processed,
    ∃ p ∈ m.pairs, p.1.id = e.recv ∧ p.2 = (e.frag.srcProcID, e.frag.isendSeq)

/-- The descriptor of a receive that waits. -/
structure PostedDesc (p : Posting) (r : RecvDesc) : Prop where
  tag : r.postedTag = p.tag
  irecvSeq : r.irecvSeq = p.id
  counted : r.counted = 0
  messageDone : r.messageDone = false
  whichQueue : r.whichQueue = if p.peer = none then .postedWildIrecv else .postedIrecv

/-- The descriptor of a receive that has a message.  It is on the matched list, or all fragments
have arrived and it is complete, or about to be marked so. -/
structure PairedDesc (late : Set ℕ) (s : Communicator) (id src n : ℕ) : Prop where
  isendSeq : (s.recvs id).isendSeq = n
  resltsPeer : (s.recvs id).resltsPeer = src
  resltsLength : (s.recvs id).resltsLength = (messages src n).lengths.sum
  counted : (s.recvs id).counted = ((s.processed.filter (·.recv = id)).map Processed.counted).sum
  state : (id ∈ s.matchedRecv src ∧ (s.recvs id).whichQueue = .matchedIrecv ∧
      (s.recvs id).messageDone = false ∧ id ∉ late) ∨
    (id ∉ s.matchedRecv src ∧ (∀ g, messages.FragOf src n g → g.key ∈ A.map key) ∧
      ((s.recvs id).messageDone = true ∨ id ∈ late))

/-- Where the receives are. -/
structure Receives (late : Set ℕ) (m : Matcher Posting ℕ ℕ) (s : Communicator) : Prop where
  wild : s.postedWildRecv = (m.posted.filter (·.peer = none)).map Posting.id
  specific : ∀ src, s.postedSpecificRecv src = (m.posted.filter (·.peer = some src)).map Posting.id
  posted : ∀ p ∈ m.posted, PostedDesc p (s.recvs p.id)
  pairs : ∀ p ∈ m.pairs, PairedDesc messages A late s p.1.id p.2.1 p.2.2
  matched_nodup : ∀ src, (s.matchedRecv src).Nodup
  matched : ∀ src, ∀ id ∈ s.matchedRecv src, ∃ p ∈ m.pairs, p.1.id = id ∧ p.2.1 = src
  bound : ∀ p ∈ allReceives m, 1 ≤ p.id ∧ p.id < s.nextIrecvIdCounter
  issued : ∀ id, 1 ≤ id → id < s.nextIrecvIdCounter → ∃ p ∈ allReceives m, p.id = id
  late_paired : ∀ id ∈ late, ∃ p ∈ m.pairs, p.1.id = id

/-- The communicator, with the fragments `A` in sequence, the first `N src` messages of each process
offered, the lists `ok` to match and the receives `late` still to be marked as complete, follows the
matcher. -/
structure Core (N : ℕ → ℕ) (ok : ℕ → List BaseRecvFragDesc) (late : Set ℕ) (m : Matcher Posting ℕ ℕ)
    (s : Communicator) : Prop where
  held : Held messages A N ok m s.processed
  waiting : Waiting N m
  receives : Receives messages A late m s

/-! ### First consequences -/

lemma exists_mem_append_left {α : Type} {P : α → Prop} {l : List α} (l' : List α)
    (h : ∃ a ∈ l, P a) : ∃ a ∈ l ++ l', P a :=
  h.imp fun _ ha => ⟨mem_append_left _ ha.1, ha.2⟩

variable {A}

variable {messages}

lemma mem_allReceives_of_posted (hp : p ∈ m.posted) : p ∈ allReceives m := mem_append_left _ hp

lemma mem_allReceives_of_pair (hq : q ∈ m.pairs) : q.1 ∈ allReceives m :=
  mem_append_right _ (mem_map_of_mem hq)

lemma Waiting.posted_nodup (h : Waiting N m) : m.posted.Nodup :=
  h.posted_sorted.imp fun hlt heq => by simp [heq] at hlt

lemma Waiting.eligible_nodup (h : Waiting N m) (src : ℕ) : (m.eligible src).Nodup :=
  (h.sorted src).imp Nat.ne_of_lt

lemma Waiting.pair_unique (h : Waiting N m) {p : Posting × ℕ × ℕ} (hp : p ∈ m.pairs)
    (hq : q ∈ m.pairs) (hid : p.1.id = q.1.id) : p = q := h.proper.receiver p hp q hq
    (h.ids _ (mem_allReceives_of_pair hp) _ (mem_allReceives_of_pair hq) hid)

lemma Waiting.posted_ne (h : Waiting N m) (hp : p ∈ m.posted) (hq : q ∈ m.pairs) :
    q.1.id ≠ p.id := fun hid =>
  h.proper.posted p hp q hq
    (h.ids _ (mem_allReceives_of_pair hq) _ (mem_allReceives_of_posted hp) hid)

section Held

variable {processed : List Processed}

variable (h : Held messages A N ok m processed)

include h

lemma Held.mem_of_ok (hf : f ∈ ok src) : f ∈ A := by
  have hsrc := h.ok_src src f hf
  subst hsrc
  have hpos := count_pos_iff.mpr hf
  have hcount := h.count f
  exact count_pos_iff.mp (by omega)

lemma Held.processed_subperm : (processed.map Processed.frag).Subperm A := by
  rw [subperm_ext_iff]
  intro f _
  have hcount := h.count f
  omega

lemma Held.processed_nodup : ((processed.map Processed.frag).map key).Nodup := by
  obtain ⟨l, hperm, hsublist⟩ := h.processed_subperm
  exact (hperm.map _).nodup_iff.mp (h.nodup.sublist (hsublist.map _))

lemma Held.mem_or (hf : f ∈ A) : f ∈ ok f.srcProcID ∨ f ∈ processed.map Processed.frag := by
  have hpos := count_pos_iff.mpr hf
  have hcount := h.count f
  rw [← count_pos_iff, ← count_pos_iff]
  omega

lemma Held.not_mem_processed (hm : m.Proper) (heligible : f.isendSeq ∈ m.eligible f.srcProcID) :
    f ∉ processed.map Processed.frag := by
  rw [mem_map]
  rintro ⟨e, he, rfl⟩
  obtain ⟨q, hq, -, heq⟩ := h.paired e he
  exact hm.eligible _ _ heligible q hq heq

lemma Held.mem_ok (hm : m.Proper) (hf : f ∈ A) (heligible : f.isendSeq ∈ m.eligible f.srcProcID) :
    f ∈ ok f.srcProcID := (h.mem_or hf).resolve_right (h.not_mem_processed hm heligible)

end Held

/-- A receive whose descriptor, list and copies have not changed keeps its message. -/
lemma PairedDesc.congr (h : PairedDesc messages A late s id src n)
    (hrecv : s'.recvs id = s.recvs id)
    (hprocessed : s'.processed.filter (·.recv = id) = s.processed.filter (·.recv = id))
    (hmatched : id ∈ s'.matchedRecv src ↔ id ∈ s.matchedRecv src) (hlate : id ∈ late' ↔ id ∈ late)
    (hA : ∀ g, messages.FragOf src n g → g.key ∈ A.map key → g.key ∈ A'.map key) :
    PairedDesc messages A' late' s' id src n := by
  obtain ⟨hseq, hpeer, hlength, hcounted, hstate⟩ := h
  rw [← hrecv] at hseq hpeer hlength hcounted hstate
  refine ⟨hseq, hpeer, hlength, by rw [hprocessed, hcounted], ?_⟩
  rw [hmatched, hlate]
  refine hstate.imp_right ?_
  rintro ⟨hout, hall, hdone⟩
  exact ⟨hout, fun g hg => hA g hg (hall g hg), hdone⟩

lemma Receives.not_mem_matched (h : Receives messages A late m s)
    (hne : ∀ q ∈ m.pairs, q.1.id ≠ id) (src : ℕ) : id ∉ s.matchedRecv src := by
  intro hin
  obtain ⟨q, hq, hid, -⟩ := h.matched src _ hin
  exact hne q hq hid

lemma Receives.not_mem_late (h : Receives messages A late m s)
    (hne : ∀ q ∈ m.pairs, q.1.id ≠ id) : id ∉ late := by
  intro hin
  obtain ⟨q, hq, hid⟩ := h.late_paired _ hin
  exact hne q hq hid

lemma Receives.mono (h : Receives messages A late m s) (hA : ∀ k ∈ A.map key, k ∈ A'.map key) :
    Receives messages A' late m s :=
  { h with pairs := fun p hp => (h.pairs p hp).congr rfl rfl Iff.rfl Iff.rfl fun _ _ => hA _ }

lemma Core.perm (h : Core messages A N ok late m s) (hperm : A.Perm A') :
    Core messages A' N ok late m s := by
  obtain ⟨hheld, hwaiting, hreceives⟩ := h
  have hkeys := hperm.map key
  refine ⟨{ hheld with isFrag := ?_, early := ?_, nodup := ?_, count := ?_ }, hwaiting,
    hreceives.mono fun k => hkeys.mem_iff.mp⟩
  · exact fun f hf => hheld.isFrag f (hperm.mem_iff.mpr hf)
  · exact fun f hf => hheld.early f (hperm.mem_iff.mpr hf)
  · exact hkeys.nodup_iff.mp hheld.nodup
  · exact fun f => hperm.count_eq f ▸ hheld.count f

/-! ### Messages are offered -/

lemma le_update_succ (N : ℕ → ℕ) (src src' : ℕ) : N src' ≤ update N src (N src + 1) src' := by
  by_cases hsrc : src' = src
  · subst hsrc
    simp
  · simp [hsrc]

lemma lt_or_of_lt_update_succ {src' : ℕ} (h : n < update N src (N src + 1) src') :
    n < N src' ∨ src' = src ∧ n = N src := by
  by_cases hsrc : src' = src
  · subst hsrc
    rw [update_self] at h
    omega
  · rw [update_of_ne hsrc] at h
    exact .inl h

lemma Core.await (h : Core messages A N ok late m s) (src : ℕ) :
    Core messages A (update N src (N src + 1)) ok late (m.await src (N src)) s := by
  obtain ⟨hheld, hwaiting, hreceives⟩ := h
  have hmem : ∀ src' n, n ∈ (m.await src (N src)).eligible src' ↔
      n ∈ m.eligible src' ∨ src' = src ∧ n = N src := by
    intro src' n
    by_cases hsrc : src' = src
    · subst hsrc
      simp [Matcher.await]
    · simp [Matcher.await, hsrc]
  refine ⟨{ hheld with early := ?_, ok_eligible := ?_, ok_order := ?_ },
    { hwaiting with proper := ?_, sorted := ?_, eligible_lt := ?_, pairs_lt := ?_, cover := ?_ },
    { hreceives with }⟩
  · exact fun f hf => (hheld.early f hf).trans_le (le_update_succ ..)
  · exact fun src' f hf => (hmem _ _).mpr (.inl (hheld.ok_eligible src' f hf))
  · intro src' kept f rest heq n hn hlt
    rcases (hmem src' n).mp hn with hn | ⟨rfl, rfl⟩
    · exact hheld.ok_order src' kept f rest heq n hn hlt
    · -- no fragment of a later message has come yet
      have hf : f ∈ ok src' := by simp [heq]
      have hearly := hheld.early f (hheld.mem_of_ok hf)
      rw [hheld.ok_src src' f hf] at hearly
      omega
  · exact hwaiting.proper.await fun p hp heq =>
      absurd (hwaiting.pairs_lt p hp) (by simp [heq])
  · refine (forall_update_iff m.eligible fun _ l => l.Pairwise (· < ·)).mpr
      ⟨pairwise_append.mpr ⟨hwaiting.sorted src, pairwise_singleton _ _, ?_⟩,
        fun src' _ => hwaiting.sorted src'⟩
    intro n hn k hk
    rw [mem_singleton.mp hk]
    exact hwaiting.eligible_lt src n hn
  · intro src' n hn
    rcases (hmem src' n).mp hn with hn | ⟨rfl, rfl⟩
    · exact (hwaiting.eligible_lt src' n hn).trans_le (le_update_succ ..)
    · simp
  · exact fun p hp => (hwaiting.pairs_lt p hp).trans_le (le_update_succ ..)
  · intro src' n hn
    rcases lt_or_of_lt_update_succ hn with hlt | hnew
    · exact (hwaiting.cover src' n hlt).imp_left fun hn => (hmem _ _).mpr (.inl hn)
    · exact .inl ((hmem _ _).mpr (.inr hnew))

/-- What `checkPostedRecvListForMatch` does when it has found a receive. -/
structure Moves (s : Communicator) (id : ℕ) (f : BaseRecvFragDesc) (s' : Communicator) : Prop where
  recvs_ne : ∀ j, j ≠ id → s'.recvs j = s.recvs j
  isendSeq : (s'.recvs id).isendSeq = f.isendSeq
  resltsPeer : (s'.recvs id).resltsPeer = f.srcProcID
  resltsLength : (s'.recvs id).resltsLength = f.msgLength
  counted : (s'.recvs id).counted = (s.recvs id).counted
  messageDone : (s'.recvs id).messageDone = (s.recvs id).messageDone
  whichQueue : (s'.recvs id).whichQueue = .matchedIrecv
  wild : s'.postedWildRecv = s.postedWildRecv.erase id
  specific : ∀ src, s'.postedSpecificRecv src = (s.postedSpecificRecv src).erase id
  matched : s'.matchedRecv = update s.matchedRecv f.srcProcID (s.matchedRecv f.srcProcID ++ [id])
  processed : s'.processed = s.processed
  counter : s'.nextIrecvIdCounter = s.nextIrecvIdCounter

private lemma erase_filter_map {l : List Posting} (hl : l.Pairwise fun p q => p.id < q.id)
    (hp : p ∈ l) (c : Posting → Bool) :
    ((l.filter c).map Posting.id).erase p.id = ((l.erase p).filter c).map Posting.id := by
  induction l with
  | nil => cases hp
  | cons q l ih =>
    obtain ⟨hq, hl⟩ := pairwise_cons.mp hl
    by_cases hpq : q = p
    · subst hpq
      rw [erase_cons_head]
      have hnot : q.id ∉ (l.filter c).map Posting.id := by
        rw [mem_map]
        rintro ⟨r, hr, hid⟩
        exact absurd (hq r (mem_of_mem_filter hr)) (by omega)
      cases hc : c q
      · rw [filter_cons_of_neg (by simp [hc]), erase_of_not_mem hnot]
      · rw [filter_cons_of_pos hc, map_cons, erase_cons_head]
    · have hpl : p ∈ l := (mem_cons.mp hp).resolve_left (Ne.symm hpq)
      rw [erase_cons_tail (by simpa using hpq)]
      cases hc : c q
      · rw [filter_cons_of_neg (by simp [hc]), filter_cons_of_neg (by simp [hc]), ih hl hpl]
      · have hne : q.id ≠ p.id := (hq p hpl).ne
        rw [filter_cons_of_pos hc, filter_cons_of_pos hc, map_cons, map_cons,
          erase_cons_tail (by simpa using hne), ih hl hpl]

lemma Core.filter_processed_eq_nil (h : Core messages A N ok late m s)
    (hid : ∀ q ∈ m.pairs, q.1.id ≠ id) : s.processed.filter (·.recv = id) = [] := by
  rw [filter_eq_nil_iff]
  intro e he heq
  obtain ⟨q, hq, hqid, -⟩ := h.held.paired e he
  exact hid q hq (hqid.trans (by simpa using heq))

/-- What becomes of a receive that gets message `n` of process `src`. -/
structure Takes (s : Communicator) (id src n length : ℕ) (s' : Communicator) : Prop where
  recvs_ne : ∀ j, j ≠ id → s'.recvs j = s.recvs j
  isendSeq : (s'.recvs id).isendSeq = n
  resltsPeer : (s'.recvs id).resltsPeer = src
  resltsLength : (s'.recvs id).resltsLength = length
  counted : (s'.recvs id).counted = 0
  messageDone : (s'.recvs id).messageDone = false
  whichQueue : (s'.recvs id).whichQueue = .matchedIrecv
  matched : s'.matchedRecv = update s.matchedRecv src (s.matchedRecv src ++ [id])
  processed : s'.processed = s.processed

private lemma Core.takes (h : Core messages A N ok late m s) (A' : List BaseRecvFragDesc)
    (hne : ∀ q ∈ m.pairs, q.1.id ≠ p.id)
    (htakes : Takes s p.id src n (messages src n).lengths.sum s')
    (hA : ∀ q ∈ m.pairs, ∀ g, messages.FragOf q.2.1 q.2.2 g →
      g.key ∈ A.map key → g.key ∈ A'.map key) :
    (∀ q ∈ m.pairs ++ [(p, src, n)], PairedDesc messages A' late s' q.1.id q.2.1 q.2.2) ∧
      (∀ src', (s'.matchedRecv src').Nodup) ∧
      (∀ src', ∀ j ∈ s'.matchedRecv src',
        ∃ q ∈ m.pairs ++ [(p, src, n)], q.1.id = j ∧ q.2.1 = src') ∧
      ∀ j ∈ late, ∃ q ∈ m.pairs ++ [(p, src, n)], q.1.id = j := by
  have hprocessed := h.filter_processed_eq_nil hne
  have hreceives := h.receives
  rw [htakes.matched]
  refine ⟨forall_mem_append.mpr ⟨fun q hq => ?_, ?_⟩, ?_, ?_, fun j hj => ?_⟩
  · refine (hreceives.pairs q hq).congr (htakes.recvs_ne _ (hne q hq)) (by rw [htakes.processed])
      ?_ Iff.rfl (hA q hq)
    rw [htakes.matched]
    by_cases hsrc : q.2.1 = src
    · rw [hsrc, update_self]
      simp [hne q hq]
    · rw [update_of_ne hsrc]
  · rw [forall_mem_singleton]
    refine ⟨htakes.isendSeq, htakes.resltsPeer, htakes.resltsLength, ?_,
      .inl ⟨?_, htakes.whichQueue, htakes.messageDone, hreceives.not_mem_late hne⟩⟩
    · rw [htakes.counted, htakes.processed, hprocessed]
      rfl
    · rw [htakes.matched, update_self]
      exact mem_concat_self
  · refine (forall_update_iff s.matchedRecv fun _ l => l.Nodup).mpr
      ⟨?_, fun src' _ => hreceives.matched_nodup src'⟩
    rw [← concat_eq_append]
    exact (hreceives.matched_nodup src).concat (hreceives.not_mem_matched hne src)
  · have hold : ∀ src', ∀ j ∈ s.matchedRecv src',
        ∃ q ∈ m.pairs ++ [(p, src, n)], q.1.id = j ∧ q.2.1 = src' := by
      exact fun src' j hj => exists_mem_append_left _ (hreceives.matched src' j hj)
    refine (forall_update_iff s.matchedRecv fun src' l => ∀ j ∈ l,
      ∃ q ∈ m.pairs ++ [(p, src, n)], q.1.id = j ∧ q.2.1 = src').mpr
      ⟨forall_mem_append.mpr ⟨hold src, ?_⟩, fun src' _ => hold src'⟩
    rw [forall_mem_singleton]
    exact ⟨_, mem_concat_self, rfl, rfl⟩
  · exact exists_mem_append_left _ (hreceives.late_paired j hj)

private lemma Held.paired_append (h : Held messages A N ok m processed) : ∀ e ∈ processed,
      ∃ p ∈ m.pairs ++ [q], p.1.id = e.recv ∧ p.2 = (e.frag.srcProcID, e.frag.isendSeq) :=
  fun e he => exists_mem_append_left _ (h.paired e he)

lemma Core.pairOffered (h : Core messages A N ok late m s) (hp : p ∈ m.posted)
    (hf : messages.FragOf src (N src) f) (hmoves : Moves s p.id f s') :
    Core messages A (update N src (N src + 1)) ok late (m.pairOffered p src (N src)) s' := by
  obtain ⟨hfrag, rfl, hseq⟩ := hf
  have hdesc := h.receives.posted p hp
  have htakes : Takes s p.id f.srcProcID (N f.srcProcID)
      (messages f.srcProcID (N f.srcProcID)).lengths.sum s' :=
    { hmoves with
      isendSeq := hmoves.isendSeq.trans hseq
      resltsLength := by rw [hmoves.resltsLength, hfrag.msgLength_eq, hseq]
      counted := hmoves.counted.trans hdesc.counted
      messageDone := hmoves.messageDone.trans hdesc.messageDone }
  obtain ⟨hpairs, hnodup, hmatched, hlate⟩ :=
    h.takes A (fun q hq => h.waiting.posted_ne hp hq) htakes fun _ _ _ _ => id
  obtain ⟨hheld, hwaiting, hreceives⟩ := h
  have hmem : ∀ q, q ∈ allReceives (m.pairOffered p f.srcProcID (N f.srcProcID)) ↔
      q ∈ allReceives m := by
    intro q
    simp only [allReceives, Matcher.pairOffered, map_append, map_cons, map_nil,
      mem_append, mem_singleton, hwaiting.posted_nodup.mem_erase_iff]
    by_cases hqp : q = p
    · simp [hqp, hp]
    · simp [hqp]
  refine ⟨?_, ?_, ?_⟩
  · rw [hmoves.processed]
    refine { hheld with early := ?_, paired := hheld.paired_append }
    exact fun f hf => (hheld.early f hf).trans_le (le_update_succ ..)
  · refine { hwaiting with proper := ?_, eligible_lt := ?_, pairs_lt := ?_, cover := ?_,
                           posted_sorted := ?_, ids := ?_ }
    · refine hwaiting.proper.pairOffered hp hwaiting.posted_nodup (fun q hq heq => ?_) fun hin => ?_
      · exact absurd (hwaiting.pairs_lt q hq) (by simp [heq])
      · exact absurd (hwaiting.eligible_lt _ _ hin) (by omega)
    · exact fun src' n hn => (hwaiting.eligible_lt src' n hn).trans_le (le_update_succ ..)
    · refine forall_mem_append.mpr
        ⟨fun q hq => (hwaiting.pairs_lt q hq).trans_le (le_update_succ ..), ?_⟩
      simp
    · intro src' n hn
      rcases lt_or_of_lt_update_succ hn with hlt | ⟨rfl, rfl⟩
      · exact (hwaiting.cover src' n hlt).imp_right (exists_mem_append_left _)
      · exact .inr ⟨_, mem_concat_self, rfl⟩
    · exact hwaiting.posted_sorted.sublist erase_sublist
    · exact fun q hq r hr => hwaiting.ids q ((hmem q).mp hq) r ((hmem r).mp hr)
  · refine ⟨?_, fun src' => ?_, fun q hq => ?_, hpairs, hnodup, hmatched, fun q hq => ?_,
      fun j hj hlt => ?_, hlate⟩
    · rw [hmoves.wild, hreceives.wild]
      exact erase_filter_map hwaiting.posted_sorted hp _
    · rw [hmoves.specific, hreceives.specific]
      exact erase_filter_map hwaiting.posted_sorted hp _
    · obtain ⟨hne, hq⟩ := hwaiting.posted_nodup.mem_erase_iff.mp hq
      have hid : q.id ≠ p.id := fun hid =>
        hne (hwaiting.ids q (mem_allReceives_of_posted hq) p (mem_allReceives_of_posted hp) hid)
      rw [hmoves.recvs_ne _ hid]
      exact hreceives.posted q hq
    · rw [hmoves.counter]
      exact hreceives.bound q ((hmem q).mp hq)
    · rw [hmoves.counter] at hlt
      obtain ⟨q, hq, hid⟩ := hreceives.issued j hj hlt
      exact ⟨q, (hmem q).mpr hq, hid⟩

/-! ### Fragments are put on a list or copied -/

private lemma nodup_keys_append (h : (A.map key).Nodup)
    (hf : f.key ∉ A.map key) : ((A ++ [f]).map key).Nodup := by
  rw [map_append, map_singleton, ← concat_eq_append]
  exact h.concat hf

private lemma mem_keys_append {k : ℕ × ℕ × ℕ} (hk : k ∈ A.map key) : k ∈ (A ++ [f]).map key := by
  rw [map_append]
  exact mem_append_left _ hk

lemma Core.appendOkToMatch (h : Core messages A N ok late m s) (hf : messages.FragOf src n f)
    (hn : n ∈ m.eligible src) (hfresh : f.key ∉ A.map key)
    (hfirst : ∀ k ∈ m.eligible src, k < n → ∃ g ∈ ok src, g.isendSeq = k) :
    Core messages (A ++ [f]) N (update ok src (ok src ++ [f])) late m s := by
  obtain ⟨hheld, hwaiting, hreceives⟩ := h
  obtain ⟨hfrag, rfl, rfl⟩ := hf
  refine ⟨?_, hwaiting, hreceives.mono fun k => mem_keys_append⟩
  refine { isFrag := ?_, early := ?_, nodup := nodup_keys_append hheld.nodup hfresh, count := ?_
           ok_src := ?_, ok_eligible := ?_, ok_order := ?_, paired := hheld.paired }
  · exact forall_mem_append.mpr ⟨hheld.isFrag, by simpa using hfrag⟩
  · exact forall_mem_append.mpr
      ⟨hheld.early, by simpa using hwaiting.eligible_lt _ _ hn⟩
  · intro g
    rw [count_append, hheld.count g]
    by_cases hsrc : g.srcProcID = f.srcProcID
    · rw [hsrc, update_self, count_append]
      omega
    · have hne : f ≠ g := fun heq => hsrc (heq ▸ rfl)
      rw [update_of_ne hsrc, count_singleton, if_neg (by simpa using hne)]
      rfl
  · exact (forall_update_iff ok fun src l => ∀ f ∈ l, f.srcProcID = src).mpr
      ⟨forall_mem_append.mpr ⟨hheld.ok_src _, by simp⟩, fun src _ => hheld.ok_src src⟩
  · exact (forall_update_iff ok fun src l => ∀ f ∈ l, f.isendSeq ∈ m.eligible src).mpr
      ⟨forall_mem_append.mpr ⟨hheld.ok_eligible _, by simpa using hn⟩,
        fun src _ => hheld.ok_eligible src⟩
  · intro src kept g rest heq k hk hlt
    by_cases hsrc : src = f.srcProcID
    · subst hsrc
      rw [update_self] at heq
      rcases eq_nil_or_concat rest with rfl | ⟨rest, x, rfl⟩
      · obtain ⟨rfl, hgf⟩ := append_inj' heq rfl
        obtain rfl := singleton_inj.mp hgf
        exact hfirst k hk hlt
      · rw [concat_eq_append, ← cons_append, ← append_assoc] at heq
        obtain ⟨heq, -⟩ := append_inj' heq rfl
        exact hheld.ok_order _ kept g rest heq k hk hlt
    · rw [update_of_ne hsrc] at heq
      exact hheld.ok_order src kept g rest heq k hk hlt

/-- What copying a fragment into a receive on the matched list does.  The receive leaves the list if
it is complete. -/
structure Copies (s : Communicator) (id : ℕ) (f : BaseRecvFragDesc) (src : ℕ) (done : Bool)
    (s' : Communicator) : Prop where
  recvs_ne : ∀ j, j ≠ id → s'.recvs j = s.recvs j
  isendSeq : (s'.recvs id).isendSeq = (s.recvs id).isendSeq
  resltsPeer : (s'.recvs id).resltsPeer = (s.recvs id).resltsPeer
  resltsLength : (s'.recvs id).resltsLength = (s.recvs id).resltsLength
  counted : ∃ c handler, s'.processed = s.processed ++ [⟨id, f, c, handler⟩] ∧
    (s'.recvs id).counted = (s.recvs id).counted + c
  wild : s'.postedWildRecv = s.postedWildRecv
  specific : s'.postedSpecificRecv = s.postedSpecificRecv
  counter : s'.nextIrecvIdCounter = s.nextIrecvIdCounter
  matched : s'.matchedRecv = if done then
    update s.matchedRecv src ((s.matchedRecv src).erase id) else s.matchedRecv
  full : done = true → (s'.recvs id).resltsLength ≤ (s'.recvs id).counted
  active : done = false →
    (s'.recvs id).whichQueue = .matchedIrecv ∧ (s'.recvs id).messageDone = false

/-- No copy counted more bytes than the fragment has. -/
def Communicator.Exact (s : Communicator) : Prop := ∀ e ∈ s.processed, e.counted ≤ e.frag.length

lemma Held.fragOf_of_recv (h : Held messages A N ok m processed) (hwaiting : Waiting N m)
    (hq : q ∈ m.pairs) {e : Processed} (he : e ∈ processed) (hid : e.recv = q.1.id) :
    messages.FragOf q.2.1 q.2.2 e.frag := by
  obtain ⟨r, hr, hrid, heq⟩ := h.paired e he
  obtain rfl := hwaiting.pair_unique hr hq (hrid.trans hid)
  have hmem : e.frag ∈ A := h.processed_subperm.subset (mem_map_of_mem he)
  exact ⟨h.isFrag _ hmem, congrArg Prod.fst heq.symm, congrArg Prod.snd heq.symm⟩

private lemma all_arrived (h : Held messages A N ok m processed) (hwaiting : Waiting N m)
    (hq : q ∈ m.pairs) (hexact : ∀ e ∈ processed, e.counted ≤ e.frag.length)
    (hsome : processed.filter (·.recv = q.1.id) ≠ [])
    (hfull : (messages q.2.1 q.2.2).lengths.sum ≤
      ((processed.filter (·.recv = q.1.id)).map Processed.counted).sum) :
    ∀ g, messages.FragOf q.2.1 q.2.2 g → g.key ∈ A.map key := by
  intro g hg
  set copied := processed.filter (·.recv = q.1.id) with hcopied
  have hsublist : copied.Sublist processed := filter_sublist
  have hsum : (copied.map Processed.counted).sum ≤
      ((copied.map Processed.frag).map BaseRecvFragDesc.length).sum := by
    rw [map_map]
    exact sum_le_sum fun e he => hexact e (hsublist.subset he)
  have hfrags : ∀ f ∈ copied.map Processed.frag, messages.FragOf q.2.1 q.2.2 f := by
    intro f hf
    obtain ⟨e, he, rfl⟩ := mem_map.mp hf
    exact h.fragOf_of_recv hwaiting hq (hsublist.subset he)
      (by simpa using (mem_filter.mp he).2)
  have hkeys : ((copied.map Processed.frag).map key).Nodup :=
    h.processed_nodup.sublist ((hsublist.map _).map _)
  have hkey := Messages.mem_key_of_sum_le hfrags hkeys (by simpa using hsome)
    (hfull.trans hsum) hg
  obtain ⟨f, hf, hfg⟩ := mem_map.mp hkey
  refine mem_map.mpr ⟨f, h.processed_subperm.subset ?_, hfg⟩
  exact (hsublist.map _).subset hf

lemma Core.copies {done : Bool} (h : Core messages A N ok late m s) (hq : q ∈ m.pairs)
    (hactive : q.1.id ∈ s.matchedRecv q.2.1) (hf : messages.FragOf q.2.1 q.2.2 f)
    (hfresh : f.key ∉ A.map key) (hcopies : Copies s q.1.id f q.2.1 done s') (hexact : s'.Exact)
    (hlate : ∀ j, j ≠ q.1.id → (j ∈ late' ↔ j ∈ late))
    (hdone : done = true → (s'.recvs q.1.id).messageDone = true ∨ q.1.id ∈ late')
    (hnot : done = false → q.1.id ∉ late') : Core messages (A ++ [f]) N ok late' m s' := by
  obtain ⟨hheld, hwaiting, hreceives⟩ := h
  obtain ⟨c, handler, hprocessed, hcounted⟩ := hcopies.counted
  have hheld' : Held messages (A ++ [f]) N ok m s'.processed := by
    refine { hheld with isFrag := ?_, early := ?_
                        nodup := nodup_keys_append hheld.nodup hfresh, count := ?_, paired := ?_ }
    · exact forall_mem_append.mpr ⟨hheld.isFrag, by simpa using hf.isFrag⟩
    · refine forall_mem_append.mpr ⟨hheld.early, ?_⟩
      rw [forall_mem_singleton, hf.src_eq, hf.seq_eq]
      exact hwaiting.pairs_lt q hq
    · intro g
      rw [hprocessed, map_append, count_append, count_append, hheld.count g, map_singleton]
      exact Nat.add_assoc _ _ _
    · rw [hprocessed]
      refine forall_mem_append.mpr ⟨hheld.paired, ?_⟩
      rw [forall_mem_singleton]
      exact ⟨q, hq, rfl, by rw [hf.src_eq, hf.seq_eq]⟩
  have hfilter' : s'.processed.filter (·.recv = q.1.id) =
      s.processed.filter (·.recv = q.1.id) ++ [⟨q.1.id, f, c, handler⟩] := by
    rw [hprocessed, filter_append]
    simp
  have hmatched : ∀ src' j, j ≠ q.1.id → (j ∈ s'.matchedRecv src' ↔ j ∈ s.matchedRecv src') := by
    intro src' j hj
    rw [hcopies.matched]
    cases done
    · rfl
    · by_cases hsrc : src' = q.2.1
      · subst hsrc
        simp [mem_erase_of_ne hj]
      · simp [hsrc]
  have hsub : ∀ src', (s'.matchedRecv src').Sublist (s.matchedRecv src') := by
    intro src'
    rw [hcopies.matched]
    cases done
    · exact Sublist.refl _
    · by_cases hsrc : src' = q.2.1
      · subst hsrc
        simpa using erase_sublist
      · simp [hsrc]
  refine ⟨hheld', hwaiting, ?_⟩
  refine ⟨by rw [hcopies.wild, hreceives.wild], fun src' => by rw [hcopies.specific,
    hreceives.specific], fun p hp => ?_, fun r hr => ?_, fun src' => ?_, fun src' j hj => ?_,
    ?_, ?_,
    fun j hj => ?_⟩
  · rw [hcopies.recvs_ne _ (Ne.symm (hwaiting.posted_ne hp hq))]
    exact hreceives.posted p hp
  · by_cases hid : r.1.id = q.1.id
    · obtain rfl := hwaiting.pair_unique hr hq hid
      obtain ⟨h1, h2, h3, h4, -⟩ := hreceives.pairs r hr
      have hsum : (s'.recvs r.1.id).counted =
          ((s'.processed.filter (·.recv = r.1.id)).map Processed.counted).sum := by
        rw [hcounted, hfilter', h4, map_append, sum_append]
        rfl
      refine ⟨hcopies.isendSeq.trans h1, hcopies.resltsPeer.trans h2,
        hcopies.resltsLength.trans h3, hsum, ?_⟩
      cases done with
      | false =>
        obtain ⟨hqueue, hmessage⟩ := hcopies.active rfl
        refine .inl ⟨?_, hqueue, hmessage, hnot rfl⟩
        rw [hcopies.matched]
        exact hactive
      | true =>
        refine .inr ⟨?_, ?_, hdone rfl⟩
        · rw [hcopies.matched]
          simp [(hreceives.matched_nodup r.2.1).mem_erase_iff]
        · refine all_arrived hheld' hwaiting hq hexact (by rw [hfilter']; simp) ?_
          rw [← hsum, ← h3, ← hcopies.resltsLength]
          exact hcopies.full rfl
    · refine (hreceives.pairs r hr).congr (hcopies.recvs_ne _ hid) ?_ (hmatched _ _ hid)
        (hlate _ hid) fun _ _ => mem_keys_append
      rw [hprocessed, filter_append]
      simp [Ne.symm hid]
  · exact (hreceives.matched_nodup src').sublist (hsub src')
  · exact hreceives.matched src' j ((hsub src').subset hj)
  · rw [hcopies.counter]
    exact hreceives.bound
  · rw [hcopies.counter]
    exact hreceives.issued
  · by_cases hid : j = q.1.id
    · exact ⟨q, hq, hid.symm⟩
    · exact hreceives.late_paired j ((hlate j hid).mp hj)

lemma Core.complete (hq : q ∈ m.pairs) (h : Core messages A N ok (insert q.1.id late) m s) :
    Core messages A N ok late m (s.complete q.1.id) := by
  obtain ⟨hheld, hwaiting, hreceives⟩ := h
  have hrecvs_ne : ∀ j, j ≠ q.1.id → (s.complete q.1.id).recvs j = s.recvs j := by
    intro j hj
    simp [Communicator.complete, Communicator.setRecv, hj]
  have hrecvs : (s.complete q.1.id).recvs q.1.id = { s.recvs q.1.id with messageDone := true } := by
    simp [Communicator.complete, Communicator.setRecv]
  refine ⟨hheld, hwaiting, { hreceives with posted := fun p hp => ?_, pairs := fun r hr => ?_
                                            late_paired := fun j hj => ?_ }⟩
  · rw [hrecvs_ne _ (Ne.symm (hwaiting.posted_ne hp hq))]
    exact hreceives.posted p hp
  · by_cases hid : r.1.id = q.1.id
    · obtain rfl := hwaiting.pair_unique hr hq hid
      obtain ⟨h1, h2, h3, h4, h5⟩ := hreceives.pairs r hr
      refine ⟨by rw [hrecvs, ← h1], by rw [hrecvs, ← h2], by rw [hrecvs, ← h3], ?_, ?_⟩
      · rw [hrecvs]
        exact h4
      · obtain ⟨-, -, -, hnot⟩ | ⟨hout, hall, -⟩ := h5
        · exact absurd (Set.mem_insert _ _) hnot
        · exact .inr ⟨hout, hall, .inl (by rw [hrecvs])⟩
    · refine (hreceives.pairs r hr).congr (hrecvs_ne _ hid) rfl Iff.rfl ?_ fun _ _ => id
      rw [Set.mem_insert_iff, or_iff_right hid]
  · exact hreceives.late_paired j (Set.mem_insert_of_mem _ hj)

/-! ### Receives are posted -/

/-- What `irecv_start` has done when a receive that was posted with this number has got the message
and is about to copy its fragments. -/
structure Starts (s : Communicator) (id src n length : ℕ) (s' : Communicator) : Prop
    extends Takes s id src n length s' where
  wild : s'.postedWildRecv = s.postedWildRecv
  specific : s'.postedSpecificRecv = s.postedSpecificRecv
  counter : s'.nextIrecvIdCounter = s.nextIrecvIdCounter + 1

lemma Core.id_ne (h : Core messages A N ok late m s) (hp : p.id = s.nextIrecvIdCounter)
    {q : Posting} (hq : q ∈ allReceives m) : q.id ≠ p.id := by
  have hbound := (h.receives.bound q hq).2
  omega

private lemma Core.issue (h : Core messages A N ok late m s) (m' : Matcher Posting ℕ ℕ)
    (hp : p.id = s.nextIrecvIdCounter) (hcounter : 1 ≤ p.id)
    (hnext : s'.nextIrecvIdCounter = s.nextIrecvIdCounter + 1)
    (hmem : ∀ q, q ∈ allReceives m' ↔ q ∈ allReceives m ∨ q = p) :
    (∀ q ∈ allReceives m', ∀ r ∈ allReceives m', q.id = r.id → q = r) ∧
      (∀ q ∈ allReceives m', 1 ≤ q.id ∧ q.id < s'.nextIrecvIdCounter) ∧
      ∀ j, 1 ≤ j → j < s'.nextIrecvIdCounter → ∃ q ∈ allReceives m', q.id = j := by
  simp only [hmem, hnext]
  refine ⟨?_, ?_, fun j hj hlt => ?_⟩
  · rintro q (hq | rfl) r (hr | rfl) hid
    · exact h.waiting.ids q hq r hr hid
    · exact absurd hid (h.id_ne hp hq)
    · exact absurd hid.symm (h.id_ne hp hr)
    · rfl
  · rintro q (hq | rfl)
    · have hbound := h.receives.bound q hq
      omega
    · omega
  · by_cases hjp : j = p.id
    · exact ⟨p, .inr rfl, hjp.symm⟩
    · obtain ⟨q, hq, hid⟩ := h.receives.issued j hj (by omega)
      exact ⟨q, .inl hq, hid⟩

/-- The fragments of other messages than `n` of process `src`. -/
def otherFrags (src n : ℕ) (A : List BaseRecvFragDesc) : List BaseRecvFragDesc :=
  A.filter fun g => ¬(g.srcProcID = src ∧ g.isendSeq = n)

/-- A receive that is posted gets a message.  The fragments of the message are taken off the list to
match; they have still to be copied. -/
lemma Core.pairPosted (h : Core messages A N ok late m s) (hp : p.id = s.nextIrecvIdCounter)
    (hn : n ∈ m.eligible src) (hcounter : 1 ≤ p.id)
    (hstarts : Starts s p.id src n (messages src n).lengths.sum s') :
    Core messages (otherFrags src n A) N
      (update ok src ((ok src).filter (·.isendSeq ≠ n))) late (m.pairPosted p src n) s' := by
  have hne : ∀ q ∈ allReceives m, q.id ≠ p.id := fun q => h.id_ne hp
  have hpairs_ne : ∀ q ∈ m.pairs, q.1.id ≠ p.id := fun q hq =>
    hne _ (mem_allReceives_of_pair hq)
  obtain ⟨hids, hbound, hissued⟩ := h.issue (m.pairPosted p src n) hp hcounter hstarts.counter
    fun q => by simp [allReceives, Matcher.pairPosted, or_assoc]
  obtain ⟨hpairs, hnodup, hmatched, hlate⟩ := h.takes (otherFrags src n A) hpairs_ne
    hstarts.toTakes fun q hq g hg hkey => by
      -- the message of this receive is another one
      obtain ⟨f, hf, hkey⟩ := mem_map.mp hkey
      refine mem_map.mpr ⟨f, mem_filter.mpr ⟨hf, ?_⟩, hkey⟩
      have hother := h.waiting.proper.eligible src n hn q hq
      simp only [key, Prod.mk.injEq] at hkey
      rw [hkey.1, hkey.2.1, hg.src_eq, hg.seq_eq]
      exact decide_eq_true fun hmsg => hother (Prod.ext hmsg.1 hmsg.2)
  obtain ⟨hheld, hwaiting, hreceives⟩ := h
  have hmem : ∀ src' k, k ∈ (m.pairPosted p src n).eligible src' ↔
      k ∈ m.eligible src' ∧ ¬(src' = src ∧ k = n) := by
    intro src' k
    by_cases hsrc : src' = src
    · subst hsrc
      simp [Matcher.pairPosted, (hwaiting.eligible_nodup src').mem_erase_iff, and_comm]
    · simp [Matcher.pairPosted, hsrc]
  refine ⟨?_, ?_, ?_⟩
  · refine { isFrag := ?_, early := ?_, nodup := ?_, count := ?_, ok_src := ?_, ok_eligible := ?_
             ok_order := ?_, paired := ?_ }
    · exact fun f hf => hheld.isFrag f (mem_of_mem_filter hf)
    · exact fun f hf => hheld.early f (mem_of_mem_filter hf)
    · exact hheld.nodup.sublist (filter_sublist.map _)
    · intro g
      rw [hstarts.processed]
      by_cases hg : g.srcProcID = src ∧ g.isendSeq = n
      · obtain ⟨rfl, rfl⟩ := hg
        rw [update_self, count_eq_zero.mpr (hheld.not_mem_processed hwaiting.proper hn), otherFrags,
          count_eq_zero.mpr (by simp), count_eq_zero.mpr (by simp)]
      · have hother : (otherFrags src n A).count g = A.count g := count_filter (decide_eq_true hg)
        rw [hother, hheld.count g]
        by_cases hsrc : g.srcProcID = src
        · have hseq : g.isendSeq ≠ n := fun heq => hg ⟨hsrc, heq⟩
          rw [hsrc, update_self, count_filter (by simpa using hseq)]
        · rw [update_of_ne hsrc]
    · exact (forall_update_iff ok fun src l => ∀ f ∈ l, f.srcProcID = src).mpr
        ⟨fun g hg => hheld.ok_src src g (mem_of_mem_filter hg), fun src' _ => hheld.ok_src src'⟩
    · intro src' g hg
      rw [hmem]
      by_cases hsrc : src' = src
      · subst hsrc
        rw [update_self, mem_filter] at hg
        exact ⟨hheld.ok_eligible src' g hg.1, fun heq => by simp [heq.2] at hg⟩
      · rw [update_of_ne hsrc] at hg
        exact ⟨hheld.ok_eligible src' g hg, fun heq => hsrc heq.1⟩
    · intro src' kept g rest heq k hk hlt
      rw [hmem] at hk
      by_cases hsrc : src' = src
      · subst hsrc
        rw [update_self] at heq
        obtain ⟨l1, l2, hl, hl1, hl2⟩ := filter_eq_append_iff.mp heq
        obtain ⟨l3, l4, rfl, hl3, -, -⟩ := filter_eq_cons_iff.mp hl2
        obtain ⟨f, hf, rfl⟩ := hheld.ok_order src' (l1 ++ l3) g l4 (by rw [hl]; simp) k hk.1 hlt
        have hne : f.isendSeq ≠ n := fun heq => hk.2 ⟨rfl, heq⟩
        refine ⟨f, ?_, rfl⟩
        rcases mem_append.mp hf with hf | hf
        · rw [← hl1]
          exact mem_filter.mpr ⟨hf, by simpa using hne⟩
        · exact absurd (by simpa using hne) (hl3 f hf)
      · rw [update_of_ne hsrc] at heq
        exact hheld.ok_order src' kept g rest heq k hk.1 hlt
    · rw [hstarts.processed]
      exact hheld.paired_append
  · refine ⟨?_, ?_, fun src' k hk => ?_, ?_, fun src' k hk => ?_, hwaiting.posted_sorted, hids⟩
    · refine hwaiting.proper.pairPosted (fun q hq heq => ?_) (fun hin => ?_) hn
        (hwaiting.eligible_nodup src)
      · exact hpairs_ne q hq (congrArg Posting.id heq)
      · exact hne p (mem_allReceives_of_posted hin) rfl
    · exact (forall_update_iff m.eligible fun _ l => l.Pairwise (· < ·)).mpr
        ⟨(hwaiting.sorted src).sublist erase_sublist, fun src' _ => hwaiting.sorted src'⟩
    · exact hwaiting.eligible_lt src' k ((hmem src' k).mp hk).1
    · exact forall_mem_append.mpr
        ⟨hwaiting.pairs_lt, by simpa using hwaiting.eligible_lt src n hn⟩
    · rw [hmem]
      by_cases heq : src' = src ∧ k = n
      · exact .inr ⟨(p, src, n), by simp [Matcher.pairPosted], by rw [heq.1, heq.2]⟩
      · exact (hwaiting.cover src' k hk).imp (fun hk => ⟨hk, heq⟩) (exists_mem_append_left _)
  · refine ⟨?_, fun src' => ?_, fun q hq => ?_, hpairs, hnodup, hmatched, hbound, hissued, hlate⟩
    · rw [hstarts.wild, hreceives.wild]
      rfl
    · rw [hstarts.specific, hreceives.specific]
      rfl
    · rw [hstarts.recvs_ne _ (hne q (mem_allReceives_of_posted hq))]
      exact hreceives.posted q hq

/-- What `irecv_start` has done when it has put a receive on a list. -/
structure Posts (s : Communicator) (p : Posting) (s' : Communicator) : Prop where
  recvs_ne : ∀ j, j ≠ p.id → s'.recvs j = s.recvs j
  desc : PostedDesc p (s'.recvs p.id)
  wild : s'.postedWildRecv = s.postedWildRecv ++ if p.peer = none then [p.id] else []
  specific : ∀ src, s'.postedSpecificRecv src =
    s.postedSpecificRecv src ++ if p.peer = some src then [p.id] else []
  matched : s'.matchedRecv = s.matchedRecv
  processed : s'.processed = s.processed
  counter : s'.nextIrecvIdCounter = s.nextIrecvIdCounter + 1

lemma Core.post (h : Core messages A N ok late m s) (hp : p.id = s.nextIrecvIdCounter)
    (hcounter : 1 ≤ p.id) (hposts : Posts s p s') :
    Core messages A N ok late { m with posted := m.posted ++ [p] } s' := by
  have hne : ∀ q ∈ allReceives m, q.id ≠ p.id := fun q => h.id_ne hp
  obtain ⟨hids, hbound, hissued⟩ := h.issue { m with posted := m.posted ++ [p] } hp hcounter
    hposts.counter fun q => by
      simp only [allReceives, mem_append, mem_singleton]
      tauto
  obtain ⟨hheld, hwaiting, hreceives⟩ := h
  refine ⟨?_, ?_, ?_⟩
  · rw [hposts.processed]
    exact { hheld with }
  · refine { hwaiting with proper := ?_, posted_sorted := ?_, ids := hids }
    · exact hwaiting.proper.post fun q hq heq =>
        hne _ (mem_allReceives_of_pair hq) (congrArg Posting.id heq)
    · refine pairwise_append.mpr ⟨hwaiting.posted_sorted, pairwise_singleton _ _, ?_⟩
      intro q hq r hr
      rw [mem_singleton.mp hr, hp]
      exact (hreceives.bound q (mem_allReceives_of_posted hq)).2
  · refine ⟨?_, fun src => ?_, ?_, fun q hq => ?_, ?_, ?_, hbound, hissued, hreceives.late_paired⟩
    · rw [hposts.wild, hreceives.wild, filter_append, map_append]
      by_cases hpeer : p.peer = none <;> simp [hpeer]
    · rw [hposts.specific, hreceives.specific, filter_append, map_append]
      by_cases hpeer : p.peer = some src <;> simp [hpeer]
    · refine forall_mem_append.mpr ⟨fun q hq => ?_, by simpa using hposts.desc⟩
      rw [hposts.recvs_ne _ (hne q (mem_allReceives_of_posted hq))]
      exact hreceives.posted q hq
    · exact (hreceives.pairs q hq).congr (hposts.recvs_ne _ (hne _ (mem_allReceives_of_pair hq)))
        (by rw [hposts.processed]) (by rw [hposts.matched]) Iff.rfl fun _ _ => id
    · rw [hposts.matched]
      exact hreceives.matched_nodup
    · rw [hposts.matched]
      exact hreceives.matched

end Lampi
