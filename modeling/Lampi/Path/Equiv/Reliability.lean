import Lampi.Path.Reliability
import Lampi.Path.Equiv.RecvFrag
import Lampi.Path.Equiv.SendFrag

/-!
# Correctness of the reliability protocol

A process sends to others over a network that loses, repeats, reorders and damages packets.  Three
results about all runs:

* `run_cumulative_ack_sound` (GM): the cumulative numbers in acknowledgements, and what the sender
  keeps of them, only cover fragments whose data was accepted.
* `run_accepted_at_most_once`: no fragment is accepted twice, provided that erasing a number from
  the list of received ones is safe whenever it happens.
* `run_specific_ack_sound`: an acknowledgement is counted only for a fragment its source has
  accepted, provided that no descriptor carries the same number to two destinations.

`run_acceptTwiceRun` and `run_reuseRun` show what happens otherwise.

Each is an invariant of single events, carried through a run by `run_induction`.
-/

namespace Lampi.Reliability

open Option List

variable {path : Path} {s s' : Reliability} {e : Event} {t : Sender} {dest d m proc : ℕ}
  {header : DataHeader} {ack : Ack} {C : Reliability → Event → Prop} {events : List Event}

/-! ### What an event does -/

/-- An event in which the sender makes a call that sends nothing. -/
inductive Calls (path : Path) (s : Reliability) : Event → Sender → Prop
  | isend {m peer isendSeq : ℕ} {synchronous : Bool} {t : Sender}
    (h : s.sender.isend m peer isendSeq synchronous = some t) :
    Calls path s (.isend m peer isendSeq synchronous) t
  | initFrag {d m seqOffset length : ℕ} {t : Sender}
    (h : s.sender.initFrag path d m seqOffset length = some t) :
    Calls path s (.initFrag d m seqOffset length) t
  | callback {doAck doChecksum : Bool} {d : ℕ} {status : GmStatus} {t : Sender}
    (hpath : path = .gm doAck doChecksum) (h : s.sender.callback doAck d status = some t) :
    Calls path s (.callback d status) t
  | resend {m : ℕ} {timedOut : ℕ → Bool} {t : Sender}
    (h : s.sender.resend path m timedOut = some t) : Calls path s (.resend m timedOut) t
  | deliverAck {i : ℕ} {ack : Ack} {t : Sender} (hin : s.acks[i]? = some ack)
    (h : s.sender.processAck path ack = some t) : Calls path s (.deliverAck i) t

/-- An event in which process `proc` makes a call as a receiver. -/
inductive Receives (path : Path) (s : Reliability) : Event → ℕ → Receiver → List Ack → Prop
  | deliver {i dest : ℕ} {header : DataHeader} {intact : Bool} {res : Resources} {r : Receiver}
    {sent : List Ack} (hin : (dest, header) ∈ s.data) (h : (s.recv dest).handleReceivedFrag path
      dest (.init path header intact) res = some (r, sent)) :
    Receives path s (.deliver i intact res) dest r sent
  | processMatchedData {proc i postedLength : ℕ} {copyError : Bool} {res : Resources} {r : Receiver}
    {sent : List Ack} (h : (s.recv proc).processMatchedData path proc i postedLength copyError res =
      some (r, sent)) :
    Receives path s (.processMatchedData proc i postedLength copyError res) proc r sent
  | sendUnsentAcks {proc : ℕ} {res : ℕ → Resources} {r : Receiver} {sent : List Ack}
    (h : Receiver.sendUnsentAcks path proc res 0 (s.recv proc).unprocessedAcks (s.recv proc) =
      some (r, sent)) : Receives path s (.sendUnsentAcks proc res) proc r sent
  | malloc (proc : ℕ) (ok : Bool) : Receives path s (.malloc proc ok) proc { s.recv proc with
      seqs := ⟨{ (s.recv proc).seqs.received with mallocOk := ok },
        { (s.recv proc).seqs.delivered with mallocOk := ok }⟩ } []

lemma step_cases (hs : step path s e = some s') :
    (∃ t, Calls path s e t ∧ s' = s.setSender t) ∨
      (∃ d t dest header, e = .send d ∧ s.sender.send path d = some (t, dest, header) ∧
        s' = { s with sender := t, data := s.data ++ [(dest, header)] }) ∨
      ∃ proc r sent, Receives path s e proc r sent ∧ s' = s.received proc (r, sent) := by
  cases e with
  | isend m peer isendSeq synchronous =>
    obtain ⟨t, ht, rfl⟩ := map_eq_some_iff.mp hs
    exact .inl ⟨t, .isend ht, rfl⟩
  | initFrag d m seqOffset length =>
    obtain ⟨t, ht, rfl⟩ := map_eq_some_iff.mp hs
    exact .inl ⟨t, .initFrag ht, rfl⟩
  | send d =>
    obtain ⟨⟨t, dest, header⟩, ht, rfl⟩ := map_eq_some_iff.mp hs
    exact .inr (.inl ⟨d, t, dest, header, rfl, ht, rfl⟩)
  | callback d status =>
    cases path with
    | gm doAck doChecksum =>
      obtain ⟨t, ht, rfl⟩ := map_eq_some_iff.mp hs
      exact .inl ⟨t, .callback rfl ht, rfl⟩
    | udp => cases hs
  | resend m timedOut =>
    obtain ⟨t, ht, rfl⟩ := map_eq_some_iff.mp hs
    exact .inl ⟨t, .resend ht, rfl⟩
  | deliver i intact res =>
    obtain ⟨⟨dest, header⟩, hin, hs⟩ := bind_eq_some_iff.mp hs
    obtain ⟨⟨r, sent⟩, hr, rfl⟩ := map_eq_some_iff.mp hs
    exact .inr (.inr ⟨dest, r, sent, .deliver (mem_of_getElem? hin) hr, rfl⟩)
  | processMatchedData proc i postedLength copyError res =>
    obtain ⟨⟨r, sent⟩, hr, rfl⟩ := map_eq_some_iff.mp hs
    exact .inr (.inr ⟨proc, r, sent, .processMatchedData hr, rfl⟩)
  | sendUnsentAcks proc res =>
    obtain ⟨⟨r, sent⟩, hr, rfl⟩ := map_eq_some_iff.mp hs
    exact .inr (.inr ⟨proc, r, sent, .sendUnsentAcks hr, rfl⟩)
  | deliverAck i =>
    obtain ⟨ack, hin, hs⟩ := bind_eq_some_iff.mp hs
    obtain ⟨t, ht, rfl⟩ := map_eq_some_iff.mp hs
    exact .inl ⟨t, .deliverAck hin ht, rfl⟩
  | malloc proc ok => exact .inr (.inr ⟨proc, _, [], .malloc proc ok, (some.inj hs).symm⟩)

/-! ### Packets belong to fragments -/

/-- A fragment with this header was loaded into a descriptor for this destination, with a number
allotted for it. -/
structure Sent (path : Path) (sender : Sender) (dest : ℕ) (header : DataHeader) : Prop where
  carried : (dest, header.fragSeq) ∈ sender.carried header.sendFragDesc
  lt : header.fragSeq < sender.nextFragSeqs dest
  numbered : header.wantsAck path = true → 1 ≤ header.fragSeq

lemma Sent.mono {t' : Sender} (h : Sent path t dest header)
    (hcarried : ∀ d, t.carried d ⊆ t'.carried d)
    (hnext : ∀ p, t.nextFragSeqs p ≤ t'.nextFragSeqs p) :
    Sent path t' dest header :=
  ⟨hcarried _ h.carried, h.lt.trans_le (hnext _), h.numbered⟩

/-- Every packet in the network and everything the receivers hold belongs to a fragment that was
sent. -/
structure Inv (path : Path) (s : Reliability) : Prop where
  sender : s.sender.Inv path
  data : ∀ p ∈ s.data, Sent path s.sender p.1 p.2
  recv : ∀ proc, (s.recv proc).Inv path proc fun header => (proc, header) ∈ s.data
  acks : ∀ ack ∈ s.acks, ack ∈ (s.recv ack.srcProc).built

lemma init_inv (path : Path) : Inv path init where
  sender := by constructor <;> simp [init]
  data _ h := nomatch h
  recv _ := by constructor <;> simp [init]
  acks _ h := nomatch h

namespace Inv

variable (h : Inv path s)

include h

lemma setSender (ht : t.Inv path) (hcarried : ∀ d, s.sender.carried d ⊆ t.carried d)
    (hnext : ∀ p, s.sender.nextFragSeqs p ≤ t.nextFragSeqs p) : Inv path (s.setSender t) :=
  ⟨ht, fun p hp => (h.data p hp).mono hcarried hnext, h.recv, h.acks⟩

lemma setSender_of_eq (ht : t.Inv path) (hcarried : t.carried = s.sender.carried)
    (hnext : t.nextFragSeqs = s.sender.nextFragSeqs) : Inv path (s.setSender t) :=
  h.setSender ht (fun _ => hcarried ▸ Subset.refl _) (fun _ => hnext ▸ le_rfl)

lemma setSender_of_books (ht : t.Inv path) (hbooks : t.books = s.sender.books) :
    Inv path (s.setSender t) := h.setSender_of_eq ht (congrArg Sender.Books.carried hbooks)
    (congrArg Sender.Books.nextFragSeqs hbooks)

lemma sent (hd : (s.sender.frags d).parentSendDesc = some m) :
    Sent path s.sender (s.sender.frags d).globalDestProc (s.sender.frags d).header := by
  obtain ⟨hcarried, hdesc, hlt, hnumbered, -, -⟩ := h.sender.loaded d m hd
  exact ⟨hdesc.symm ▸ hcarried, hlt, hnumbered⟩

/-- An acknowledgement in the network about one fragment has its number. -/
lemma thisFragSeq_ne_zero (hack : ack ∈ s.acks) :
    ack.ackStatus ≠ .aggInfoOnly → ack.thisFragSeq ≠ 0 := by
  intro hstatus
  obtain ⟨header, hheader, hwants, hanswers⟩ := (h.recv ack.srcProc).built ack (h.acks ack hack)
  have hpos : 1 ≤ header.fragSeq := (h.data _ hheader).numbered hwants
  rw [hanswers.thisFragSeq hstatus]
  omega

lemma received {r : Receiver} {sent : List Ack}
    (hr : r.Inv path proc fun header => (proc, header) ∈ s.data)
    (hextends : (s.recv proc).Extends r sent) : Inv path (s.received proc (r, sent)) := by
  refine ⟨h.sender, h.data, fun p => ?_, fun ack hack => ?_⟩
  · by_cases hp : p = proc
    · subst hp
      simpa [received] using hr
    · simpa [Reliability.received, hp] using h.recv p
  · rcases mem_append.mp hack with hin | hin
    · by_cases hp : ack.srcProc = proc
      · subst hp
        simpa [received] using
          hextends.built ack (mem_append_left _ (h.acks ack hin))
      · simpa [Reliability.received, hp] using h.acks ack hin
    · have hbuilt := hextends.built ack (mem_append_right _ hin)
      obtain ⟨header, -, -, hanswers⟩ := hr.built ack hbuilt
      simpa [Reliability.received, hanswers.srcProc] using hbuilt

lemma step (hs : step path s e = some s') : Inv path s' := by
  obtain ⟨t, hcall, rfl⟩ | ⟨d, t, dest, header, -, ht, rfl⟩ | ⟨proc, r, sent, hrecv, rfl⟩ :=
    step_cases hs
  · cases hcall with
    | isend ht =>
      obtain ⟨hinv, hbooks⟩ := h.sender.isend ht
      exact h.setSender_of_books hinv hbooks
    | initFrag ht =>
      obtain ⟨hcarried, hnext⟩ := Sender.initFrag_grows ht
      exact h.setSender (h.sender.initFrag ht) hcarried hnext
    | callback hpath ht =>
      obtain ⟨hinv, hbooks⟩ := h.sender.callback ht
      exact h.setSender_of_books hinv hbooks
    | resend ht =>
      obtain ⟨hinv, hbooks, -⟩ := h.sender.resend ht
      exact h.setSender_of_eq hinv (congrArg Sender.Books.carried hbooks)
        (congrArg Sender.Books.nextFragSeqs hbooks)
    | deliverAck hin ht =>
      have hzero := h.thisFragSeq_ne_zero (mem_of_getElem? hin)
      obtain ⟨hinv, rfl | hbooks | ⟨m, -, -, -, -, hbooks⟩⟩ := h.sender.processAck hzero ht
      · exact h
      · exact h.setSender_of_eq hinv (congrArg Sender.Books.carried hbooks)
          (congrArg Sender.Books.nextFragSeqs hbooks)
      · exact h.setSender_of_eq hinv (congrArg Sender.Books.carried hbooks)
          (congrArg Sender.Books.nextFragSeqs hbooks)
  · obtain ⟨hinv, hbooks, m, hparent, rfl, rfl⟩ := h.sender.send ht
    obtain ⟨-, hdata, hrecv, hacks⟩ := h.setSender_of_books hinv hbooks
    have hcarried : t.carried = s.sender.carried := congrArg Sender.Books.carried hbooks
    have hnext : t.nextFragSeqs = s.sender.nextFragSeqs := congrArg Sender.Books.nextFragSeqs hbooks
    refine ⟨hinv, forall_mem_append.mpr ⟨hdata, ?_⟩, fun proc => ?_, hacks⟩
    · rintro p hp
      rw [mem_singleton.mp hp]
      exact (h.sent hparent).mono (fun d => hcarried ▸ Subset.refl _) (fun p => hnext ▸ le_rfl)
    · exact (hrecv proc).mono fun header hin => mem_append_left _ hin
  · cases hrecv with
    | deliver hin hr =>
      refine h.received ((h.recv proc).handleReceivedFrag hin rfl ?_ hr)
        (Receiver.handleReceivedFrag_extends hr)
      rintro rfl
      rfl
    | processMatchedData hr =>
      exact h.received ((h.recv proc).processMatchedData hr)
        (Receiver.processMatchedData_extends hr)
    | sendUnsentAcks hr =>
      exact h.received ((h.recv proc).sendUnsentAcks hr) (Receiver.sendUnsentAcks_extends hr)
    | malloc _ ok =>
      obtain ⟨hpending, hqueued, haccepted, hbuilt⟩ := h.recv proc
      exact h.received ⟨hpending, hqueued, haccepted, hbuilt⟩ ⟨fun n hn => hn, by simp⟩

end Inv

/-! ### What an event does to either side -/

/-- An event does nothing to the books of the sender; loads a descriptor; treats fragments as
delivered that the cumulative numbers cover; or notes an acknowledgement, and perhaps counts it. -/
lemma step_sender (h : Inv path s) (hs : step path s e = some s') :
    s'.sender.books = s.sender.books ∨
      (∃ d m seqOffset length, e = .initFrag d m seqOffset length ∧
        s'.sender.books = s.sender.loadedBooks path d m seqOffset) ∨
      ({ s'.sender.books with treatedAsDelivered := s.sender.treatedAsDelivered } =
          s.sender.books ∧
        ∀ p ∈ s'.sender.treatedAsDelivered, p ∈ s.sender.treatedAsDelivered ∨
          (1 ≤ p.2 ∧ p.2 ≤ (s.sender.ackInfo p.1).deliveredLargestInorderSeq)) ∨
      ∃ ack ∈ s.acks, s'.sender.books = (s.sender.updateAckInfo ack).books ∨
        ∃ m, (s.sender.frags ack.sendFragDesc).parentSendDesc = some m ∧
          (s.sender.frags ack.sendFragDesc).fragSeq = ack.thisFragSeq ∧ ack.thisFragSeq ≠ 0 ∧
          ack.ackStatus = .dataGood ∧
          s'.sender.books = (s.sender.updateAckInfo ack).creditedBooks ack.sendFragDesc ack := by
  obtain ⟨t, hcall, rfl⟩ | ⟨d, t, dest, header, -, ht, rfl⟩ | ⟨proc, r, sent, -, rfl⟩ :=
    step_cases hs
  · cases hcall with
    | isend ht => exact .inl (h.sender.isend ht).2
    | initFrag ht => exact .inr (.inl ⟨_, _, _, _, rfl, Sender.initFrag_books ht⟩)
    | callback hpath ht => exact .inl (h.sender.callback ht).2
    | resend ht => exact .inr (.inr (.inl (h.sender.resend ht).2))
    | deliverAck hin ht =>
      have hack := mem_of_getElem? hin
      obtain ⟨-, rfl | hbooks | hcredited⟩ := h.sender.processAck (h.thisFragSeq_ne_zero hack) ht
      · exact .inl rfl
      · exact .inr (.inr (.inr ⟨_, hack, .inl hbooks⟩))
      · exact .inr (.inr (.inr ⟨_, hack, .inr hcredited⟩))
  · exact .inl (h.sender.send ht).2.1
  · exact .inl rfl

/-- What holds of all receivers, and of the one that makes a call, holds of all after any event. -/
lemma step_recv {R : ℕ → Receiver → Prop} (hs : step path s e = some s')
    (hsame : ∀ proc, R proc (s.recv proc))
    (hcall : ∀ proc r sent, Receives path s e proc r sent → R proc r) :
    ∀ proc, R proc (s'.recv proc) := by
  obtain ⟨t, -, rfl⟩ | ⟨d, t, dest, header, -, -, rfl⟩ | ⟨proc, r, sent, hrecv, rfl⟩ :=
    step_cases hs
  · exact hsame
  · exact hsame
  · intro p
    by_cases hp : p = proc
    · subst hp
      simpa [received] using hcall p r sent hrecv
    · simpa [received, hp] using hsame p

lemma step_extends (hs : step path s e = some s') (proc : ℕ) :
    (∀ n ∈ (s.recv proc).accepted, n ∈ (s'.recv proc).accepted) ∧
      ∀ ack ∈ (s.recv proc).built, ack ∈ (s'.recv proc).built := by
  revert proc
  refine step_recv (R := fun proc r => (∀ n ∈ (s.recv proc).accepted, n ∈ r.accepted) ∧
    ∀ ack ∈ (s.recv proc).built, ack ∈ r.built) hs (fun _ => ⟨fun _ => id, fun _ => id⟩) ?_
  intro proc r sent hrecv
  have hextends : (s.recv proc).Extends r sent := by
    cases hrecv with
    | deliver _ hr => exact Receiver.handleReceivedFrag_extends hr
    | processMatchedData hr => exact Receiver.processMatchedData_extends hr
    | sendUnsentAcks hr => exact Receiver.sendUnsentAcks_extends hr
    | malloc => exact ⟨fun n hn => hn, by simp⟩
  exact ⟨hextends.accepted, fun ack hack => hextends.built ack (mem_append_left _ hack)⟩

lemma step_nextFragSeqs (h : Inv path s) (hs : step path s e = some s') (p : ℕ) :
    s.sender.nextFragSeqs p ≤ s'.sender.nextFragSeqs p ∧
      s'.sender.nextFragSeqs p ≤ s.sender.nextFragSeqs p + 1 := by
  have hsame : s'.sender.nextFragSeqs = s.sender.nextFragSeqs →
      s.sender.nextFragSeqs p ≤ s'.sender.nextFragSeqs p ∧
        s'.sender.nextFragSeqs p ≤ s.sender.nextFragSeqs p + 1 := by
    intro hnext
    rw [hnext]
    omega
  obtain hbooks | ⟨d, m, seqOffset, length, -, hbooks⟩ | ⟨hbooks, -⟩ |
    ⟨ack, -, hbooks | ⟨m, -, -, -, -, hbooks⟩⟩ := step_sender h hs
  · exact hsame (congrArg Sender.Books.nextFragSeqs hbooks)
  · have hnext : s'.sender.nextFragSeqs = _ := congrArg Sender.Books.nextFragSeqs hbooks
    rw [hnext]
    exact Sender.initFragSeq_bounds _ _ p
  · exact hsame (congrArg Sender.Books.nextFragSeqs hbooks)
  · exact hsame (congrArg Sender.Books.nextFragSeqs hbooks)
  · exact hsame (congrArg Sender.Books.nextFragSeqs hbooks)

/-! ### Runs -/

/-- The numbers allotted so far fit into 64 bits, and the last one is not among them. -/
def Bounded (s : Reliability) : Prop := ∀ p, s.sender.nextFragSeqs p ≤ 2 ^ 64 - 1

/-- Every event of the run meets the condition, in the state in which it happens. -/
def EveryEvent (path : Path) (C : Reliability → Event → Prop) : Reliability → List Event → Prop
  | _, [] => True
  | s, e :: events =>
    C s e ∧ match step path s e with
      | some s' => EveryEvent path C s' events
      | none => True

instance decidableEveryEvent {C : Reliability → Event → Prop} [∀ s e, Decidable (C s e)] :
    ∀ s events, Decidable (EveryEvent path C s events)
  | _, [] => isTrue trivial
  | s, e :: events =>
    have : Decidable (match step path s e with
        | some s' => EveryEvent path C s' events
        | none => True) :=
      match step path s e with
      | some s' => decidableEveryEvent s' events
      | none => isTrue trivial
    inferInstanceAs (Decidable (C s e ∧ _))

lemma everyEvent_of_forall (hC : ∀ s e, C s e) (events : List Event) (s : Reliability) :
    EveryEvent path C s events := by
  induction events generalizing s with
  | nil => trivial
  | cons e events ih =>
    refine ⟨hC s e, ?_⟩
    split
    · exact ih _
    · trivial

lemma run_cons (hs : run path s (e :: events) = some s') :
    ∃ t, step path s e = some t ∧ run path t events = some s' := by
  exact bind_eq_some_iff.mp hs

lemma run_nextFragSeqs (h : Inv path s) (hs : run path s events = some s') (p : ℕ) :
    s.sender.nextFragSeqs p ≤ s'.sender.nextFragSeqs p := by
  induction events generalizing s with
  | nil => exact some.inj hs ▸ le_rfl
  | cons e events ih =>
    obtain ⟨t, ht, hs⟩ := run_cons hs
    exact (step_nextFragSeqs h ht p).1.trans (ih (h.step ht) hs)

/-- What every event keeps that meets a condition holds after every run whose events all meet it. -/
lemma run_induction {I : Reliability → Prop}
    (hstep : ∀ s e s', Inv path s → Bounded s → I s → C s e → step path s e = some s' → I s')
    (h : Inv path s) (hI : I s) (hC : EveryEvent path C s events) (hs : run path s events = some s')
    (hbounded : Bounded s') : I s' := by
  induction events generalizing s with
  | nil => exact some.inj hs ▸ hI
  | cons e events ih =>
    obtain ⟨t, ht, hrest⟩ := run_cons hs
    obtain ⟨hCe, hC⟩ := hC
    rw [ht] at hC
    have hbounded' : Bounded s := fun p => (run_nextFragSeqs h hs p).trans (hbounded p)
    exact ih (h.step ht) (hstep s e t h hbounded' hI hCe ht) hC hrest

lemma run_inv (h : Inv path s) (hs : run path s events = some s') : Inv path s' := by
  induction events generalizing s with
  | nil => exact some.inj hs ▸ h
  | cons e events ih =>
    obtain ⟨t, ht, hs⟩ := run_cons hs
    exact ih (h.step ht) hs

/-- Runs of less than 2^64 - 2 events are bounded. -/
lemma run_bounded (hs : run path init events = some s) (hlength : events.length < 2 ^ 64 - 2) :
    Bounded s := by
  have hgrows : ∀ (events : List Event) (s : Reliability), Inv path s → ∀ s',
      run path s events = some s' → ∀ p,
        s'.sender.nextFragSeqs p ≤ s.sender.nextFragSeqs p + events.length := by
    intro events
    induction events with
    | nil => exact fun s _ s' hs p => some.inj hs ▸ le_rfl
    | cons e events ih =>
      intro s h s' hs p
      obtain ⟨t, ht, hs⟩ := run_cons hs
      have hrest := ih t (h.step ht) s' hs p
      have hone := (step_nextFragSeqs h ht p).2
      rw [length_cons]
      omega
  intro p
  have hp := hgrows events init (init_inv path) s hs p
  have hone : init.sender.nextFragSeqs p = 1 := rfl
  omega

/-! ### Cumulative acknowledgements -/

/-- Copying the data of a fragment that came by UDP does not fail. -/
def CopySucceeds (path : Path) : Event → Prop
  | .processMatchedData _ _ _ copyError _ => path = .udp → copyError = false
  | _ => True

/-- The number up to which the sender knows that a destination has delivered everything. -/
def deliveredTo (s : Reliability) (dest : ℕ) : ℕ :=
  (s.sender.ackInfo dest).deliveredLargestInorderSeq

/-- All receivers are sound, what the sender knows of them was acknowledged, and what it has treated
as delivered was accepted. -/
structure Sound (s : Reliability) : Prop where
  recv : ∀ proc, (s.recv proc).Sound
  info : ∀ dest, s.deliveredTo dest = 0 ∨
    ∃ ack ∈ (s.recv dest).built, s.deliveredTo dest = ack.deliveredFragSeq
  treated : ∀ p ∈ s.sender.treatedAsDelivered, p.2 ∈ (s.recv p.1).accepted

lemma newList_tracks : newList.Tracks ∅ := by
  have hcreate : SeqTrackingList.create 0 10 20 false true = some newList := (some_get _).symm
  refine SeqTrackingList.create_tracks ?_ ?_ hcreate <;> decide

lemma init_sound : Sound init where
  recv _ := ⟨⟨∅, newList_tracks, by simp⟩, by simp [init], by simp [init]⟩
  info _ := Or.inl rfl
  treated _ h := nomatch h

lemma Inv.numbered (h : Inv path s) (hbounded : Bounded s) (hheader : (proc, header) ∈ s.data) :
    header.Numbered path := by
  obtain ⟨-, hlt, hnumbered⟩ := h.data _ hheader
  exact ⟨hlt.trans_le (hbounded proc), hnumbered⟩

namespace Sound

/-- What the cumulative number of a destination covers was accepted there. -/
lemma covered (h : Sound s) {k : ℕ} (hk : 1 ≤ k) (hle : k ≤ s.deliveredTo dest) :
    k ∈ (s.recv dest).accepted := by
  rcases h.info dest with hzero | ⟨ack, hack, heq⟩
  · omega
  · exact ((h.recv dest).built ack hack).1 k hk (heq ▸ hle)

lemma recv_step (hinv : Inv path s) (hbounded : Bounded s) (h : Sound s)
    (hcopy : CopySucceeds path e) (hs : step path s e = some s') :
    ∀ proc, (s'.recv proc).Sound := by
  refine step_recv (R := fun _ r => r.Sound) hs h.recv fun proc r sent hrecv => ?_
  cases hrecv with
  | deliver hin hr => exact (h.recv proc).handleReceivedFrag (hinv.numbered hbounded hin) hr
  | processMatchedData hr =>
    exact (h.recv proc).processMatchedData (hinv.recv proc)
      (fun header => hinv.numbered hbounded) hcopy hr
  | sendUnsentAcks hr =>
    exact (h.recv proc).sendUnsentAcks (hinv.recv proc) (fun header => hinv.numbered hbounded) hr
  | malloc _ ok =>
    obtain ⟨⟨D, hD, hsub⟩, hqueued, hbuilt⟩ := h.recv proc
    exact ⟨⟨D, hD.setMallocOk ok, hsub⟩, hqueued, hbuilt⟩

end Sound

/-- The cumulative numbers stay as they are, or one of them is replaced by a larger one from an
acknowledgement in the network. -/
lemma step_deliveredTo (h : Inv path s) (hs : step path s e = some s') (dest : ℕ) :
    s'.deliveredTo dest = s.deliveredTo dest ∨
      ∃ ack ∈ s.acks, ack.srcProc = dest ∧ s'.deliveredTo dest = ack.deliveredFragSeq ∧
        s.deliveredTo dest < ack.deliveredFragSeq := by
  have hinfo : s'.sender.ackInfo = s.sender.ackInfo ∨
      ∃ ack ∈ s.acks, s'.sender.ackInfo = (s.sender.updateAckInfo ack).ackInfo := by
    obtain hbooks | ⟨d, m, seqOffset, length, -, hbooks⟩ | ⟨hbooks, -⟩ |
      ⟨ack, hack, hbooks | ⟨m, -, -, -, -, hbooks⟩⟩ := step_sender h hs
    · exact .inl (congrArg Sender.Books.ackInfo hbooks)
    · exact .inl (congrArg Sender.Books.ackInfo hbooks)
    · exact .inl (congrArg Sender.Books.ackInfo hbooks)
    · exact .inr ⟨ack, hack, congrArg Sender.Books.ackInfo hbooks⟩
    · exact .inr ⟨ack, hack, congrArg Sender.Books.ackInfo hbooks⟩
  unfold deliveredTo
  obtain hinfo | ⟨ack, hack, hinfo⟩ := hinfo
  · exact .inl (by rw [hinfo])
  · by_cases hdest : ack.srcProc = dest
    · subst hdest
      by_cases hlt : s.deliveredTo ack.srcProc < ack.deliveredFragSeq
      · unfold deliveredTo at hlt
        refine .inr ⟨ack, hack, rfl, ?_, hlt⟩
        simp [hinfo, Sender.updateAckInfo, hlt]
      · unfold deliveredTo at hlt
        refine .inl ?_
        simp [hinfo, Sender.updateAckInfo, hlt]
    · refine .inl ?_
      simp [hinfo, Sender.updateAckInfo, Ne.symm hdest]

namespace Sound

lemma step (hinv : Inv path s) (hbounded : Bounded s) (h : Sound s)
    (hcopy : CopySucceeds path e) (hs : step path s e = some s') : Sound s' := by
  refine ⟨h.recv_step hinv hbounded hcopy hs, fun dest => ?_, fun p hp => ?_⟩
  · obtain heq | ⟨ack, hack, rfl, heq, -⟩ := step_deliveredTo hinv hs dest
    · rw [heq]
      refine (h.info dest).imp_right ?_
      rintro ⟨ack, hack, hnum⟩
      exact ⟨ack, (step_extends hs dest).2 ack hack, hnum⟩
    · exact .inr ⟨ack, (step_extends hs _).2 ack (hinv.acks ack hack), heq⟩
  · have hsame : s'.sender.treatedAsDelivered = s.sender.treatedAsDelivered →
        p.2 ∈ (s'.recv p.1).accepted := fun heq =>
      (step_extends hs p.1).1 _ (h.treated p (heq ▸ hp))
    obtain hbooks | ⟨d, m, seqOffset, length, -, hbooks⟩ | ⟨-, htreated⟩ |
      ⟨ack, -, hbooks | ⟨m, -, -, -, -, hbooks⟩⟩ := step_sender hinv hs
    · exact hsame (congrArg Sender.Books.treatedAsDelivered hbooks)
    · exact hsame (congrArg Sender.Books.treatedAsDelivered hbooks)
    · apply (step_extends hs p.1).1
      obtain hp | ⟨hpos, hle⟩ := htreated p hp
      · exact h.treated p hp
      · exact h.covered hpos hle
    · exact hsame (congrArg Sender.Books.treatedAsDelivered hbooks)
    · exact hsame (congrArg Sender.Books.treatedAsDelivered hbooks)

end Sound

lemma run_sound (hcopy : EveryEvent path (fun _ e => CopySucceeds path e) init events)
    (hs : run path init events = some s) (hbounded : Bounded s) : Sound s :=
  run_induction (I := Sound) (fun _ _ _ hinv hbounded h hcopy hs => h.step hinv hbounded hcopy hs)
    (init_inv path) init_sound hcopy hs hbounded

lemma copySucceeds_of_ne (hpath : path ≠ .udp) (e : Event) : CopySucceeds path e := by
  cases e with
  | processMatchedData => exact fun hudp => absurd hudp hpath
  | _ => trivial

/-- **Cumulative acknowledgements are sound** with GM.  In every state of every run:

* the fragments up to `deliveredFragSeq` of any acknowledgement built so far were accepted by the
  process that built it;
* what the sender keeps for a destination is 0 or the number of one of these acknowledgements, and
  no event makes it smaller;
* the fragments that `resend` has treated as delivered were accepted by their destination. -/
theorem run_cumulative_ack_sound {doAck doChecksum : Bool} {events : List Event}
    (hs : run (.gm doAck doChecksum) init events = some s) (hbounded : Bounded s) :
    (∀ proc, ∀ ack ∈ (s.recv proc).built, ∀ k, 1 ≤ k → k ≤ ack.deliveredFragSeq →
      k ∈ (s.recv proc).accepted) ∧
    (∀ dest, s.deliveredTo dest = 0 ∨
      ∃ ack ∈ (s.recv dest).built, s.deliveredTo dest = ack.deliveredFragSeq) ∧
    (∀ e s', step (.gm doAck doChecksum) s e = some s' →
      ∀ dest, s.deliveredTo dest ≤ s'.deliveredTo dest) ∧
    ∀ p ∈ s.sender.treatedAsDelivered, p.2 ∈ (s.recv p.1).accepted := by
  have hsound := run_sound (everyEvent_of_forall (fun _ => copySucceeds_of_ne (by simp)) _ _)
    hs hbounded
  refine ⟨fun proc ack hack => ((hsound.recv proc).built ack hack).1, hsound.info,
    fun e s' hstep dest => ?_, hsound.treated⟩
  obtain heq | ⟨ack, -, -, heq, hlt⟩ := step_deliveredTo (run_inv (init_inv _) hs) hstep dest
  · exact heq.ge
  · exact heq ▸ hlt.le

/-- Everything `AckData` needs is there. -/
def available : Resources := ⟨true, true⟩

/-- Two messages to process 1 arrive.  The acknowledgement of the first is lost; the second one
covers it, and `resend` treats it as delivered. -/
def lostAckRun : List Event :=
  [.isend 0 1 0 false, .initFrag 0 0 0 8, .send 0, .callback 0 .success,
    .isend 1 1 1 false, .initFrag 1 1 0 8, .send 1, .callback 1 .success,
    .deliver 0 true available, .processMatchedData 1 0 8 false available,
    .deliver 1 true available, .processMatchedData 1 0 8 false available,
    .deliverAck 1, .resend 0 fun _ => false]

theorem run_cumulative_ack_sound_lostAckRun :
    ∃ s, run (.gm true true) init lostAckRun = some s ∧
      s.sender.treatedAsDelivered = [(1, 1)] ∧ s.deliveredTo 1 = 2 ∧ 1 ∈ (s.recv 1).accepted := by
  have hrun : (run (.gm true true) init lostAckRun).map
      (fun s => (s.sender.treatedAsDelivered, s.deliveredTo 1)) = some ([(1, 1)], 2) := by
    decide +kernel
  obtain ⟨s, hs, heq⟩ := map_eq_some_iff.mp hrun
  obtain ⟨htreated, hdelivered⟩ := Prod.mk.inj heq
  have hsound := run_cumulative_ack_sound hs (run_bounded hs (by decide))
  exact ⟨s, hs, htreated, hdelivered, hsound.2.2.2 (1, 1) (by simp [htreated])⟩

/-! ### Acceptance at most once -/

/-- Erasing a number from the list of received ones is safe in this event.  When a damaged fragment
is processed, the list must not be moved.  When `SendUnsentAcks` retries a negative
acknowledgement, moreover no copy of the fragment may be pending or accepted. -/
def ErasesSafely (path : Path) (s : Reliability) : Event → Prop
  | .processMatchedData proc i postedLength copyError res =>
    match (s.recv proc).pending[i]?.bind fun frag =>
      frag.copyToApp path postedLength copyError with
    | some (_, frag) => frag.erasesReceived path res = true →
      ¬(s.recv proc).seqs.received.EraseMoves frag.header.fragSeq
    | none => True
  | .sendUnsentAcks proc res =>
    RetriesSafe path proc res (s.recv proc).EraseSafe 0 (s.recv proc).unprocessedAcks
      (s.recv proc).seqs
  | _ => True

instance (s : Reliability) : ∀ e, Decidable (ErasesSafely path s e)
  | .processMatchedData proc i postedLength copyError res => by
    unfold ErasesSafely
    dsimp only
    split
    · infer_instance
    · infer_instance
  | .sendUnsentAcks _ _ => decidableRetriesSafe _ _ _
  | .isend .. | .initFrag .. | .send .. | .callback .. | .resend .. | .deliver ..
  | .deliverAck .. | .malloc .. => isTrue trivial

/-- Every event keeps it that no number is accepted twice, if erasures are safe. -/
lemma once_step (hinv : Inv path s) (hbounded : Bounded s) (hsound : path ≠ .udp → Sound s)
    (h : ∀ proc, ∃ R D, (s.recv proc).Once R D) (hsafe : ErasesSafely path s e)
    (hs : step path s e = some s') : ∀ proc, ∃ R D, (s'.recv proc).Once R D := by
  refine step_recv (R := fun _ r => ∃ R D, r.Once R D) hs h fun proc r sent hrecv => ?_
  obtain ⟨R, D, honce⟩ := h proc
  cases hrecv with
  | deliver hin hr => exact honce.handleReceivedFrag (hinv.numbered hbounded hin) hr
  | processMatchedData hr =>
    refine honce.processMatchedData (hinv.recv proc) (fun header => hinv.numbered hbounded) ?_ hr
    intro frag frag' accepted hfrag hcopy herases
    simp only [ErasesSafely, hfrag, bind_some, hcopy] at hsafe
    rw [← (RecvFragDesc.copyToApp_cases hcopy).1]
    exact hsafe herases
  | sendUnsentAcks hr =>
    exact honce.sendUnsentAcks (hinv.recv proc) (fun header => hinv.numbered hbounded)
      (fun hpath => (hsound hpath).recv proc) hsafe hr
  | malloc _ ok =>
    exact ⟨R, D, { honce with
      received := honce.received.setMallocOk ok
      delivered := honce.delivered.setMallocOk ok }⟩

lemma init_once (proc : ℕ) : ∃ R D, (init.recv proc).Once R D := by
  refine ⟨∅, ∅, newList_tracks, newList_tracks, ?_, ?_, ?_, ?_⟩
  all_goals simp [init, Receiver.pendingSeqs, Receiver.Settled]

/-- **A fragment is accepted at most once**, in every run in which erasures from the list of
received numbers are safe; and one that is recorded as delivered does not pass the check for
duplicates again. -/
theorem run_accepted_at_most_once {events : List Event} (hs : run path init events = some s)
    (hbounded : Bounded s) (hsafe : EveryEvent path (ErasesSafely path) init events)
    (proc n : ℕ) (hn : 1 ≤ n) :
    (s.recv proc).accepted.count n ≤ 1 ∧
      (((s.recv proc).seqs.delivered.isRecorded n n).1 ≠ .no →
        ∀ frag res r sent, frag.header.fragSeq = n →
          (s.recv proc).handleReceivedFrag path proc frag res = some (r, sent) →
          r.pending = (s.recv proc).pending) := by
  obtain ⟨-, honce⟩ := run_induction
    (I := fun s => (path ≠ .udp → Sound s) ∧ ∀ proc, ∃ R D, (s.recv proc).Once R D)
    (fun t e t' hinv hbounded h hsafe ht => ⟨fun hpath => (h.1 hpath).step hinv hbounded
      (copySucceeds_of_ne hpath e) ht, once_step hinv hbounded h.1 h.2 hsafe ht⟩)
    (init_inv path) ⟨fun _ => init_sound, init_once⟩ hsafe hs hbounded
  obtain ⟨R, D, honce⟩ := honce proc
  refine ⟨honce.accepted n hn, ?_⟩
  rintro hdelivered frag res r sent rfl hr
  have hD := (honce.delivered.isRecorded _).1.mp hdelivered
  have hR := honce.recorded _ hn (.inl (.inr (.inl hD)))
  have hrecorded := (honce.received.recordIfNotRecorded hn (honce.received.lt hR)).1.mpr hR
  obtain ⟨-, received, rfl, ⟨hzero, -⟩ | ⟨-, hrecord⟩⟩ |
    ⟨-, -, ⟨-, rfl⟩ | ⟨frag', -, -, -, -, hack⟩⟩ := Receiver.handleReceivedFrag_cases hr
  · omega
  · rw [hrecord] at hrecorded
    exact absurd rfl hrecorded
  · rfl
  · obtain ⟨result, -, ⟨-, -, rfl⟩ | ⟨-, -, rfl⟩⟩ := Receiver.acknowledge_cases hack
    · rfl
    · rfl

def noToken : Resources := ⟨true, false⟩

/-- A damaged copy arrives, and its negative acknowledgement cannot be sent.  An intact copy is
accepted.  The negative one is retried and erases the number again, so another copy passes the
check. -/
def acceptTwiceRun : List Event :=
  [.isend 0 1 0 false, .initFrag 0 0 0 8, .send 0,
    .deliver 0 false available, .processMatchedData 1 0 8 false noToken,
    .deliver 0 true available, .processMatchedData 1 0 8 false available,
    .sendUnsentAcks 1 (fun _ => available),
    .deliver 0 true available, .processMatchedData 1 0 8 false available]

/-- The fragment is accepted twice. -/
theorem run_acceptTwiceRun :
    (run (.gm true true) init acceptTwiceRun).map (fun s => (s.recv 1).accepted) = some [1, 1] := by
  decide +kernel

/-- The negative acknowledgement is retried before the intact copy arrives. -/
def retryInTimeRun : List Event :=
  [.isend 0 1 0 false, .initFrag 0 0 0 8, .send 0,
    .deliver 0 false available, .processMatchedData 1 0 8 false noToken,
    .sendUnsentAcks 1 (fun _ => available),
    .deliver 0 true available, .processMatchedData 1 0 8 false available, .deliver 0 true available]

theorem run_accepted_at_most_once_retryInTimeRun :
    ∃ s, run (.gm true true) init retryInTimeRun = some s ∧ (s.recv 1).accepted = [1] ∧
      (s.recv 1).accepted.count 1 ≤ 1 := by
  have hrun : (run (.gm true true) init retryInTimeRun).isSome := by decide +kernel
  obtain ⟨s, hs⟩ := isSome_iff_exists.mp hrun
  have haccepted : (run (.gm true true) init retryInTimeRun).map
      (fun s => (s.recv 1).accepted) = some [1] := by decide +kernel
  rw [hs] at haccepted
  exact ⟨s, hs, some.inj haccepted,
    (run_accepted_at_most_once hs (run_bounded hs (by decide)) (by decide +kernel) 1 1 le_rfl).1⟩

/-! ### Acknowledgements of single fragments -/

/-- The event is safe for acknowledgements of single fragments: no descriptor is loaded with a
number it has carried to another destination, and no copy of UDP data fails. -/
def KeepsApart (path : Path) (s : Reliability) (e : Event) : Prop :=
  CopySucceeds path e ∧
    match e with
    | .initFrag d m seqOffset _ =>
      let n := (s.sender.initFragSeq path (s.sender.messages m) seqOffset).1
      n ≠ 0 → ∀ p ∈ s.sender.carried d, p.2 = n → p.1 = (s.sender.messages m).peer
    | _ => True

instance (e : Event) : Decidable (CopySucceeds path e) := by
  cases e <;> unfold CopySucceeds <;> infer_instance

instance (s : Reliability) (e : Event) : Decidable (KeepsApart path s e) := by
  cases e <;> unfold KeepsApart <;> infer_instance

/-- The numbers a descriptor has carried tell the destinations, and acknowledgements were counted
only for fragments that the acknowledging process has accepted. -/
structure Attributed (s : Reliability) : Prop where
  sound : Sound s
  carried : ∀ d, ∀ p ∈ s.sender.carried d, ∀ q ∈ s.sender.carried d, p.2 = q.2 → p.2 ≠ 0 → p.1 = q.1
  credited : ∀ c ∈ s.sender.credited, c.1 = c.2.1 ∧ c.2.2 ∈ (s.recv c.2.1).accepted

lemma init_attributed : Attributed init where
  sound := init_sound
  carried _ _ h := nomatch h
  credited _ h := nomatch h

namespace Attributed

private lemma carried_loaded (h : Attributed s) {seqOffset length : ℕ}
    (hapart : KeepsApart path s (.initFrag d m seqOffset length)) (d' : ℕ) :
    ∀ p ∈ (s.sender.loadedBooks path d m seqOffset).carried d',
      ∀ q ∈ (s.sender.loadedBooks path d m seqOffset).carried d', p.2 = q.2 → p.2 ≠ 0 →
        p.1 = q.1 := by
  obtain ⟨-, hnew⟩ := hapart
  by_cases hd : d' = d
  · subst hd
    simp only [Sender.loadedBooks, Function.update_self, mem_append, mem_singleton]
    rintro p (hp | rfl) q (hq | rfl) heq hne
    · exact h.carried d' p hp q hq heq hne
    · exact hnew (fun hzero => hne (heq.trans hzero)) p hp heq
    · exact (hnew hne q hq heq.symm).symm
    · rfl
  · simp only [Sender.loadedBooks, Function.update_of_ne hd]
    exact h.carried d'

private lemma credit (h : Attributed s) (hinv : Inv path s) (hack : ack ∈ s.acks)
    (hparent : (s.sender.frags ack.sendFragDesc).parentSendDesc = some m)
    (hnumber : (s.sender.frags ack.sendFragDesc).fragSeq = ack.thisFragSeq)
    (hne : ack.thisFragSeq ≠ 0) (hgood : ack.ackStatus = .dataGood) :
    ack.srcProc = (s.sender.frags ack.sendFragDesc).globalDestProc ∧
      ack.thisFragSeq ∈ (s.recv ack.srcProc).accepted := by
  have hbuilt := hinv.acks ack hack
  refine ⟨?_, ((h.sound.recv _).built ack hbuilt).2 hgood⟩
  obtain ⟨header, hheader, -, hanswers⟩ := (hinv.recv ack.srcProc).built ack hbuilt
  have hseq := hanswers.thisFragSeq (by rw [hgood]; decide)
  -- both the fragment acknowledged and the one carried now were loaded into this descriptor
  have hthen : (ack.srcProc, ack.thisFragSeq) ∈ s.sender.carried ack.sendFragDesc := by
    rw [hseq, hanswers.sendFragDesc]
    exact (hinv.data _ hheader).carried
  have hloaded := hinv.sender.loaded _ _ hparent
  have hqueue : (s.sender.frags ack.sendFragDesc).whichQueue ≠ .freeList :=
    fun hfree => hne (hnumber.symm.trans (hloaded.freed hfree))
  exact h.carried _ _ hthen _ hloaded.carried
    (hnumber.symm.trans (hloaded.fragSeq hqueue)) hne

lemma step (hinv : Inv path s) (hbounded : Bounded s) (h : Attributed s)
    (hapart : KeepsApart path s e) (hs : step path s e = some s') : Attributed s' := by
  have hgrows : ∀ c ∈ s.sender.credited, c.1 = c.2.1 ∧ c.2.2 ∈ (s'.recv c.2.1).accepted :=
    fun c hc => (h.credited c hc).imp_right ((step_extends hs _).1 _)
  have hsame : s'.sender.carried = s.sender.carried → s'.sender.credited = s.sender.credited →
      Attributed s' := by
    intro hcarried hcredited
    refine ⟨h.sound.step hinv hbounded hapart.1 hs, ?_, ?_⟩
    · rw [hcarried]
      exact h.carried
    · rw [hcredited]
      exact hgrows
  obtain hbooks | ⟨d, m, seqOffset, length, rfl, hbooks⟩ | ⟨hbooks, -⟩ |
    ⟨ack, hack, hbooks | ⟨m, hparent, hnumber, hne, hgood, hbooks⟩⟩ := step_sender hinv hs
  · exact hsame (congrArg Sender.Books.carried hbooks) (congrArg Sender.Books.credited hbooks)
  · refine ⟨h.sound.step hinv hbounded hapart.1 hs, ?_, ?_⟩
    · have hcarried : s'.sender.carried = _ := congrArg Sender.Books.carried hbooks
      rw [hcarried]
      exact h.carried_loaded hapart
    · have hcredited : s'.sender.credited = _ := congrArg Sender.Books.credited hbooks
      rw [hcredited]
      exact hgrows
  · exact hsame (congrArg Sender.Books.carried hbooks) (congrArg Sender.Books.credited hbooks)
  · exact hsame (congrArg Sender.Books.carried hbooks) (congrArg Sender.Books.credited hbooks)
  · have hcarried : s'.sender.carried = _ := congrArg Sender.Books.carried hbooks
    have hcredited : s'.sender.credited = _ := congrArg Sender.Books.credited hbooks
    refine ⟨h.sound.step hinv hbounded hapart.1 hs, ?_, ?_⟩
    · rw [hcarried]
      exact h.carried
    · rw [hcredited]
      refine forall_mem_append.mpr ⟨hgrows, fun c hc => ?_⟩
      obtain ⟨hsrc, haccepted⟩ := h.credit hinv hack hparent hnumber hne hgood
      rw [mem_singleton.mp hc]
      refine ⟨hsrc, (step_extends hs _).1 _ ?_⟩
      change (s.sender.frags ack.sendFragDesc).fragSeq ∈
        (s.recv (s.sender.frags ack.sendFragDesc).globalDestProc).accepted
      rw [hnumber, ← hsrc]
      exact haccepted

end Attributed

/-- **Acknowledgements of single fragments are sound** in runs that keep the destinations of a
descriptor apart: one that was counted came from the destination of the fragment, which has accepted
it. -/
theorem run_specific_ack_sound {events : List Event} (hs : run path init events = some s)
    (hbounded : Bounded s) (hapart : EveryEvent path (KeepsApart path) init events) :
    ∀ c ∈ s.sender.credited, c.1 = c.2.1 ∧ c.2.2 ∈ (s.recv c.2.1).accepted :=
  (run_induction (I := Attributed)
    (fun _ _ _ hinv hbounded h hapart hs => h.step hinv hbounded hapart hs)
    (init_inv path) init_attributed hapart hs hbounded).credited

/-- Fragment 1 for process 1 is acknowledged.  Its descriptor then carries fragment 1 for
process 2, and the acknowledgement of process 1 arrives once more. -/
def reuseRun : List Event :=
  [.isend 0 1 0 false, .initFrag 0 0 0 8, .send 0, .deliver 0 true available,
    .processMatchedData 1 0 8 false available, .deliverAck 0,
    .isend 0 2 0 false, .initFrag 0 0 0 8, .send 0, .deliverAck 0]

/-- The acknowledgement of process 1 is counted for the fragment to process 2, which has accepted
nothing. -/
theorem run_reuseRun :
    (run .udp init reuseRun).map (fun s => (s.sender.credited, (s.recv 2).accepted)) =
      some ([(1, 1, 1), (1, 2, 1)], []) := by
  decide +kernel

/-- The descriptor is used again for the same destination, and the first acknowledgement arrives
once more. -/
def reuseForSameRun : List Event :=
  [.isend 0 1 0 false, .initFrag 0 0 0 8, .send 0, .deliver 0 true available,
    .processMatchedData 1 0 8 false available, .deliverAck 0,
    .isend 0 1 1 false, .initFrag 0 0 0 8, .send 0, .deliverAck 0, .deliver 1 true available,
    .processMatchedData 1 0 8 false available, .deliverAck 1]

theorem run_specific_ack_sound_reuseForSameRun :
    ∃ s, run .udp init reuseForSameRun = some s ∧ s.sender.credited = [(1, 1, 1), (1, 1, 2)] ∧
      ∀ c ∈ s.sender.credited, c.1 = c.2.1 ∧ c.2.2 ∈ (s.recv c.2.1).accepted := by
  have hrun : (run .udp init reuseForSameRun).map (fun s => s.sender.credited) =
      some [(1, 1, 1), (1, 1, 2)] := by
    decide +kernel
  obtain ⟨s, hs, hcredited⟩ := map_eq_some_iff.mp hrun
  exact ⟨s, hs, hcredited,
    run_specific_ack_sound hs (run_bounded hs (by decide)) (by decide +kernel)⟩

end Lampi.Reliability
