import Lampi.Path.AckLedger
import Lampi.Path.Equiv.SendFrag

/-!
# What the operations of a GM sender do

Every operation works on one descriptor `d` of one message `m`: `Touches` says that it leaves
everything else alone.  For each operation there is one result that says what it can do to the two:
`loads_initFrag`, `send_cases`, `freeResourcesGm_cases`, `sendSucceeded_cases`, `processAck_cases`,
`resendFrag_cases`.  The states in between, before a descriptor is freed, have names (`completed`,
`acked`, `refused`, `delivered`).
-/

namespace Lampi

open Option List

namespace Sender

variable {path : Path} {doAck doChecksum : Bool} {s s' s'' : Sender} {d e m : ℕ}
  {seqOffset length : ℕ} {ack : Ack} {timedOut : ℕ → Bool} {frag : SendFragDesc} {msg : SendDesc}

/-! ### Operations on one descriptor -/

def Linked (s : Sender) (d m : ℕ) : Prop :=
  d ∈ (s.messages m).fragsToSend ∨ d ∈ (s.messages m).fragsToAck

instance (s : Sender) (d m : ℕ) : Decidable (s.Linked d m) := inferInstanceAs (Decidable (_ ∨ _))

/-- Only descriptor `d` and message `m` change, and no other descriptor leaves or joins the
lists. -/
structure Touches (s s' : Sender) (d m : ℕ) : Prop where
  frags : ∀ e, e ≠ d → s'.frags e = s.frags e
  messages : ∀ m', m' ≠ m → s'.messages m' = s.messages m'
  carried : s'.carried = s.carried
  synchronous : (s'.messages m).synchronous = (s.messages m).synchronous
  others : ∀ e, e ≠ d → (s'.Linked e m ↔ s.Linked e m)

namespace Touches

lemma refl (s : Sender) (d m : ℕ) : s.Touches s d m :=
  ⟨fun _ _ => rfl, fun _ _ => rfl, rfl, rfl, fun _ _ => Iff.rfl⟩

lemma trans (h : s.Touches s' d m) (h' : s'.Touches s'' d m) : s.Touches s'' d m where
  frags e he := (h'.frags e he).trans (h.frags e he)
  messages m' hm := (h'.messages m' hm).trans (h.messages m' hm)
  carried := h'.carried.trans h.carried
  synchronous := h'.synchronous.trans h.synchronous
  others e he := (h'.others e he).trans (h.others e he)

lemma setFrag (s : Sender) (d m : ℕ) (f : SendFragDesc → SendFragDesc) :
    s.Touches (s.setFrag d f) d m :=
  ⟨fun _ he => setFrag_frags_ne f he, fun _ _ => rfl, rfl, rfl, fun _ _ => Iff.rfl⟩

section Becomes

variable (hb : s.Becomes s' d m frag msg) (hcarried : s'.carried = s.carried)
  (hsync : msg.synchronous = (s.messages m).synchronous)

include hb hcarried hsync

lemma of_becomes (hsend : ∀ e, e ≠ d → (e ∈ msg.fragsToSend ↔ e ∈ (s.messages m).fragsToSend))
    (hack : ∀ e, e ≠ d → (e ∈ msg.fragsToAck ↔ e ∈ (s.messages m).fragsToAck)) :
    s.Touches s' d m where
  frags := hb.frags
  messages := hb.messages
  carried := hcarried
  synchronous := by rw [hb.message, hsync]
  others e he := by
    rw [Linked, hb.message]
    exact or_congr (hsend e he) (hack e he)

lemma of_numbers (hsend : msg.fragsToSend = (s.messages m).fragsToSend)
    (hack : msg.fragsToAck = (s.messages m).fragsToAck) : s.Touches s' d m :=
  of_becomes hb hcarried hsync (fun _ _ => by rw [hsend]) (fun _ _ => by rw [hack])

end Becomes

lemma requeue (s : Sender) (d m : ℕ) : s.Touches (s.requeue d m) d m := by
  refine of_becomes ((Becomes.refl s d m).setMessage _) rfl rfl (fun e he => ?_) fun e he => ?_
  · rw [mem_append, mem_singleton, or_iff_left he]
  · exact mem_erase_of_ne he

variable (h : s.Touches s' d m)

include h

lemma linked_iff (he : e ≠ d) (m' : ℕ) : s'.Linked e m' ↔ s.Linked e m' := by
  by_cases hm : m' = m
  · subst hm
    exact h.others e he
  · rw [Linked, Linked, h.messages m' hm]

lemma sync_eq (m' : ℕ) : (s'.messages m').synchronous = (s.messages m').synchronous := by
  by_cases hm : m' = m
  · subst hm
    exact h.synchronous
  · rw [h.messages m' hm]

lemma fragIn_eq (e : ℕ) : s'.fragIn e = s.fragIn e := by
  rw [fragIn, h.carried, fragIn]

end Touches

/-! ### Messages, fragments and sends -/

/-- What it means that descriptor `d` gets a fragment of message `m`. -/
structure Loads (path : Path) (s s' : Sender) (d m seqOffset length : ℕ) : Prop where
  unlinked : ∀ m', ¬s.Linked d m'
  frag : s'.frags d = newFrag path (s.messages m) d m
    (s.initFragSeq path (s.messages m) seqOffset).1 seqOffset length (s.frags d)
  frags : ∀ e, e ≠ d → s'.frags e = s.frags e
  message : s'.messages m = { s.messages m with fragsToSend := (s.messages m).fragsToSend ++ [d] }
  messages : ∀ m', m' ≠ m → s'.messages m' = s.messages m'
  carried_self : (s'.carried d).length = (s.carried d).length + 1
  carried_ne : ∀ e, e ≠ d → s'.carried e = s.carried e

lemma loads_initFrag (h : s.Inv path) (hs : s.initFrag path d m seqOffset length = some s') :
    Loads path s s' d m seqOffset length := by
  have hcarried : s'.carried =
      Function.update s.carried d (s.carried d ++ [((s.messages m).peer,
        (s.initFragSeq path (s.messages m) seqOffset).1)]) :=
    congrArg Books.carried (initFrag_books hs)
  obtain ⟨hfree, hb⟩ := becomes_initFrag hs
  refine ⟨fun m' => not_or.mpr ⟨?_, ?_⟩, hb.frag, hb.frags, hb.message, hb.messages, ?_,
    fun e he => ?_⟩
  · exact h.notMem_toSend (by rw [hfree]; decide)
  · exact h.notMem_toAck (by rw [hfree]; decide)
  · rw [hcarried, Function.update_self, length_append]
    rfl
  · rw [hcarried, Function.update_of_ne he]

namespace Loads

variable {seqOffset length : ℕ}

variable (h : Loads path s s' d m seqOffset length)

include h

lemma linked_iff (he : e ≠ d) (m' : ℕ) : s'.Linked e m' ↔ s.Linked e m' := by
  by_cases hm : m' = m
  · rw [hm, Linked, h.message, mem_append, mem_singleton, or_iff_left he]
    exact Iff.rfl
  · rw [Linked, h.messages m' hm]
    exact Iff.rfl

lemma fragIn_eq (he : e ≠ d) : s'.fragIn e = s.fragIn e := by
  rw [fragIn, h.carried_ne e he, fragIn]

lemma carried_le (e : ℕ) : (s.carried e).length ≤ (s'.carried e).length := by
  by_cases he : e = d
  · rw [he, h.carried_self]
    exact Nat.le_succ _
  · rw [h.carried_ne e he]

end Loads

/-- What a send over GM does. -/
structure Sends (s s' : Sender) (d m : ℕ) : Prop where
  touches : s.Touches s' d m
  toAck : d ∈ (s'.messages m).fragsToAck
  frag : s'.frags d =
    { s.frags d with whichQueue := .fragsToAck, gmSends := (s.frags d).gmSends + 1 }
  numAcked : (s'.messages m).numAcked = (s.messages m).numAcked

lemma send_cases {dest : ℕ} {header : DataHeader}
    (hs : s.send (.gm doAck doChecksum) d = some (s', dest, header)) :
    ∃ m, (s.frags d).parentSendDesc = some m ∧ d ∈ (s.messages m).fragsToSend ∧ s.Sends s' d m := by
  obtain ⟨m, hd, hsent⟩ := bind_eq_some_iff.mp hs
  split_ifs at hsent with hin
  cases hsent
  have hb := ((Becomes.refl s d m).setFrag fun frag => { frag with
    whichQueue := .fragsToAck, gmSends := frag.gmSends + 1 }).setMessage fun msg => { msg with
      fragsToSend := msg.fragsToSend.erase d, fragsToAck := msg.fragsToAck ++ [d] }
  refine ⟨m, hd, hin, .of_becomes hb rfl rfl (fun e he => ?_) (fun e he => ?_), ?_, hb.frag, ?_⟩
  · exact mem_erase_of_ne he
  · rw [mem_append, mem_singleton, or_iff_left he]
  · exact hb.message ▸ mem_append_right _ mem_cons_self
  · rw [hb.message]

/-! ### Freeing descriptors -/

/-- What `gmSendFragDesc::freeResources` does to descriptor `d` of message `m`, if it does
anything. -/
structure Freed (s s' : Sender) (d m : ℕ) : Prop where
  touches : s.Touches s' d m
  unlinked : ¬s'.Linked d m
  frag : s'.frags d = { s.frags d with fragSeq := 0, whichQueue := .freeList }
  numAcked : (s'.messages m).numAcked = (s.messages m).numAcked

lemma takeOff_cases (h : s.Inv path) (hs : s.takeOff d m = some s') :
    s.Touches s' d m ∧ ¬s'.Linked d m ∧ s'.frags = s.frags ∧
      (s'.messages m).numAcked = (s.messages m).numAcked := by
  unfold takeOff at hs
  split at hs
  case h_1 hq =>
    cases hs
    refine ⟨.of_becomes ((Becomes.refl s d m).setMessage _) rfl rfl (fun _ _ => Iff.rfl)
      fun e he => mem_erase_of_ne he, ?_, rfl, ?_⟩
    · rw [Linked, setMessage_messages_self]
      exact not_or.mpr ⟨h.notMem_toSend (by rw [hq]; decide), (h.nodupAck m).not_mem_erase⟩
    · rw [setMessage_messages_self]
  case h_2 hq =>
    cases hs
    refine ⟨.of_becomes ((Becomes.refl s d m).setMessage _) rfl rfl
      (fun e he => mem_erase_of_ne he) fun _ _ => Iff.rfl, ?_, rfl, ?_⟩
    · rw [Linked, setMessage_messages_self]
      exact not_or.mpr ⟨(h.nodupSend m).not_mem_erase, h.notMem_toAck (by rw [hq]; decide)⟩
    · rw [setMessage_messages_self]
  case h_3 => cases hs

/-- **What `gmSendFragDesc::freeResources` does**: nothing, if the descriptor is free already or GM
has not reported all sends; else it frees it. -/
theorem freeResourcesGm_cases (h : s.Inv path) (hs : s.freeResourcesGm d (some m) = some s') :
    (s' = s ∧ ((s.frags d).whichQueue = .freeList ∨ (s.frags d).gmSends ≠ 0)) ∨
      (s.frags d).gmSends = 0 ∧ s.Freed s' d m := by
  unfold freeResourcesGm at hs
  split_ifs at hs with hfree hsends
  · exact .inl ⟨(some.inj hs).symm, .inl hfree⟩
  · exact .inl ⟨(some.inj hs).symm, .inr hsends⟩
  · obtain ⟨t, ht, rfl⟩ := map_eq_some_iff.mp hs
    obtain ⟨htouches, hunlinked, hfrags, hacked⟩ := takeOff_cases h ht
    refine .inr ⟨not_not.mp hsends, htouches.trans (.setFrag t d m _), hunlinked, ?_, hacked⟩
    rw [setFrag_frags_self, hfrags]

/-! ### Reports of GM -/

/-- What it means that descriptor `d` has to be sent again. -/
structure Requeues (s s' : Sender) (d m : ℕ) : Prop where
  touches : s.Touches s' d m
  linked : s'.Linked d m
  numAcked : (s'.messages m).numAcked = (s.messages m).numAcked

lemma requeues_requeue (s : Sender) (d m : ℕ) (f : SendFragDesc → SendFragDesc) :
    s.Requeues ((s.setFrag d f).requeue d m) d m where
  touches := (Touches.setFrag s d m f).trans (.requeue _ d m)
  linked := by
    rw [Linked, requeue, setMessage_messages_self]
    exact .inl (mem_append_right _ mem_cons_self)
  numAcked := by rw [requeue, setMessage_messages_self, setFrag_messages]

lemma requeues_setFrag (h : s.Linked d m) (f : SendFragDesc → SendFragDesc) :
    s.Requeues (s.setFrag d f) d m :=
  ⟨.setFrag s d m f, h, rfl⟩

lemma Requeues.unsent (h : s.Requeues s' d m) :
    s.Requeues (s'.setMessage m fun msg => { msg with numSent := msg.numSent - 1 }) d m where
  touches := h.touches.trans (.of_numbers ((Becomes.refl s' d m).setMessage _) rfl rfl rfl rfl)
  linked := by
    rw [Linked, setMessage_messages_self]
    exact h.linked
  numAcked := by
    rw [setMessage_messages_self]
    exact h.numAcked

section

variable (s d m)

/-- The sender when GM has reported that a send of descriptor `d` was successful, before it frees
anything. -/
def completed : Sender :=
  ((s.setFrag d fun frag => { frag with gmSends := frag.gmSends - 1 }).setMessage m fun msg =>
    { msg with numSent := msg.numSent + 1 }).setFrag d fun frag =>
      { frag with sendDidComplete := true }

lemma becomes_completed : s.Becomes (s.completed d m) d m
    { s.frags d with gmSends := (s.frags d).gmSends - 1, sendDidComplete := true }
    { s.messages m with numSent := (s.messages m).numSent + 1 } :=
  (((Becomes.refl s d m).setFrag _).setMessage _).setFrag _

lemma completed_frag : (s.completed d m).frags d =
    { s.frags d with gmSends := (s.frags d).gmSends - 1, sendDidComplete := true } :=
  (becomes_completed s d m).frag

lemma completed_message : (s.completed d m).messages m =
    { s.messages m with numSent := (s.messages m).numSent + 1 } := (becomes_completed s d m).message

lemma touches_completed : s.Touches (s.completed d m) d m :=
  .of_numbers (becomes_completed s d m) rfl rfl rfl rfl

end

lemma linked_completed : (s.completed d m).Linked d m ↔ s.Linked d m := by
  rw [Linked, completed_message]
  exact Iff.rfl

lemma Inv.completed (h : s.Inv path) (d m : ℕ) : (s.completed d m).Inv path :=
  ((h.setFrag ⟨rfl, rfl, rfl, rfl, rfl⟩).setMessage (Sublist.refl _)
    (Sublist.refl _)).setFrag ⟨rfl, rfl, rfl, rfl, rfl⟩

/-- The fragment in `d` is the first one of a synchronous send. -/
def FirstOfSync (s : Sender) (d m : ℕ) : Prop :=
  (s.messages m).synchronous = true ∧ (s.frags d).header.seqOffset = 0

/-- **What a successful send does**: without acknowledgements it is counted as acknowledged, unless
it is the first one of a synchronous send; then `freeResources` may be called. -/
theorem sendSucceeded_cases (hd : (s.frags d).parentSendDesc = some m)
    (hs :
      (s.setFrag d fun frag => { frag with gmSends := frag.gmSends - 1 }).sendSucceeded doAck d =
      some s') :
    (s.FirstOfSync d m ∨ doAck = true) ∧
        (s' = s.completed d m ∨ (s.completed d m).freeResourcesGm d (some m) = some s') ∨
      (¬s.FirstOfSync d m ∧ doAck = false) ∧
        ((s.completed d m).setMessage m fun msg =>
          { msg with numAcked := msg.numAcked + 1 }).freeResourcesGm d (some m) = some s' := by
  unfold sendSucceeded at hs
  rw [setFrag_frags_self] at hs
  simp only [hd] at hs
  have hfirst : ((s.completed d m).messages m).synchronous = true ∧
      ((s.completed d m).frags d).header.seqOffset = 0 ↔ s.FirstOfSync d m := by
    rw [completed_message, completed_frag]
    exact Iff.rfl
  change (if ((s.completed d m).messages m).synchronous = true ∧
      ((s.completed d m).frags d).header.seqOffset = 0 then
    if ((s.completed d m).frags d).didRecvAck = true then
      (s.completed d m).freeResourcesGm d (some m) else some (s.completed d m)
    else if doAck = false then _
    else if ((s.completed d m).frags d).didRecvAck = true then
      (s.completed d m).freeResourcesGm d (some m) else some (s.completed d m)) = some s' at hs
  split_ifs at hs with hsync hrecv hdoAck hrecv
  · exact .inl ⟨.inl (hfirst.mp hsync), .inr hs⟩
  · exact .inl ⟨.inl (hfirst.mp hsync), .inl (some.inj hs).symm⟩
  · exact .inr ⟨⟨fun h => hsync (hfirst.mpr h), hdoAck⟩, hs⟩
  · exact .inl ⟨.inr (Bool.eq_true_of_not_eq_false hdoAck), .inr hs⟩
  · exact .inl ⟨.inr (Bool.eq_true_of_not_eq_false hdoAck), .inl (some.inj hs).symm⟩

/-! ### Acknowledgements -/

section

variable (s d m ack)

/-- The sender when it has counted an acknowledgement of descriptor `d`, before it frees
anything. -/
def acked : Sender := (s.setFrag d fun frag => { frag with didRecvAck := true }).countAck d m ack

lemma becomes_acked : s.Becomes (s.acked d m ack) d m
    { s.frags d with didRecvAck := true }
    { s.messages m with numAcked := (s.messages m).numAcked + 1 } := by
  have hb := ((Becomes.refl s d m).setFrag fun frag => { frag with didRecvAck := true }).setMessage
    fun msg => { msg with numAcked := msg.numAcked + 1 }
  exact { hb with }

lemma acked_frag : (s.acked d m ack).frags d =
    { s.frags d with didRecvAck := true } := (becomes_acked s d m ack).frag

lemma acked_message : (s.acked d m ack).messages m =
    { s.messages m with numAcked := (s.messages m).numAcked + 1 } :=
  (becomes_acked s d m ack).message

lemma touches_acked : s.Touches (s.acked d m ack) d m :=
  .of_numbers (becomes_acked s d m ack) rfl rfl rfl rfl

end

lemma linked_acked : (s.acked d m ack).Linked d m ↔ s.Linked d m := by
  rw [Linked, acked_message]
  exact Iff.rfl

lemma Inv.acked (h : s.Inv path) (d m : ℕ) (ack : Ack) : (s.acked d m ack).Inv path :=
  (h.setFrag ⟨rfl, rfl, rfl, rfl, rfl⟩).countAck d m ack

/-- The sender when it has to send descriptor `d` again since its data was bad. -/
def refused (s : Sender) (d m : ℕ) : Sender :=
  let t := s.setFrag d fun frag =>
    { frag with whichQueue := .fragsToSend, sendDidComplete := false }
  (if (s.frags d).whichQueue = .fragsToAck then t.requeue d m else t).setMessage m fun msg =>
    { msg with numSent := msg.numSent - 1 }

lemma refused_frag (s : Sender) (d m : ℕ) : (s.refused d m).frags d =
    { s.frags d with whichQueue := .fragsToSend, sendDidComplete := false } := by
  simp only [refused, setMessage_frags]
  split_ifs
  · rw [requeue, setMessage_frags, setFrag_frags_self]
  · rw [setFrag_frags_self]

lemma requeues_refused (h : s.Linked d m) : s.Requeues (s.refused d m) d m := by
  simp only [refused]
  split_ifs
  · exact (s.requeues_requeue d m _).unsent
  · exact (requeues_setFrag h _).unsent

/-- The acknowledgement is about the fragment in the descriptor it names, of message `m`. -/
structure Concerns (s : Sender) (ack : Ack) (m : ℕ) : Prop where
  parent : (s.frags ack.sendFragDesc).parentSendDesc = some m
  isendSeq : (s.messages m).isendSeq = ack.isendSeq
  status : ack.ackStatus ≠ .aggInfoOnly
  fragSeq : (s.frags ack.sendFragDesc).fragSeq = ack.thisFragSeq

instance (s : Sender) (ack : Ack) (m : ℕ) : Decidable (s.Concerns ack m) :=
  decidable_of_iff ((s.frags ack.sendFragDesc).parentSendDesc = some m ∧
    (s.messages m).isendSeq = ack.isendSeq ∧ ack.ackStatus ≠ .aggInfoOnly ∧
    (s.frags ack.sendFragDesc).fragSeq = ack.thisFragSeq)
    ⟨fun ⟨hparent, hisend, hstatus, hseq⟩ => ⟨hparent, hisend, hstatus, hseq⟩,
      fun h => ⟨h.parent, h.isendSeq, h.status, h.fragSeq⟩⟩

/-- **What `msgDataAck` does** to descriptors and messages: nothing, or it handles good or bad news
about a fragment. -/
theorem processAck_cases (hs : s.processAck (.gm doAck doChecksum) ack = some s') :
    (s'.frags = s.frags ∧ s'.messages = s.messages ∧ s'.carried = s.carried) ∨
      ∃ m, s.Concerns ack m ∧
        (ack.ackStatus = .dataGood ∧
            (s' = (s.updateAckInfo ack).acked ack.sendFragDesc m ack ∨
              ((s.updateAckInfo ack).acked ack.sendFragDesc m ack).freeResourcesGm
                ack.sendFragDesc (some m) = some s') ∨
          s' = (s.updateAckInfo ack).refused ack.sendFragDesc m) := by
  simp only [processAck] at hs
  split at hs
  case h_1 => exact some.inj hs ▸ .inl ⟨rfl, rfl, rfl⟩
  case h_2 m hd =>
    split_ifs at hs with hstale hagg hseq
    · exact some.inj hs ▸ .inl ⟨rfl, rfl, rfl⟩
    · exact some.inj hs ▸ .inl ⟨rfl, rfl, rfl⟩
    · exact some.inj hs ▸ .inl ⟨rfl, rfl, rfl⟩
    · refine .inr ⟨m, ⟨hd, by simpa using hstale, hagg, not_not.mp hseq⟩, ?_⟩
      simp only [handlePt2PtMessageAck, noteAck] at hs
      by_cases hgood : ack.ackStatus = .dataGood
      · refine .inl ⟨hgood, ?_⟩
        split_ifs at hs
        · exact .inr hs
        · exact .inl (some.inj hs).symm
      · simp only [if_neg hgood] at hs
        exact .inr (some.inj hs).symm

/-! ### Sending again -/

/-- The cumulative number of its destination covers the fragment in the descriptor. -/
def Covers (s : Sender) (d : ℕ) : Prop :=
  (s.frags d).fragSeq ≤ (s.ackInfo (s.frags d).globalDestProc).deliveredLargestInorderSeq

instance (s : Sender) (d : ℕ) : Decidable (s.Covers d) := inferInstanceAs (Decidable (_ ≤ _))

/-- What `resend` does to a covered descriptor: it is counted and taken off the list. -/
structure Drops (s s' : Sender) (d m : ℕ) : Prop where
  touches : s.Touches s' d m
  unlinked : ¬s'.Linked d m
  numAcked : (s'.messages m).numAcked = (s.messages m).numAcked + 1

lemma Drops.trans (h : s.Drops s' d m) (h' : s'.Touches s'' d m) (hunlinked : ¬s''.Linked d m)
    (hacked : (s''.messages m).numAcked = (s'.messages m).numAcked) : s.Drops s'' d m :=
  ⟨h.touches.trans h', hunlinked, hacked.trans h.numAcked⟩

lemma Drops.setFrag (h : s.Drops s' d m) (f : SendFragDesc → SendFragDesc) :
    s.Drops (s'.setFrag d f) d m := h.trans (.setFrag s' d m f) h.unlinked rfl

/-- The sender when `resend` has counted descriptor `d` as delivered, before it frees anything. -/
def delivered (s : Sender) (d m : ℕ) : Sender :=
  let s := { s with
    treatedAsDelivered := s.treatedAsDelivered ++
      [((s.frags d).globalDestProc, (s.frags d).fragSeq)] }
  let s := s.setMessage m fun msg => { msg with fragsToAck := msg.fragsToAck.erase d }
  s.setMessage m fun msg => { msg with numAcked := msg.numAcked + 1 }

lemma becomes_delivered (s : Sender) (d m : ℕ) : s.Becomes (s.delivered d m) d m (s.frags d)
    { s.messages m with
      fragsToAck := (s.messages m).fragsToAck.erase d
      numAcked := (s.messages m).numAcked + 1 } := by
  have hb := ((Becomes.refl s d m).setMessage fun msg => { msg with
    fragsToAck := msg.fragsToAck.erase d }).setMessage fun msg => { msg with
      numAcked := msg.numAcked + 1 }
  exact { hb with }

lemma drops_delivered (h : s.Inv path) (hin : d ∈ (s.messages m).fragsToAck) :
    s.Drops (s.delivered d m) d m := by
  have hb := s.becomes_delivered d m
  have hq := (h.toAck m d hin).2
  refine ⟨.of_becomes hb rfl rfl (fun _ _ => Iff.rfl) fun e he => mem_erase_of_ne he, ?_, ?_⟩
  · rw [Linked, hb.message]
    exact not_or.mpr ⟨h.notMem_toSend (by rw [hq]; decide), (h.nodupAck m).not_mem_erase⟩
  · rw [hb.message]

lemma Inv.delivered (h : s.Inv path) (d m : ℕ) : (s.delivered d m).Inv path := by
  have hlogged : Inv path { s with treatedAsDelivered := s.treatedAsDelivered ++
      [((s.frags d).globalDestProc, (s.frags d).fragSeq)] } := h.of_eq rfl rfl rfl rfl
  have herased := hlogged.setMessage (m := m)
    (f := fun msg => { msg with fragsToAck := msg.fragsToAck.erase d })
    (Sublist.refl _) erase_sublist
  exact herased.setMessage (m := m) (f := fun msg => { msg with numAcked := msg.numAcked + 1 })
    (Sublist.refl _) (Sublist.refl _)

lemma resendFrag_of_covers (hd : (s.frags d).parentSendDesc = some m) (hcovers : s.Covers d) :
    s.resendFrag (.gm doAck doChecksum) m timedOut d =
      if (s.frags d).sendDidComplete then
        ((s.delivered d m).freeResourcesGm d (some m)).map fun s =>
          s.setFrag d fun frag => { frag with fragSeq := 0, parentSendDesc := none }
      else some (s.delivered d m) := by
  simp only [resendFrag, freeDelivered, setMessage_frags, hd]
  exact if_pos hcovers

variable (h : s.Inv (.gm doAck doChecksum)) (hin : d ∈ (s.messages m).fragsToAck)
  (hs : s.resendFrag (.gm doAck doChecksum) m timedOut d = some s')

include h hin hs

/-- **What the body of the loop in `resend` does** to a descriptor on `FragsToAck`. -/
theorem resendFrag_cases :
    s.Covers d ∧ s.Drops s' d m ∨
      ¬s.Covers d ∧ (s' = s ∨ s.Requeues s' d m ∧
        (s'.frags d).didRecvAck = (s.frags d).didRecvAck ∧
        (s'.frags d).fragSeq = (s.frags d).fragSeq) := by
  obtain ⟨hd, hq⟩ := h.toAck m d hin
  by_cases hcovers : s.Covers d
  · refine .inl ⟨hcovers, ?_⟩
    have hdrops := drops_delivered h hin
    rw [resendFrag_of_covers hd hcovers] at hs
    split_ifs at hs
    · obtain ⟨t, ht, rfl⟩ := map_eq_some_iff.mp hs
      obtain ⟨rfl, -⟩ | ⟨-, hfreed⟩ := freeResourcesGm_cases (h.delivered d m) ht
      · exact hdrops.setFrag _
      · exact (hdrops.trans hfreed.touches hfreed.unlinked hfreed.numAcked).setFrag _
    · exact some.inj hs ▸ hdrops
  · refine .inr ⟨hcovers, ?_⟩
    have hs := (if_neg hcovers).symm.trans hs
    split_ifs at hs
    · cases hs
      refine .inr ⟨(s.requeues_requeue d m _).unsent, ?_, ?_⟩
      · rw [setMessage_frags, requeue, setMessage_frags, setFrag_frags_self]
      · rw [setMessage_frags, requeue, setMessage_frags, setFrag_frags_self]
    · exact .inl (some.inj hs).symm

lemma touches_resendFrag : s.Touches s' d m := by
  obtain ⟨-, hdrops⟩ | ⟨-, rfl | ⟨hrequeues, -⟩⟩ := resendFrag_cases h hin hs
  · exact hdrops.touches
  · exact .refl _ d m
  · exact hrequeues.touches

end Sender

end Lampi
