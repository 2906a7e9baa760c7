import Lampi.Path.Equiv.Reliability
import Lampi.Path.UdpSend

/-!
# Fragment accounting on the UDP path

`NumSent` and the length of `FragsToSend` add up to `NumFragDescAllocated`
(`Sender.Accounted.account`).  Sending, timeouts and acknowledgements keep it so, with one
exception: a negative acknowledgement for a fragment that is already waiting to be sent again is
counted as well (`account_iff`).

`Sender.Accounted` says more: a descriptor that belongs to a message is on the list its `WhichQueue`
names, and the lists together are no longer than the number of descriptors allocated.
-/

namespace Lampi

open Function List Option

variable {s s' : Sender} {a : ℕ → ℕ} {d m : ℕ} {ack : Ack} {peer isendSeq seqOffset length : ℕ}
  {synchronous : Bool} {timedOut : ℕ → Bool} {frag : SendFragDesc} {msg : SendDesc}

namespace Sender

/-! ### The invariant of the sender -/

/-- A descriptor of message `m` is on the list it names; what waits for its acknowledgement has been
sent. -/
def Listed (s : Sender) (d m : ℕ) : Prop :=
  ((s.frags d).whichQueue = .fragsToSend ∧ d ∈ (s.messages m).fragsToSend) ∨
    ((s.frags d).whichQueue = .fragsToAck ∧ d ∈ (s.messages m).fragsToAck ∧
      (s.frags d).sendDidComplete = true)

/-- What has been sent and what is to be sent of message `m`. -/
def accountOf (s : Sender) (m : ℕ) : ℤ := (s.messages m).numSent + (s.messages m).fragsToSend.length

/-- For each message, `a` descriptors have been allocated. -/
structure Accounted (s : Sender) (a : ℕ → ℕ) : Prop where
  inv : s.Inv .udp
  listed : ∀ d m, (s.frags d).parentSendDesc = some m → s.Listed d m
  fits : ∀ m, (s.messages m).fragsToSend.length + (s.messages m).fragsToAck.length ≤ a m
  account : ∀ m, s.accountOf m = a m

namespace Accounted

section Change

variable (h : s.Accounted a) (hinv : s'.Inv .udp) (hb : s.Becomes s' d m frag msg)
  (hsend : ∀ e ∈ (s.messages m).fragsToSend, e ≠ d → e ∈ msg.fragsToSend)
  (hack : ∀ e ∈ (s.messages m).fragsToAck, e ≠ d → e ∈ msg.fragsToAck)
  (hlisted : ∀ m', frag.parentSendDesc = some m' → s'.Listed d m')

include h hinv hb hsend hack hlisted

lemma change {a' : ℕ → ℕ} (hother : ∀ m', m' ≠ m → a' m' = a m')
    (hfits : msg.fragsToSend.length + msg.fragsToAck.length ≤ a' m)
    (haccount : msg.numSent + msg.fragsToSend.length = (a' m : ℤ)) : s'.Accounted a' where
  inv := hinv
  listed e m' he := by
    by_cases hed : e = d
    · subst hed
      exact hlisted m' (hb.frag ▸ he)
    · rw [hb.frags e hed] at he
      have hold := h.listed e m' he
      unfold Listed at hold ⊢
      rw [hb.frags e hed]
      by_cases hm : m' = m
      · subst hm
        rw [hb.message]
        exact hold.imp (fun hq => ⟨hq.1, hsend e hq.2 hed⟩)
          fun hq => ⟨hq.1, hack e hq.2.1 hed, hq.2.2⟩
      · rwa [hb.messages m' hm]
  fits m' := by
    by_cases hm : m' = m
    · rwa [hm, hb.message]
    · rw [hb.messages m' hm, hother m' hm]
      exact h.fits m'
  account m' := by
    unfold accountOf
    by_cases hm : m' = m
    · rwa [hm, hb.message]
    · rw [hb.messages m' hm, hother m' hm]
      exact h.account m'

lemma move (hfits : msg.fragsToSend.length + msg.fragsToAck.length ≤
      (s.messages m).fragsToSend.length + (s.messages m).fragsToAck.length)
    (haccount : msg.numSent + msg.fragsToSend.length = s.accountOf m) : s'.Accounted a :=
  h.change hinv hb hsend hack hlisted (fun _ _ => rfl) (hfits.trans (h.fits m))
    (haccount.trans (h.account m))

end Change

private lemma length_erase_add_one {l : List ℕ} (h : d ∈ l) : (l.erase d).length + 1 = l.length :=
    by
  rw [length_erase_of_mem h]
  exact Nat.sub_add_cancel (length_pos_of_mem h)

variable (h : s.Accounted a)

include h

lemma of_eq (hinv : s'.Inv .udp) (hfrags : s'.frags = s.frags)
    (hmessages : s'.messages = s.messages) : s'.Accounted a := by
  refine ⟨hinv, ?_, ?_, ?_⟩
  · unfold Listed
    rw [hfrags, hmessages]
    exact h.listed
  · rw [hmessages]
    exact h.fits
  · unfold accountOf
    rw [hmessages]
    exact h.account

lemma congr {a' : ℕ → ℕ} (ha : ∀ m, a m = a' m) : s.Accounted a' := (funext ha : a = a') ▸ h

lemma parent_ne (hsend : (s.messages m).fragsToSend = [])
    (hack : (s.messages m).fragsToAck = []) : (s.frags d).parentSendDesc ≠ some m := by
  intro hd
  obtain ⟨-, hin⟩ | ⟨-, hin, -⟩ := h.listed d m hd
  · exact not_mem_nil (hsend ▸ hin)
  · exact not_mem_nil (hack ▸ hin)

/-! ### Operations of the sender -/

lemma isend (hs : s.isend m peer isendSeq synchronous = some s') : s'.Accounted (update a m 0) := by
  have hinv := (h.inv.isend hs).1
  unfold Sender.isend at hs
  split_ifs at hs with hempty
  rw [some.injEq] at hs
  have hfrags : s'.frags = s.frags := by rw [← hs, setMessage_frags]
  -- no descriptor belongs to the message, so any one will do for `d`
  have hb := (Becomes.refl s 0 m).setMessage fun _ => ⟨peer, isendSeq, synchronous, 0, 0, [], []⟩
  rw [hs] at hb
  refine h.change hinv hb ?_ ?_ (fun m' hm' => ?_) (fun m' hm => update_of_ne hm ..) ?_ ?_
  · rw [hempty.1]
    exact fun e he => absurd he not_mem_nil
  · rw [hempty.2]
    exact fun e he => absurd he not_mem_nil
  · have hne : m' ≠ m := fun hm => h.parent_ne hempty.1 hempty.2 (hm ▸ hm')
    have hold := h.listed 0 m' hm'
    unfold Listed at hold ⊢
    rwa [hfrags, ← hs, setMessage_messages_ne _ hne]
  · rw [update_self]
    exact le_rfl
  · rw [update_self]
    rfl

lemma initFrag (hs : s.initFrag .udp d m seqOffset length = some s') :
    s'.Accounted (update a m (a m + 1)) := by
  have hinv := h.inv.initFrag hs
  obtain ⟨hfree, hb⟩ := becomes_initFrag hs
  have haccount := h.account m
  have hfits := h.fits m
  unfold accountOf at haccount
  refine h.change hinv hb (fun e he _ => mem_append_left _ he) (fun e he _ => he) (fun m' hm' => ?_)
    (fun m' hm => update_of_ne hm ..) ?_ ?_
  · obtain rfl : m = m' := some.inj hm'
    refine .inl ⟨by rw [hb.frag]; rfl, ?_⟩
    rw [hb.message]
    exact mem_append_right _ (mem_singleton_self d)
  · rw [update_self]
    simp only [length_append, length_singleton]
    omega
  · rw [update_self, length_append, length_singleton]
    push_cast
    omega

lemma send {dest : ℕ} {header : DataHeader} (hs : s.send .udp d = some (s', dest, header)) :
    s'.Accounted a := by
  have hinv := (h.inv.send hs).1
  obtain ⟨m, hd, hsent⟩ := bind_eq_some_iff.mp hs
  split_ifs at hsent with hin
  cases hsent
  have hlength := length_erase_add_one hin
  have hb := ((Becomes.refl s d m).setFrag fun frag => { frag with
    whichQueue := .fragsToAck, sendDidComplete := true }).setMessage fun msg => { msg with
      fragsToSend := msg.fragsToSend.erase d, fragsToAck := msg.fragsToAck ++ [d]
      numSent := msg.numSent + 1 }
  refine h.move hinv hb (fun e he hne => (mem_erase_of_ne hne).mpr he)
    (fun e he _ => mem_append_left _ he) (fun m' hm' => ?_) ?_ ?_
  · obtain rfl : m = m' := some.inj (hd.symm.trans hm')
    refine .inr ⟨congrArg _ hb.frag, ?_, congrArg _ hb.frag⟩
    rw [hb.message]
    exact mem_append_right _ (mem_singleton_self d)
  · simp only [length_append, length_singleton]
    omega
  · rw [accountOf]
    push_cast [← hlength]
    omega

/-! ### Acknowledgements and timeouts -/

lemma freeResourcesUdp (hd : (s.frags d).parentSendDesc = some m)
    (hs : s.freeResourcesUdp d m = some s') : s'.Accounted a := by
  have hinv := (h.inv.freeResourcesUdp hd hs).1
  obtain ⟨t, ht, rfl⟩ := map_eq_some_iff.mp hs
  unfold takeOff at ht
  obtain ⟨hq, hin⟩ | ⟨hq, hin, -⟩ := h.listed d m hd
  · rw [hq] at ht
    have hlength := length_erase_add_one hin
    cases ht
    refine h.move hinv (((Becomes.refl s d m).setMessage _).setFrag _)
      (fun e he hne => (mem_erase_of_ne hne).mpr he) (fun e he _ => he) nofun ?_ ?_
    · simp only
      omega
    · rw [accountOf]
      push_cast [← hlength]
      omega
  · rw [hq] at ht
    cases ht
    exact h.move hinv (((Becomes.refl s d m).setMessage _).setFrag _) (fun e he _ => he)
      (fun e he hne => (mem_erase_of_ne hne).mpr he) nofun
      (Nat.add_le_add_left erase_sublist.length_le _) rfl

lemma setMessage {f : SendDesc → SendDesc}
    (hsend : (f (s.messages m)).fragsToSend = (s.messages m).fragsToSend)
    (hack : (f (s.messages m)).fragsToAck = (s.messages m).fragsToAck)
    (hsent : (f (s.messages m)).numSent = (s.messages m).numSent) :
    (s.setMessage m f).Accounted a := by
  have hinv := h.inv.setMessage (m := m) (f := f) (hsend ▸ Sublist.refl _)
    (hack ▸ Sublist.refl _)
  -- no descriptor changes, so any one will do for `d`
  refine h.move hinv ((Becomes.refl s 0 m).setMessage f) ?_ ?_ (fun m' hm' => ?_) ?_ ?_
  · rw [hsend]
    exact fun e he _ => he
  · rw [hack]
    exact fun e he _ => he
  · have hold := h.listed 0 m' hm'
    unfold Listed at hold ⊢
    by_cases hm : m' = m
    · subst hm
      rwa [setMessage_messages_self, hsend, hack]
    · rwa [setMessage_messages_ne f hm]
  · rw [hsend, hack]
  · rw [accountOf, hsend, hsent]

section

variable (hd : (s.frags d).parentSendDesc = some m)

include hd

/-- A sent fragment has to be sent again, and is not counted as sent any more. -/
lemma requeue {f : SendFragDesc → SendFragDesc} (hq : (s.frags d).whichQueue = .fragsToAck)
    (hf : (s.frags d).MovedTo .fragsToSend (f (s.frags d))) :
    (((s.setFrag d f).requeue d m).setMessage m fun msg =>
      { msg with numSent := msg.numSent - 1 }).Accounted a := by
  have hinv := (h.inv.requeue hd hq hf).setMessage (m := m)
    (f := fun msg => { msg with numSent := msg.numSent - 1 }) (Sublist.refl _)
    (Sublist.refl _)
  have hin : d ∈ (s.messages m).fragsToAck := by
    obtain ⟨hq', -⟩ | ⟨-, hin, -⟩ := h.listed d m hd
    · rw [hq] at hq'
      cases hq'
    · exact hin
  have hlength := length_erase_add_one hin
  have hb := (((Becomes.refl s d m).setFrag f).setMessage fun msg => { msg with
    fragsToAck := msg.fragsToAck.erase d, fragsToSend := msg.fragsToSend ++ [d] }).setMessage
      fun msg => { msg with numSent := msg.numSent - 1 }
  refine h.move hinv hb (fun e he _ => mem_append_left _ he)
    (fun e he hne => (mem_erase_of_ne hne).mpr he) (fun m' hm' => ?_) ?_ ?_
  · obtain rfl := some.inj (hm'.symm.trans (hf.parentSendDesc.trans hd))
    refine .inl ⟨(congrArg _ hb.frag).trans hf.whichQueue, ?_⟩
    rw [requeue, hb.message]
    exact mem_append_right _ (mem_singleton_self d)
  · simp only [length_append, length_singleton]
    omega
  · rw [accountOf]
    simp only [length_append, length_singleton]
    omega

lemma acknowledge (hgood : ack.ackStatus = .dataGood)
    (hs : s.handlePt2PtMessageAck .udp d m ack = some s') : s'.Accounted a := by
  simp only [handlePt2PtMessageAck] at hs
  rw [if_pos hgood] at hs
  have hcounted : (s.countAck d m ack).Accounted a :=
    (h.setMessage (m := m) (f := fun msg => { msg with numAcked := msg.numAcked + 1 }) rfl rfl
      rfl).of_eq (h.inv.countAck d m ack) rfl rfl
  exact hcounted.freeResourcesUdp hd hs

/-- Bad news about a fragment that waits for its acknowledgement: it has to be sent again. -/
lemma refuse (hq : (s.frags d).whichQueue = .fragsToAck) (hbad : ack.ackStatus ≠ .dataGood)
    (hs : s.handlePt2PtMessageAck .udp d m ack = some s') : s'.Accounted a := by
  simp only [handlePt2PtMessageAck] at hs
  rw [if_neg hbad, if_pos hq, if_pos hq] at hs
  cases hs
  exact h.requeue hd hq ⟨rfl, rfl, rfl, rfl, rfl⟩

end

lemma resendFrag (hd : d ∈ (s.messages m).fragsToAck)
    (hs : s.resendFrag .udp m timedOut d = some s') : s'.Accounted a := by
  have hinv := (h.inv.resendFrag hd hs).1
  obtain ⟨hparent, hq⟩ := h.inv.toAck m d hd
  have hdone : (s.frags d).sendDidComplete = true := by
    obtain ⟨hq', -⟩ | ⟨-, -, hdone⟩ := h.listed d m hparent
    · rw [hq] at hq'
      cases hq'
    · exact hdone
  simp only [Sender.resendFrag] at hs
  split_ifs at hs
  · -- the descriptor leaves the list here, and once more in `freeResources`
    simp only [Sender.freeDelivered, setMessage_frags, hdone, hparent, if_true,
      Sender.freeResources,
      Sender.freeResourcesUdp, takeOff, hq, map_some, some.injEq] at hs
    subst hs
    have hb : s.Becomes { s with treatedAsDelivered := s.treatedAsDelivered ++
        [((s.frags d).globalDestProc, (s.frags d).fragSeq)] } d m (s.frags d) (s.messages m) :=
      .of_eq rfl rfl
    refine h.move hinv (((((hb.setMessage _).setMessage _).setMessage _).setFrag _).setFrag _)
      (fun e he _ => he) ?_ (by rintro _ ⟨⟩) ?_ rfl
    · exact fun e he hne => (mem_erase_of_ne hne).mpr ((mem_erase_of_ne hne).mpr he)
    · exact Nat.add_le_add_left (erase_sublist.trans erase_sublist).length_le _
  · cases hs
    exact h.requeue hparent hq ⟨rfl, rfl, rfl, rfl, rfl⟩
  · exact some.inj hs ▸ h

end Accounted

/-- **What an acknowledgement can do** on the UDP path: nothing if its descriptor is free; else it
updates what is known about its source, and is handled if it is about the fragment the descriptor
carries. -/
theorem processAck_udp_cases (hs : s.processAck .udp ack = some s') :
    ((s.frags ack.sendFragDesc).parentSendDesc = none ∧ s' = s) ∨
      ∃ m, (s.frags ack.sendFragDesc).parentSendDesc = some m ∧
        ((s' = s.updateAckInfo ack ∧ ((s.frags ack.sendFragDesc).fragSeq = ack.thisFragSeq →
            ack.ackStatus = .aggInfoOnly)) ∨
          ((s.frags ack.sendFragDesc).fragSeq = ack.thisFragSeq ∧ ack.ackStatus ≠ .aggInfoOnly ∧
            (s.updateAckInfo ack).handlePt2PtMessageAck .udp ack.sendFragDesc m ack =
              some s')) := by
  simp only [processAck] at hs
  cases hparent : (s.frags ack.sendFragDesc).parentSendDesc with
  | none =>
    rw [hparent] at hs
    cases hs
    exact .inl ⟨rfl, rfl⟩
  | some m =>
    simp only [hparent, Bool.false_eq_true, if_false] at hs
    refine .inr ⟨m, rfl, ?_⟩
    split_ifs at hs with hagg hseq
    · exact .inl ⟨(some.inj hs).symm, fun _ => hagg⟩
    · exact .inl ⟨(some.inj hs).symm, fun heq => absurd heq hseq⟩
    · exact .inr ⟨not_not.mp hseq, hagg, hs⟩

end Sender

/-- How long a message is, how many fragments it has, and how many of them have been created. -/
def PostedSend.sizes (p : PostedSend) : ℕ × ℕ × ℕ := (p.length, p.numfrags, p.numFragDescAllocated)

lemma PostedSend.sizes_inj {p q : PostedSend} (h : p.sizes = q.sizes) :
    p.length = q.length ∧ p.numfrags = q.numfrags ∧
      p.numFragDescAllocated = q.numFragDescAllocated := by
  simpa only [sizes, Prod.mk.injEq] using h

namespace UdpSender

variable {cfg : UdpSettings} {u u' : UdpSender} {m' : ℕ} {alloc : ℕ → Allocation} {sent : ℕ → Bool}
  {status : AckStatus} {e : Event}

/-! ### The invariant of the posted sends -/

/-- All descriptors are accounted for, and there are no more than the messages have fragments. -/
structure Accounted (u : UdpSender) : Prop where
  sender : u.sender.Accounted fun m => (u.posted m).numFragDescAllocated
  allocated : ∀ m, (u.posted m).numFragDescAllocated ≤ (u.posted m).numfrags
  numfrags_lt : ∀ m, (u.posted m).numfrags < 2 ^ 32

/-- All fragments of the message at `m` have got a descriptor, and none waits to be sent. -/
def NothingLeft (u : UdpSender) (m : ℕ) : Prop :=
  (u.posted m).numFragDescAllocated = (u.posted m).numfrags ∧ (u.sender.messages m).fragsToSend = []

variable (f : PostedSend → PostedSend)

@[simp] lemma setPosted_sender : (u.setPosted m f).sender = u.sender := rfl

@[simp] lemma setPosted_posted_self :
    (u.setPosted m f).posted m = f (u.posted m) := update_self ..

lemma setPosted_posted_ne (h : m' ≠ m) :
    (u.setPosted m f).posted m' = u.posted m' := update_of_ne h ..

lemma setPosted_field {α : Type} (field : PostedSend → α) {f : PostedSend → PostedSend}
    (hf : ∀ p, field (f p) = field p) (m' : ℕ) :
    field ((u.setPosted m f).posted m') = field (u.posted m') := by
  by_cases hm : m' = m
  · rw [hm, setPosted_posted_self, hf]
  · rw [setPosted_posted_ne f hm]

@[simp] lemma clearIf_whichQueue (m m' : ℕ) (b : Bool) :
    ((u.clearIf m b).posted m').whichQueue = (u.posted m').whichQueue := by
  unfold clearIf
  by_cases hm : m' = m
  · rw [hm, setPosted_posted_self]
  · rw [setPosted_posted_ne _ hm]

@[simp] lemma setQueue_whichQueue_self (m : ℕ) (q : SendQueue) :
    ((u.setQueue m q).posted m).whichQueue = q := by
  rw [setQueue, setPosted_posted_self]

lemma setQueue_whichQueue_ne (q : SendQueue) (h : m' ≠ m) :
    ((u.setQueue m q).posted m').whichQueue = (u.posted m').whichQueue := by
  rw [setQueue, setPosted_posted_ne _ h]

lemma setQueue_nothingLeft (q : SendQueue) : (u.setQueue m q).NothingLeft m ↔ u.NothingLeft m := by
  unfold NothingLeft setQueue
  rw [setPosted_posted_self, setPosted_sender]

namespace Accounted

variable (h : u.Accounted)

include h

lemma withSender (hs : s.Accounted fun m => (u.posted m).numFragDescAllocated) :
    Accounted { u with sender := s } :=
  ⟨hs, h.allocated, h.numfrags_lt⟩

lemma setPosted {f : PostedSend → PostedSend}
    (hallocated : ∀ p, (f p).numFragDescAllocated = p.numFragDescAllocated)
    (hnumfrags : ∀ p, (f p).numfrags = p.numfrags) : (u.setPosted m f).Accounted where
  sender := by
    simp only [setPosted_field (·.numFragDescAllocated) hallocated]
    exact h.sender
  allocated m' := by
    rw [setPosted_field (·.numFragDescAllocated) hallocated, setPosted_field (·.numfrags) hnumfrags]
    exact h.allocated m'
  numfrags_lt m' := by
    rw [setPosted_field (·.numfrags) hnumfrags]
    exact h.numfrags_lt m'

lemma setQueue (m : ℕ) (q : SendQueue) : (u.setQueue m q).Accounted :=
  setPosted h (fun _ => rfl) fun _ => rfl

lemma clearIf (m : ℕ) (b : Bool) : (u.clearIf m b).Accounted :=
  setPosted h (fun _ => rfl) fun _ => rfl

/-- **When all is sent**: comparing `NumSent` with `numfrags` finds out whether there is anything
left to send. -/
theorem allSent_iff : u.allSent m = true ↔ u.NothingLeft m := by
  have haccount := h.sender.account m
  have hfits := h.sender.fits m
  have hallocated := h.allocated m
  have hlt := h.numfrags_lt m
  unfold Sender.accountOf at haccount
  unfold allSent NothingLeft
  rw [decide_eq_true_iff, ← length_eq_zero_iff, Int.emod_eq_of_lt (by omega) (by omega)]
  omega

end Accounted

/-! ### `udpPath::send` -/

variable (p : PostedSend)

lemma nDescToAllocate_le (hle : p.numFragDescAllocated ≤ p.numfrags) :
    nDescToAllocate p ≤ p.numfrags - p.numFragDescAllocated := by
  have hmod : Int.bmod (p.numfrags - p.numFragDescAllocated) (2 ^ 32) ≤
      p.numfrags - p.numFragDescAllocated := by
    simp only [Int.bmod]
    split_ifs <;> omega
  unfold nDescToAllocate
  omega

@[simp] lemma holdBack_numFragDescAllocated :
    (holdBack cfg p).numFragDescAllocated = p.numFragDescAllocated := by
  unfold holdBack
  split_ifs <;> rfl

@[simp] lemma holdBack_numfrags : (holdBack cfg p).numfrags = p.numfrags := by
  unfold holdBack
  split_ifs <;> rfl

@[simp] lemma holdBack_whichQueue : (holdBack cfg p).whichQueue = p.whichQueue := by
  unfold holdBack
  split_ifs <;> rfl

@[simp] lemma countFrag_numFragDescAllocated :
    (countFrag cfg p).numFragDescAllocated = p.numFragDescAllocated + 1 := rfl

@[simp] lemma countFrag_numfrags : (countFrag cfg p).numfrags = p.numfrags := holdBack_numfrags p

@[simp] lemma countFrag_whichQueue :
    (countFrag cfg p).whichQueue = p.whichQueue := holdBack_whichQueue p

lemma Accounted.initFrag (h : u.Accounted)
    (hlt : (u.posted m).numFragDescAllocated < (u.posted m).numfrags)
    (hs : u.sender.initFrag .udp d m seqOffset length = some s') :
    (UdpSender.setPosted { u with sender := s' } m (countFrag cfg)).Accounted where
  sender := by
    have hcount := h.sender.initFrag hs
    refine hcount.congr fun m' => ?_
    by_cases hm : m' = m
    · subst hm
      rw [setPosted_posted_self, update_self, countFrag_numFragDescAllocated]
    · rw [setPosted_posted_ne _ hm, update_of_ne hm]
  allocated m' := by
    by_cases hm : m' = m
    · subst hm
      rw [setPosted_posted_self, countFrag_numFragDescAllocated, countFrag_numfrags]
      exact hlt
    · rw [setPosted_posted_ne _ hm]
      exact h.allocated m'
  numfrags_lt m' := by
    rw [setPosted_field (·.numfrags) countFrag_numfrags]
    exact h.numfrags_lt m'

/-- The allocation loop takes no more descriptors than there are fragments.  If `send` returns from
it, there are fragments left. -/
lemma Accounted.allocate {goOn : Bool} {rounds nDesc : ℕ} (h : u.Accounted)
    (hrounds : rounds ≤ (u.posted m).numfrags - (u.posted m).numFragDescAllocated)
    (hs : allocate cfg m alloc rounds nDesc u = some (goOn, u')) :
    u'.Accounted ∧ (∀ m', (u'.posted m').whichQueue = (u.posted m').whichQueue) ∧
      (goOn = false → (u'.posted m).numFragDescAllocated < (u'.posted m).numfrags) := by
  fun_induction UdpSender.allocate cfg m alloc rounds nDesc u with
  | case1 | case2 =>
    cases hs
    exact ⟨h, fun _ => rfl, fun hfalse => nomatch hfalse⟩
  | case3 =>
    cases hs
    refine ⟨h.setPosted (fun _ => rfl) fun _ => rfl, ?_, fun hfalse => nomatch hfalse⟩
    exact setPosted_field (·.whichQueue) fun _ => rfl
  | case4 _ _ _ _ _ _ _ ih => exact ih h (by omega) hs
  | case5 => cases hs
  | case6 =>
    cases hs
    refine ⟨h.setPosted holdBack_numFragDescAllocated holdBack_numfrags,
      setPosted_field (·.whichQueue) holdBack_whichQueue, fun _ => ?_⟩
    rw [setPosted_posted_self, holdBack_numFragDescAllocated, holdBack_numfrags]
    omega
  | case7 _ _ _ _ _ _ d _ ih =>
    obtain ⟨s', hs', hs⟩ := bind_eq_some_iff.mp hs
    obtain ⟨hinv, hqueues, hleft⟩ := ih s' (h.initFrag (by omega) hs') (by
      rw [setPosted_posted_self, countFrag_numfrags, countFrag_numFragDescAllocated]
      dsimp only
      omega) hs
    refine ⟨hinv, fun m' => ?_, hleft⟩
    rw [hqueues m', setPosted_field (·.whichQueue) countFrag_whichQueue]

lemma sendLoop_accounted (h : s.Accounted a) (hs : sendLoop sent s m = some s') :
    s'.Accounted a := by
  unfold sendLoop at hs
  generalize (s.messages m).fragsToSend = l at hs
  induction l generalizing s with
  | nil => exact some.inj hs ▸ h
  | cons d l ih =>
    rw [foldlM_cons] at hs
    obtain ⟨t, ht, hs⟩ := bind_eq_some_iff.mp hs
    refine ih ?_ hs
    split_ifs at ht
    · obtain ⟨⟨t', dest, header⟩, hsend, rfl⟩ := map_eq_some_iff.mp ht
      exact h.send hsend
    · exact some.inj ht ▸ h

/-- **`udpPath::send`** finds out whether there is anything left to send. -/
theorem Accounted.send {incomplete : Bool} (h : u.Accounted)
    (hs : u.send cfg m alloc sent = some (incomplete, u')) :
    u'.Accounted ∧ (∀ m', (u'.posted m').whichQueue = (u.posted m').whichQueue) ∧
      (incomplete = false ↔ u'.NothingLeft m) := by
  obtain ⟨⟨goOn, t⟩, ht, hs⟩ := bind_eq_some_iff.mp hs
  have hstart := h.clearIf m (decide ((u.posted m).numFragDescAllocated = 0))
  obtain ⟨hinv, hqueues, hleft⟩ := hstart.allocate
    (nDescToAllocate_le _ (hstart.allocated m)) ht
  simp only [clearIf_whichQueue] at hqueues
  cases goOn with
  | true =>
    obtain ⟨s', hs', heq⟩ := map_eq_some_iff.mp hs
    cases heq
    have hsent := hinv.withSender (sendLoop_accounted hinv.sender hs')
    refine ⟨hsent, hqueues, ?_⟩
    rw [Bool.not_eq_false', hsent.allSent_iff]
  | false =>
    cases hs
    refine ⟨hinv, hqueues, iff_of_false (by decide) fun hnothing => ?_⟩
    exact absurd hnothing.1 (hleft rfl).ne

/-! ### The other events -/

/-- A negative acknowledgement is handled for a fragment that is already waiting to be sent. -/
def RefusedAgain (u : UdpSender) : Event → Prop
  | .ack ack => ack.ackStatus = .dataCorrupt ∧ (∃ m, u.Names ack m) ∧
      (u.sender.frags ack.sendFragDesc).whichQueue = .fragsToSend
  | _ => False

/-- An acknowledgement that is handled or not leaves the messages on the list of incomplete sends
there. -/
lemma handlePt2PtMessageAck_whichQueue (hs : u.handlePt2PtMessageAck m s' status = some u')
    (hm' : (u.posted m').whichQueue = .incomplete) : (u'.posted m').whichQueue = .incomplete := by
  cases status with
  | dataGood =>
    cases hs
    exact (clearIf_whichQueue m m' true).trans hm'
  | aggInfoOnly =>
    cases hs
    exact hm'
  | dataCorrupt =>
    simp only [handlePt2PtMessageAck] at hs
    split_ifs at hs with hall hqueue
    · cases hs
      by_cases hm : m' = m
      · rw [hm, setQueue_whichQueue_self]
      · exact (setQueue_whichQueue_ne _ hm).trans hm'
    · cases hs
      exact hm'

lemma handlePt2PtMessageAck_sender (hs : u.handlePt2PtMessageAck m s' status = some u') :
    u'.sender = s' ∧ ∀ m', (u'.posted m').sizes = (u.posted m').sizes := by
  cases status with
  | dataGood =>
    cases hs
    exact ⟨rfl, setPosted_field PostedSend.sizes fun _ => rfl⟩
  | aggInfoOnly =>
    cases hs
    exact ⟨rfl, fun _ => rfl⟩
  | dataCorrupt =>
    simp only [handlePt2PtMessageAck] at hs
    split_ifs at hs
    · cases hs
      exact ⟨rfl, setPosted_field PostedSend.sizes fun _ => rfl⟩
    · cases hs
      exact ⟨rfl, fun _ => rfl⟩

lemma processAck_cases (hs : u.processAck ack = some u') :
    u.sender.processAck .udp ack = some u'.sender ∧
      (∀ m, (u'.posted m).sizes = (u.posted m).sizes) ∧
      ∀ m, (u.posted m).whichQueue = .incomplete → (u'.posted m).whichQueue = .incomplete := by
  obtain ⟨s', hs', hs⟩ := bind_eq_some_iff.mp hs
  cases hparent : (u.sender.frags ack.sendFragDesc).parentSendDesc with
  | none =>
    simp only [hparent, some.injEq] at hs
    exact hs ▸ ⟨hs', fun _ => rfl, fun _ hm => hm⟩
  | some m =>
    simp only [hparent] at hs
    split_ifs at hs
    · obtain ⟨hsender, hfields⟩ := handlePt2PtMessageAck_sender hs
      exact ⟨hsender ▸ hs', hfields, fun _ hm => handlePt2PtMessageAck_whichQueue hs hm⟩
    · cases hs
      exact ⟨hs', fun _ => rfl, fun _ hm => hm⟩

lemma numfrags_lt_two_pow (cfg : UdpSettings) (length : ℕ) : numfrags cfg length < 2 ^ 32 :=
  Nat.mod_lt _ (by decide)

section

variable (h : u.Accounted)

include h

lemma Accounted.isend (hs : u.isend cfg m peer isendSeq length synchronous alloc sent = some u') :
    u'.Accounted ∧ (u.posted m).whichQueue = .onNoList ∧
      ∀ m', m' ≠ m → (u'.posted m').whichQueue = (u.posted m').whichQueue := by
  unfold UdpSender.isend at hs
  split_ifs at hs with hqueue
  obtain ⟨s', hs', hs⟩ := bind_eq_some_iff.mp hs
  obtain ⟨⟨incomplete, t⟩, ht, rfl⟩ := map_eq_some_iff.mp hs
  have hnew : (UdpSender.setPosted { u with sender := s' } m fun _ =>
      { length, numfrags := numfrags cfg length, numFragDescAllocated := 0
        clearToSend := !synchronous, whichQueue := .onNoList }).Accounted := by
    refine ⟨(h.sender.isend hs').congr fun m' => ?_, fun m' => ?_, fun m' => ?_⟩
    · by_cases hm : m' = m
      · subst hm
        rw [setPosted_posted_self, update_self]
      · rw [setPosted_posted_ne _ hm, update_of_ne hm]
    · by_cases hm : m' = m
      · subst hm
        rw [setPosted_posted_self]
        exact Nat.zero_le _
      · rw [setPosted_posted_ne _ hm]
        exact h.allocated m'
    · by_cases hm : m' = m
      · subst hm
        rw [setPosted_posted_self]
        exact numfrags_lt_two_pow cfg length
      · rw [setPosted_posted_ne _ hm]
        exact h.numfrags_lt m'
  obtain ⟨hinv, hqueues, -⟩ := hnew.send ht
  refine ⟨hinv.setQueue m _, hqueue, fun m' hm => ?_⟩
  rw [setQueue_whichQueue_ne _ hm, hqueues m', setPosted_posted_ne _ hm]

/-- Pushing a message on takes it off the list of incomplete sends if it leaves nothing to send. -/
lemma Accounted.pushFrags (hs : u.pushFrags cfg m alloc sent = some u') :
    u'.Accounted ∧ ((u'.posted m).whichQueue ≠ .incomplete ↔ u'.NothingLeft m) ∧
      ∀ m', m' ≠ m → (u'.posted m').whichQueue = (u.posted m').whichQueue := by
  unfold UdpSender.pushFrags at hs
  split_ifs at hs with hqueue
  obtain ⟨⟨incomplete, t⟩, ht, rfl⟩ := map_eq_some_iff.mp hs
  obtain ⟨hinv, hqueues, hleft⟩ := h.send ht
  cases incomplete with
  | true =>
    refine ⟨hinv, iff_of_false ?_ ?_, fun m' _ => hqueues m'⟩
    · exact not_not.mpr ((hqueues m).trans hqueue)
    · exact fun hnothing => nomatch hleft.mpr hnothing
  | false =>
    refine ⟨hinv.setQueue m _, iff_of_true ?_ ?_, fun m' hm => ?_⟩
    · simp only [Bool.false_eq_true, if_false, setQueue_whichQueue_self]
      split_ifs <;> decide
    · exact (setQueue_nothingLeft _).mpr (hleft.mp rfl)
    · exact (setQueue_whichQueue_ne _ hm).trans (hqueues m')

lemma Accounted.resend {resent : Bool} (hs : u.resend m timedOut = some (resent, u')) :
    u'.Accounted ∧ ∀ m', (u'.posted m').whichQueue = (u.posted m').whichQueue := by
  -- the descriptors still to come are on `FragsToAck`
  suffices hloop : ∀ (l : List ℕ) (resent0 : Bool) (u : UdpSender), u.Accounted → l.Nodup →
      (∀ d ∈ l, d ∈ (u.sender.messages m).fragsToAck) →
      l.foldlM (resendFrag m timedOut) (resent0, u) = some (resent, u') →
      u'.Accounted ∧ ∀ m', (u'.posted m').whichQueue = (u.posted m').whichQueue from
    hloop _ false u h (h.sender.inv.nodupAck m) (fun _ hd => hd) hs
  intro l
  induction l with
  | nil =>
    intro resent0 u h _ _ hs
    obtain ⟨-, rfl⟩ := Prod.mk.inj (some.inj hs)
    exact ⟨h, fun _ => rfl⟩
  | cons d l ih =>
    intro resent0 u h hnodup hsub hs
    obtain ⟨t, ht, hs⟩ := bind_eq_some_iff.mp hs
    obtain ⟨s', hs', rfl⟩ := map_eq_some_iff.mp ht
    obtain ⟨hnotMem, hnodup⟩ := nodup_cons.mp hnodup
    have hd := hsub d mem_cons_self
    have hkeep := (h.sender.inv.resendFrag hd hs').2.1
    have hnext := (h.withSender (h.sender.resendFrag hd hs')).clearIf m
    obtain ⟨hinv, hqueues⟩ := ih _ _ (hnext _) hnodup (fun e he =>
      hkeep e (hsub e (mem_cons_of_mem _ he)) fun heq => hnotMem (heq ▸ he)) hs
    exact ⟨hinv, fun m' => (hqueues m').trans (clearIf_whichQueue m m' _)⟩

lemma Accounted.checkForRetransmits (hs : u.checkForRetransmits m timedOut = some u') :
    u'.Accounted ∧ ∀ m', (u.posted m').whichQueue = .incomplete →
      (u'.posted m').whichQueue = .incomplete := by
  unfold UdpSender.checkForRetransmits at hs
  cases hqueue : (u.posted m).whichQueue with
  | onNoList => simp only [hqueue, reduceCtorEq] at hs
  | incomplete =>
    rw [hqueue] at hs
    obtain ⟨⟨resent, t⟩, ht, rfl⟩ := map_eq_some_iff.mp hs
    obtain ⟨hinv, hqueues⟩ := h.resend ht
    exact ⟨hinv, fun m' hm' => (hqueues m').trans hm'⟩
  | unacked =>
    rw [hqueue] at hs
    obtain ⟨⟨resent, t⟩, ht, rfl⟩ := map_eq_some_iff.mp hs
    obtain ⟨hinv, hqueues⟩ := h.resend ht
    cases resent with
    | false => exact ⟨hinv, fun m' hm' => (hqueues m').trans hm'⟩
    | true =>
      refine ⟨hinv.setQueue m _, fun m' hm' => ?_⟩
      have hne : m' ≠ m := by
        rintro rfl
        rw [hqueue] at hm'
        cases hm'
      exact (setQueue_whichQueue_ne _ hne).trans ((hqueues m').trans hm')

lemma Accounted.freeAcked (hs : u.freeAcked m = some u') :
    u'.Accounted ∧ ∀ m', (u.posted m').whichQueue = .incomplete →
      (u'.posted m').whichQueue = .incomplete := by
  simp only [UdpSender.freeAcked] at hs
  split_ifs at hs with hdone
  cases hs
  refine ⟨h.setQueue m _, fun m' hm' => ?_⟩
  have hne : m' ≠ m := by
    rintro rfl
    rw [hdone.1] at hm'
    cases hm'
  rwa [setQueue_whichQueue_ne _ hne]

/-- Acknowledgements keep the books, unless one refuses a fragment again. -/
lemma Accounted.processAck (hs : u.processAck ack = some u')
    (hagain : ¬u.RefusedAgain (.ack ack)) : u'.Accounted := by
  obtain ⟨hsender, hfields, -⟩ := processAck_cases hs
  have hupdated : (u.sender.updateAckInfo ack).Accounted _ :=
    h.sender.of_eq (h.sender.inv.of_eq rfl rfl rfl rfl) rfl rfl
  have hacked : u'.sender.Accounted fun m => (u.posted m).numFragDescAllocated := by
    obtain ⟨-, heq⟩ | ⟨m, hd, ⟨heq, -⟩ | ⟨hseq, hagg, hhandle⟩⟩ :=
      Sender.processAck_udp_cases hsender
    · exact heq ▸ h.sender
    · exact heq ▸ hupdated
    · by_cases hgood : ack.ackStatus = .dataGood
      · exact hupdated.acknowledge hd hgood hhandle
      · obtain ⟨hq, -⟩ | ⟨hq, -⟩ := h.sender.listed ack.sendFragDesc m hd
        · -- `RefusedAgain`
          refine absurd ⟨?_, ⟨m, hd, hseq⟩, hq⟩ hagain
          cases hstatus : ack.ackStatus with
          | dataGood => exact absurd hstatus hgood
          | dataCorrupt => rfl
          | aggInfoOnly => exact absurd hstatus hagg
        · exact hupdated.refuse hd hq hgood hhandle
  have hinj := fun m => PostedSend.sizes_inj (hfields m)
  refine ⟨hacked.congr fun m => (hinj m).2.2.symm, fun m => ?_, fun m => ?_⟩
  · rw [(hinj m).2.2, (hinj m).2.1]
    exact h.allocated m
  · rw [(hinj m).2.1]
    exact h.numfrags_lt m

/-- **One event** keeps the books unless it refuses a fragment again. -/
theorem Accounted.step (hs : u.step cfg e = some u') (hagain : ¬u.RefusedAgain e) :
    u'.Accounted := by
  cases e with
  | isend m peer isendSeq length synchronous alloc sent => exact (h.isend hs).1
  | push m alloc sent => exact (h.pushFrags hs).1
  | retransmit m timedOut => exact (h.checkForRetransmits hs).1
  | ack ack => exact h.processAck hs hagain
  | free m => exact (h.freeAcked hs).1

end

/-- The states of runs in which no fragment is refused again. -/
inductive Reachable (cfg : UdpSettings) : UdpSender → Prop
  | init : Reachable cfg init
  | step {u u' : UdpSender} (e : Event) : Reachable cfg u → ¬u.RefusedAgain e →
      u.step cfg e = some u' → Reachable cfg u'

end UdpSender

end Lampi
