import Lampi.Path.SendFrag

/-!
# Resending, down to the links of the lists

The lists of fragments are of class `DoubleLinkList`: the elements are linked to each other and to
two ends of the list, and the list keeps its length apart from the links.  `RemoveLinkNoLock` trusts
the length, and takes its caller's word that the element is on the list.

Here `BasePath_t::resend` is modelled with these lists, for one message on the UDP path: its
`FragsToAck` and `FragsToSend`, and the list of free descriptors.  `none` stands for a crash: a
failed assertion, `ulm_exit`, or the use of something as a fragment that is none.
-/

namespace Lampi

open Function

/-! ### `DoubleLinkList` -/

/-- What links point to: nothing, an end of a list, or a fragment descriptor. -/
inductive LinkAddr
  | null
  | head (list : FragQueue)
  | tail (list : FragQueue)
  | desc (d : ℕ)
  deriving DecidableEq, Repr

/-- A message with its fragments: links and lengths of the lists, the descriptors, what destinations
have acknowledged, and what `resend` uses of `SendDesc_t`.  `self` is its address;
`earliestTimeToResend` is `none` for -1. -/
structure LinkedMessage where
  self : ℕ
  next : LinkAddr → LinkAddr
  prev : LinkAddr → LinkAddr
  length : FragQueue → ℤ
  frags : ℕ → SendFragDesc
  ackInfo : ℕ → AckInfo
  numSent : ℤ
  numAcked : ℤ
  earliestTimeToResend : Option ℕ

namespace LinkedMessage

variable (s : LinkedMessage)

def setFrag (d : ℕ) (f : SendFragDesc → SendFragDesc) : LinkedMessage :=
  { s with frags := update s.frags d (f (s.frags d)) }

/-- `RemoveLinkNoLock`: the element before the one it takes out, or `none` for `NULL`. -/
def removeLinkNoLock (list : FragQueue) (link : LinkAddr) :
    Option (Option LinkAddr × LinkedMessage) :=
  if s.length list = 0 then some (none, s)
  else
    let prv := s.prev link
    let nxt := s.next link
    if prv = .null ∨ nxt = .null then none
    else some (some prv, { s with
      next := update s.next prv nxt
      prev := update s.prev nxt prv
      length := update s.length list (s.length list - 1) })

/-- `AppendNoLock`. -/
def appendNoLock (list : FragQueue) (element : LinkAddr) : LinkedMessage :=
  let lastEle := s.prev (.tail list)
  { s with
    next := update (update s.next lastEle element) element (.tail list)
    prev := update (update s.prev element lastEle) (.tail list) element
    length := update s.length list (s.length list + 1) }

/-! ### Freeing descriptors -/

/-- `udpSendFragDesc::freeResources` for this message. -/
def freeResourcesUdp (d : ℕ) : Option LinkedMessage :=
  let whichQueue := (s.frags d).whichQueue
  let s := s.setFrag d fun frag => { frag with whichQueue := .freeList }
  let taken : Option LinkedMessage := match whichQueue with
    | .fragsToAck => (s.removeLinkNoLock .fragsToAck (.desc d)).map Prod.snd
    | .fragsToSend => (s.removeLinkNoLock .fragsToSend (.desc d)).map fun (_, s) =>
        { s with numSent := s.numSent + 1 }
    | .freeList => none
  taken.map fun s =>
    (s.setFrag d fun frag => { frag with fragSeq := 0, parentSendDesc := none }).appendNoLock
      .freeList (.desc d)

/-- `BasePath_t::freeResources`. -/
def freeDelivered (d : ℕ) : Option LinkedMessage :=
  let s := { s with numAcked := s.numAcked + 1 }
  if (s.frags d).sendDidComplete then
    if (s.frags d).parentSendDesc = some s.self then
      (s.freeResourcesUdp d).map fun s =>
        s.setFrag d fun frag => { frag with fragSeq := 0, parentSendDesc := none }
    else none
  else some s

end LinkedMessage

/-! ### `resend` -/

/-- The times that `resend` depends on: `RETRANS_TIME`, what `dclock` returns when the loop is at a
fragment, and for each fragment when it was sent and how many times. -/
structure ResendClock where
  retransTime : ℕ
  curTime : ℕ → ℕ
  timeSent : ℕ → ℕ
  numTransmits : ℕ → ℕ

namespace ResendClock

variable (clock : ResendClock)

/-- `max_multiple`, with `MAXRETRANS_POWEROFTWO_MULTIPLE` 8. -/
def maxMultiple (d : ℕ) : ℕ :=
  if clock.numTransmits d < 8 then 2 ^ clock.numTransmits d else 2 ^ 8

def timedOut (d : ℕ) : Bool :=
  decide ((clock.curTime d : ℤ) - clock.timeSent d ≥ clock.retransTime * clock.maxMultiple d)

def timeToResend (d : ℕ) : ℕ := clock.timeSent d + clock.retransTime * clock.maxMultiple d

end ResendClock

namespace LinkedMessage

/-- `delivered_seq_no >= FragDesc->fragSequence()`. -/
def covers (s : LinkedMessage) (d : ℕ) : Bool :=
  decide ((s.ackInfo (s.frags d).globalDestProc).deliveredLargestInorderSeq ≥ (s.frags d).fragSeq)

/-- The body of the loop in `resend`: the value of `FragDesc` at its end, and the message. -/
def resendFrag (clock : ResendClock) (s : LinkedMessage) (d : ℕ) :
    Option (LinkAddr × LinkedMessage) :=
  if s.covers d then
    (s.removeLinkNoLock .fragsToAck (.desc d)).bind fun (tmpDesc, s) =>
      (s.freeDelivered d).map fun s => (tmpDesc.getD (.desc d), s)
  else if clock.timedOut d then
    let s := s.setFrag d fun frag => { frag with whichQueue := .fragsToSend }
    (s.removeLinkNoLock .fragsToAck (.desc d)).bind fun (tmpDesc, s) =>
      let s := s.appendNoLock .fragsToSend (.desc d)
      let s := s.setFrag d fun frag => { frag with sendDidComplete := false }
      let s := { s with numSent := s.numSent - 1 }
      -- `FragDesc` becomes `TmpDesc` even if that is `NULL`, and is used right after
      tmpDesc.map fun tmpDesc => (tmpDesc, s)
  else
    let timeToResend := clock.timeToResend d
    let earliest := match s.earliestTimeToResend with
      | none => timeToResend
      | some earliest => if timeToResend < earliest then timeToResend else earliest
    some (.desc d, { s with earliestTimeToResend := some earliest })

/-- The loop of `resend`, with at most `rounds` rounds. -/
def resendLoop (clock : ResendClock) : ℕ → LinkAddr → LinkedMessage → Option LinkedMessage
  | 0, _, _ => none
  | _ + 1, .tail .fragsToAck, s => some s
  | rounds + 1, .desc d, s =>
    (s.resendFrag clock d).bind fun (fragDesc, s) => resendLoop clock rounds (s.next fragDesc) s
  | _ + 1, _, _ => none

/-- `BasePath_t::resend`. -/
def resend (clock : ResendClock) (rounds : ℕ) (s : LinkedMessage) : Option LinkedMessage :=
  let s := { s with earliestTimeToResend := none }
  resendLoop clock rounds (s.next (.head .fragsToAck)) s

/-- `BasePath_t::retransmitP`, when `dclock` returns `now`.  UDP has `doAck`. -/
def retransmitP (s : LinkedMessage) (now : ℕ) : Bool :=
  match s.earliestTimeToResend with
  | none => false
  | some earliest => decide (s.length .fragsToAck ≠ 0) && decide (now ≥ earliest)

end LinkedMessage

end Lampi
