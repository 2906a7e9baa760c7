import Lampi.Path.Reliability

/-!
# Which fragments `NumAcked` has counted

`NumAcked` of a message goes up in three places: in `handlePt2PtMessageAck`, in
`BasePath_t::freeResources` for `resend`, and in `gmPath::callback` when there are no
acknowledgements.  A ledger watches a run and notes, for each message, the fragments it has got and,
for each step of `NumAcked`, the fragment whose descriptor the operation was working on.
-/

namespace Lampi

/-- The fragment in descriptor `d`: the descriptor, and how many fragments it has carried. -/
def Sender.fragIn (s : Sender) (d : ℕ) : ℕ × ℕ := (d, (s.carried d).length)

/-- For each message, the fragments it has got since it was started, and those that `NumAcked` has
counted. -/
structure Ledger where
  frags : ℕ → List (ℕ × ℕ)
  acked : ℕ → List (ℕ × ℕ)

namespace Ledger

def empty : Ledger := ⟨fun _ => [], fun _ => []⟩

/-- The entries for an operation on descriptor `d`, one for each step of `NumAcked`. -/
def tally (L : Ledger) (d : ℕ) (s s' : Sender) : Ledger :=
  { L with
    acked := fun m => L.acked m ++
      List.replicate ((s'.messages m).numAcked - (s.messages m).numAcked).toNat (s.fragIn d) }

def tallyResend (path : Path) (m : ℕ) (timedOut : ℕ → Bool) : List ℕ → Sender → Ledger → Ledger
  | [], _, L => L
  | d :: ds, s, L =>
    match s.resendFrag path m timedOut d with
    | some s' => tallyResend path m timedOut ds s' (L.tally d s s')
    | none => L

/-- The entries for an event that leads from `s` to `s'`. -/
def step (path : Path) (L : Ledger) (s : Reliability) (e : Reliability.Event) (s' : Reliability) :
    Ledger :=
  match e with
  | .isend m _ _ _ => ⟨Function.update L.frags m [], Function.update L.acked m []⟩
  | .initFrag d m _ _ =>
    { L with frags := Function.update L.frags m (L.frags m ++ [s'.sender.fragIn d]) }
  | .callback d _ => L.tally d s.sender s'.sender
  | .resend m timedOut =>
    tallyResend path m timedOut (s.sender.messages m).fragsToAck s.sender L
  | .deliverAck i =>
    match s.acks[i]? with
    | some ack => L.tally ack.sendFragDesc s.sender s'.sender
    | none => L
  | _ => L

def run (path : Path) (s : Reliability) (L : Ledger) :
    List Reliability.Event → Option (Reliability × Ledger)
  | [] => some (s, L)
  | e :: events =>
    (s.step path e).bind fun s' => run path s' (L.step path s e s') events

end Ledger

end Lampi
