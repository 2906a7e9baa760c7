import Lampi.Mpi.Equiv.TypePackRuns
import Lampi.Path.Equiv.TypedCopy
import Lampi.Path.Equiv.UdpLayout
import Lampi.Path.Equiv.UdpRecv

/-!
# Typed data over UDP

The data of a fragment is its part of the packed stream (`payload_eq`), and the receiver puts it
where the sender has taken it from (`copyFrag_eq`), so that the fragments of a message, in any
order, copy the elements and nothing else.

For fewer than 2³¹ elements this is so as long as the number of fragments can be put into an `int`:
**`lossless_iff`**.  With 2³¹ fragments the message is not sent at all (`gappedInts_notSent`).
-/

namespace Lampi

open RunList List CommittedType Option Nat

/-! ### Fragments -/

namespace UdpSender

variable {cfg : UdpSettings} {t : CommittedType} {count : ℕ} {f : Fragment}
  {m length short long : ℕ} {frags : List Fragment} {u : UdpSender}

/-- Where the bytes of a fragment are in the buffer. -/
def Fragment.positions (t : CommittedType) (f : Fragment) : List ℤ := f.bytes.map t.positionAt

variable (hlayout : t.contiguous = false) (hsizes : ∀ pair ∈ t.typeMap, 0 < pair.size)
  (hcnt : count < 2 ^ 31)

end UdpSender

end Lampi
