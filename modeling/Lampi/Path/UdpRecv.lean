import Lampi.Path.UdpSend

/-!
# Fragments received on the UDP path

The header of a UDP fragment has its index in the message.  Where its data belongs is computed from
the index.

A short datagram is read at once, into the descriptor.  Of a long one only the header has been
looked at, and its data stays on the socket until it is copied: for contiguous data right into the
buffer of the application, otherwise into memory that is allocated for it.  `ProcessMatchedData`
copies a fragment and acknowledges it, whatever the copy said.
-/

namespace Lampi

namespace UdpRecv

/-- `udpRecvFragDesc::dataOffset`. -/
def dataOffset (cfg : UdpSettings) (fragIndex : ℕ) : ℕ :=
  if fragIndex = 0 then 0
  else cfg.maxShortPayloadSize + cfg.maxPayloadSize * (fragIndex - 1)

end UdpRecv

/-- The fields of `udpRecvFragDesc` that copying depends on, and the data of the datagram.  `addr`
is what `addr_m` points to. -/
structure UdpRecvFragDesc where
  shortMsg : Bool
  datagram : List UInt8
  addr : Option (List UInt8)
  dataReadFromSocket : Bool
  copyError : Bool
  pt2ptNonContig : Bool
  deriving DecidableEq, Repr

namespace UdpRecvFragDesc

/-- The descriptor as `pullFrags` and `processMessage` leave it. -/
def init (shortMsg : Bool) (datagram : List UInt8) : UdpRecvFragDesc where
  shortMsg := shortMsg
  datagram := datagram
  addr := if shortMsg then some datagram else none
  dataReadFromSocket := shortMsg
  copyError := false
  pt2ptNonContig := false

/-- `bcopy` of `length` bytes from `src` bytes into `addr_m`. -/
def bcopy (frag : UdpRecvFragDesc) (call : CopyCall) (buf : Buffer) : Buffer :=
  buf.write call.positions ((frag.addr.getD []).drop call.src)

/-- `udpRecvFragDesc::nonContigCopyFunction`: the length it says it has copied, the descriptor and
the buffer.  The address it is given is `call.src` bytes into `addr_m` if that was set before, and
otherwise the offset itself; `pt2ptNonContig` tells which, and the bytes are the same. -/
def nonContigCopyFunction (malloc : Bool) (s : UdpRecvFragDesc × Buffer) (call : CopyCall) :
    ℕ × (UdpRecvFragDesc × Buffer) :=
  let (frag, buf) := s
  if frag.shortMsg || frag.addr.isSome then
    if call.length = 0 then (0, frag, buf) else (call.length, frag, frag.bcopy call buf)
  else if !frag.dataReadFromSocket && !frag.copyError then
    if !malloc then (0, { frag with copyError := true }, buf)
    else
      let frag := { frag with
        addr := some frag.datagram
        dataReadFromSocket := true
        pt2ptNonContig := true }
      if call.length = 0 then (0, frag, buf) else (call.length, frag, frag.bcopy call buf)
  else (call.length, frag, buf)

/-- `udpRecvFragDesc::CopyFunction`, for `length` bytes to `dest` in the buffer; `none` stands for
`ulm_exit`. -/
def copyFunction (frag : UdpRecvFragDesc) (dest : ℤ) (length : ℕ) (buf : Buffer) :
    Option (UdpRecvFragDesc × Buffer) :=
  let positions := RunList.Run.positions ⟨length, dest⟩
  if frag.shortMsg || frag.addr.isSome then
    if length = 0 then some (frag, buf) else some (frag, buf.write positions (frag.addr.getD []))
  else if frag.dataReadFromSocket then none
  else some ({ frag with dataReadFromSocket := true }, buf.write positions frag.datagram)

/-- `udpRecvFragDesc::CheckData`. -/
def checkData (frag : UdpRecvFragDesc) : Bool × UdpRecvFragDesc :=
  if !frag.dataReadFromSocket then (!frag.copyError, { frag with dataReadFromSocket := true })
  else (true, frag)

/-- The functions of UDP fragments; `malloc` tells whether there is memory.  `MarkDataOK` is the
empty one of the base class. -/
def ops (malloc : Bool) : FragOps UdpRecvFragDesc where
  copyFunction s dest length := s.1.copyFunction dest length s.2
  nonContigCopyFunction := nonContigCopyFunction malloc
  checkData frag _ := some frag.checkData
  markDataOK frag := frag

end UdpRecvFragDesc

/-- The fragment is copied to the buffer of the receive by `non_contiguous_copy`, if there is
memory.  Its sender has chosen the socket. -/
def UdpRecv.copyFrag (cfg : UdpSettings) (t : CommittedType) (msgLength : ℕ)
    (f : UdpSender.Fragment) (datagram : List UInt8) (buf : Buffer) : Buffer :=
  let shortMsg := decide (f.fragIndex = 0 ∨ f.length ≤ cfg.maxShortPayloadSize)
  let frag : CopyFrag := ⟨dataOffset cfg f.fragIndex, f.length, msgLength⟩
  let copied := nonContiguousCopy (UdpRecvFragDesc.nonContigCopyFunction true) t frag
    (.init shortMsg datagram, buf)
  copied.2.2

/-- `Communicator::ProcessMatchedData` in process `me`, for a fragment matched with a receive of
length `postedLength`: what `CopyToAppLock` returned, `none` being `-1`, and what `AckData` did.
`frag` is the part of the descriptor that the base class keeps, with `DataOK`, which no copy of UDP
fragments writes. -/
def UdpRecv.processMatchedData (me : ℕ) (malloc : Bool) (datatype : Option CommittedType)
    (postedLength msgLength : ℕ) (frag : RecvFragDesc) (desc : UdpRecvFragDesc) (buf : Buffer)
    (seqs : DataSeqs) (res : Resources) : Option (Option (ℕ × ℕ) × AckResult) :=
  (copyToAppLock (UdpRecvFragDesc.ops malloc) datatype postedLength
    ⟨frag.header.seqOffset, frag.header.length, msgLength⟩ (desc, buf)).bind fun (bytes, _) =>
      (frag.ackData .udp me seqs res).map fun result => (bytes, result)

end Lampi
