import Lampi.Path.UdpRecv

/-!
# The copy functions of UDP fragments

If there is memory, or the datagram has been read before, `nonContigCopyFunction` copies what it is
called for (`nonContigCopyFunction_ready`).  Otherwise it copies nothing, call after call, and says
so with the first answer only (`nonContigCopyFunction_fails`); `CheckData` tells.
-/

namespace Lampi

namespace UdpRecvFragDesc

variable {frag : UdpRecvFragDesc} {data : List UInt8}

/-- The data is in memory, or on the socket, and nothing has gone wrong. -/
def Ready (frag : UdpRecvFragDesc) (data : List UInt8) : Prop :=
  frag.copyError = false ∧ (frag.addr = some data ∨ (frag.shortMsg = false ∧ frag.addr = none ∧
    frag.dataReadFromSocket = false ∧ frag.datagram = data))

lemma ready_init (shortMsg : Bool) (data : List UInt8) : (init shortMsg data).Ready data := by
  cases shortMsg with
  | true => exact ⟨rfl, .inl rfl⟩
  | false => exact ⟨rfl, .inr ⟨rfl, rfl, rfl, rfl⟩⟩

/-- There is memory for the data, or it has been read with the header. -/
lemma memory_or_fails (malloc shortMsg : Bool) (data : List UInt8) :
    (malloc = true ∨ (init shortMsg data).addr = some data) ∨
      malloc = false ∧ shortMsg = false := by
  cases malloc <;> cases shortMsg <;> simp [init]

lemma Ready.checkData (h : frag.Ready data) : frag.checkData.1 = true := by
  rw [UdpRecvFragDesc.checkData, h.1]
  split_ifs <;> rfl

/-- **The copy function copies what it is called for**, if there is memory. -/
theorem nonContigCopyFunction_ready {malloc : Bool} (hready : frag.Ready data)
    (hmemory : malloc = true ∨ frag.addr = some data) (call : CopyCall) (buf : Buffer) :
    let r := nonContigCopyFunction malloc (frag, buf) call
    r.1 = call.length ∧ (r.2.1.Ready data ∧ r.2.1.addr = some data) ∧
      r.2.2 = buf.write call.positions (data.drop call.src) := by
  have hnothing : call.length = 0 → buf = buf.write call.positions (data.drop call.src) := by
    intro hzero
    rw [CopyCall.positions, hzero]
    rfl
  obtain ⟨herror, haddr | ⟨hshort, haddr, hread, rfl⟩⟩ := hready
  · simp only [nonContigCopyFunction, haddr, Option.isSome_some, Bool.or_true, if_true]
    split_ifs with hzero
    · exact ⟨hzero.symm, ⟨⟨herror, .inl haddr⟩, haddr⟩, hnothing hzero⟩
    · refine ⟨rfl, ⟨⟨herror, .inl haddr⟩, haddr⟩, ?_⟩
      rw [bcopy, haddr]
      rfl
  · obtain rfl : malloc = true := hmemory.resolve_right (by rw [haddr]; nofun)
    simp only [nonContigCopyFunction, hshort, haddr, hread, herror, Option.isSome_none,
      Bool.or_false, Bool.not_false, Bool.and_true, Bool.not_true, Bool.false_eq_true, if_false,
      if_true]
    split_ifs with hzero
    · exact ⟨hzero.symm, ⟨⟨rfl, .inl rfl⟩, rfl⟩, hnothing hzero⟩
    · exact ⟨rfl, ⟨⟨rfl, .inl rfl⟩, rfl⟩, rfl⟩

/-- The data is on the socket, and there was no memory for it. -/
def Failed (frag : UdpRecvFragDesc) : Prop :=
  frag.shortMsg = false ∧ frag.addr = none ∧ frag.dataReadFromSocket = false ∧ frag.copyError = true

/-- **Without memory nothing is copied.** -/
theorem nonContigCopyFunction_fails
    (hfrag : frag = init false data ∨ frag.Failed) (call : CopyCall) (buf : Buffer) :
    (nonContigCopyFunction false (frag, buf) call).2.1.Failed ∧
      (nonContigCopyFunction false (frag, buf) call).2.2 = buf := by
  rcases hfrag with rfl | ⟨hshort, haddr, hread, herror⟩
  · exact ⟨⟨rfl, rfl, rfl, rfl⟩, rfl⟩
  · simp only [nonContigCopyFunction, hshort, haddr, hread, herror, Option.isSome_none,
      Bool.or_false, Bool.not_true, Bool.and_false, Bool.false_eq_true, if_false]
    exact ⟨⟨hshort, haddr, hread, herror⟩, trivial⟩

lemma Failed.checkData (h : frag.Failed) : frag.checkData.1 = false := by
  obtain ⟨-, -, hread, herror⟩ := h
  rw [UdpRecvFragDesc.checkData, hread, herror]
  rfl

end UdpRecvFragDesc

end Lampi
