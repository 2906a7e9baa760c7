import Lampi.Path.Equiv.Delivery
import Lampi.Path.Equiv.RecvFrag

/-!
# What a good acknowledgement of a UDP fragment means

`ProcessMatchedData` ignores the result of `CopyToAppLock`, and `AckData` goes by `DataOK`, which is
set for every UDP fragment when it arrives.  So a fragment is acknowledged as good and recorded as
delivered whether or not there was memory to copy it (**`UdpRecv.goodAck_iff`**).
`UdpRecv.copyToApp_eq` says which fragments of the abstract receiver are those whose copy fails.
-/

namespace Lampi

open Option

variable {d : UdpRecvFragDesc}

namespace UdpRecvFragDesc

variable {malloc shortMsg : Bool} {data : List UInt8} {datatype : Option CommittedType}
  {postedLength : ℕ} {frag : CopyFrag} {buf : Buffer}

/-- There is no memory for a fragment that needs it: its data is on the socket, the datatype has
gaps, and the receive has room for some of it. -/
def LacksMemory (malloc shortMsg : Bool) (datatype : Option CommittedType)
    (postedLength seqOffset : ℕ) : Prop :=
  malloc = false ∧ shortMsg = false ∧ isContiguous datatype = false ∧ seqOffset < postedLength

instance (malloc shortMsg : Bool) (datatype : Option CommittedType) (postedLength seqOffset : ℕ) :
    Decidable (LacksMemory malloc shortMsg datatype postedLength seqOffset) :=
  inferInstanceAs (Decidable (_ ∧ _))

/-- The contiguous copy of a fragment that has just arrived works. -/
lemma copyFunction_init (shortMsg : Bool) (data : List UInt8) (dest : ℤ) (length : ℕ)
    (buf : Buffer) :
    ∃ d buf', (init shortMsg data).copyFunction dest length buf = some (d, buf') ∧
      d.copyError = false := by
  cases shortMsg with
  | false => exact ⟨_, _, rfl, rfl⟩
  | true =>
    by_cases hlength : length = 0
    · subst hlength
      exact ⟨_, _, rfl, rfl⟩
    · refine ⟨init true data, buf.write (RunList.Run.positions ⟨length, dest⟩) data, ?_, rfl⟩
      exact if_neg hlength

lemma copyError_checkData (d : UdpRecvFragDesc) : d.checkData.2.copyError = d.copyError := by
  unfold checkData
  split_ifs <;> rfl

lemma checkData_eq_not (d : UdpRecvFragDesc) (h : d.copyError = true → d.Failed) :
    d.checkData.1 = !d.copyError := by
  cases herror : d.copyError with
  | false =>
    simp only [checkData, herror]
    split_ifs <;> rfl
  | true => exact (h herror).checkData

/-- `copyError` is set behind the loops of `non_contiguous_copy` if there was no memory, and then
nothing has been read. -/
lemma nonContiguousCopy_init (malloc shortMsg : Bool) (data : List UInt8) (t : CommittedType)
    (frag : CopyFrag) (buf : Buffer) :
    let d := (nonContiguousCopy (nonContigCopyFunction malloc) t frag (init shortMsg data, buf)).2.1
    (d.copyError = true → d.Failed) ∧ (d.copyError = true ↔ malloc = false ∧ shortMsg = false) := by
  intro d
  rcases memory_or_fails malloc shortMsg data with hmemory | ⟨rfl, rfl⟩
  · have hkeeps : ∀ (s : UdpRecvFragDesc × Buffer) (call : CopyCall),
        (s.1.Ready data ∧ (malloc = true ∨ s.1.addr = some data)) →
        (nonContigCopyFunction malloc s call).2.1.Ready data ∧
          (malloc = true ∨ (nonContigCopyFunction malloc s call).2.1.addr = some data) := by
      rintro ⟨d, buf⟩ call ⟨hready, hmemory⟩
      obtain ⟨-, ⟨hready', haddr⟩, -⟩ := nonContigCopyFunction_ready hready hmemory call buf
      exact ⟨hready', .inr haddr⟩
    have hready : d.Ready data :=
      (nonContiguousCopy_keeps hkeeps hkeeps ⟨ready_init shortMsg data, hmemory⟩).1
    have hmemory' : ¬(malloc = false ∧ shortMsg = false) := by
      rintro ⟨rfl, rfl⟩
      exact hmemory.elim Bool.false_ne_true nofun
    rw [hready.1]
    exact ⟨nofun, nofun, fun h => absurd h hmemory'⟩
  · have hfailed : d.Failed := by
      apply nonContiguousCopy_keeps
        (P := fun s : UdpRecvFragDesc × Buffer => s.1 = init false data)
        (Q := fun s : UdpRecvFragDesc × Buffer => s.1.Failed)
      · exact fun s call hs => (nonContigCopyFunction_fails (.inl hs) call s.2).1
      · intro s call hs
        have hfrag : s.1 = init false data ∨ s.1.Failed := .inr hs
        exact (nonContigCopyFunction_fails hfrag call s.2).1
      · rfl
    exact ⟨fun _ => hfailed, fun _ => ⟨rfl, rfl⟩, fun _ => hfailed.2.2.2⟩

/-- `CheckData` behind the copy: the data is rejected if there was no memory. -/
lemma checkData_answer {length : ℕ} {copied : Option (ℕ × UdpRecvFragDesc × Buffer)}
    (hcopied : copied = some (length, d, buf)) (hfailed : d.copyError = true → d.Failed) {P : Prop}
    (herror : d.copyError = true ↔ P) (bitBucket : ℕ) :
    ∃ answer d' buf', (copied.bind fun (length, d, buf) =>
        ((ops malloc).checkData d length).map fun (ok, d) =>
          (if ok then some (length, bitBucket) else none, d, buf)) = some (answer, d', buf') ∧
      answer.isSome = !d'.copyError ∧ (d'.copyError = true ↔ P) := by
  subst hcopied
  refine ⟨_, _, _, rfl, ?_, ?_⟩
  · show (if d.checkData.1 then some (length, bitBucket) else none).isSome =
      !d.checkData.2.copyError
    rw [copyError_checkData, checkData_eq_not d hfailed]
    cases d.copyError <;> rfl
  · show d.checkData.2.copyError = true ↔ P
    rw [copyError_checkData, herror]

/-- **`CopyToAppLock` returns `-1` for a UDP fragment just if there is no memory for it.** -/
theorem copyToAppLock_init (malloc shortMsg : Bool) (data : List UInt8)
    (datatype : Option CommittedType) (postedLength : ℕ) (frag : CopyFrag) (buf : Buffer) :
    ∃ bytes d buf', copyToAppLock (ops malloc) datatype postedLength frag
        (init shortMsg data, buf) = some (bytes, d, buf') ∧
      bytes.isSome = !d.copyError ∧
      (d.copyError = true ↔ LacksMemory malloc shortMsg datatype postedLength frag.seqOffset) := by
  simp only [copyToAppLock]
  by_cases hbehind : (postedLength : ℤ) - frag.seqOffset ≤ 0
  · rw [if_pos hbehind]
    refine ⟨_, _, _, rfl, rfl, fun htrue => absurd htrue Bool.false_ne_true, fun hlacks => ?_⟩
    have hroom : frag.seqOffset < postedLength := hlacks.2.2.2
    omega
  · rw [if_neg hbehind]
    have hroom : frag.seqOffset < postedLength := by omega
    generalize (if (postedLength : ℤ) - frag.seqOffset < frag.length then
      ((postedLength : ℤ) - frag.seqOffset).toNat else frag.length) = length
    -- contiguous copies need no memory
    obtain ⟨d, buf', hcopied, herror⟩ := copyFunction_init shortMsg data frag.seqOffset length buf
    have hfailed : d.copyError = true → d.Failed := fun htrue => absurd (herror ▸ htrue) (by decide)
    have hcontiguous : isContiguous datatype = true → (d.copyError = true ↔
        LacksMemory malloc shortMsg datatype postedLength frag.seqOffset) := by
      intro hlayout
      rw [herror]
      exact ⟨by rintro ⟨⟩, fun hlacks => absurd (hlayout ▸ hlacks.2.2.1) (by decide)⟩
    have hmap : ((ops malloc).copyFunction (init shortMsg data, buf) frag.seqOffset length).map
        (length, ·) = some (length, d, buf') := congrArg (Option.map _) hcopied
    cases datatype with
    | none => exact checkData_answer hmap hfailed (hcontiguous rfl) _
    | some t =>
      by_cases hlayout : t.contiguous = true
      · simp only [if_pos hlayout]
        exact checkData_answer hmap hfailed (hcontiguous hlayout) _
      · simp only [if_neg hlayout]
        obtain ⟨hfailed, herror⟩ := nonContiguousCopy_init malloc shortMsg data t frag buf
        refine checkData_answer rfl hfailed (herror.trans ?_) _
        exact ⟨fun hlacks => ⟨hlacks.1, hlacks.2, Bool.eq_false_iff.mpr hlayout, hroom⟩,
          fun hlacks => ⟨hlacks.1, hlacks.2.1⟩⟩

end UdpRecvFragDesc

namespace UdpRecv

open UdpRecvFragDesc

variable {malloc shortMsg : Bool} {datatype : Option CommittedType} {postedLength msgLength : ℕ}
  {buf buf' : Buffer} {bytes : Option (ℕ × ℕ)}

/-- The receiver of the reliability protocol and the copy of the bytes agree on which fragments are
accepted. -/
lemma copyToApp_eq {data : List UInt8} {header : DataHeader} {intact : Bool}
    (h : copyToAppLock (ops malloc) datatype postedLength
      ⟨header.seqOffset, header.length, msgLength⟩ (.init shortMsg data, buf) =
        some (bytes, d, buf')) :
    (RecvFragDesc.init .udp header intact).copyToApp .udp postedLength d.copyError =
      some (bytes.isSome, .init .udp header intact) := by
  obtain ⟨bytes', d', buf'', h', hbytes, herror⟩ := copyToAppLock_init malloc shortMsg data datatype
    postedLength ⟨header.seqOffset, header.length, msgLength⟩ buf
  obtain ⟨rfl, rfl, rfl⟩ : bytes' = bytes ∧ d' = d ∧ buf'' = buf' := by
    rw [h'] at h
    simpa only [some.injEq, Prod.mk.injEq] using h
  simp only [RecvFragDesc.copyToApp]
  split_ifs with hbehind
  · have hroom : d'.copyError = false := by
      apply Bool.eq_false_iff.mpr
      intro htrue
      have hroom : header.seqOffset < postedLength := (herror.mp htrue).2.2.2
      have hbehind' : (postedLength : ℤ) - header.seqOffset ≤ 0 := hbehind
      omega
    rw [hbytes, hroom]
    rfl
  · rw [hbytes]
    rfl

/-- `AckData` for a fragment that was not a duplicate when it arrived: it is recorded as delivered
and acknowledged as good, or else the process exits. -/
lemma ackData_init (me : ℕ) (header : DataHeader) (intact : Bool) (seqs : DataSeqs)
    (res : Resources) :
    let recorded := seqs.delivered.recordIfNotRecorded header.fragSeq header.fragSeq
    (recorded.2.1 = true → ∃ result,
      (RecvFragDesc.init .udp header intact).ackData .udp me seqs res = some result ∧
        (∃ ack, result.ack = some ack ∧ ack.ackStatus = .dataGood) ∧
        result.seqs.delivered = recorded.2.2) ∧
    (recorded.2.1 = false →
      (RecvFragDesc.init .udp header intact).ackData .udp me seqs res = none) := by
  intro recorded
  constructor
  · intro hrecorded
    refine ⟨_, map_eq_some_iff.mpr ⟨_, map_eq_some_iff.mpr ⟨_, if_pos hrecorded, rfl⟩,
      rfl⟩, ⟨_, rfl, rfl⟩, rfl⟩
  · intro hrecorded
    show Option.map _ (Option.map _ (if recorded.2.1 = true then _ else none)) = none
    rw [hrecorded]
    rfl

/-- What the copy returns has no influence on the acknowledgement. -/
lemma processMatchedData_eq {me : ℕ} (frag : RecvFragDesc) {desc : UdpRecvFragDesc}
    (hcopy : copyToAppLock (ops malloc) datatype postedLength
      ⟨frag.header.seqOffset, frag.header.length, msgLength⟩ (desc, buf) = some (bytes, d, buf'))
    (seqs : DataSeqs) (res : Resources) :
    processMatchedData me malloc datatype postedLength msgLength frag desc buf seqs res =
      (frag.ackData .udp me seqs res).map (bytes, ·) := by
  unfold processMatchedData
  rw [hcopy]
  rfl

/-- **Good acknowledgements of UDP fragments tell the truth unless there was no memory**: if a
fragment is acknowledged as good or recorded as delivered, `CopyToAppLock` has accepted it.  Without
memory the only other way out is that `AckData` finds the number recorded already, which ends the
process. -/
theorem goodAck_iff (me : ℕ) (malloc shortMsg : Bool) (datatype : Option CommittedType)
    (postedLength msgLength : ℕ) (header : DataHeader) (intact : Bool) (data : List UInt8)
    (buf : Buffer) (seqs : DataSeqs) (res : Resources) :
    (∀ bytes result, processMatchedData me malloc datatype postedLength msgLength
        (.init .udp header intact) (.init shortMsg data) buf seqs res = some (bytes, result) →
      (∃ ack, result.ack = some ack ∧ ack.ackStatus = .dataGood) ∨
        result.seqs.delivered ≠ seqs.delivered → bytes.isSome = true) ↔
    ¬LacksMemory malloc shortMsg datatype postedLength header.seqOffset ∨
      (seqs.delivered.recordIfNotRecorded header.fragSeq header.fragSeq).2.1 = false := by
  obtain ⟨bytes, d, buf', hcopy, hbytes, herror⟩ := copyToAppLock_init malloc shortMsg data datatype
    postedLength ⟨header.seqOffset, header.length, msgLength⟩ buf
  obtain ⟨hgood, hexit⟩ := ackData_init me header intact seqs res
  rw [processMatchedData_eq (.init .udp header intact) hcopy]
  constructor
  · intro htruthful
    by_contra hneither
    obtain ⟨hlacks, hrecorded⟩ := not_or.mp hneither
    obtain ⟨result, hresult, hack, -⟩ := hgood (Bool.not_eq_false _ ▸ hrecorded)
    have haccepted := htruthful bytes result (by rw [hresult]; rfl) (.inl hack)
    rw [hbytes, herror.mpr (not_not.mp hlacks)] at haccepted
    exact nomatch haccepted
  · rintro (hmemory | hrecorded) bytes' result h -
    · obtain ⟨_, -, heq⟩ := map_eq_some_iff.mp h
      obtain ⟨rfl, -⟩ := Prod.mk.inj heq
      rw [hbytes, Bool.eq_false_iff.mpr fun htrue => hmemory (herror.mp htrue)]
      rfl
    · rw [hexit hrecorded] at h
      exact nomatch h

/-- There is no memory for the second fragment of a message with gaps: `CopyToAppLock` returns `-1`,
and it is recorded as delivered and acknowledged as good. -/
theorem processMatchedData_noMemory :
    let received := (Reliability.newList.recordIfNotRecorded 1 2).2.2
    let delivered := (Reliability.newList.recordIfNotRecorded 1 1).2.2
    LacksMemory false false (some gappedInts) 4160 160 ∧
    ∃ result, processMatchedData 1 false (some gappedInts) 4160 4160
        (.init .udp ⟨2, 1, 160, 4000, .pt2pt, 7⟩ true) (.init false (List.replicate 4000 5))
        (fun _ => 0) ⟨received, delivered⟩ ⟨true, true⟩ = some (none, result) ∧
      result.ack = some ⟨1, 7, 1, 2, 2, 2, .dataGood⟩ ∧
      (result.seqs.delivered.isRecorded 2 2).1 = .complete := by
  intro received delivered
  have hlacks : LacksMemory false false (some gappedInts) 4160 160 := by decide
  refine ⟨hlacks, ?_⟩
  obtain ⟨bytes, d, buf', hcopy, hbytes, herror⟩ := copyToAppLock_init false false
    (List.replicate 4000 5) (some gappedInts) 4160 ⟨160, 4000, 4160⟩ fun _ => 0
  rw [herror.mpr hlacks] at hbytes
  obtain rfl : bytes = none := not_isSome_iff_eq_none.mp (hbytes ▸ Bool.false_ne_true)
  have hack : (((RecvFragDesc.init .udp ⟨2, 1, 160, 4000, .pt2pt, 7⟩ true).ackData .udp 1
      ⟨received, delivered⟩ ⟨true, true⟩).map fun result =>
        (result.ack, (result.seqs.delivered.isRecorded 2 2).1)) =
      some (some ⟨1, 7, 1, 2, 2, 2, .dataGood⟩, .complete) := by decide +kernel
  obtain ⟨result, hresult, heq⟩ := map_eq_some_iff.mp hack
  obtain ⟨hack, hrecorded⟩ := Prod.mk.inj heq
  refine ⟨result, ?_, hack, hrecorded⟩
  rw [processMatchedData_eq (.init .udp ⟨2, 1, 160, 4000, .pt2pt, 7⟩ true) hcopy, hresult, map_some]

end UdpRecv

end Lampi
