import Lampi.Collective.Equiv.BcastInterhost
import Lampi.Collective.Equiv.BcastLogs
import Lampi.Collective.Equiv.BcastOnHost
import Lampi.Mpi.Equiv.Datatype

/-!
# Broadcast delivers the data of the root

The exchange between the hosts and the loops on the hosts are put together.  If the calls of
`type_pack` come to the end of the array, then all runs of `ulm_bcast` end in one state
(**`ulmBcast_completes`**), in which each process has what its representative has passed on.

Two things go wrong in the code.  With several hosts it divides by the packed size of the type,
which is zero for a type without bytes.  And the room in the shared buffer is taken to be the extent
of the data, not its packed size: a type may have bytes but an extent of zero, and then `type_pack`
passes over all of them.  A contiguous type of extent zero is divided by.  `BcastSupported` excludes
these cases, and **`ulmBcast_correct_iff`** says that the broadcast is right in just the others.
-/

namespace Lampi

open SharedMemory ulmBcast typePack HostLayout List

/-! ### The processes of a host -/

variable {p : ℕ}

section Hosts

variable (layout : HostLayout) (root : ℕ) {h : ℕ}

def bcastMembers (h : ℕ) : Finset ℕ := (layout.procsOn h).toFinset

lemma mem_bcastMembers {layout : HostLayout} :
    p ∈ bcastMembers layout h ↔ p ∈ layout.procsOn h := mem_toFinset

lemma bcastMembers_disjoint {h' : ℕ} (hp : p ∈ bcastMembers layout h)
    (hp' : p ∈ bcastMembers layout h') : h = h' :=
  (hostOf_eq (mem_bcastMembers.mp hp)).symm.trans (hostOf_eq (mem_bcastMembers.mp hp'))

def layoutEpochs (first : ℕ) (counter : ℕ → ℤ) : Epochs ℕ ℕ BcastCell Bool :=
  bcastEpochs (bcastMembers layout) (bcastMembers_disjoint layout) (layout.representative root)
    first counter

variable {layout root} {groups : ℕ → Group}
  (hgroups : ∀ p < layout.nproc, (groups p).OnHosts layout p) (hroot : root < layout.nproc)

include hgroups hroot in
lemma exists_hostMembers (hh : h < layout.nhost) :
    ∃ r, HostMembers (bcastMembers layout) (layout.representative root) h
      (layout.procsOn h).length r (procOn layout h) fun x => groups (procOn layout h x) := by
  obtain ⟨r, hr, hrep⟩ := exists_procOn (representative_mem hroot hh)
  have hgroup : ∀ x < (layout.procsOn h).length,
      (groups (procOn layout h x)).OnHosts layout (procOn layout h x) :=
    fun x hx => hgroups _ (lt_nproc_of_mem (procOn_mem hx))
  refine ⟨r, ⟨?_, fun p => ?_, hr, hrep.symm, fun x hx => (hgroup x hx).self, fun x hx => ?_,
    fun x hx => ?_⟩⟩
  · exact fun x hx y hy => procOn_inj hx hy
  · rw [mem_bcastMembers]
    constructor
    · exact exists_procOn
    · rintro ⟨x, hx, rfl⟩
      exact procOn_mem hx
  · rw [(hgroup x hx).selfHost, hostOf_eq (procOn_mem hx)]
  · rw [(hgroup x hx).onHostGroupSize, hostOf_eq (procOn_mem hx)]

end Hosts

/-! ### All hosts -/

variable {G : Type}

section AllHosts

variable {layout : HostLayout} {root : ℕ} {groups : ℕ → Group} {first : ℕ} {counter : ℕ → ℤ}
  {γ : Type}

lemma leads_hosts_frame {D : Discipline ℕ (Word ℕ) BcastCell G} {prog prog' : ℕ → BcastProg γ}
    {g : G}
    (hrun : ∀ h < layout.nhost, ∀ s : System ℤ (List UInt8) UInt8 γ D,
      (∀ p ∈ layout.procsOn h, s.procs p = prog p) →
      (∀ p ∈ layout.procsOn h, s.config.state p = g) →
      ∃ s', Frame (procOn layout h) (layout.procsOn h).length s s' ∧
        ∀ p ∈ layout.procsOn h, s'.procs p = prog' p)
    {s : System ℤ (List UInt8) UInt8 γ D} (hprocs : ∀ p < layout.nproc, s.procs p = prog p)
    (hstate : ∀ p < layout.nproc, s.config.state p = g) :
    ∃ s', Leads s s' ∧ s'.config.shared.chan = s.config.shared.chan ∧
      ∀ p < layout.nproc, s'.procs p = prog' p := by
  -- the processes of the hosts from `m` on are where they were
  obtain ⟨s', hleads, ⟨hchan, -⟩, hran⟩ := leads_hosts
    (fun m c => c.shared.chan = s.config.shared.chan ∧
      ∀ p < layout.nproc, m ≤ layout.hostOf p → c.state p = g)
    (fun h hh s1 hprocs1 ⟨hchan, hwait⟩ => by
      obtain ⟨s2, hframe, hprocs2⟩ := hrun h hh s1 hprocs1
        fun p hp => hwait p (lt_nproc_of_mem hp) (hostOf_eq hp).ge
      refine ⟨s2, hframe.leads, ⟨hframe.chan.trans hchan, fun p hp hle => ?_⟩, hprocs2,
        fun p hp => hframe.procs p (procOn_ne hp)⟩
      have hnot : p ∉ layout.procsOn h := fun hin => by
        rw [hostOf_eq hin] at hle
        exact Nat.not_succ_le_self h hle
      exact (hframe.state p (procOn_ne hnot)).trans (hwait p hp (Nat.le_of_succ_le hle)))
    hprocs ⟨rfl, fun p hp _ => hstate p hp⟩
  exact ⟨s', hleads, hchan, hran⟩

variable {copyBufferSize count calls rounds : ℕ} {type : CommittedType} {rest : List ℤ}
  {st : ℕ → BcastState}

/-- What a process has in the end, if these were the states after the exchange between the hosts. -/
def afterOnHost (layout : HostLayout) (root : ℕ) (rest : List ℤ) (st : ℕ → BcastState) (p : ℕ) :
    BcastState :=
  ⟨(st p).buf.copy (st (layout.representative root (layout.hostOf p))).buf rest, (st p).log⟩

lemma leads_disperse_hosts (hgroups : ∀ p < layout.nproc, (groups p).OnHosts layout p)
    (hroot : root < layout.nproc) (hfirst : first = 0 ∨ first = 1)
    (hcalls : Calls type copyBufferSize count calls .init rest) (hrounds : calls ≤ rounds)
    {s : System ℤ (List UInt8) UInt8 (Except BcastFault BcastState)
      (layoutEpochs layout root first counter).discipline}
    (hprocs : ∀ p < layout.nproc, s.procs p =
      (if first = 0 then pure (counter (groups p).selfHost)
        else smpSWBarrier (groups p) (counter (groups p).selfHost)) >>= fun releaseCnt =>
        disperse (groups p) (layout.representative root (layout.hostOf p)) copyBufferSize count type
          rounds releaseCnt .init (st p))
    (hstate : ∀ p < layout.nproc, s.config.state p = ⟨0, false, false⟩) :
    ∃ s', Leads s s' ∧ s'.config.shared.chan = s.config.shared.chan ∧
      ∀ p < layout.nproc, s'.procs p = .done (.ok (afterOnHost layout root rest st p)) := by
  refine leads_hosts_frame (fun h hh s hprocs hstate => ?_) hprocs hstate
  obtain ⟨r, H⟩ := exists_hostMembers hgroups hroot hh
  set n := (layout.procsOn h).length with hn
  have hrelease : ∀ e : ℕ,
      counter h + e * n + n = (layoutEpochs layout root first counter).release h e := by
    intro e
    have hcard : ((layoutEpochs layout root first counter).members h).card = n := H.card
    rw [Epochs.release, hcard, add_assoc, mul_comm]
    rfl
  have hstate0 : ∀ x < n, s.config.state (procOn layout h x) = ⟨0, false, (fun _ => false) x⟩ :=
    fun x hx => hstate _ (procOn_mem hx)
  obtain ⟨s1, hframe1, hstate1, hprocs1⟩ : ∃ s1, Frame (procOn layout h) n s s1 ∧
      (∀ x < n, s1.config.state (procOn layout h x) = ⟨first, false, false⟩) ∧
      ∀ x < n, s1.procs (procOn layout h x) = disperse (groups (procOn layout h x))
        (layout.representative root h) copyBufferSize count type rounds (counter h + first * n)
        .init (st (procOn layout h x)) := by
    have hprocs' := fun x hx => hprocs _ (procOn_mem (h := h) (x := x) hx)
    rcases hfirst with rfl | rfl
    · refine ⟨s, Frame.refl s, hstate0, fun x hx => ?_⟩
      rw [hprocs' x hx, if_pos rfl, pure_bind, H.selfHost x hx, hostOf_eq (procOn_mem hx),
        Int.natCast_zero, zero_mul, add_zero]
    · obtain ⟨s1, hframe1, -, hstate1, hprocs1⟩ := leads_barrier H.inj H.mem
        (by rw [← hrelease, Int.natCast_zero, zero_mul, add_zero]) hstate0
        (fun x _ h => absurd rfl h)
        (fun x => disperse (groups (procOn layout h x)) (layout.representative root h)
          copyBufferSize count type rounds (counter h + (1 : ℕ) * n) .init (st (procOn layout h x)))
        (fun x hx => by
          rw [hprocs' x hx, if_neg one_ne_zero, smpSWBarrier_bind, H.selfHost x hx,
            H.onHostGroupSize x hx, hostOf_eq (procOn_mem hx), Int.natCast_one, one_mul])
      exact ⟨s1, hframe1, hstate1, hprocs1⟩
  obtain ⟨s2, hframe2, hran⟩ := leads_disperse H hcalls first rounds (counter h + first * n)
    (fun x => st (procOn layout h x)) (fun _ => pure) s1 bcastPhase_first hrounds (hrelease first)
    hstate1 (fun x hx => by rw [hprocs1 x hx, bind_pure])
  refine ⟨s2, hframe1.trans hframe2, fun p hp => ?_⟩
  obtain ⟨x, hx, rfl⟩ := exists_procOn hp
  rw [hran x hx, afterOnHost, hostOf_eq hp, H.rep_eq]
  rfl

end AllHosts

/-! ### One host or several -/

section Representatives

variable {layout : HostLayout} {root : ℕ} (hroot : root < layout.nproc)

include hroot

lemma nhost_le_nproc : layout.nhost ≤ layout.nproc := by
  have hle := Finset.card_le_card_of_injOn (s := Finset.range layout.nhost)
    (t := Finset.range layout.nproc) (layout.representative root)
    (fun h hh => Finset.mem_coe.mpr (Finset.mem_range.mpr
      (lt_nproc_of_mem (representative_mem hroot (Finset.mem_range.mp hh)))))
    (fun h hh h' hh' heq => by
      rw [← hostOf_representative hroot (Finset.mem_range.mp hh), heq,
        hostOf_representative hroot (Finset.mem_range.mp hh')])
  rwa [Finset.card_range, Finset.card_range] at hle

/-- **One process per host** means that everybody is a representative. -/
theorem nproc_eq_nhost_iff :
    layout.nproc = layout.nhost ↔ ∀ p < layout.nproc, Represents layout root p := by
  constructor
  · intro heq
    have himage : (Finset.range layout.nhost).image (layout.representative root) =
        Finset.range layout.nproc := by
      apply Finset.eq_of_subset_of_card_le
      · intro p hp
        obtain ⟨h, hh, rfl⟩ := Finset.mem_image.mp hp
        exact Finset.mem_range.mpr
          (lt_nproc_of_mem (representative_mem hroot (Finset.mem_range.mp hh)))
      · rw [Finset.card_range, Finset.card_image_of_injOn, Finset.card_range, heq]
        intro h hh h' hh' hrep
        rw [← hostOf_representative hroot (Finset.mem_range.mp hh), hrep,
          hostOf_representative hroot (Finset.mem_range.mp hh')]
    intro p hp
    rw [← Finset.mem_range, ← himage, Finset.mem_image] at hp
    obtain ⟨h, hh, rfl⟩ := hp
    rw [Represents, hostOf_representative hroot (Finset.mem_range.mp hh)]
  · intro hall
    refine le_antisymm ?_ (nhost_le_nproc hroot)
    have hle := Finset.card_le_card_of_injOn (s := Finset.range layout.nproc)
      (t := Finset.range layout.nhost) layout.hostOf
      (fun p hp => Finset.mem_coe.mpr (Finset.mem_range.mpr (hostOf_lt (Finset.mem_range.mp hp))))
      (fun p hp q hq heq => by
        rw [hall p (Finset.mem_range.mp hp), heq]
        exact (hall q (Finset.mem_range.mp hq)).symm)
    rwa [Finset.card_range, Finset.card_range] at hle

lemma afterInterhost_one (hone : layout.nhost = 1) (tags ps : List ℤ) (st : ℕ → BcastState)
    (hp : p < layout.nproc) : afterInterhost layout root tags ps st p = st p := by
  rw [afterInterhost]
  split_ifs with hrep
  · have hhost : ∀ {q}, q < layout.nproc → layout.hostOf q = 0 := fun hq =>
      Nat.lt_one_iff.mp (hone ▸ hostOf_lt hq)
    obtain rfl : p = root := by
      rw [hrep, hhost hp, ← hhost hroot, representative_hostOf_root]
    have hnode : bcastNodeOf layout p p = 0 := by
      rw [bcastNodeOf, hone, Nat.mod_one]
    have hlog : ∀ tag, fanOutLog layout.nhost (bcastNode layout p) tag 0 = [] := by
      intro tag
      rw [hone]
      rfl
    rw [Buffer.copy_self, hnode, flatMap_eq_nil_iff.mpr fun tag _ => hlog tag, append_nil]
  · rfl

end Representatives

/-! ### The whole broadcast -/

section Broadcast

variable {layout : HostLayout} {root : ℕ} {groups : ℕ → Group} {α : Type} {nproc : ℕ}

/-- The configuration in which all processes have entered the function. -/
def bcastConfig (layout : HostLayout) (root first : ℕ) (counter : ℕ → ℤ) (mem : BcastCell → UInt8) :
    Config ℤ (List UInt8) UInt8 (layoutEpochs layout root first counter).discipline where
  shared :=
    { chan := fun _ => []
      mem := mem
      flags := fun
        | .flag _ => 0
        | .counter host => counter host }
  state _ := ⟨0, false, false⟩
  possible h := by
    refine ⟨0, fun _ _ => Or.inl rfl, fun _ => ?_, ?_, fun _ _ hfalse =>
      absurd hfalse Bool.false_ne_true⟩
    · show BcastPhase.Inv _ _ _ 0 (bcastPhase first 0)
      have hfalse : ∀ p : ℕ, Stage.view false 0 ⟨0, false, false⟩ ≠ true := fun _ => nofun
      cases hphase : bcastPhase first 0 with
      | interhost => exact fun hzero => absurd hzero (by decide)
      | pass =>
        exact ⟨⟨fun h => absurd h (hfalse 0), fun h => absurd h (by decide)⟩,
          fun p _ h => absurd h (hfalse p)⟩
      | reset => exact fun p _ h => absurd h (hfalse p)
    · have hsum : ∑ _p ∈ (layoutEpochs layout root first counter).members h,
          (⟨0, false, false⟩ : SharedMemory.Stage Bool).arrivals = 0 :=
        Finset.sum_eq_zero fun _ _ => SharedMemory.Stage.arrivals_of_not_arrived rfl
      rw [hsum, Int.natCast_zero, Int.add_zero]
      rfl

/-- The room in the shared buffer that a broadcast uses. -/
def copyRoom (maxLength count : ℕ) (type : CommittedType) : ℕ :=
  if count * type.extent < maxLength then count * type.extent else maxLength

/-- What a process has in the end, if the calls of `type_pack` copy `rest`. -/
def bcastResult (layout : HostLayout) (root : ℕ) (baseTag : ℤ) (count : ℕ) (type : CommittedType)
    (rest : List ℤ) (bufs : ℕ → Buffer) : ℕ → BcastState :=
  afterOnHost layout root rest (afterInterhost layout root (blockTags type (baseTag - 1) count)
    (type.data 0 count) fun p => ⟨bufs p, []⟩)

/-- All runs end in one state: these are the results, and no message is left. -/
def BcastEnds {α : Type} (net : Net ℕ ℤ (List UInt8) (Word ℕ) BcastCell UInt8 α) (nproc : ℕ)
    (result : ℕ → α) : Prop :=
  ∃ final, Completes net final ∧ final.shared.chan = (fun _ => []) ∧
    ∀ p < nproc, final.procs p = .done (result p)

lemma BcastEnds.of_leads {D : Discipline ℕ (Word ℕ) BcastCell G} {result : ℕ → α}
    {s s' : System ℤ (List UInt8) UInt8 α D} (h : Leads s s')
    (hchan : s'.config.shared.chan = fun _ => [])
    (hran : ∀ p < nproc, s'.procs p = .done (result p))
    (hrest : ∀ p, ¬p < nproc → ∃ a, s.procs p = .done a) : BcastEnds s.net nproc result :=
  ⟨s'.net, h.completes (h.finished (fun p hp => ⟨_, hran p hp⟩) hrest), hchan, hran⟩

variable {maxLength count : ℕ} {counter : ℕ → ℤ} {baseTag : ℤ} {type : CommittedType}
  {bufs : ℕ → Buffer} {mem : BcastCell → UInt8}

section Groups

variable (hgroups : ∀ p < layout.nproc, (groups p).OnHosts layout p) (hroot : root < layout.nproc)

include hgroups hroot

lemma ulmBcast_one (hone : layout.nhost = 1) (hp : p < layout.nproc) (releaseCnt : ℤ)
    (buf : Buffer) :
    ulmBcast ⟨groups p, maxLength, releaseCnt⟩ root baseTag count type buf =
      disperse (groups p) (layout.representative root (layout.hostOf p))
        (copyRoom maxLength count type) count type (rounds count type) releaseCnt .init
        ⟨buf, []⟩ := by
  have hhost : ∀ {q}, q < layout.nproc → layout.hostOf q = 0 := fun hq =>
    Nat.lt_one_iff.mp (hone ▸ hostOf_lt hq)
  rw [ulmBcast]
  rw [(hgroups p hp).numberOfHostsInGroup, if_pos hone, hhost hp, ← hhost hroot,
    representative_hostOf_root]
  rfl

lemma ulmBcast_several (hseveral : layout.nhost ≠ 1) (hbytes : type.packedSize ≠ 0)
    (hp : p < layout.nproc) (releaseCnt : ℤ) (buf : Buffer) :
    ulmBcast ⟨groups p, maxLength, releaseCnt⟩ root baseTag count type buf =
      interhostBlocks (groups p) root type count (baseTag - 1) count 0 ⟨buf, []⟩ >>= fun s =>
        if layout.nproc = layout.nhost then pure (.ok s)
        else smpSWBarrier (groups p) releaseCnt >>= fun releaseCnt =>
          disperse (groups p) (layout.representative root (layout.hostOf p))
            (copyRoom maxLength count type) count type (rounds count type) releaseCnt .init s := by
  rw [ulmBcast]
  rw [(hgroups p hp).numberOfHostsInGroup, (hgroups p hp).groupSize, if_neg hseveral,
    if_neg hbytes, commRoot_eq hgroups hroot hp]
  rfl

variable {calls : ℕ} {rest : List ℤ}
  (hcalls : Calls type (copyRoom maxLength count type) count calls .init rest)
  (hrounds : calls ≤ rounds count type)

include hcalls hrounds

lemma ulmBcast_completes_one (hone : layout.nhost = 1) :
    BcastEnds (start groups maxLength counter layout.nproc root baseTag count type bufs mem)
      layout.nproc fun p => .ok (bcastResult layout root baseTag count type rest bufs p) := by
  set net := start groups maxLength counter layout.nproc root baseTag count type bufs mem
    with hnet
  obtain ⟨s', hleads, hchan, hran⟩ := leads_disperse_hosts hgroups hroot (.inl rfl) hcalls hrounds
    (s := ⟨net.procs, bcastConfig layout root 0 counter mem⟩)
    (fun p hp => (if_pos hp).trans (ulmBcast_one hgroups hroot hone hp _ (bufs p)))
    (fun p _ => rfl)
  refine BcastEnds.of_leads hleads hchan (fun p hp => ?_) fun p hp => ⟨_, if_neg hp⟩
  have hrep := lt_nproc_of_mem (representative_mem hroot (hostOf_lt hp))
  rw [hran p hp, bcastResult, afterOnHost, afterOnHost, afterInterhost_one hroot hone _ _ _ hp,
    afterInterhost_one hroot hone _ _ _ hrep]

lemma ulmBcast_completes_several (hseveral : layout.nhost ≠ 1) (hbytes : type.packedSize ≠ 0) :
    BcastEnds (start groups maxLength counter layout.nproc root baseTag count type bufs mem)
      layout.nproc fun p => .ok (bcastResult layout root baseTag count type rest bufs p) := by
  set net := start groups maxLength counter layout.nproc root baseTag count type bufs mem
    with hnet
  obtain ⟨s1, hleads1, hconfig1, hran1⟩ := leads_interhostBlocks hgroups hroot hseveral
    (fun p s => if layout.nproc = layout.nhost then pure (.ok s)
      else smpSWBarrier (groups p) (counter (groups p).selfHost) >>= fun releaseCnt =>
        disperse (groups p) (layout.representative root (layout.hostOf p))
          (copyRoom maxLength count type) count type (rounds count type) releaseCnt .init s)
    count (baseTag - 1) count 0 (fun p => ⟨bufs p, []⟩)
    ⟨net.procs, bcastConfig layout root 1 counter mem⟩ le_rfl rfl
    (fun p hp => (if_pos hp).trans (ulmBcast_several hgroups hroot hseveral hbytes hp _ (bufs p)))
  have hchan1 : s1.config.shared.chan = fun _ => [] := by
    rw [hconfig1]
    rfl
  have hrest : ∀ p, ¬p < layout.nproc → ∃ a, net.procs p = .done a := fun p hp => ⟨_, if_neg hp⟩
  by_cases heq : layout.nproc = layout.nhost
  · -- everybody is a representative, and that is all
    refine BcastEnds.of_leads hleads1 hchan1 (fun p hp => ?_) hrest
    rw [hran1 p hp, if_pos heq, bcastResult, afterOnHost,
      ← (nproc_eq_nhost_iff hroot).mp heq p hp, Buffer.copy_self]
    rfl
  · obtain ⟨s2, hleads2, hchan2, hran2⟩ := leads_disperse_hosts hgroups hroot (.inr rfl) hcalls
      hrounds (s := s1) (fun p hp => (hran1 p hp).trans (if_neg heq))
      (fun p _ => by rw [hconfig1]; rfl)
    exact BcastEnds.of_leads (hleads1.trans hleads2) (hchan2.trans hchan1) hran2 hrest

/-- **All runs of the broadcast end in one state**, if calls of `type_pack` come to the end. -/
theorem ulmBcast_completes (hbytes : layout.nhost ≠ 1 → type.packedSize ≠ 0) :
    BcastEnds (start groups maxLength counter layout.nproc root baseTag count type bufs mem)
      layout.nproc fun p => .ok (bcastResult layout root baseTag count type rest bufs p) := by
  by_cases hone : layout.nhost = 1
  · exact ulmBcast_completes_one hgroups hroot hcalls hrounds hone
  · exact ulmBcast_completes_several hgroups hroot hcalls hrounds hone (hbytes hone)

end Groups

lemma BcastEnds.unique {net : Net ℕ ℤ (List UInt8) (Word ℕ) BcastCell UInt8 α}
    {result result' : ℕ → α} (h : BcastEnds net nproc result) (h' : BcastEnds net nproc result')
    (hp : p < nproc) : result p = result' p := by
  obtain ⟨final, hcompletes, -, hresult⟩ := h
  obtain ⟨final', hcompletes', -, hresult'⟩ := h'
  obtain rfl := hcompletes.unique hcompletes'
  exact Prog.done.inj ((hresult p hp).symm.trans (hresult' p hp))

lemma BcastEnds.of_done {net : Net ℕ ℤ (List UInt8) (Word ℕ) BcastCell UInt8 α} {result : ℕ → α}
    (h : BcastEnds net nproc result) (hp : p < nproc) {a : α} (hdone : net.procs p = .done a) :
    result p = a := by
  obtain ⟨final, hcompletes, -, hresult⟩ := h
  exact Prog.done.inj ((hresult p hp).symm.trans (hcompletes.procs_of_done hdone))

end Broadcast

/-! ### What a broadcast is for -/

/-- Everybody has the bytes of the root, and the fan-out among `nodes` is as it should be. -/
structure Broadcast (nproc root : ℕ) (nodes : List ℕ) (tags positions : List ℤ)
    (bufs : ℕ → Buffer) (st : ℕ → BcastState) : Prop where
  data : ∀ p < nproc, ∀ pos ∈ positions,
    (st p).buf (BitVec.ofInt 64 pos) = bufs root (BitVec.ofInt 64 pos)
  fanOut : FanOutLogs root nodes tags fun p => if p < nproc then (st p).log else []

variable {root : ℕ}

lemma FanOutLogs.congr {nodes nodes' : List ℕ} {tags : List ℤ} {logs : ℕ → List BcastEvent}
    (h : FanOutLogs root nodes tags logs) (hnodes : ∀ p, p ∈ nodes ↔ p ∈ nodes') :
    FanOutLogs root nodes' tags logs where
  once p hp := h.once p ((hnodes p).mpr hp)
  only p src tag he := ⟨(hnodes p).mp (h.only p src tag he).1, (h.only p src tag he).2⟩
  informed := h.informed
  matched := h.matched

section Right

variable {layout : HostLayout} {root : ℕ} {groups : ℕ → Group} {maxLength count : ℕ}
  {counter : ℕ → ℤ} {baseTag : ℤ} {type : CommittedType} {bufs : ℕ → Buffer}
  {mem : BcastCell → UInt8}

def bcastNodes (layout : HostLayout) (root : ℕ) : List ℕ :=
  (range layout.nhost).map (layout.representative root)

lemma mem_bcastNodes (hroot : root < layout.nproc) (p : ℕ) :
    p ∈ (range layout.nhost).map (bcastNode layout root) ↔ p ∈ bcastNodes layout root := by
  simp only [bcastNodes, mem_map, mem_range]
  constructor
  · rintro ⟨y, -, rfl⟩
    exact ⟨_, mod_nhost_lt hroot _, rfl⟩
  · rintro ⟨h, hh, rfl⟩
    refine ⟨(h + layout.nhost - layout.hostOf root) % layout.nhost, mod_nhost_lt hroot _, ?_⟩
    rw [bcastNode, FanIn.absolute_relative (hostOf_lt hroot) hh]

lemma nodup_blockTags (tag : ℤ) : (blockTags type tag count).Nodup := by
  apply nodup_range.map
  intro b b' heq
  dsimp only at heq
  omega

/-- **What the processes have in the end is right** if all bytes have been passed on, or if there is
nobody to pass them on to. -/
theorem bcastResult_broadcast (hroot : root < layout.nproc) {rest : List ℤ}
    (hrest : type.data 0 count ⊆ rest ∨ layout.nproc = layout.nhost) :
    Broadcast layout.nproc root (bcastNodes layout root) (blockTags type (baseTag - 1) count)
      (type.data 0 count) bufs (bcastResult layout root baseTag count type rest bufs) := by
  -- the representatives have got the data from the root
  have hrep : ∀ p, Represents layout root p → ∀ pos ∈ type.data 0 count,
      (afterInterhost layout root (blockTags type (baseTag - 1) count) (type.data 0 count)
        (fun p => ⟨bufs p, []⟩) p).buf (BitVec.ofInt 64 pos) = bufs root (BitVec.ofInt 64 pos) := by
    intro p hp pos hpos
    rw [afterInterhost, if_pos hp]
    exact Buffer.copy_apply _ _ hpos
  constructor
  · intro p hp pos hpos
    have hhost := hostOf_lt hp
    have hown : Represents layout root (layout.representative root (layout.hostOf p)) := by
      rw [Represents, hostOf_representative hroot hhost]
    rw [bcastResult, afterOnHost]
    rcases hrest with hsubset | heq
    · exact (Buffer.copy_apply _ _ (hsubset hpos)).trans (hrep _ hown pos hpos)
    · have hself := (nproc_eq_nhost_iff hroot).mp heq p hp
      rw [← hself, Buffer.copy_self]
      exact hrep p hself pos hpos
  · have hlogs : FanOutLogs (bcastNode layout root 0)
        ((range layout.nhost).map (bcastNode layout root))
        (blockTags type (baseTag - 1) count) fun p => if p < layout.nproc then
          (bcastResult layout root baseTag count type rest bufs p).log else [] := by
      apply fanOutLogs_of_nodes (bcastNode_inj hroot) (nodup_blockTags _)
      · intro y hy
        rw [if_pos (bcastNode_lt hroot y), bcastResult, afterOnHost, afterInterhost,
          if_pos (represents_bcastNode hroot y), bcastNodeOf_bcastNode hroot hy]
        rfl
      · intro p hp
        split_ifs with hlt
        · have hnot : ¬Represents layout root p := fun h =>
            hp _ (bcastNodeOf_lt hroot p) (bcastNode_bcastNodeOf hroot hlt h)
          rw [bcastResult, afterOnHost, afterInterhost, if_neg hnot]
        · rfl
    rw [bcastNode_zero hroot] at hlogs
    exact hlogs.congr (mem_bcastNodes hroot)

/-! ### When it is right -/

/-- The packed size is not divided by if it is zero, and there is room for the bytes that have to be
passed on. -/
def BcastSupported (nproc nhost count : ℕ) (type : CommittedType) : Prop :=
  (nhost ≠ 1 → type.packedSize ≠ 0) ∧
    (count ≠ 0 → type.extent = 0 → type.contiguous = false ∧ nproc = nhost)

instance (nproc nhost count : ℕ) (type : CommittedType) :
    Decidable (BcastSupported nproc nhost count type) := inferInstanceAs (Decidable (_ ∧ _))

/-- An extent of zero leaves no room, and nothing is passed on. -/
lemma calls_of_extent_zero (hmax : 0 < maxLength) (hcount : count ≠ 0) (hextent : type.extent = 0)
    (hcontiguous : type.contiguous = false) :
    Calls type (copyRoom maxLength count type) count (count * type.typeMap.length) .init [] := by
  have hroom : copyRoom maxLength count type = 0 := by
    rw [copyRoom, hextent, Nat.mul_zero, if_pos hmax]
  have hpairs : 0 < type.typeMap.length := by
    rw [length_pos_iff]
    intro hnil
    apply type.positions_ne_nil hcontiguous
    rw [hnil]
    rfl
  have hcalls := calls_noRoom hcontiguous (.inl ⟨Nat.pos_of_ne_zero hcount, hpairs⟩)
  rw [Nat.zero_mul] at hcalls
  rw [hroom]
  exact hcalls

/-- If the broadcast is supported, then calls of `type_pack` come to the end. -/
lemma exists_calls (hmax : 0 < maxLength)
    (hsupported : BcastSupported layout.nproc layout.nhost count type) :
    ∃ calls rest, Calls type (copyRoom maxLength count type) count calls .init rest ∧
      calls ≤ rounds count type ∧ (type.data 0 count ⊆ rest ∨ layout.nproc = layout.nhost) := by
  have hbound : count * type.typeMap.length ≤ rounds count type ∧
      count * (type.extent + type.packedSize) + 1 ≤ rounds count type := by
    rw [rounds, Nat.mul_add count (type.extent + type.packedSize)]
    omega
  by_cases hcount : count = 0
  · subst hcount
    exact ⟨0, [], .done rfl, Nat.zero_le _, .inl (Subset.refl _)⟩
  by_cases hextent : type.extent = 0
  · obtain ⟨hcontiguous, heq⟩ := hsupported.2 hcount hextent
    exact ⟨_, [], calls_of_extent_zero hmax hcount hextent hcontiguous, hbound.1, .inr heq⟩
  · have hpos : 0 < type.extent := Nat.pos_of_ne_zero hextent
    have hroom : 0 < copyRoom maxLength count type := by
      rw [copyRoom]
      split_ifs
      · exact Nat.mul_pos (Nat.pos_of_ne_zero hcount) hpos
      · exact hmax
    have hinit : type.Left count .init (type.all count) := left_init fun _ => hpos
    obtain ⟨calls, hcalls, hall⟩ := calls_of_left hroom (fun _ => hpos) hinit
    have hlen : (type.all count).length ≤ _ := length_all_le
    exact ⟨calls, type.all count, hall, by omega, .inl data_subset_all⟩

/-- With several hosts, a type without bytes leads to a division by zero. -/
lemma procs_of_no_bytes (hgroups : ∀ p < layout.nproc, (groups p).OnHosts layout p)
    (hseveral : layout.nhost ≠ 1) (hbytes : type.packedSize = 0) (hp : p < layout.nproc) :
    (start groups maxLength counter layout.nproc root baseTag count type bufs mem).procs p =
      .done (.error .divisionByZero) := by
  refine (if_pos hp).trans ?_
  rw [ulmBcast]
  rw [(hgroups p hp).numberOfHostsInGroup, if_neg hseveral, if_pos hbytes]
  rfl

/-- With one host, a contiguous type of extent zero leads to a division by zero. -/
lemma procs_root_of_contiguous (hgroups : ∀ p < layout.nproc, (groups p).OnHosts layout p)
    (hroot : root < layout.nproc) (hone : layout.nhost = 1) (hcount : count ≠ 0)
    (hextent : type.extent = 0) (hcontiguous : type.contiguous = true) :
    (start groups maxLength counter layout.nproc root baseTag count type bufs mem).procs
      root = .done (.error .divisionByZero) := by
  have hpack : ∀ bufsize, typePack type bufsize 0 count TypeCursor.init = none := by
    intro bufsize
    rw [typePack, if_pos hcontiguous]
    exact if_pos hextent
  have hlt : TypeCursor.init.typeIndex < count := Nat.pos_of_ne_zero hcount
  refine (if_pos hroot).trans ?_
  rw [ulmBcast_one hgroups hroot hone hroot, representative_hostOf_root, rounds, disperse_succ hlt,
    passBlock, if_pos (hgroups root hroot).self, hpack]
  rfl

/-- **The broadcast is right just if it is supported.** -/
theorem broadcast_iff_supported (hgroups : ∀ p < layout.nproc, (groups p).OnHosts layout p)
    (hroot : root < layout.nproc) (hmax : 0 < maxLength) :
    (∀ (bufs : ℕ → Buffer) (mem : BcastCell → UInt8), ∃ st : ℕ → BcastState,
      BcastEnds (start groups maxLength counter layout.nproc root baseTag count type bufs
        mem) layout.nproc (fun p => .ok (st p)) ∧
      Broadcast layout.nproc root (bcastNodes layout root) (blockTags type (baseTag - 1) count)
        (type.data 0 count) bufs st) ↔ BcastSupported layout.nproc layout.nhost count type := by
  constructor
  · intro h
    have hbytes : layout.nhost ≠ 1 → type.packedSize ≠ 0 := by
      intro hseveral hzero
      obtain ⟨st, hends, -⟩ := h (fun _ _ => 0) fun _ => 0
      cases hends.of_done hroot (procs_of_no_bytes hgroups hseveral hzero hroot)
    refine ⟨hbytes, fun hcount hextent => ?_⟩
    have hcontiguous : type.contiguous = false := by
      by_contra hne
      rw [Bool.not_eq_false] at hne
      by_cases hone : layout.nhost = 1
      · obtain ⟨st, hends, -⟩ := h (fun _ _ => 0) fun _ => 0
        cases hends.of_done hroot
          (procs_root_of_contiguous hgroups hroot hone hcount hextent hne)
      · apply hbytes hone
        rw [type.packedSize_eq]
        rcases type.positions_eq hne with hnil | hrange
        · rw [hnil, length_nil]
        · rw [hrange, length_map, length_range, hextent]
    refine ⟨hcontiguous, ?_⟩
    by_contra hne
    -- somebody does not represent its host, and gets nothing
    obtain ⟨p, hp, hnot⟩ : ∃ p < layout.nproc, ¬Represents layout root p := by
      by_contra hall
      refine hne ((nproc_eq_nhost_iff hroot).mpr fun p hp => ?_)
      by_contra hnot
      exact hall ⟨p, hp, hnot⟩
    have hproot : p ≠ root := by
      rintro rfl
      exact hnot represents_root
    obtain ⟨pos, hpos⟩ := exists_mem_of_ne_nil (type.data 0 count) (by
      rw [← length_pos_iff, length_data, type.packedSize_eq]
      exact Nat.mul_pos (Nat.pos_of_ne_zero hcount)
        (length_pos_iff.mpr (type.positions_ne_nil hcontiguous)))
    let bufs : ℕ → Buffer := fun q _ => if q = root then 1 else 0
    obtain ⟨st, hends, hright⟩ := h bufs fun _ => 0
    have hcalls := calls_of_extent_zero hmax hcount hextent hcontiguous
    have hrounds : count * type.typeMap.length ≤ rounds count type := by
      rw [rounds, Nat.mul_add count (type.extent + type.packedSize)]
      omega
    have hresult := Except.ok.inj
      (hends.unique (ulmBcast_completes hgroups hroot hcalls hrounds hbytes) hp)
    have hdata := hright.data p hp pos hpos
    rw [hresult, bcastResult, afterOnHost, Buffer.copy_nil, afterInterhost, if_neg hnot] at hdata
    simp only [bufs, if_pos, if_neg hproot] at hdata
    exact absurd hdata (by decide)
  · intro hsupported bufs mem
    obtain ⟨calls, rest, hcalls, hrounds, hrest⟩ := exists_calls hmax hsupported
    exact ⟨_, ulmBcast_completes hgroups hroot hcalls hrounds hsupported.1,
      bcastResult_broadcast hroot hrest⟩

end Right

/-! ### The fan-out over all processes -/

section P2p

variable {nproc root count : ℕ} {tag : ℤ} {type : CommittedType} {bufs : ℕ → Buffer}

/-- The tag is used if there is something to send. -/
def p2pTags (count : ℕ) (tag : ℤ) : List ℤ := if count = 0 then [] else [tag]

def p2pResult (nproc root : ℕ) (tag : ℤ) (count : ℕ) (type : CommittedType) (bufs : ℕ → Buffer)
    (p : ℕ) : BcastState :=
  ⟨(bufs p).copy (bufs root) (type.data 0 count), (p2pTags count tag).flatMap fun tag =>
    fanOutLog nproc (p2pNode nproc root) tag (p2pNodeOf nproc root p)⟩

/-- Nobody uses the shared buffers. -/
def p2pConfig (mem : BcastCell → UInt8) : Config ℤ (List UInt8) UInt8
    (bcastEpochs (fun _ => ∅) (fun hp => absurd hp (Finset.notMem_empty _)) (fun _ => 0) 0
      fun _ => 0).discipline where
  shared := { chan := fun _ => [], mem := mem, flags := fun _ => 0 }
  state _ := ⟨0, false, false⟩
  possible _ := ⟨0, fun _ _ => Or.inl rfl, fun hrep => absurd hrep (Finset.notMem_empty _), rfl,
    fun _ hp => absurd hp (Finset.notMem_empty _)⟩

lemma p2pResult_nothing (hroot : root < nproc) (h : count = 0 ∨ nproc = 1) (hp : p < nproc) :
    p2pResult nproc root tag count type bufs p = ⟨bufs p, []⟩ := by
  rw [p2pResult]
  rcases h with rfl | rfl
  · rfl
  · obtain rfl : p = root := by omega
    have hlog : ∀ tag, fanOutLog 1 (p2pNode 1 p) tag (p2pNodeOf 1 p p) = [] := by
      intro tag
      rw [p2pNodeOf, Nat.mod_one]
      rfl
    rw [Buffer.copy_self, flatMap_eq_nil_iff.mpr fun tag _ => hlog tag]

/-- **All runs of the fan-out end in one state.** -/
theorem ulmBcastP2p_completes (hroot : root < nproc) (mem : BcastCell → UInt8) :
    BcastEnds (ulmBcastP2p.start nproc root tag count type bufs mem) nproc
      (p2pResult nproc root tag count type bufs) := by
  set net := ulmBcastP2p.start nproc root tag count type bufs mem with hnet
  have hrest : ∀ p, ¬p < nproc → ∃ a, net.procs p = .done a := fun p hp => ⟨_, if_neg hp⟩
  by_cases hnothing : count = 0 ∨ nproc = 1
  · refine BcastEnds.of_leads (Leads.refl ⟨net.procs, p2pConfig mem⟩) rfl (fun p hp => ?_) hrest
    refine (if_pos hp).trans ?_
    rw [p2pResult_nothing hroot hnothing hp, ulmBcastP2p]
    by_cases hcount : count = 0
    · exact if_pos hcount
    · rw [if_neg hcount]
      exact if_pos (hnothing.resolve_left hcount)
  · obtain ⟨hcount, hnproc⟩ := not_or.mp hnothing
    have htags : p2pTags count tag = [tag] := if_neg hcount
    obtain ⟨s', hleads, hconfig, hran⟩ := leads_logFanOut (p2pNode_inj hroot)
      (fun y _ => rfl) (fun _ => pure) (s := ⟨net.procs, p2pConfig mem⟩) rfl
      (fun y hy => by
        have hy' := p2pNode_lt hroot y
        show net.procs _ = _
        rw [hnet, ulmBcastP2p.start]
        dsimp only
        rw [if_pos hy', ulmBcastP2p, if_neg hcount, if_neg hnproc, bind_pure]
        rw [← p2pNodeOf, p2pNodeOf_p2pNode hroot hy]
        rfl)
    refine BcastEnds.of_leads hleads.leads (by rw [hconfig]; rfl) (fun p hp => ?_) hrest
    have hp' := hran _ (p2pNodeOf_lt hroot p)
    rw [p2pNode_p2pNodeOf hroot hp, p2pNode_zero hroot] at hp'
    rw [hp', p2pResult, htags, flatMap_cons, flatMap_nil, append_nil]
    rfl

lemma p2pResult_broadcast (hroot : root < nproc) :
    Broadcast nproc root (range nproc) (p2pTags count tag) (type.data 0 count) bufs
      (p2pResult nproc root tag count type bufs) := by
  refine ⟨fun p _ pos hpos => Buffer.copy_apply _ _ hpos, ?_⟩
  have htags : (p2pTags count tag).Nodup := by
    rw [p2pTags]
    split_ifs
    · exact nodup_nil
    · exact nodup_singleton tag
  have hlogs : FanOutLogs (p2pNode nproc root 0) ((range nproc).map (p2pNode nproc root))
      (p2pTags count tag) fun p => if p < nproc then
        (p2pResult nproc root tag count type bufs p).log else [] := by
    apply fanOutLogs_of_nodes (p2pNode_inj hroot) htags
    · intro y hy
      rw [if_pos (p2pNode_lt hroot y), p2pResult, p2pNodeOf_p2pNode hroot hy]
    · intro p hp
      refine if_neg fun hlt => ?_
      exact hp _ (p2pNodeOf_lt hroot p) (p2pNode_p2pNodeOf hroot hlt)
  rw [p2pNode_zero hroot] at hlogs
  refine hlogs.congr fun p => ?_
  simp only [mem_map, mem_range]
  constructor
  · rintro ⟨y, -, rfl⟩
    exact p2pNode_lt hroot y
  · intro hp
    exact ⟨_, p2pNodeOf_lt hroot p, p2pNode_p2pNodeOf hroot hp⟩

end P2p

/-! ### Groups -/

/-- The representatives of the hosts, from the tables of a group. -/
def Group.bcastNodes (group : Group) (root : ℕ) : List ℕ :=
  (range group.numberOfHostsInGroup).map fun host =>
    if host = group.hostOf root then root else (group.procsOn host).getD 0 0

lemma Group.OnHosts.bcastNodes_eq {layout : HostLayout} {group : Group}
    (h : group.OnHosts layout p) (hroot : root < layout.nproc) :
    group.bcastNodes root = Lampi.bcastNodes layout root := by
  rw [Group.bcastNodes, h.numberOfHostsInGroup]
  refine map_congr_left fun host _ => ?_
  rw [h.hostOf root hroot, h.procsOn, representative]

/-- **When the broadcast is right**: `ulm_bcast` and `ulm_bcast_p2p` leave the data of the root with
everybody, by fan-outs among the representatives of the hosts or among all processes, in all runs
and whatever the buffers hold, just if the broadcast is supported. -/
theorem ulmBcast_correct_iff {sizes rnkLst : List ℕ} {groups : ℕ → Group}
    (h : Group.Created sizes rnkLst groups) {root : ℕ} (hroot : root < rnkLst.length)
    (type : CommittedType) (count : ℕ) (baseTag : ℤ) {maxLength : ℕ} (hmax : 0 < maxLength)
    (counter : ℕ → ℤ) :
    ((∀ (bufs : ℕ → Buffer) (mem : BcastCell → UInt8), ∃ st : ℕ → BcastState,
        BcastEnds (ulmBcast.start groups maxLength counter rnkLst.length root baseTag count type
          bufs mem) rnkLst.length (fun p => .ok (st p)) ∧
        Broadcast rnkLst.length root ((groups root).bcastNodes root)
          (blockTags type (baseTag - 1) count) (type.data 0 count) bufs st) ∧
      ∀ (bufs : ℕ → Buffer) (mem : BcastCell → UInt8), ∃ st : ℕ → BcastState,
        BcastEnds (ulmBcastP2p.start rnkLst.length root baseTag count type bufs mem)
          rnkLst.length st ∧
        Broadcast rnkLst.length root (range rnkLst.length) (p2pTags count baseTag)
          (type.data 0 count) bufs st) ↔
      BcastSupported rnkLst.length (groups root).numberOfHostsInGroup count type := by
  obtain ⟨layout, hnproc, hgroups⟩ := h.exists_layout
  rw [← hnproc] at hroot hgroups ⊢
  have hg := hgroups root hroot
  rw [hg.bcastNodes_eq hroot, hg.numberOfHostsInGroup]
  refine Iff.trans (and_iff_left fun bufs mem => ?_) (broadcast_iff_supported hgroups hroot hmax)
  exact ⟨_, ulmBcastP2p_completes hroot mem, p2pResult_broadcast hroot⟩

/-- Three processes on two hosts, and the second one broadcasts integers. -/
theorem ulmBcast_correct_threeProcesses :
    ∃ groups, Group.Created [2, 1] [0, 1, 2] groups ∧ (1 < [0, 1, 2].length ∧ 0 < 8) ∧
      ∀ (bufs : ℕ → Buffer) (mem : BcastCell → UInt8), ∃ st : ℕ → BcastState,
        BcastEnds (ulmBcast.start groups 8 (fun _ => 0) 3 1 0 5 (typeCommit mpiInt fun _ => rfl)
          bufs mem) 3 (fun p => .ok (st p)) ∧
        Broadcast 3 1 ((groups 1).bcastNodes 1) (blockTags (typeCommit mpiInt fun _ => rfl) (-1) 5)
          ((typeCommit mpiInt fun _ => rfl).data 0 5) bufs st := by
  obtain ⟨groups, hgroups⟩ := Group.exists_created_twoHosts
  have hiff := ulmBcast_correct_iff hgroups (show 1 < 3 by decide)
    (typeCommit mpiInt fun _ => rfl) 5 0 (show 0 < 8 by decide) fun _ => 0
  refine ⟨groups, hgroups, by decide, (hiff.mpr ⟨fun _ => ?_, fun _ hextent => ?_⟩).1⟩
  · decide
  · exact absurd hextent (by decide)

/-- One of two processes that run on one host. -/
def twoOnOneHost (p : ℕ) : LampiState := ⟨[2], 0, p % 2, Nat.mod_lt p Nat.two_pos⟩

/-- An integer between markers that leave it an extent of zero, committed. -/
def committedMarkedInt : CommittedType := typeCommit markedInt nofun

/-- Two processes on one host: the integer of the root does not reach the other process. -/
theorem ulmBcast_markedInt_lost :
    ∃ groups : ℕ → Group, (∀ p, Group.create (twoOnOneHost p) [0, 1] 0 = .ok (groups p)) ∧
      ∃ st : ℕ → BcastState,
        BcastEnds (ulmBcast.start groups 1024 (fun _ => 0) 2 0 0 1 committedMarkedInt
          (fun p _ => if p = 0 then 1 else 0) fun _ => 0) 2 (fun p => .ok (st p)) ∧
        committedMarkedInt.data 0 1 = [0, 1, 2, 3] ∧ (st 0).buf 0 = 1 ∧ (st 1).buf 0 = 0 := by
  choose groups hgroups using fun p =>
    Group.exists_create (twoOnOneHost p) 0 (show [0, 1].Nodup by decide)
  have hmember : ∀ p < 2, [0, 1][p]? = some (twoOnOneHost p).myproc := by decide
  have hcreated : Group.Created [2] [0, 1] groups :=
    ⟨by decide, by decide, fun p hp => ⟨twoOnOneHost p, 0, rfl, hmember p hp, hgroups p⟩⟩
  obtain ⟨layout, hnproc, hon⟩ := hcreated.exists_layout
  have hhosts : layout.nhost = 1 := by
    rw [← (hon 0 (by decide)).numberOfHostsInGroup, (Group.create_hosts (hgroups 0)).1]
    decide
  have hlen : layout.nproc = 2 := hnproc
  have hroot : 0 < layout.nproc := by omega
  have hhost : ∀ p < layout.nproc, layout.hostOf p = layout.hostOf 0 := by
    intro p hp
    have h0 := hostOf_lt hroot
    have hp' := hostOf_lt hp
    omega
  -- the other process does not represent the host
  have hnot : ¬Represents layout 0 1 := by
    rw [Represents, hhost 1 (by omega), representative_hostOf_root]
    decide
  have hcalls : Calls committedMarkedInt (copyRoom 1024 1 committedMarkedInt) 1
      (1 * committedMarkedInt.typeMap.length) .init [] :=
    calls_of_extent_zero (by decide) (by decide) rfl rfl
  have hends : BcastEnds (start groups 1024 (fun _ => 0) layout.nproc 0 0 1
      committedMarkedInt (fun p _ => if p = 0 then 1 else 0) fun _ => 0) layout.nproc
      fun p => .ok (bcastResult layout 0 0 1 committedMarkedInt []
        (fun p _ => if p = 0 then 1 else 0) p) :=
    ulmBcast_completes (fun p hp => hon p (hnproc ▸ hp)) hroot hcalls (by decide)
      fun hne => absurd hhosts hne
  rw [hlen] at hends
  refine ⟨groups, hgroups, _, hends, by decide, ?_, ?_⟩
  · rw [bcastResult, afterOnHost, afterInterhost_one hroot hhosts _ _ _ hroot]
    rfl
  · rw [bcastResult, afterOnHost, afterInterhost, if_neg hnot]
    rfl

end Lampi
