import Lampi.Collective.Allgather
import Lampi.Mpi.Equiv.TypeBounds
import Lampi.Queue.Equiv.HostLayout

/-!
# Stripes of a useful size, and the addresses of allgather

A stripe has room for a cache line of every rank exactly if the shared buffer holds a line for each
of the `numHosts * maxLocalProcs` places (`stripes_usable_iff`).  The buffer is sized by the number
of processes, and with unequal hosts there are more places than processes.

`ulm_allgather` multiplies a rank and a count as `int`s, so the data of a rank goes to its place
exactly if that product is an `int` (`ulmAllgather_destination_iff`).
-/

namespace Lampi

open ulmAllgather ReduceComm

/-! ### Stripes -/

section Stripes

variable {s : LampiState} {rnkLst : List ℕ} {grpID : ℤ} {g : Group}

lemma maxLocalProcs_pos (hcreate : Group.create s rnkLst grpID = .ok g) (hne : rnkLst ≠ []) :
    0 < g.numberOfHostsInGroup ∧
      0 < Table.maxOf UlmHostInfo.nGroupProcIDOnHost g.groupHostData := by
  obtain ⟨hhosts, hdata, -, -⟩ := Group.create_hosts hcreate
  obtain ⟨r, hr⟩ := List.exists_mem_of_ne_nil rnkLst hne
  have hhost : s.globalProcToHost r ∈ Group.groupHostList s rnkLst :=
    Group.mem_groupHostList.mpr ⟨r, hr, rfl⟩
  have hprocs : 0 < (Group.hostInfo s rnkLst (s.globalProcToHost r)).nGroupProcIDOnHost :=
    List.length_pos_iff.mpr (Group.tmpProcList_ne_nil hhost)
  rw [hhosts, hdata]
  exact ⟨List.length_pos_of_mem hhost,
    hprocs.trans_le (Table.le_maxOf _ (List.mem_map_of_mem hhost))⟩

lemma perRankStripeSize_eq {comm : ReduceComm}
    (h : comm.group.numberOfHostsInGroup * comm.maxLocalProcs < 2 ^ 31) :
    comm.perRankStripeSize =
      (comm.maxLength / (comm.group.numberOfHostsInGroup * comm.maxLocalProcs) / cacheAlignment *
        cacheAlignment : ℕ) := by
  rw [perRankStripeSize, ← Int.natCast_mul, intT_eq (by omega) (by omega), ← Int.ofNat_tdiv,
    ← Int.ofNat_tdiv, ← Int.natCast_mul]

/-- **The stripes of a communicator are usable exactly if the shared buffer has a cache line for
every place.** -/
theorem stripes_usable_iff (hcreate : Group.create s rnkLst grpID = .ok g) (hne : rnkLst ≠ [])
    (hint : s.nprocs < 2 ^ 24) :
    let comm : ReduceComm := ⟨g, true, s.nprocs⟩
    let places := g.numberOfHostsInGroup * comm.maxLocalProcs
    (cacheAlignment ≤ comm.perRankStripeSize ∧ comm.localStripeSize ≠ 0 ∧
      places * comm.perRankStripeSize ≤ comm.maxLength) ↔
        places * cacheAlignment ≤ comm.maxLength := by
  intro comm places
  obtain ⟨hhosts, hprocs⟩ := maxLocalProcs_pos hcreate hne
  have hpos : 0 < places := Nat.mul_pos hhosts hprocs
  constructor
  · rintro ⟨hline, -, hfit⟩
    have hle : (places * cacheAlignment : ℤ) ≤ comm.maxLength :=
      (Int.mul_le_mul_of_nonneg_left hline (Int.natCast_nonneg places)).trans hfit
    exact_mod_cast hle
  · intro hfit
    have hmax : comm.maxLength < 2 ^ 31 := by
      have hmem : sizeT (intT (cacheAlignment * s.nprocs)) < 2 ^ 31 := by
        rw [cacheAlignment, ← Int.natCast_mul, intT_natCast (by omega), sizeT_natCast (by omega)]
        omega
      unfold maxLength
      dsimp only
      split_ifs
      exacts [by decide, by decide, by decide, hmem]
    have hplaces : places < 2 ^ 31 := by
      rw [cacheAlignment] at hfit
      omega
    rw [localStripeSize, perRankStripeSize_eq hplaces]
    generalize comm.maxLength = maxLength at hmax hfit ⊢
    set stripe := maxLength / places / cacheAlignment * cacheAlignment
    have hline : cacheAlignment ≤ stripe := by
      apply Nat.le_mul_of_pos_left
      apply Nat.div_pos _ (by decide)
      rwa [Nat.le_div_iff_mul_le hpos, mul_comm]
    have hroom : places * stripe ≤ maxLength :=
      (Nat.mul_le_mul_left places (Nat.div_mul_le_self _ _)).trans (Nat.mul_div_le _ _)
    refine ⟨by exact_mod_cast hline, ?_, by exact_mod_cast hroom⟩
    have hlocal : stripe * comm.maxLocalProcs ≤ places * stripe := by
      rw [mul_comm]
      exact Nat.mul_le_mul_right _ (Nat.le_mul_of_pos_left _ hhosts)
    have hstripe : 0 < stripe * comm.maxLocalProcs :=
      Nat.mul_pos (lt_of_lt_of_le (by decide) hline) hprocs
    rw [← Int.natCast_mul, sizeT]
    omega

/-- The condition holds for three processes on two hosts. -/
theorem stripes_usable_iff_twoHosts :
    let s : LampiState := ⟨[2, 1], 0, 0, by decide⟩
    ∃ g, Group.create s [0, 1, 2] 0 = .ok g ∧
      cacheAlignment ≤ (⟨g, true, s.nprocs⟩ : ReduceComm).perRankStripeSize := by
  intro s
  have hcreate : Group.create s [0, 1, 2] 0 = .ok _ := rfl
  exact ⟨_, hcreate, ((stripes_usable_iff hcreate (by decide) (by decide)).mpr (by decide)).1⟩

/-- With 65 processes on one host and one on each of 64 others a stripe has no room at all. -/
theorem stripes_unusable :
    let s : LampiState := ⟨65 :: List.replicate 64 1, 0, 0, by decide⟩
    (Group.create s (List.range s.nprocs) 0).toOption.map (fun g =>
      ((⟨g, true, s.nprocs⟩ : ReduceComm).perRankStripeSize,
        (⟨g, true, s.nprocs⟩ : ReduceComm).localStripeSize)) = some (0, 0) := by
  decide +kernel

end Stripes

/-! ### Addresses -/

section Addresses

variable {comm : ReduceComm} {order : List ℕ} {recvcount : ℕ} {recvtype : CommittedType}

/-- The product is wrong as soon as it does not fit: what is lost is less than all of memory. -/
lemma destination_eq_iff {rank : ℕ} (h : rank * recvcount * recvtype.extent < 2 ^ 63) :
    destination recvcount recvtype rank = rank * recvcount * recvtype.extent ↔
      recvtype.extent = 0 ∨ rank * recvcount < 2 ^ 31 := by
  rw [destination, ← Int.natCast_mul]
  generalize rank * recvcount = n at h ⊢
  constructor
  · intro heq
    by_contra hnot
    have hpos : (0 : ℤ) < recvtype.extent := by omega
    have hlt : intT n * recvtype.extent < n * recvtype.extent := by
      apply Int.mul_lt_mul_of_pos_right _ hpos
      have hmod : intT n < 2 ^ 31 := Int.bmod_lt (by decide)
      omega
    have hge : -(n : ℤ) * recvtype.extent ≤ intT n * recvtype.extent := by
      apply Int.mul_le_mul_of_nonneg_right _ hpos.le
      have hmod : -2 ^ 31 ≤ intT n := Int.le_bmod (by decide)
      omega
    rw [Int.neg_mul, ← Int.natCast_mul] at hge
    rw [sizeT] at heq
    omega
  · rintro (hzero | hn)
    · rw [hzero, Nat.mul_zero, Int.natCast_zero, Int.mul_zero, sizeT, Int.zero_emod, Int.toNat_zero]
    · rw [intT_eq (by omega) (by omega), ← Int.natCast_mul, sizeT]
      omega

lemma mem_copies {hosts : List ℕ} {ranks : ℕ → List ℕ} {offset bytes : ℤ} {c : GatherCopy}
    (hranks : ∀ host, (ranks host).Perm (comm.group.procsOn host))
    (h : c ∈ (hosts.flatMap ranks).map fun rank =>
      ⟨rank, destination recvcount recvtype rank, offset, bytes⟩) :
    c.destination = destination recvcount recvtype c.rank ∧
      (∃ host, c.rank ∈ comm.group.procsOn host) ∧
      ∀ host ∈ hosts, ∀ rank ∈ comm.group.procsOn host,
        ∃ c' ∈ (hosts.flatMap ranks).map fun rank =>
          (⟨rank, destination recvcount recvtype rank, offset, bytes⟩ : GatherCopy),
          c'.rank = rank ∧ c'.rankOffset = c.rankOffset := by
  obtain ⟨rank, hrank, rfl⟩ := List.mem_map.mp h
  obtain ⟨host, -, hmem⟩ := List.mem_flatMap.mp hrank
  refine ⟨?_, ⟨host, (hranks host).subset hmem⟩, fun host hhost rank hrank => ?_⟩
  · dsimp only
  · have hin := List.mem_flatMap.mpr ⟨host, hhost, (hranks host).symm.subset hrank⟩
    exact ⟨_, List.mem_map_of_mem hin, rfl, rfl⟩

/-- Every copy goes to the place computed for its rank, and every rank's part of its stripe is
copied. -/
lemma mem_ulmAllgather {copies : List GatherCopy}
    (h : ulmAllgather comm order recvcount recvtype = some copies) :
    ∀ c ∈ copies, c.destination = destination recvcount recvtype c.rank ∧
      (∃ host, c.rank ∈ comm.group.procsOn host) ∧
      ∀ host ∈ order, ∀ rank ∈ comm.group.procsOn host,
        ∃ c' ∈ copies, c'.rank = rank ∧ c'.rankOffset = c.rankOffset := by
  obtain ⟨stripes, -, h⟩ := Option.bind_eq_some_iff.mp h
  intro c hc
  split_ifs at h
  · obtain rfl := Option.some.inj h
    obtain ⟨stripeID, hstripe, hc⟩ := List.mem_flatMap.mp hc
    have hof : c.destination = destination recvcount recvtype c.rank ∧
        (∃ host, c.rank ∈ comm.group.procsOn host) ∧
        ∀ host ∈ order, ∀ rank ∈ comm.group.procsOn host,
          ∃ c' ∈ copyDataFromSharedBufferMultipleStripesAllGather comm order recvcount recvtype
            stripeID, c'.rank = rank ∧ c'.rankOffset = c.rankOffset := by
      unfold copyDataFromSharedBufferMultipleStripesAllGather at hc ⊢
      dsimp only at hc ⊢
      split_ifs at hc ⊢
      · exact mem_copies (fun host => List.rotate_perm _ _) hc
      · exact mem_copies (fun host => List.Perm.refl _) hc
      · exact absurd hc List.not_mem_nil
    refine hof.imp_right (And.imp_right fun hall host hhost rank hrank => ?_)
    obtain ⟨c', hc', hsame⟩ := hall host hhost rank hrank
    exact ⟨c', List.mem_flatMap.mpr ⟨stripeID, hstripe, hc'⟩, hsame⟩
  · cases h
    exact mem_copies (fun host => List.Perm.refl _) hc

/-- **`ulm_allgather` places the data of a rank where it belongs exactly if the product of the rank
and the count is an `int`.**  Of a stripe it copies the part of every rank on the hosts it knows. -/
theorem ulmAllgather_destination_iff {layout : HostLayout} {p : ℕ}
    (hgroup : comm.group.OnHosts layout p)
    (hsize : layout.nproc * recvcount * recvtype.extent < 2 ^ 63) {copies : List GatherCopy}
    (h : ulmAllgather comm order recvcount recvtype = some copies) :
    ∀ c ∈ copies, (c.destination = c.rank * recvcount * recvtype.extent ↔
      recvtype.extent = 0 ∨ c.rank * recvcount < 2 ^ 31) ∧
      ∀ rank < layout.nproc, layout.hostOf rank ∈ order →
        ∃ c' ∈ copies, c'.rank = rank ∧ c'.rankOffset = c.rankOffset := by
  intro c hc
  obtain ⟨hdestination, ⟨host, hmem⟩, hall⟩ := mem_ulmAllgather h c hc
  rw [hgroup.procsOn] at hmem
  have hlt := HostLayout.lt_nproc_of_mem hmem
  have hle : c.rank * recvcount * recvtype.extent ≤ layout.nproc * recvcount * recvtype.extent :=
    Nat.mul_le_mul_right _ (Nat.mul_le_mul_right _ hlt.le)
  refine ⟨?_, fun rank hrank hhost => ?_⟩
  · rw [hdestination]
    exact destination_eq_iff (hle.trans_lt hsize)
  · apply hall _ hhost
    rw [hgroup.procsOn]
    exact HostLayout.mem_procsOn_hostOf hrank

def byteType : CommittedType := typeCommit ⟨[⟨1, 0⟩], 0, 1, 0, true⟩ fun _ => rfl

/-- A byte from each of three processes on two hosts. -/
theorem ulmAllgather_destination_iff_bytes :
    let s : LampiState := ⟨[2, 1], 0, 0, by decide⟩
    ∃ g copies, Group.create s [0, 1, 2] 0 = .ok g ∧
      ulmAllgather ⟨g, true, 3⟩ [0, 1] 1 byteType = some copies ∧
        copies.map GatherCopy.rank = [0, 1, 2] ∧
        ∀ c ∈ copies, c.rank < 3 → c.destination = c.rank * 1 * byteType.extent := by
  intro s
  obtain ⟨g, hcreate, hranks⟩ : ∃ g, Group.create s [0, 1, 2] 0 = .ok g ∧
      (ulmAllgather ⟨g, true, 3⟩ [0, 1] 1 byteType).map (List.map GatherCopy.rank) =
        some [0, 1, 2] := ⟨_, rfl, by decide +kernel⟩
  obtain ⟨copies, hcopies, hranks⟩ := Option.map_eq_some_iff.mp hranks
  have hmyproc : [0, 1, 2][0]? = some s.myproc := rfl
  have hgroup := Group.create_onHosts (by decide) (by decide) hmyproc hcreate
  refine ⟨g, copies, hcreate, hcopies, hranks, fun c hc hrank => ?_⟩
  apply (ulmAllgather_destination_iff hgroup (by decide) hcopies c hc).1.mpr
  omega

/-- What the first of three processes on three hosts copies if each contributes a gigabyte. -/
def gigabyteCopies : Option (List GatherCopy) := do
  let g ← (Group.create ⟨[1, 1, 1], 0, 0, by decide⟩ [0, 1, 2] 0).toOption
  ulmAllgather ⟨g, true, 3⟩ [0, 1, 2] (2 ^ 30) byteType

/-- The data of rank 2 is placed two gigabytes before the buffer. -/
theorem ulmAllgather_misplaced : gigabyteCopies.map (fun copies => copies.any fun c =>
    c.rank = 2 ∧ c.destination = 2 ^ 64 - 2 ^ 31) = some true := by
  decide +kernel

end Addresses

end Lampi
