import Mathlib.Data.List.GetD
import Lampi.Queue.Group

/-!
# Consistency of the group tables

The tables of `Group::create` are filled by separate loops; the collectives and the matching code
use them together.  The loops agree because each of them can be read off two facts: which host a
global number belongs to, and at which place of the member list it stands.

* `hostSearch_eq`: the running sum over the host sizes finds the host that `map_global_rank_to_host`
  was filled with.  So the two ways the source computes a member's host coincide
  (`groupToHost_eq`).
* `countOnHost_eq`: the rank a member gets on its own host is its place in the host's rank list.
* `hasDuplicate_eq_false_iff`: the duplicate check accepts exactly the lists of distinct numbers.

**`create_consistent`** puts them together for every list of distinct global numbers.
-/

namespace Lampi

open List

/-! ### The job map -/

variable {x : ℕ}

namespace LampiState

lemma length_fillHosts (sizes : List ℕ) : ∀ h, (fillHosts h sizes).length = sizes.sum := by
  induction sizes with
  | nil => intro h; rfl
  | cons size sizes ih => intro h; simp [fillHosts, ih]

/-- The entry `r` of block `k` is the host the block belongs to. -/
lemma fillHosts_getElem? (sizes : List ℕ) :
    ∀ h k r, r < sizes.getD k 0 → (fillHosts h sizes)[r + (sizes.take k).sum]? = some (h + k) := by
  induction sizes with
  | nil => intro h k r hr; simp at hr
  | cons size sizes ih =>
    intro h k r hr
    cases k with
    | zero =>
      have hr' : r < size := by simpa using hr
      rw [fillHosts, getElem?_append_left (by simpa using hr')]
      simp [hr']
    | succ k =>
      have hplace : r + ((size :: sizes).take (k + 1)).sum = size + (r + (sizes.take k).sum) := by
        rw [take_succ_cons, sum_cons]; omega
      rw [fillHosts, hplace, getElem?_append_right (by simp)]
      have h' := ih (h + 1) k r (by simpa using hr)
      rw [length_replicate, Nat.add_sub_cancel_left, h']
      congr 1; omega

variable (s : LampiState)

lemma mapGlobalRankToHost_getElem? (hx : x < s.nprocs) :
    s.mapGlobalRankToHost[x]? = some (s.globalProcToHost x) := by
  have hlen : x < s.mapGlobalRankToHost.length := by
    rw [mapGlobalRankToHost, length_fillHosts]; exact hx
  rw [globalProcToHost, getD_eq_getElem?_getD, getElem?_eq_getElem hlen]
  rfl

private lemma mapGlobalRankToHost_myproc : s.mapGlobalRankToHost[s.myproc]? = some s.myhost := by
  have h := fillHosts_getElem? s.mapHostToLocalSize 0 s.hostid s.localRank s.localRank_lt
  rwa [Nat.zero_add] at h

lemma myproc_lt : s.myproc < s.nprocs := by
  obtain ⟨hlt, -⟩ := List.getElem?_eq_some_iff.mp s.mapGlobalRankToHost_myproc
  rwa [mapGlobalRankToHost, length_fillHosts] at hlt

lemma globalProcToHost_myproc : s.globalProcToHost s.myproc = s.myhost := by
  have h := s.mapGlobalRankToHost_getElem? s.myproc_lt
  rw [s.mapGlobalRankToHost_myproc] at h
  exact (Option.some.inj h).symm

end LampiState

namespace Group

/-! ### The two host computations agree -/

lemma hostSearch_eq {gRank : ℕ} (sizes : List ℕ) :
    ∀ cumProcs host, cumProcs ≤ gRank →
      hostSearch gRank cumProcs host sizes =
        (LampiState.fillHosts host sizes)[gRank - cumProcs]? := by
  induction sizes with
  | nil => intro cumProcs host _; rfl
  | cons size sizes ih =>
    intro cumProcs host hle
    rw [hostSearch, LampiState.fillHosts]
    split_ifs with hblock
    · -- `gRank` lies in this block
      have hlt : gRank - cumProcs < size := by omega
      rw [List.getElem?_append_left (by simpa using hlt)]
      simp [hlt]
    · rw [ih _ _ (by omega), List.getElem?_append_right (by simp; omega), length_replicate,
        Nat.sub_sub]

variable {s : LampiState} {rnkLst : List ℕ} {host proc i : ℕ}

lemma groupToHost_eq (hlt : ∀ r ∈ rnkLst, r < s.nprocs) :
    groupToHost s rnkLst = rnkLst.map fun r => some (s.globalProcToHost r) := by
  refine map_congr_left fun r hr => ?_
  rw [hostSearch_eq _ _ _ (Nat.zero_le r)]
  exact s.mapGlobalRankToHost_getElem? (hlt r hr)

/-! ### Ranks on one host -/

lemma mem_tmpProcList : proc ∈ tmpProcList s rnkLst host ↔
    ∃ r, rnkLst[proc]? = some r ∧ s.globalProcToHost r = host := by
  rw [tmpProcList, mem_filter, mem_range, beq_iff_eq]
  constructor
  · rintro ⟨hproc, hhost⟩
    refine ⟨rnkLst.getD proc 0, ?_, hhost⟩
    rw [getD_eq_getElem _ _ hproc, getElem?_eq_getElem hproc]
  · rintro ⟨r, hr, hhost⟩
    obtain ⟨hproc, rfl⟩ := List.getElem?_eq_some_iff.mp hr
    exact ⟨hproc, by rwa [getD_eq_getElem _ _ hproc]⟩

lemma pairwise_tmpProcList (host : ℕ) : (tmpProcList s rnkLst host).Pairwise (· < ·) :=
  pairwise_lt_range.filter _

/-- On the own host, counting by `mapGroupProcIDToHostID` counts the ranks of the host list. -/
lemma countOnHost_eq (hlt : ∀ r ∈ rnkLst, r < s.nprocs) {procs : ℕ}
    (hprocs : procs ≤ rnkLst.length) :
    countOnHost s rnkLst procs = (range procs).countP fun proc =>
      s.globalProcToHost (rnkLst.getD proc 0) == s.myhost := by
  rw [countOnHost, groupToHost_eq hlt]
  refine countP_congr fun proc hproc => ?_
  have hproc' : proc < rnkLst.length := (mem_range.mp hproc).trans_le hprocs
  rw [getElem?_map, getElem?_eq_getElem hproc', getD_eq_getElem _ _ hproc']
  simp

/-- The place of a rank in its host's list is what the counting loop computes for it. -/
lemma countOnHost_of_getElem? (hlt : ∀ r ∈ rnkLst, r < s.nprocs)
    (h : (tmpProcList s rnkLst s.myhost)[i]? = some proc) : countOnHost s rnkLst proc = i := by
  obtain ⟨r, hr, -⟩ := mem_tmpProcList.mp (mem_of_getElem? h)
  obtain ⟨hproc, -⟩ := List.getElem?_eq_some_iff.mp hr
  rw [countOnHost_eq hlt hproc.le]
  exact Table.countP_range_of_getElem? h

/-! ### The host list -/

lemma mem_groupHostList :
    host ∈ groupHostList s rnkLst ↔ ∃ r ∈ rnkLst, s.globalProcToHost r = host := by
  rw [groupHostList, Table.mem_collectFrom, mem_map]
  simp

lemma nodup_groupHostList : (groupHostList s rnkLst).Nodup :=
  Table.nodup_collectFrom _ [] nodup_nil

lemma hasDuplicate_eq_false_iff : hasDuplicate rnkLst = false ↔ rnkLst.Nodup := by
  rw [nodup_iff_getElem?_ne_getElem?, hasDuplicate, any_eq_false]
  constructor
  · intro h proc2 proc1 hlt hproc1 heq
    have h1 := h proc1 (mem_range.mpr hproc1)
    simp only [any_eq_true, not_exists, not_and] at h1
    exact h1 proc2 (mem_range.mpr hlt) (by simp [heq])
  · intro h proc1 hproc1
    simp only [any_eq_true, not_exists, not_and]
    intro proc2 hproc2 heq
    have heq' : rnkLst[proc1]? = rnkLst[proc2]? := by simpa using heq
    exact h proc2 proc1 (mem_range.mp hproc2) (mem_range.mp hproc1) heq'.symm

/-- The ranks that the last loops of `create` take from `groupHostData`; a host without members
has an empty list either way. -/
lemma onHost_eq :
    (if Table.firstIndex s.myhost (groupHostList s rnkLst) < 0 then []
      else (((groupHostList s rnkLst).map (hostInfo s rnkLst)).map
        UlmHostInfo.groupProcIDOnHost).getD
          (Table.firstIndex s.myhost (groupHostList s rnkLst)).toNat []) =
      tmpProcList s rnkLst s.myhost := by
  by_cases hmem : s.myhost ∈ groupHostList s rnkLst
  · obtain ⟨i, hi⟩ := mem_iff_getElem?.mp hmem
    rw [Table.firstIndex_of_getElem? nodup_groupHostList hi, if_neg (by omega), Int.toNat_natCast,
      getD_eq_getElem?_getD, getElem?_map, getElem?_map, hi]
    rfl
  · rw [Table.firstIndex_of_notMem hmem, if_pos (by omega), eq_comm, eq_nil_iff_forall_not_mem]
    intro proc hproc
    obtain ⟨r, hr, hhost⟩ := mem_tmpProcList.mp hproc
    exact hmem (mem_groupHostList.mpr ⟨r, mem_of_getElem? hr, hhost⟩)

/-! ### The lookup tables -/

lemma hostDataLookup_getElem? {hosts : List ℕ} (hnodup : hosts.Nodup)
    (h : hosts[i]? = some host) : (hostDataLookup hosts)[host]? = some (i : ℤ) := by
  refine Table.fill_getElem?_of_mem ?_ ?_ _ ?_
  · rwa [map_map, Function.comp_def, zipIdx_map_fst]
  · exact mem_map.mpr ⟨(host, i), mem_zipIdx_iff_getElem?.mpr h, rfl⟩
  · rw [length_replicate]
    exact Nat.lt_succ_of_le (Table.le_maxOf id (mem_of_getElem? h))

lemma globalToGroup_getElem? (hx : x < s.nprocs) :
    (globalToGroup s rnkLst)[x]? = some (Table.firstIndex x rnkLst) := by
  rw [globalToGroup, getElem?_map, getElem?_range hx]
  rfl

/-- Forward and backward map are inverse to each other on the members. -/
lemma globalToGroup_eq_some_iff (hnodup : rnkLst.Nodup) (hlt : ∀ r ∈ rnkLst, r < s.nprocs) :
    (globalToGroup s rnkLst)[x]? = some (proc : ℤ) ↔ rnkLst[proc]? = some x := by
  constructor
  · intro h
    have hx : x < s.nprocs := by
      have hlen := (List.getElem?_eq_some_iff.mp h).1
      simpa [globalToGroup] using hlen
    rw [globalToGroup_getElem? hx] at h
    exact Table.getElem?_of_firstIndex (Option.some.inj h)
  · intro h
    rw [globalToGroup_getElem? (hlt x (mem_of_getElem? h)), Table.firstIndex_of_getElem? hnodup h]

lemma groupToOnHost_of_mem (hlt : ∀ r ∈ rnkLst, r < s.nprocs)
    (h : (tmpProcList s rnkLst s.myhost)[i]? = some proc) :
    (groupToOnHost s rnkLst (tmpProcList s rnkLst s.myhost))[proc]? = some (i : ℤ) := by
  have hmem := mem_of_getElem? h
  refine Table.fill_getElem?_of_mem ?_ ?_ _ ?_
  · rw [map_map, Function.comp_def, map_id']
    exact (pairwise_tmpProcList s.myhost).nodup
  · exact mem_map.mpr ⟨proc, hmem, by rw [countOnHost_of_getElem? hlt h]⟩
  · obtain ⟨r, hr, -⟩ := mem_tmpProcList.mp hmem
    rw [length_replicate]
    exact (List.getElem?_eq_some_iff.mp hr).1

lemma groupToOnHost_of_notMem (hproc : proc < rnkLst.length)
    (h : proc ∉ tmpProcList s rnkLst s.myhost) :
    (groupToOnHost s rnkLst (tmpProcList s rnkLst s.myhost))[proc]? = some (-1) := by
  rw [groupToOnHost, Table.fill_getElem?_of_notMem, getElem?_replicate_of_lt hproc]
  rwa [map_map, Function.comp_def, map_id']

/-! ### The group as a whole -/

/-- What the users of a group rely on; `s` is the job map of the calling process. -/
structure Consistent (s : LampiState) (rnkLst : List ℕ) (g : Group) : Prop where
  members : g.mapGroupProcIDToGlobalProcID = rnkLst
  groupSize_eq : g.groupSize = rnkLst.length
  /-- The two rank maps are inverse to each other on the members. -/
  inverse : ∀ x proc : ℕ, g.mapGlobalProcIDToGroupProcID[x]? = some (proc : ℤ) ↔
    g.mapGroupProcIDToGlobalProcID[proc]? = some x
  /-- A process outside the group has no rank. -/
  outside : ∀ x < s.nprocs, x ∉ g.mapGroupProcIDToGlobalProcID →
    g.mapGlobalProcIDToGroupProcID[x]? = some (-1)
  /-- `mapGroupProcIDToHostID` agrees with `global_proc_to_host`. -/
  host : ∀ proc x : ℕ, g.mapGroupProcIDToGlobalProcID[proc]? = some x →
    g.mapGroupProcIDToHostID[proc]? = some (some (s.globalProcToHost x))
  /-- Every rank is in the list of exactly one entry of `groupHostData`. -/
  partition : ∀ proc < g.groupSize,
    ∃! i : ℕ, ∃ d : UlmHostInfo, g.groupHostData[i]? = some d ∧ proc ∈ d.groupProcIDOnHost
  /-- The list of an entry holds the ranks on its host and nothing else, in increasing order. -/
  hostList : ∀ d ∈ g.groupHostData, d.groupProcIDOnHost.Pairwise (· < ·) ∧
    d.nGroupProcIDOnHost = d.groupProcIDOnHost.length ∧
    ∀ proc, proc ∈ d.groupProcIDOnHost ↔
      ∃ x, g.mapGroupProcIDToGlobalProcID[proc]? = some x ∧ s.globalProcToHost x = d.hostID
  /-- The root of a host is its smallest rank, and the destination is that rank's process. -/
  hostRoot : ∀ d ∈ g.groupHostData, d.groupProcIDOnHost.head? = some d.hostCommRoot ∧
    g.mapGroupProcIDToGlobalProcID[d.hostCommRoot]? = some d.destProc
  /-- `groupHostDataLookup` inverts the host list. -/
  lookup : ∀ (i : ℕ) (d : UlmHostInfo), g.groupHostData[i]? = some d →
    g.groupHostDataLookup[d.hostID]? = some (i : ℤ)
  /-- The members on this host are numbered from 0 in the order of their ranks. -/
  onHost : ∀ d ∈ g.groupHostData, d.hostID = s.myhost → ∀ i proc : ℕ,
    d.groupProcIDOnHost[i]? = some proc → g.mapGroupProcIDToOnHostProcID[proc]? = some (i : ℤ)
  /-- The members on other hosts have no number on this host. -/
  offHost : ∀ proc x : ℕ, g.mapGroupProcIDToGlobalProcID[proc]? = some x →
    s.globalProcToHost x ≠ s.myhost → g.mapGroupProcIDToOnHostProcID[proc]? = some (-1)
  /-- For a calling process in the group, `ProcID` and `onHostProcID` are its own entries. -/
  self : ∀ proc : ℕ, g.mapGroupProcIDToGlobalProcID[proc]? = some s.myproc →
    g.ProcID = proc ∧ g.mapGroupProcIDToOnHostProcID[proc]? = some (g.onHostProcID : ℤ)
  /-- `maxOnHostGroupSize` is the length of the longest host list. -/
  maxOnHost : (∀ d ∈ g.groupHostData, d.groupProcIDOnHost.length ≤ g.maxOnHostGroupSize) ∧
    (g.groupHostData ≠ [] →
      ∃ d ∈ g.groupHostData, d.groupProcIDOnHost.length = g.maxOnHostGroupSize)

private lemma hostData_getElem? {d : UlmHostInfo} :
    ((groupHostList s rnkLst).map (hostInfo s rnkLst))[i]? = some d ↔
      ∃ host, (groupHostList s rnkLst)[i]? = some host ∧ hostInfo s rnkLst host = d := by
  rw [getElem?_map, Option.map_eq_some_iff]

/-- The entry of a rank is the one of its host, and the host list has no host twice. -/
lemma existsUnique_hostData (hproc : proc < rnkLst.length) :
    ∃! i : ℕ, ∃ d : UlmHostInfo,
      ((groupHostList s rnkLst).map (hostInfo s rnkLst))[i]? = some d ∧
        proc ∈ d.groupProcIDOnHost := by
  have hr : rnkLst[proc]? = some rnkLst[proc] := getElem?_eq_getElem hproc
  obtain ⟨i, hi⟩ := mem_iff_getElem?.mp <|
    mem_groupHostList.mpr ⟨rnkLst[proc], getElem_mem hproc, rfl⟩
  refine ⟨i, ⟨_, hostData_getElem?.mpr ⟨_, hi, rfl⟩, mem_tmpProcList.mpr ⟨_, hr, rfl⟩⟩, ?_⟩
  rintro j ⟨d, hd, hmem⟩
  obtain ⟨host, hj, rfl⟩ := hostData_getElem?.mp hd
  obtain ⟨x, hx, rfl⟩ := mem_tmpProcList.mp hmem
  rw [hr, Option.some.injEq] at hx
  rw [← hx] at hj
  have hlt : j < (groupHostList s rnkLst).length := (List.getElem?_eq_some_iff.mp hj).1
  exact (getElem?_inj hlt nodup_groupHostList).mp (hj.trans hi.symm)

lemma tmpProcList_ne_nil (h : host ∈ groupHostList s rnkLst) : tmpProcList s rnkLst host ≠ [] := by
  obtain ⟨r, hr, hhost⟩ := mem_groupHostList.mp h
  obtain ⟨proc, hproc⟩ := mem_iff_getElem?.mp hr
  exact ne_nil_of_mem (mem_tmpProcList.mpr ⟨r, hproc, hhost⟩)

lemma hostInfo_root (h : host ∈ groupHostList s rnkLst) :
    (tmpProcList s rnkLst host).head? = some (hostInfo s rnkLst host).hostCommRoot ∧
      rnkLst[(hostInfo s rnkLst host).hostCommRoot]? = some (hostInfo s rnkLst host).destProc := by
  obtain ⟨root, rest, heq⟩ := exists_cons_of_ne_nil (tmpProcList_ne_nil h)
  obtain ⟨r, hr, -⟩ := mem_tmpProcList.mp (heq ▸ mem_cons_self : root ∈ tmpProcList s rnkLst host)
  simp [hostInfo, heq, hr, getD_eq_getElem?_getD]

lemma exists_create (s : LampiState) (grpID : ℤ) (hnodup : rnkLst.Nodup) :
    ∃ g, create s rnkLst grpID = .ok g := by
  simp only [create, hasDuplicate_eq_false_iff.mpr hnodup]
  exact ⟨_, rfl⟩

lemma consistent_of_create {grpID : ℤ} {g : Group} (hnodup : rnkLst.Nodup)
    (hlt : ∀ r ∈ rnkLst, r < s.nprocs) (h : create s rnkLst grpID = .ok g) :
    Consistent s rnkLst g := by
  simp only [create, hasDuplicate_eq_false_iff.mpr hnodup, Bool.false_eq_true, if_false,
    onHost_eq] at h
  cases h
  have hself : ∀ proc : ℕ, rnkLst[proc]? = some s.myproc →
      (globalToGroup s rnkLst).getD s.myproc (-1) = proc := by
    intro proc hproc
    rw [getD_eq_getElem?_getD, (globalToGroup_eq_some_iff hnodup hlt).mpr hproc]
    rfl
  refine
    { members := rfl
      groupSize_eq := rfl
      inverse := fun x proc => globalToGroup_eq_some_iff hnodup hlt
      outside := ?outside
      host := ?host
      partition := fun proc hproc => existsUnique_hostData hproc
      hostList := ?hostList
      hostRoot := ?hostRoot
      lookup := ?lookup
      onHost := ?onHost
      offHost := ?offHost
      self := ?self
      maxOnHost := ?maxOnHost }
  case outside =>
    intro x hx hmem
    show (globalToGroup s rnkLst)[x]? = some (-1)
    rw [globalToGroup_getElem? hx, Table.firstIndex_of_notMem hmem]
  case host =>
    intro proc x hx
    show (groupToHost s rnkLst)[proc]? = _
    rw [groupToHost_eq hlt, getElem?_map, hx]
    rfl
  case hostList =>
    intro d hd
    obtain ⟨host, -, rfl⟩ := mem_map.mp hd
    exact ⟨pairwise_tmpProcList host, rfl, fun proc => mem_tmpProcList⟩
  case hostRoot =>
    intro d hd
    obtain ⟨host, hhost, rfl⟩ := mem_map.mp hd
    exact hostInfo_root hhost
  case lookup =>
    intro i d hd
    obtain ⟨host, hi, rfl⟩ := hostData_getElem?.mp hd
    exact hostDataLookup_getElem? nodup_groupHostList hi
  case onHost =>
    intro d hd hmine i proc hi
    obtain ⟨host, -, rfl⟩ := mem_map.mp hd
    obtain rfl : host = s.myhost := hmine
    exact groupToOnHost_of_mem hlt hi
  case offHost =>
    intro proc x hx hother
    refine groupToOnHost_of_notMem (List.getElem?_eq_some_iff.mp hx).1 fun hmem => ?_
    obtain ⟨x', hx', hhost⟩ := mem_tmpProcList.mp hmem
    obtain rfl : x = x' := Option.some.inj (hx.symm.trans hx')
    exact hother hhost
  case self =>
    intro proc hproc
    have hproc' : proc ∈ tmpProcList s rnkLst s.myhost :=
      mem_tmpProcList.mpr ⟨s.myproc, hproc, s.globalProcToHost_myproc⟩
    obtain ⟨i, hi⟩ := mem_iff_getElem?.mp hproc'
    refine ⟨hself proc hproc, ?_⟩
    simp only [hself proc hproc, Int.toNat_natCast]
    rw [groupToOnHost_of_mem hlt hi, countOnHost_of_getElem? hlt hi]
  case maxOnHost =>
    -- the counts are the list lengths by the definition of `hostInfo`
    have hlen : ∀ d ∈ (groupHostList s rnkLst).map (hostInfo s rnkLst),
        d.groupProcIDOnHost.length = d.nGroupProcIDOnHost := by
      intro d hd
      obtain ⟨host, -, rfl⟩ := mem_map.mp hd
      rfl
    refine ⟨fun d hd => ?_, fun hne => ?_⟩
    · rw [hlen d hd]
      exact Table.le_maxOf UlmHostInfo.nGroupProcIDOnHost hd
    · obtain ⟨d, hd, heq⟩ := Table.maxOf_attained UlmHostInfo.nGroupProcIDOnHost hne
      exact ⟨d, hd, (hlen d hd).trans heq⟩

/-- **`Group::create` builds consistent tables** for every list of distinct global process
numbers, whatever hosts the members are on and whether or not the calling process is one of
them. -/
theorem create_consistent (s : LampiState) (rnkLst : List ℕ) (grpID : ℤ)
    (hnodup : rnkLst.Nodup) (hlt : ∀ r ∈ rnkLst, r < s.nprocs) :
    ∃ g, create s rnkLst grpID = .ok g ∧ Consistent s rnkLst g := by
  obtain ⟨g, hg⟩ := exists_create s grpID hnodup
  exact ⟨g, hg, consistent_of_create hnodup hlt hg⟩

/-- Three hosts with two processes each; the second process of the last host calls with members
from the last and the first host, out of order. -/
theorem create_consistent_permuted :
    let s : LampiState := ⟨[2, 2, 2], 2, 1, by decide⟩
    s.myproc = 5 ∧ ∃ g, create s [4, 0, 5] 7 = .ok g ∧ Consistent s [4, 0, 5] g :=
  ⟨by decide, create_consistent _ [4, 0, 5] 7 (by decide) (by decide)⟩

end Group

end Lampi
