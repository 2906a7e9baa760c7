import Lampi.Queue.Equiv.Group
import Lampi.Queue.HostLayout

/-!
# The tables of all members describe one layout

The members of a group build their tables separately, each from its own view of the job.  If they
call `Group::create` with the same list (`Group.Created`), then all tables describe one
`HostLayout` (**`Group.Created.exists_layout`**).
-/

namespace Lampi

open List

namespace Group

variable {s : LampiState} {rnkLst : List ℕ} {sizes : List ℕ} {grpID : ℤ} {g : Group}

/-- All members have called `Group::create` with the same list of distinct processes, in a job whose
hosts have these sizes. -/
structure Created (sizes rnkLst : List ℕ) (groups : ℕ → Group) : Prop where
  nodup : rnkLst.Nodup
  lt : ∀ r ∈ rnkLst, r < sizes.sum
  created : ∀ p < rnkLst.length, ∃ (s : LampiState) (grpID : ℤ), s.mapHostToLocalSize = sizes ∧
    rnkLst[p]? = some s.myproc ∧ create s rnkLst grpID = .ok (groups p)

lemma exists_created (hnodup : rnkLst.Nodup) (hlt : ∀ r ∈ rnkLst, r < sizes.sum)
    (s : ℕ → LampiState) (hsizes : ∀ p, (s p).mapHostToLocalSize = sizes)
    (hs : ∀ p < rnkLst.length, rnkLst[p]? = some (s p).myproc) :
    ∃ groups, Created sizes rnkLst groups := by
  choose groups hgroups using fun p => exists_create (s p) 0 hnodup
  exact ⟨groups, hnodup, hlt, fun p hp => ⟨s p, 0, hsizes p, hs p hp, hgroups p⟩⟩

lemma exists_created_twoHosts : ∃ groups, Created [2, 1] [0, 1, 2] groups := by
  refine exists_created (by decide) (by decide) (fun
    | 0 => ⟨[2, 1], 0, 0, by decide⟩
    | 1 => ⟨[2, 1], 0, 1, by decide⟩
    | _ => ⟨[2, 1], 1, 0, by decide⟩) (fun p => ?_) (by decide)
  rcases p with _ | _ | p <;> rfl

lemma create_hosts (h : create s rnkLst grpID = .ok g) :
    g.numberOfHostsInGroup = (groupHostList s rnkLst).length ∧
      g.groupHostData = (groupHostList s rnkLst).map (hostInfo s rnkLst) ∧
      g.hostIndexInGroup = Table.firstIndex s.myhost (groupHostList s rnkLst) ∧
      g.onHostGroupSize = (tmpProcList s rnkLst s.myhost).length := by
  unfold create at h
  split_ifs at h
  dsimp only at h
  rw [onHost_eq] at h
  cases h
  exact ⟨rfl, rfl, rfl, rfl⟩

/-- The ranks by host, from one member's view of the job. -/
def layout (s : LampiState) (rnkLst : List ℕ) : HostLayout where
  nproc := rnkLst.length
  hosts := (groupHostList s rnkLst).map (tmpProcList s rnkLst)
  ne_nil := by
    intro l hl
    obtain ⟨host, hhost, rfl⟩ := mem_map.mp hl
    exact tmpProcList_ne_nil hhost
  nodup := by
    intro l hl
    obtain ⟨host, -, rfl⟩ := mem_map.mp hl
    exact (pairwise_tmpProcList host).nodup
  disjoint := by
    rw [pairwise_map]
    refine List.Pairwise.imp ?_ nodup_groupHostList
    intro host host' hne proc hproc hproc'
    obtain ⟨r, hr, hhost⟩ := mem_tmpProcList.mp hproc
    obtain ⟨r', hr', hhost'⟩ := mem_tmpProcList.mp hproc'
    obtain rfl : r = r' := Option.some.inj (hr.symm.trans hr')
    exact hne (hhost.symm.trans hhost')
  mem_iff := by
    intro proc
    constructor
    · rintro ⟨l, hl, hproc⟩
      obtain ⟨host, -, rfl⟩ := mem_map.mp hl
      obtain ⟨r, hr, -⟩ := mem_tmpProcList.mp hproc
      exact (List.getElem?_eq_some_iff.mp hr).1
    · intro hproc
      have hr : rnkLst[proc]? = some rnkLst[proc] := List.getElem?_eq_getElem hproc
      refine ⟨_, mem_map_of_mem (mem_groupHostList.mpr ⟨_, getElem_mem hproc, rfl⟩), ?_⟩
      exact mem_tmpProcList.mpr ⟨_, hr, rfl⟩

/-- Place and host of an entry of `groupHostList`. -/
lemma layout_procsOn {i host : ℕ} (hi : (groupHostList s rnkLst)[i]? = some host) :
    (layout s rnkLst).procsOn i = tmpProcList s rnkLst host := by
  have hmap : ((groupHostList s rnkLst).map (tmpProcList s rnkLst))[i]? =
      some (tmpProcList s rnkLst host) := by
    rw [getElem?_map, hi]
    rfl
  exact congrArg (Option.getD · []) hmap

lemma layout_hostOf {i proc r : ℕ} (hr : rnkLst[proc]? = some r)
    (hi : (groupHostList s rnkLst)[i]? = some (s.globalProcToHost r)) :
    (layout s rnkLst).hostOf proc = i := by
  apply HostLayout.hostOf_eq
  rw [layout_procsOn hi]
  exact mem_tmpProcList.mpr ⟨r, hr, rfl⟩

/-- **The tables of a member** describe the layout. -/
theorem create_onHosts (hnodup : rnkLst.Nodup) (hlt : ∀ r ∈ rnkLst, r < s.nprocs) {p : ℕ}
    (hp : rnkLst[p]? = some s.myproc) (h : create s rnkLst grpID = .ok g) :
    g.OnHosts (layout s rnkLst) p := by
  obtain ⟨hnumber, hdata, hindex, hsize⟩ := create_hosts h
  have hcons := consistent_of_create hnodup hlt h
  -- the host of every member is in the list
  have hhost : ∀ {proc r : ℕ}, rnkLst[proc]? = some r →
      ∃ i, (groupHostList s rnkLst)[i]? = some (s.globalProcToHost r) := fun hr =>
    mem_iff_getElem?.mp (mem_groupHostList.mpr ⟨_, mem_of_getElem? hr, rfl⟩)
  have hlists : g.groupHostData.map UlmHostInfo.groupProcIDOnHost = (layout s rnkLst).hosts := by
    rw [hdata, map_map]
    rfl
  obtain ⟨i, hi⟩ := hhost hp
  have hself : (layout s rnkLst).hostOf p = i := layout_hostOf hp hi
  rw [s.globalProcToHost_myproc] at hi
  have hown : g.hostIndexInGroup = i := by
    rw [hindex]
    exact Table.firstIndex_of_getElem? nodup_groupHostList hi
  have hentry : g.groupHostData[i]? = some (hostInfo s rnkLst s.myhost) := by
    rw [hdata, getElem?_map, hi]
    rfl
  have honHost : ∀ r < (layout s rnkLst).nproc,
      (layout s rnkLst).hostOf r = (layout s rnkLst).hostOf p →
      g.mapGroupProcIDToOnHostProcID[r]? = some ((layout s rnkLst).onHost r : ℤ) := by
    intro r hr heq
    have hplace := HostLayout.getElem?_onHost hr
    rw [heq, hself, layout_procsOn hi] at hplace
    exact hcons.onHost _ (mem_of_getElem? hentry) rfl _ _ hplace
  have hproc := hcons.members ▸ hp
  have hpn : p < (layout s rnkLst).nproc := (List.getElem?_eq_some_iff.mp hp).1
  constructor
  case groupSize => exact hcons.groupSize_eq
  case self =>
    show g.ProcID.toNat = p
    rw [(hcons.self p hproc).1, Int.toNat_natCast]
  case numberOfHostsInGroup =>
    rw [hnumber]
    exact (length_map _).symm
  case procsOn =>
    intro host
    rw [procsOn, hlists]
    rfl
  case hostOf =>
    intro r hr
    have hx : rnkLst[r]? = some rnkLst[r] := getElem?_eq_getElem hr
    obtain ⟨j, hj⟩ := hhost hx
    have hlookup := hcons.lookup j (hostInfo s rnkLst (s.globalProcToHost rnkLst[r])) (by
      rw [hdata, getElem?_map, hj]
      rfl)
    have hmember : g.mapGroupProcIDToGlobalProcID[r]? = some rnkLst[r] := by
      rw [hcons.members]
      exact hx
    rw [hostOf, layout_hostOf hx hj, getD_eq_getElem?_getD, getD_eq_getElem?_getD,
      hcons.host r _ hmember]
    exact congrArg (fun o => (Option.getD o poison).toNat) hlookup
  case sameHost =>
    intro r hr q hq
    have hx : rnkLst[r]? = some rnkLst[r] := getElem?_eq_getElem hr
    have hy : rnkLst[q]? = some rnkLst[q] := getElem?_eq_getElem hq
    obtain ⟨i, hi⟩ := hhost hx
    obtain ⟨j, hj⟩ := hhost hy
    rw [sameHost, layout_hostOf hx hi, layout_hostOf hy hj, getD_eq_getElem?_getD,
      getD_eq_getElem?_getD, hcons.host r _ (by rw [hcons.members]; exact hx),
      hcons.host q _ (by rw [hcons.members]; exact hy), Bool.beq_eq_decide_eq]
    apply decide_eq_decide.mpr
    -- the hosts are different entries of the list
    simp only [Option.getD_some, Option.some.injEq]
    constructor
    · intro heq
      rw [heq] at hi
      have hlt := (List.getElem?_eq_some_iff.mp hi).1
      exact (getElem?_inj hlt nodup_groupHostList).mp (hi.trans hj.symm)
    · rintro rfl
      exact Option.some.inj (hi.symm.trans hj)
  case selfHost =>
    rw [selfHost, hown, Int.toNat_natCast, hself]
  case onHostProcID =>
    have hmine := honHost p hpn rfl
    rw [(hcons.self p hproc).2, Option.some.injEq] at hmine
    exact_mod_cast hmine
  case onHost =>
    intro r hr heq
    rw [onHost, getD_eq_getElem?_getD, honHost r hr heq]
    rfl
  case onHostGroupSize =>
    rw [hsize, hself, layout_procsOn hi]
  case maxOnHostGroupSize =>
    have hne : g.groupHostData ≠ [] := ne_nil_of_mem (mem_of_getElem? hentry)
    apply le_antisymm
    · obtain ⟨d, hd, hlen⟩ := hcons.maxOnHost.2 hne
      rw [← hlen]
      exact Table.le_maxOf length (hlists ▸ mem_map_of_mem hd)
    · have hhosts : (layout s rnkLst).hosts ≠ [] := by
        rw [← hlists]
        exact fun hnil => hne (map_eq_nil_iff.mp hnil)
      obtain ⟨l, hl, hlen⟩ := Table.maxOf_attained length hhosts
      rw [HostLayout.maxOnHost, ← hlen]
      rw [← hlists] at hl
      obtain ⟨d, hd, rfl⟩ := mem_map.mp hl
      exact hcons.maxOnHost.1 d hd

private lemma layout_congr {s' : LampiState}
    (hsizes : s.mapHostToLocalSize = s'.mapHostToLocalSize) :
    layout s rnkLst = layout s' rnkLst := by
  have hhost : s.globalProcToHost = s'.globalProcToHost := by
    funext x
    rw [LampiState.globalProcToHost, LampiState.globalProcToHost, LampiState.mapGlobalRankToHost,
      LampiState.mapGlobalRankToHost, hsizes]
  have hlist : tmpProcList s rnkLst = tmpProcList s' rnkLst := by
    funext host
    rw [tmpProcList, tmpProcList, hhost]
  have hhosts : groupHostList s rnkLst = groupHostList s' rnkLst := by
    rw [groupHostList, groupHostList, hhost]
  unfold layout
  congr 1
  rw [hlist, hhosts]

lemma Created.exists_layout {groups : ℕ → Group} (h : Created sizes rnkLst groups) :
    ∃ layout : HostLayout, layout.nproc = rnkLst.length ∧
      ∀ p < rnkLst.length, (groups p).OnHosts layout p := by
  have hlt : ∀ {s : LampiState}, s.mapHostToLocalSize = sizes → ∀ r ∈ rnkLst, r < s.nprocs := by
    rintro s rfl
    exact h.lt
  rcases Nat.eq_zero_or_pos rnkLst.length with hzero | hpos
  · -- no member at all
    refine ⟨⟨0, [], by simp, by simp, Pairwise.nil, by simp⟩, hzero.symm, fun p hp => ?_⟩
    rw [hzero] at hp
    exact absurd hp (Nat.not_lt_zero p)
  · obtain ⟨s0, -, hsizes0, -, -⟩ := h.created 0 hpos
    refine ⟨layout s0 rnkLst, rfl, fun p hp => ?_⟩
    obtain ⟨s, grpID, hsizes, hmyproc, hcreate⟩ := h.created p hp
    rw [layout_congr (hsizes0.trans hsizes.symm)]
    exact create_onHosts h.nodup (hlt hsizes) hmyproc hcreate

end Group

end Lampi
