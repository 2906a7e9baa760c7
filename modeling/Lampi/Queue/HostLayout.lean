import Mathlib.Data.List.GetD
import Lampi.Queue.Group

/-!
# The members of a group on their hosts

Collective operations use the tables of the group to find out who is on which host.  The accessors
here read the tables as the source does.  `HostLayout` is what all members have in common: for each
host the list of its ranks, which is what `groupProcIDOnHost` holds.
-/

namespace Lampi

open List

namespace Group

variable (g : Group)

def hostOf (proc : ℕ) : ℕ :=
  (g.groupHostDataLookup.getD ((g.mapGroupProcIDToHostID.getD proc none).getD 0) poison).toNat

/-- `mapGroupProcIDToHostID` has the same entry for both. -/
def sameHost (proc proc' : ℕ) : Bool :=
  g.mapGroupProcIDToHostID.getD proc none == g.mapGroupProcIDToHostID.getD proc' none

def procsOn (host : ℕ) : List ℕ := (g.groupHostData.map UlmHostInfo.groupProcIDOnHost).getD host []

def onHost (proc : ℕ) : ℕ := (g.mapGroupProcIDToOnHostProcID.getD proc (-1)).toNat

/-- `hostIndexInGroup`, of a process that is in the group. -/
def selfHost : ℕ := g.hostIndexInGroup.toNat

/-- `ProcID`, of a process that is in the group. -/
def self : ℕ := g.ProcID.toNat

end Group

/-- The ranks below `nproc`, by host. -/
structure HostLayout where
  nproc : ℕ
  hosts : List (List ℕ)
  ne_nil : ∀ l ∈ hosts, l ≠ []
  nodup : ∀ l ∈ hosts, l.Nodup
  disjoint : hosts.Pairwise List.Disjoint
  mem_iff : ∀ r, (∃ l ∈ hosts, r ∈ l) ↔ r < nproc

namespace HostLayout

variable (layout : HostLayout)

def nhost : ℕ := layout.hosts.length

/-- The ranks on a host. -/
def procsOn (host : ℕ) : List ℕ := layout.hosts.getD host []

/-- The host of a rank. -/
def hostOf (r : ℕ) : ℕ := layout.hosts.findIdx (r ∈ ·)

/-- The place of a rank on its host. -/
def onHost (r : ℕ) : ℕ := (layout.procsOn (layout.hostOf r)).idxOf r

/-- The longest list. -/
def maxOnHost : ℕ := Table.maxOf length layout.hosts

variable {layout} {h r : ℕ}

lemma procsOn_mem (hh : h < layout.nhost) : layout.procsOn h ∈ layout.hosts := by
  rw [procsOn, getD_eq_getElem _ _ hh]
  exact getElem_mem hh

lemma lt_nhost_of_mem (hr : r ∈ layout.procsOn h) : h < layout.nhost := by
  by_contra hlt
  rw [procsOn, getD_eq_default _ _ (not_lt.mp hlt)] at hr
  exact not_mem_nil hr

lemma lt_nproc_of_mem (hr : r ∈ layout.procsOn h) : r < layout.nproc :=
  (layout.mem_iff r).mp ⟨_, procsOn_mem (lt_nhost_of_mem hr), hr⟩

lemma nodup_procsOn (h : ℕ) : (layout.procsOn h).Nodup := by
  by_cases hh : h < layout.nhost
  · exact layout.nodup _ (procsOn_mem hh)
  · rw [procsOn, getD_eq_default _ _ (not_lt.mp hh)]
    exact nodup_nil

lemma procsOn_ne_nil (hh : h < layout.nhost) : layout.procsOn h ≠ [] :=
  layout.ne_nil _ (procsOn_mem hh)

lemma hostOf_lt (hr : r < layout.nproc) : layout.hostOf r < layout.nhost := by
  obtain ⟨l, hl, hrl⟩ := (layout.mem_iff r).mpr hr
  exact findIdx_lt_length_of_exists ⟨l, hl, decide_eq_true hrl⟩

lemma mem_procsOn_hostOf (hr : r < layout.nproc) : r ∈ layout.procsOn (layout.hostOf r) := by
  have hlt := hostOf_lt hr
  rw [procsOn, getD_eq_getElem _ _ hlt]
  exact of_decide_eq_true (findIdx_getElem (p := fun l => decide (r ∈ l)) (w := hlt))

lemma hostOf_eq (hr : r ∈ layout.procsOn h) : layout.hostOf r = h := by
  have hh := lt_nhost_of_mem hr
  have hproc := lt_nproc_of_mem hr
  have hhost := hostOf_lt hproc
  have hmem := mem_procsOn_hostOf hproc
  rw [procsOn, getD_eq_getElem _ _ hh] at hr
  rw [procsOn, getD_eq_getElem _ _ hhost] at hmem
  have hpair := pairwise_iff_getElem.mp layout.disjoint
  rcases lt_trichotomy (layout.hostOf r) h with hlt | heq | hlt
  · exact absurd hr (hpair _ _ hhost hh hlt hmem)
  · exact heq
  · exact absurd hmem (hpair _ _ hh hhost hlt hr)

lemma onHost_lt (hr : r < layout.nproc) :
    layout.onHost r < (layout.procsOn (layout.hostOf r)).length :=
  idxOf_lt_length_of_mem (mem_procsOn_hostOf hr)

lemma getElem?_onHost (hr : r < layout.nproc) :
    (layout.procsOn (layout.hostOf r))[layout.onHost r]? = some r :=
  getElem?_idxOf (mem_procsOn_hostOf hr)

lemma onHost_eq {i : ℕ} (hr : (layout.procsOn h)[i]? = some r) : layout.onHost r = i := by
  obtain ⟨hi, rfl⟩ := List.getElem?_eq_some_iff.mp hr
  rw [onHost, hostOf_eq (getElem_mem hi)]
  exact (nodup_procsOn h).idxOf_getElem i hi

lemma length_procsOn_le (h : ℕ) : (layout.procsOn h).length ≤ layout.maxOnHost := by
  by_cases hh : h < layout.nhost
  · exact Table.le_maxOf length (procsOn_mem hh)
  · rw [procsOn, getD_eq_default _ _ (not_lt.mp hh)]
    exact Nat.zero_le _

variable (layout) in
/-- The process that represents a host: the root, or the first one on the host. -/
def representative (root h : ℕ) : ℕ :=
  if h = layout.hostOf root then root else (layout.procsOn h).getD 0 0

lemma representative_mem {root : ℕ} (hroot : root < layout.nproc) (hh : h < layout.nhost) :
    layout.representative root h ∈ layout.procsOn h := by
  rw [representative]
  split_ifs with heq
  · rw [heq]
    exact mem_procsOn_hostOf hroot
  · have hpos : 0 < (layout.procsOn h).length := length_pos_iff.mpr (procsOn_ne_nil hh)
    rw [getD_eq_getElem _ _ hpos]
    exact getElem_mem hpos

lemma representative_hostOf_root {root : ℕ} :
    layout.representative root (layout.hostOf root) = root := if_pos rfl

lemma hostOf_representative {root : ℕ} (hroot : root < layout.nproc) (hh : h < layout.nhost) :
    layout.hostOf (layout.representative root h) = h := hostOf_eq (representative_mem hroot hh)

end HostLayout

/-- The tables of a process describe this layout. -/
structure Group.OnHosts (layout : HostLayout) (p : ℕ) (g : Group) : Prop where
  groupSize : g.groupSize = layout.nproc
  self : g.self = p
  numberOfHostsInGroup : g.numberOfHostsInGroup = layout.nhost
  procsOn : ∀ h, g.procsOn h = layout.procsOn h
  hostOf : ∀ r < layout.nproc, g.hostOf r = layout.hostOf r
  sameHost : ∀ r < layout.nproc, ∀ q < layout.nproc,
    g.sameHost r q = decide (layout.hostOf r = layout.hostOf q)
  selfHost : g.selfHost = layout.hostOf p
  onHostProcID : g.onHostProcID = layout.onHost p
  onHost : ∀ r < layout.nproc, layout.hostOf r = layout.hostOf p → g.onHost r = layout.onHost r
  onHostGroupSize : g.onHostGroupSize = (layout.procsOn (layout.hostOf p)).length
  maxOnHostGroupSize : g.maxOnHostGroupSize = layout.maxOnHost

end Lampi
