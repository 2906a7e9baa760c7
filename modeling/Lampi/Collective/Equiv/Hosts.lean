import Lampi.Lib.FanIn
import Lampi.Lib.SharedMemoryLogic
import Lampi.Queue.Equiv.HostLayout

/-!
# Collective operations host by host

`procOn` numbers the processes of a host, `p2pNode` all processes relative to the root, and
`bcastNode` the hosts by their representatives, relative to the host of the root.  **`leads_hosts`**
lets the hosts run one after the other.
-/

namespace Lampi

open SharedMemory HostLayout Nat List

/-! ### The processes of a host -/

variable {p y : ℕ}

section Processes

variable {layout : HostLayout} {h x : ℕ}

/-- The process with a place on a host. -/
def procOn (layout : HostLayout) (h x : ℕ) : ℕ := (layout.procsOn h).getD x 0

lemma procOn_mem (hx : x < (layout.procsOn h).length) : procOn layout h x ∈ layout.procsOn h := by
  rw [procOn, getD_eq_getElem _ _ hx]
  exact getElem_mem hx

lemma exists_procOn (hp : p ∈ layout.procsOn h) :
    ∃ x < (layout.procsOn h).length, procOn layout h x = p := by
  obtain ⟨x, hx, rfl⟩ := getElem_of_mem hp
  exact ⟨x, hx, getD_eq_getElem _ _ hx⟩

lemma procOn_inj (hx : x < (layout.procsOn h).length) (hy : y < (layout.procsOn h).length)
    (heq : procOn layout h x = procOn layout h y) : x = y := by
  rw [procOn, procOn, getD_eq_getElem _ _ hx, getD_eq_getElem _ _ hy] at heq
  exact (nodup_procsOn h).getElem_inj_iff.mp heq

lemma procOn_ne (hp : p ∉ layout.procsOn h) :
    ∀ x < (layout.procsOn h).length, procOn layout h x ≠ p := by
  rintro x hx rfl
  exact hp (procOn_mem hx)

end Processes

/-! ### One host after the other -/

section Schedule

variable {T M F L V G γ : Type} [DecidableEq F] [DecidableEq T] [DecidableEq L]
  {D : Discipline ℕ F L G} {layout : HostLayout}

/-- **One host after the other runs a program.**  `Inv` says what holds of the configuration after
some of them. -/
theorem leads_hosts {prog prog' : ℕ → Prog ℕ T M F L V γ} (Inv : ℕ → Config T M V D → Prop)
    (hrun : ∀ h < layout.nhost, ∀ s : System T M V γ D,
      (∀ p ∈ layout.procsOn h, s.procs p = prog p) → Inv h s.config →
      ∃ s', Leads s s' ∧ Inv (h + 1) s'.config ∧
        (∀ p ∈ layout.procsOn h, s'.procs p = prog' p) ∧
        ∀ p ∉ layout.procsOn h, s'.procs p = s.procs p)
    {s : System T M V γ D} (hprocs : ∀ p < layout.nproc, s.procs p = prog p)
    (hinit : Inv 0 s.config) :
    ∃ s', Leads s s' ∧ Inv layout.nhost s'.config ∧ ∀ p < layout.nproc, s'.procs p = prog' p := by
  -- the hosts below `m` have run
  let J : ℕ → System T M V γ D → Prop := fun m s' => Inv m s'.config ∧
    (∀ p < layout.nproc, layout.hostOf p < m → s'.procs p = prog' p) ∧
    ∀ p < layout.nproc, m ≤ layout.hostOf p → s'.procs p = prog p
  have hstep : ∀ m < layout.nhost, ∀ s1, J m s1 → ∃ s2, Leads s1 s2 ∧ J (m + 1) s2 := by
    rintro m hm s1 ⟨hinv, hran, hwait⟩
    obtain ⟨s2, hleads, hinv2, hprocs2, hrest2⟩ := hrun m hm s1
      (fun p hp => hwait p (lt_nproc_of_mem hp) (hostOf_eq hp).ge) hinv
    have hnot : ∀ p, layout.hostOf p ≠ m → p ∉ layout.procsOn m :=
      fun p hne hin => hne (hostOf_eq hin)
    refine ⟨s2, hleads, hinv2, fun p hp hlt => ?_, fun p hp hle => ?_⟩
    · rcases Nat.lt_succ_iff_lt_or_eq.mp hlt with hlt' | heq
      · exact (hrest2 p (hnot p hlt'.ne)).trans (hran p hp hlt')
      · exact hprocs2 p (heq ▸ mem_procsOn_hostOf hp)
    · exact (hrest2 p (hnot p (by omega))).trans (hwait p hp (by omega))
  obtain ⟨s', hleads, hinv, hran, -⟩ := leads_range hstep (s := s)
    ⟨hinit, fun p _ hlt => absurd hlt (not_lt_zero _), fun p hp _ => hprocs p hp⟩
  exact ⟨s', hleads, hinv, fun p hp => hran p hp (hostOf_lt hp)⟩

end Schedule

/-! ### Numbers relative to the root -/

section P2p

variable {nproc root : ℕ}

/-- The process with a number relative to the root. -/
def p2pNode (nproc root y : ℕ) : ℕ := (y + root) % nproc

def p2pNodeOf (nproc root p : ℕ) : ℕ := (p + nproc - root) % nproc

variable (hroot : root < nproc)

include hroot

lemma p2pNode_inj : ∀ x < nproc, ∀ y < nproc, p2pNode nproc root x = p2pNode nproc root y → x = y :=
  fun _ hx _ hy heq => FanIn.absolute_inj hroot hx hy heq

lemma p2pNode_lt (y : ℕ) : p2pNode nproc root y < nproc :=
  mod_lt _ ((zero_le root).trans_lt hroot)

lemma p2pNodeOf_lt (p : ℕ) : p2pNodeOf nproc root p < nproc :=
  mod_lt _ ((zero_le root).trans_lt hroot)

lemma p2pNode_p2pNodeOf (hp : p < nproc) :
    p2pNode nproc root (p2pNodeOf nproc root p) = p := FanIn.absolute_relative hroot hp

lemma p2pNodeOf_p2pNode (hy : y < nproc) :
    p2pNodeOf nproc root (p2pNode nproc root y) = y := FanIn.relative_absolute hroot hy

lemma p2pNode_zero : p2pNode nproc root 0 = root := by
  rw [p2pNode, zero_add, mod_eq_of_lt hroot]

end P2p

/-! ### The representatives of the hosts -/

section Nodes

variable (layout : HostLayout) (root : ℕ)

/-- The representative with a number relative to the host of the root. -/
def bcastNode (y : ℕ) : ℕ := layout.representative root ((y + layout.hostOf root) % layout.nhost)

def bcastNodeOf (p : ℕ) : ℕ := (layout.hostOf p + layout.nhost - layout.hostOf root) % layout.nhost

/-- The process represents its host. -/
def Represents (p : ℕ) : Prop := p = layout.representative root (layout.hostOf p)

instance (p : ℕ) : Decidable (Represents layout root p) := inferInstanceAs (Decidable (_ = _))

variable {layout root}

section

variable (hroot : root < layout.nproc)

include hroot

lemma mod_nhost_lt (y : ℕ) : y % layout.nhost < layout.nhost :=
  mod_lt _ ((zero_le _).trans_lt (hostOf_lt hroot))

lemma bcastNodeOf_lt (p : ℕ) : bcastNodeOf layout root p < layout.nhost := mod_nhost_lt hroot _

lemma hostOf_bcastNode (y : ℕ) :
    layout.hostOf (bcastNode layout root y) = (y + layout.hostOf root) % layout.nhost :=
  hostOf_representative hroot (mod_nhost_lt hroot _)

lemma bcastNode_lt (y : ℕ) : bcastNode layout root y < layout.nproc :=
  lt_nproc_of_mem (representative_mem hroot (mod_nhost_lt hroot _))

lemma bcastNode_inj :
    ∀ x < layout.nhost, ∀ y < layout.nhost,
      bcastNode layout root x = bcastNode layout root y → x = y := by
  intro x hx y hy heq
  have hhost := congrArg layout.hostOf heq
  rw [hostOf_bcastNode hroot, hostOf_bcastNode hroot] at hhost
  exact FanIn.absolute_inj (hostOf_lt hroot) hx hy hhost

lemma bcastNode_zero : bcastNode layout root 0 = root := by
  rw [bcastNode, zero_add, mod_eq_of_lt (hostOf_lt hroot), representative_hostOf_root]

end

lemma bcastNodeOf_root : bcastNodeOf layout root root = 0 := by
  rw [bcastNodeOf, Nat.add_sub_cancel_left, mod_self]

lemma bcastNodeOf_bcastNode (hroot : root < layout.nproc) (hy : y < layout.nhost) :
    bcastNodeOf layout root (bcastNode layout root y) = y := by
  rw [bcastNodeOf, hostOf_bcastNode hroot]
  exact FanIn.relative_absolute (hostOf_lt hroot) hy

lemma represents_bcastNode (hroot : root < layout.nproc) (y : ℕ) :
    Represents layout root (bcastNode layout root y) := by
  rw [Represents, hostOf_bcastNode hroot]
  rfl

lemma bcastNode_bcastNodeOf (hroot : root < layout.nproc) (hp : p < layout.nproc)
    (hrep : Represents layout root p) : bcastNode layout root (bcastNodeOf layout root p) = p := by
  rw [bcastNode, bcastNodeOf, FanIn.absolute_relative (hostOf_lt hroot) (hostOf_lt hp)]
  exact hrep.symm

lemma represents_root : Represents layout root root := representative_hostOf_root.symm

end Nodes

end Lampi
