import Lampi.Collective.Equiv.BcastFanOut
import Lampi.Collective.Equiv.Hosts
import Lampi.Mpi.Equiv.TypePack

/-!
# Sending the data to the other hosts

The nodes of the fan-out over the hosts are their representatives, numbered relative to the host of
the root (`bcastNode`).  **`leads_interhostBlocks`** follows all processes of a group through the
blocks: the representatives get a copy of all elements of the root, and the others do nothing.
-/

namespace Lampi

open MessagePassing SharedMemory ulmBcast HostLayout Nat List

/-! ### One block -/

variable {tag : ℤ} {count : ℕ}

section Block

variable {γ G : Type} {D : Discipline ℕ (Word ℕ) BcastCell G} {layout : HostLayout}
  {groups : ℕ → Group} {root : ℕ} {type : CommittedType}

variable (hgroups : ∀ p < layout.nproc, (groups p).OnHosts layout p) (hroot : root < layout.nproc)
  {p : ℕ}

include hgroups hroot in
/-- The root of the on-host part of the code is the representative. -/
lemma commRoot_eq (hp : p < layout.nproc) :
    (if (groups p).sameHost root (groups p).self then root
      else ((groups p).procsOn (groups p).selfHost).getD 0 0) =
      layout.representative root (layout.hostOf p) := by
  have hg := hgroups p hp
  rw [hg.self, hg.sameHost root hroot p hp, hg.selfHost, hg.procsOn, representative]
  exact if_congr (by rw [decide_eq_true_iff, eq_comm]) rfl rfl

include hgroups hroot in
lemma ulmBcastInterhost_eq (hhosts : layout.nhost ≠ 1) (hp : p < layout.nproc)
    (hcount : count ≠ 0) (pos : ℤ) (s : BcastState) :
    ulmBcastInterhost (groups p) root tag count type pos s =
      if Represents layout root p then
        logFanOut layout.nhost (bcastNodeOf layout root p) (bcastNode layout root) tag
          (type.data pos count) layout.nhost 1 s
      else pure s := by
  have hg := hgroups p hp
  have hpeer : (fun peerHostR =>
      if (peerHostR + layout.hostOf root) % layout.nhost = layout.hostOf root then root
      else ((groups p).procsOn ((peerHostR + layout.hostOf root) % layout.nhost)).getD 0 0) =
        bcastNode layout root := by
    funext y
    rw [hg.procsOn]
    rfl
  unfold ulmBcastInterhost
  rw [if_neg hcount]
  dsimp only
  rw [hg.numberOfHostsInGroup, if_neg hhosts, commRoot_eq hgroups hroot hp, hg.self,
    hg.hostOf _ hroot, hg.selfHost, hpeer]
  by_cases hrep : Represents layout root p
  · rw [if_pos hrep]
    exact if_neg (not_not_intro hrep)
  · rw [if_neg hrep]
    exact if_pos hrep

/-- The states of the processes after blocks with these tags and positions. -/
def afterInterhost (layout : HostLayout) (root : ℕ) (tags : List ℤ) (positions : List ℤ)
    (st : ℕ → BcastState) (p : ℕ) : BcastState :=
  if Represents layout root p then
    ⟨(st p).buf.copy (st root).buf positions, (st p).log ++ tags.flatMap fun tag =>
      fanOutLog layout.nhost (bcastNode layout root) tag (bcastNodeOf layout root p)⟩
  else st p

lemma afterInterhost_nil (st : ℕ → BcastState) : afterInterhost layout root [] [] st = st := by
  funext p
  rw [afterInterhost, Buffer.copy_nil, flatMap_nil, append_nil]
  exact ite_self _

lemma afterInterhost_append (tags tags' ps ps' : List _) (st : ℕ → BcastState) :
    afterInterhost layout root tags' ps' (afterInterhost layout root tags ps st) =
      afterInterhost layout root (tags ++ tags') (ps ++ ps') st := by
  funext p
  by_cases hrep : Represents layout root p
  · simp only [afterInterhost, if_pos hrep, if_pos represents_root, Buffer.copy_self,
      Buffer.copy_append, flatMap_append, append_assoc]
  · simp only [afterInterhost, if_neg hrep]

include hgroups hroot in
/-- **One block** is sent to the other hosts. -/
theorem leads_interhost (hhosts : layout.nhost ≠ 1) (hcount : count ≠ 0) {pos : ℤ}
    {st : ℕ → BcastState} (next : ℕ → BcastState → BcastProg γ)
    {s : System ℤ (List UInt8) UInt8 γ D} (hchan : s.config.shared.chan = fun _ => [])
    (hprocs : ∀ p < layout.nproc, s.procs p = ulmBcastInterhost (groups p) root tag count type pos
      (st p) >>= next p) :
    ∃ s', Leads s s' ∧ s'.config = s.config ∧
      ∀ p < layout.nproc, s'.procs p =
        next p (afterInterhost layout root [tag] (type.data pos count) st p) := by
  obtain ⟨s', hleads, hconfig, hran⟩ := leads_logFanOut (bcastNode_inj hroot)
    (fun y _ => rfl) (fun y => next (bcastNode layout root y)) hchan
    (fun y hy => by
      rw [hprocs _ (bcastNode_lt hroot y),
        ulmBcastInterhost_eq hgroups hroot hhosts (bcastNode_lt hroot y) hcount,
        if_pos (represents_bcastNode hroot y), bcastNodeOf_bcastNode hroot hy])
  refine ⟨s', hleads.leads, hconfig, fun p hp => ?_⟩
  rw [afterInterhost]
  by_cases hrep : Represents layout root p
  · have hnode := bcastNode_bcastNodeOf hroot hp hrep
    have hp' := hran _ (bcastNodeOf_lt hroot p)
    rw [hnode, bcastNode_zero hroot] at hp'
    rw [hp', if_pos hrep, flatMap_cons, flatMap_nil, append_nil]
  · rw [if_neg hrep, hleads.procs p, hprocs p hp,
      ulmBcastInterhost_eq hgroups hroot hhosts hp hcount, if_neg hrep]
    · rfl
    · rintro y - rfl
      exact hrep (represents_bcastNode hroot y)

end Block

/-! ### All blocks -/

section Blocks

variable {γ G : Type} {D : Discipline ℕ (Word ℕ) BcastCell G} {layout : HostLayout}
  {groups : ℕ → Group} {root : ℕ} {type : CommittedType}

lemma data_add (p : ℤ) (m n : ℕ) :
    type.data p (m + n) = type.data p m ++ type.data (p + m * type.extent) n := by
  induction m generalizing p with
  | zero =>
    rw [zero_add, Int.natCast_zero, Int.zero_mul, Int.add_zero, CommittedType.data_zero, nil_append]
  | succ m ih =>
    rw [succ_add, CommittedType.data_succ, CommittedType.data_succ, ih, append_assoc]
    congr 3
    push_cast
    ring

lemma blockCount_pos : 0 < blockCount type := by
  unfold blockCount
  dsimp only
  split_ifs with h
  · exact one_pos
  · exact pos_of_ne_zero h

/-- The tags of the blocks, from the first one on. -/
def blockTags (type : CommittedType) (tag : ℤ) (count : ℕ) : List ℤ :=
  (List.range ((count + blockCount type - 1) / blockCount type)).map fun b : ℕ => tag - b

lemma blockTags_zero (tag : ℤ) : blockTags type tag 0 = [] := by
  have hpos : 0 < blockCount type := blockCount_pos
  rw [blockTags, div_eq_of_lt (by omega)]
  rfl

lemma blockTags_cons {n : ℕ} (hcount : 0 < count)
    (hn : n = if blockCount type < count then blockCount type else count) :
    blockTags type tag count = tag :: blockTags type (tag - 1) (count - n) := by
  have hpos : 0 < blockCount type := blockCount_pos
  have hblocks : (count + blockCount type - 1) / blockCount type =
      (count - n + blockCount type - 1) / blockCount type + 1 := by
    rw [← add_div_right _ hpos]
    split_ifs at hn with hlt
    · congr 1
      omega
    · rw [Nat.div_eq_of_lt_le (k := 1) (by omega) (by omega),
        Nat.div_eq_of_lt_le (k := 1) (by omega) (by omega)]
  rw [blockTags, blockTags, hblocks, range_succ_eq_map, map_cons, map_map]
  congr 1
  · rw [Int.natCast_zero, Int.sub_zero]
  · refine map_congr_left fun b _ => ?_
    show tag - ((b + 1 : ℕ) : ℤ) = tag - 1 - b
    push_cast
    ring

/-- **All blocks** are sent to the other hosts. -/
theorem leads_interhostBlocks (hgroups : ∀ p < layout.nproc, (groups p).OnHosts layout p)
    (hroot : root < layout.nproc) (hhosts : layout.nhost ≠ 1)
    (next : ℕ → BcastState → BcastProg γ) :
    ∀ (rounds : ℕ) (tag : ℤ) (count : ℕ) (pos : ℤ) (st : ℕ → BcastState)
      (s : System ℤ (List UInt8) UInt8 γ D), count ≤ rounds →
      s.config.shared.chan = (fun _ => []) →
      (∀ p < layout.nproc, s.procs p =
        interhostBlocks (groups p) root type rounds tag count pos (st p) >>= next p) →
      ∃ s', Leads s s' ∧ s'.config = s.config ∧ ∀ p < layout.nproc, s'.procs p = next p
          (afterInterhost layout root (blockTags type tag count) (type.data pos count) st p) := by
  intro rounds tag count
  induction count using Nat.strong_induction_on generalizing rounds tag with
  | _ count ih =>
    intro pos st s hcount hchan hprocs
    rcases Nat.eq_zero_or_pos count with rfl | hpos
    · -- without elements there is nothing to do
      refine ⟨s, Leads.refl s, rfl, fun p hp => ?_⟩
      have hnothing : interhostBlocks (groups p) root type rounds tag 0 pos (st p) =
          pure (st p) := by
        cases rounds with
        | zero => rfl
        | succ rounds => rw [interhostBlocks, if_neg (lt_irrefl 0)]
      rw [hprocs p hp, hnothing, blockTags_zero, CommittedType.data_zero, afterInterhost_nil]
      rfl
    obtain ⟨rounds, rfl⟩ := exists_eq_add_one.mpr (hpos.trans_le hcount)
    set n := if blockCount type < count then blockCount type else count with hn
    have hn0 : 0 < n ∧ n ≤ count := by
      have : 0 < blockCount type := blockCount_pos
      rw [hn]
      split_ifs with h
      · exact ⟨this, h.le⟩
      · exact ⟨hpos, le_rfl⟩
    obtain ⟨s1, hleads1, hconfig1, hprocs1⟩ := leads_interhost hgroups hroot hhosts
      hn0.1.ne' (fun p st => interhostBlocks (groups p) root type rounds (tag - 1) (count - n)
        (pos + n * type.extent) st >>= next p) hchan
      (fun p hp => by rw [hprocs p hp, interhostBlocks, if_pos hpos, bind_assoc])
    obtain ⟨s2, hleads2, hconfig2, hprocs2⟩ := ih (count - n) (by omega) rounds (tag - 1)
      (pos + n * type.extent) _ s1 (by omega) (by rw [hconfig1, hchan]) hprocs1
    refine ⟨s2, hleads1.trans hleads2, hconfig2.trans hconfig1, fun p hp => ?_⟩
    rw [hprocs2 p hp, afterInterhost_append, ← data_add, Nat.add_sub_cancel' hn0.2,
      blockTags_cons hpos hn]
    rfl

end Blocks

end Lampi
