import Lampi.Collective.Equiv.Hosts
import Lampi.Collective.Equiv.ReduceIntrahost
import Lampi.Collective.Equiv.Scan

/-!
# What a reduce with a commuting operation leaves with the root

The processes of a host are numbered relative to its representative (`reduceRank`), and the hosts
relative to the host of the root.  `leads_intrahosts` lets all hosts combine what their processes
have, and `leads_representatives` what the hosts have then; `leads_p2p` is the fan-in over all
processes.  Either way the contribution of every process is used once (`combines_hostsValue`,
`combines_p2p`).

If the operation is associative and commutative, then all combinations are the same.  So in all runs
the root gets the contributions combined in rank order (**`ulmReduce_commuting_root`**).
-/

namespace Lampi

open MessagePassing SharedMemory HostLayout List Nat

variable {α γ G : Type} {op : ULMOp α} {layout : HostLayout} {h p q nprocs root count : ℕ}
  {group : Group} {type : ReduceHostType} {useSharedMem : Bool} {comm : ReduceComm} {baseTag : ℤ}
  {groups : ℕ → Group} {a rBuf : ℕ → List α} {sBuf : ℕ → Option (List α)}
  {args : ℕ → ReduceArgs α} {mem : ReduceCell → α} {D : Discipline ℕ ReduceFlag ReduceCell G}

/-! ### Contributions -/

lemma ULMOp.call_comm (hcomm : ∀ x y, op.func x y = op.func y x) (a b : List α) :
    op.call a b = op.call b a := by
  rw [ULMOp.call, ULMOp.call, zipWith_comm]
  congr
  funext x y
  exact hcomm y x

lemma combines_prefixReduce (op : ULMOp α) (a : ℕ → List α) (k : ℕ) :
    FanIn.Combines op.call a (range (k + 1) : Multiset ℕ) (prefixReduce op a k) := by
  induction k with
  | zero => exact FanIn.Combines.single 0
  | succ k ih =>
    rw [range_succ, ← Multiset.coe_add]
    exact FanIn.Combines.op ih (FanIn.Combines.single (k + 1))

/-- **However the contributions are combined**, the result is the same. -/
theorem eq_prefixReduce_of_combines
    (hassoc : ∀ x y z, op.func (op.func x y) z = op.func x (op.func y z))
    (hcomm : ∀ x y, op.func x y = op.func y x) {a : ℕ → List α} {n : ℕ} (hn : 0 < n) {y : List α}
    (h : FanIn.Combines op.call a (range n : Multiset ℕ) y) : y = prefixReduce op a (n - 1) := by
  obtain ⟨k, rfl⟩ := exists_eq_succ_of_ne_zero hn.ne'
  exact h.unique (ULMOp.call_assoc hassoc) (ULMOp.call_comm hcomm) (combines_prefixReduce op a k)

/-! ### The processes of a host, relative to its representative -/

variable (layout root)

def nprocOn (h : ℕ) : ℕ := (layout.procsOn h).length

/-- The place of the representative on its host. -/
def rootOn (h : ℕ) : ℕ := layout.onHost (layout.representative root h)

/-- The process with a number relative to the representative of its host. -/
def reduceRank (h x : ℕ) : ℕ := procOn layout h ((x + rootOn layout root h) % nprocOn layout h)

/-- The number of a process relative to the representative of its host. -/
def reduceRankOf (p : ℕ) : ℕ :=
  (layout.onHost p + nprocOn layout (layout.hostOf p) - rootOn layout root (layout.hostOf p)) %
    nprocOn layout (layout.hostOf p)

variable {layout root} {x : ℕ}

lemma procOn_onHost (hp : p ∈ layout.procsOn h) : procOn layout h (layout.onHost p) = p := by
  have hplace := getElem?_onHost (lt_nproc_of_mem hp)
  rw [hostOf_eq hp] at hplace
  rw [procOn, getD_eq_getElem?_getD, hplace]
  rfl

lemma onHost_procOn (hx : x < nprocOn layout h) : layout.onHost (procOn layout h x) = x := by
  apply onHost_eq (h := h)
  rw [procOn, getD_eq_getElem _ _ hx]
  exact getElem?_eq_getElem hx

lemma onHost_lt_nprocOn (hp : p ∈ layout.procsOn h) : layout.onHost p < nprocOn layout h := by
  have hlt := onHost_lt (lt_nproc_of_mem hp)
  rwa [hostOf_eq hp] at hlt

lemma reduceRankOf_lt (hp : p < layout.nproc) :
    reduceRankOf layout root p < nprocOn layout (layout.hostOf p) :=
  mod_lt _ ((zero_le _).trans_lt (onHost_lt hp))

section Ranks

variable (hroot : root < layout.nproc) {h : ℕ} (hh : h < layout.nhost)

include hroot hh

lemma rootOn_lt :
    rootOn layout root h < nprocOn layout h := onHost_lt_nprocOn (representative_mem hroot hh)

lemma nprocOn_pos : 0 < nprocOn layout h := (zero_le _).trans_lt (rootOn_lt hroot hh)

lemma reduceRank_mem (x : ℕ) :
    reduceRank layout root h x ∈ layout.procsOn h := procOn_mem (mod_lt _ (nprocOn_pos hroot hh))

lemma reduceRank_inj :
    ∀ x < nprocOn layout h, ∀ y < nprocOn layout h,
      reduceRank layout root h x = reduceRank layout root h y → x = y := by
  intro x hx y hy heq
  have hpos := nprocOn_pos hroot hh
  exact FanIn.absolute_inj (rootOn_lt hroot hh) hx hy
    (procOn_inj (mod_lt _ hpos) (mod_lt _ hpos) heq)

lemma reduceRank_zero : reduceRank layout root h 0 = layout.representative root h := by
  rw [reduceRank, zero_add, mod_eq_of_lt (rootOn_lt hroot hh)]
  exact procOn_onHost (representative_mem hroot hh)

lemma reduceRankOf_reduceRank (hx : x < nprocOn layout h) :
    reduceRankOf layout root (reduceRank layout root h x) = x := by
  rw [reduceRankOf, hostOf_eq (reduceRank_mem hroot hh x), reduceRank,
    onHost_procOn (mod_lt _ (nprocOn_pos hroot hh))]
  exact FanIn.relative_absolute (rootOn_lt hroot hh) hx

omit hh

lemma reduceRank_reduceRankOf (hp : p < layout.nproc) :
    reduceRank layout root (layout.hostOf p) (reduceRankOf layout root p) = p := by
  rw [reduceRank, reduceRankOf, FanIn.absolute_relative (rootOn_lt hroot (hostOf_lt hp))
    (onHost_lt hp)]
  exact procOn_onHost (mem_procsOn_hostOf hp)

lemma reduceRankOf_eq_zero (hp : p < layout.nproc) :
    reduceRankOf layout root p = 0 ↔ Represents layout root p := by
  have hh := hostOf_lt hp
  constructor
  · intro hzero
    rw [Represents, ← reduceRank_zero hroot hh, ← hzero, reduceRank_reduceRankOf hroot hp]
  · intro hrep
    have hzero := reduceRankOf_reduceRank hroot hh (nprocOn_pos hroot hh)
    rwa [reduceRank_zero hroot hh, ← hrep] at hzero

lemma represents_of_alone (hp : p < layout.nproc) (halone : nprocOn layout (layout.hostOf p) = 1) :
    Represents layout root p := by
  rw [← reduceRankOf_eq_zero hroot hp, ← lt_one_iff, ← halone]
  exact reduceRankOf_lt hp

end Ranks

/-! ### What the processes have, and what they do -/

noncomputable abbrev layoutDiscipline (layout : HostLayout) (root : ℕ) :
    Discipline ℕ ReduceFlag ReduceCell (Know ReduceFlag) :=
  (reduceDiscipline (nprocOn layout) (reduceRank layout root)).discipline

lemma sound_cleared (layout : HostLayout) (root : ℕ) :
    Sound (reduceDiscipline (nprocOn layout) (reduceRank layout root)).toScheme (fun _ => 0)
      (fun _ _ => 0) fun _ => -1 :=
  ⟨fun f => (reduceDiscipline_value_even f 0).symm, fun _ _ => le_rfl,
    fun _ n hn => absurd hn (not_lt_zero n)⟩

/-- The flags are cleared and nothing is under way. -/
noncomputable def reduceConfig (layout : HostLayout) (root : ℕ) (mem : ReduceCell → α) :
    Config ℤ (List α) α (layoutDiscipline layout root) where
  shared := { chan := fun _ => [], mem := mem, flags := fun _ => -1 }
  state _ _ := 0
  possible := ⟨fun _ => 0, sound_cleared layout root⟩

lemma times_reduceConfig (mem : ReduceCell → α) :
    (reduceConfig layout root mem).times = fun _ => 0 := Config.times_eq (sound_cleared layout root)

lemma hostAt_cleared {c : Config ℤ (List α) α (layoutDiscipline layout root)}
    (hchan : c.shared.chan = fun _ => []) (htimes : ∀ f, f.host = h → c.times f = 0) :
    HostAt h c.times (fun _ => 0) (fun _ => []) c := by
  have hzero : ∀ x parity, timesSet (nprocOn layout h) x parity 0 = 0 := fun x parity => by
    rw [timesSet, count_zero]
  refine ⟨hchan, fun _ _ => rfl, fun x _ parity _ => ?_, fun x _ parity _ => ?_, fun _ _ => rfl⟩
  · rw [hzero, htimes _ rfl]
  · have hle := c.sound.le (reduceRank layout root h x) ⟨h, x, parity⟩
    rw [htimes _ rfl] at hle
    exact eq_zero_of_le_zero hle

variable (op)

variable (layout)

/-- The combination of what the processes of a host have. -/
def hostValue (root : ℕ) (a : ℕ → List α) (h : ℕ) : List α :=
  FanIn.value op.call (nprocOn layout h) (fun x => a (reduceRank layout root h x))
    (nprocOn layout h) 0

/-- What a process has in its receive buffer after the algorithm on its host. -/
def afterIntrahost (root : ℕ) (a rBuf : ℕ → List α) (p : ℕ) : List α :=
  if Represents layout root p then hostValue op layout root a (layout.hostOf p) else rBuf p

def hostsValue (root : ℕ) (a : ℕ → List α) : List α := FanIn.value op.call layout.nhost
    (fun y => hostValue op layout root a (layout.hostOf (bcastNode layout root y))) layout.nhost 0

/-- What a process has in its receive buffer when the hosts are done. -/
def beforeInterhost (root : ℕ) (sBuf : ℕ → Option (List α)) (rBuf : ℕ → List α) (p : ℕ) : List α :=
  if layout.maxOnHost > 1 then
    afterIntrahost op layout root (fun p => (sBuf p).getD (rBuf p)) rBuf p
  else rBuf p

variable {layout}

/-- What a process does when its host is done, in `ulmReduce.onHosts`. -/
def betweenHosts (type : ReduceHostType) (layout : HostLayout) (group : Group) (root : ℕ)
    (baseTag : ℤ) (count p : ℕ) (sBuf : Option (List α)) (rBuf : List α) : HostProg α (List α) :=
  if layout.nhost = 1 then pure rBuf
  else
    Prog.ofProc (ulmReduce.blocks (ulmReduceInterhost op group root)
      (ulmReduce.blockCount type.toReduceType) count
      (if layout.maxOnHost > 1 ∧ count ≠ 0 then baseTag - 1 else baseTag) count
      (if nprocOn layout (layout.hostOf p) > 1 then none else sBuf) rBuf)

variable {op}

abbrev reduceComm (groups : ℕ → Group) (useSharedMem : Bool) (nprocs p : ℕ) : ReduceComm :=
  ⟨groups p, useSharedMem, nprocs⟩

lemma blockwise_eq {type : ReduceType} (htype : 0 < type.packedSize)
    (algorithm : ℤ → ℕ → Option (List α) → List α → RankProc α (List α)) (tag : ℤ)
    (sBuf : Option (List α)) (rBuf : List α) :
    ulmReduce.blockwise type algorithm tag count sBuf rBuf =
      Prog.ofProc (ulmReduce.blocks algorithm (ulmReduce.blockCount type) count tag count
        sBuf rBuf) >>= fun out => pure (.ok out) := by
  rw [ulmReduce.blockwise, if_neg htype.ne', bind_pure_comp]

lemma onHosts_eq (htype : 0 < type.packedSize) (hextent : 0 < type.extent)
    (hg : comm.group.OnHosts layout p) (sBuf : Option (List α)) (rBuf : List α) :
    ulmReduce.onHosts op type comm root baseTag count sBuf rBuf =
      (if layout.maxOnHost > 1 then
        ulmReduceIntrahost op comm.group root (comm.blockCount type) count sBuf rBuf
      else pure rBuf) >>= fun out =>
        betweenHosts op type layout comm.group root baseTag count p sBuf out >>=
          fun out => pure (.ok out) := by
  rw [ulmReduce.onHosts]
  dsimp only
  rw [if_neg fun h => hextent.ne' h.2.2.2, hg.maxOnHostGroupSize, hg.numberOfHostsInGroup,
    hg.onHostGroupSize]
  unfold betweenHosts
  by_cases hone : layout.nhost = 1
  · simp only [if_pos hone]
    by_cases hmax : layout.maxOnHost > 1
    · rw [if_pos hmax, if_pos hmax]
      rfl
    · rw [if_neg hmax, if_neg hmax]
      rfl
  · simp only [if_neg hone, blockwise_eq htype]
    by_cases hmax : layout.maxOnHost > 1
    · rw [if_pos hmax, if_pos hmax]
      rfl
    · rw [if_neg hmax, if_neg hmax]
      rfl

/-- A process that has put its contribution in the receive buffer and does not participate. -/
lemma blocks_of_pure {algorithm : ℤ → ℕ → Option (List α) → List α → RankProc α (List α)}
    (halg : ∀ tag count rBuf, algorithm tag count none rBuf = pure rBuf) (blockCount : ℕ) :
    ∀ rounds tag count rBuf,
      ulmReduce.blocks algorithm blockCount rounds tag count none rBuf = pure rBuf := by
  intro rounds
  induction rounds with
  | zero => exact fun _ _ _ => rfl
  | succ rounds ih =>
    intro tag count rBuf
    rw [ulmReduce.blocks]
    by_cases hpos : count > 0
    · simp only [if_pos hpos, Option.map_none, halg, ih, pure_bind, take_append_drop]
    · rw [if_neg hpos]

lemma ulmReduceShared_eq (hop : op.commute = true) (hg : comm.group.OnHosts layout p)
    (hmany : layout.nproc ≠ 1) {args : ReduceArgs α} (hbuf : ¬(args.rBuf = none ∧ p = root)) :
    ulmReduceShared op type comm root baseTag count args =
      if comm.useSharedMemForCollectives = false ∨ type.extent > comm.maxReduceExtent then
        ulmReduce.blockwise type.toReduceType (ulmReduceP2p op layout.nproc p root) baseTag count
          args.sBuf (args.rBuf.getD args.reduceBuffer)
      else ulmReduce.onHosts op type comm root baseTag count args.sBuf
        (args.rBuf.getD args.reduceBuffer) := by
  rw [ulmReduceShared]
  rw [hg.groupSize, hg.self, if_neg hbuf, if_neg hmany, hop, if_neg (show ¬true = false from nofun)]

section Comm

variable (hgroups : ∀ p < layout.nproc, (groups p).OnHosts layout p)

include hgroups

/-- The number of objects that fit in a segment is the same for the processes of a host. -/
lemma blockCount_comm (hp : p < layout.nproc) (hq : q < layout.nproc)
    (hpq : layout.hostOf p = layout.hostOf q) :
    (reduceComm groups useSharedMem nprocs p).blockCount type =
      (reduceComm groups useSharedMem nprocs q).blockCount type := by
  have hsize : (groups p).onHostGroupSize = (groups q).onHostGroupSize := by
    rw [(hgroups p hp).onHostGroupSize, (hgroups q hq).onHostGroupSize, hpq]
  show ((reduceComm groups useSharedMem nprocs p).maxLength / (groups p).onHostGroupSize / 8 * 8 -
    2 * 4) / type.extent = _
  rw [hsize]
  rfl

lemma maxReduceExtent_eq (hp : p < layout.nproc) (hq : q < layout.nproc) :
    (reduceComm groups useSharedMem nprocs p).maxReduceExtent =
      (reduceComm groups useSharedMem nprocs q).maxReduceExtent := by
  have hmax : (groups p).maxOnHostGroupSize = (groups q).maxOnHostGroupSize := by
    rw [(hgroups p hp).maxOnHostGroupSize, (hgroups q hq).maxOnHostGroupSize]
  show (reduceComm groups useSharedMem nprocs p).maxLength / (groups p).maxOnHostGroupSize / 8 * 8 -
    2 * 4 = _
  rw [hmax]
  rfl

end Comm

lemma blockCount_comm_pos (hpos : 0 < type.extent) (hg : (groups p).OnHosts layout p)
    (hp : p < layout.nproc)
    (hextent : ¬type.extent > (⟨groups p, useSharedMem, nprocs⟩ : ReduceComm).maxReduceExtent) :
    0 < (⟨groups p, useSharedMem, nprocs⟩ : ReduceComm).blockCount type := by
  set comm : ReduceComm := ⟨groups p, useSharedMem, nprocs⟩ with hcomm
  have hsize : 0 < comm.group.onHostGroupSize := by
    rw [hcomm, hg.onHostGroupSize]
    exact (zero_le _).trans_lt (onHost_lt hp)
  have hle : comm.group.onHostGroupSize ≤ comm.group.maxOnHostGroupSize := by
    rw [hcomm, hg.onHostGroupSize, hg.maxOnHostGroupSize]
    exact length_procsOn_le _
  have hoffset : comm.minReduceOffset ≤ comm.reduceOffset :=
    Nat.mul_le_mul_right 8 (Nat.div_le_div_right (div_le_div_left hle hsize))
  apply div_pos _ hpos
  exact (not_lt.mp hextent).trans (Nat.sub_le_sub_right hoffset _)

/-! ### Between all processes -/

section P2p

variable {nproc : ℕ}

lemma ulmReduceP2p_eq (hmany : nproc ≠ 1) (hcount : count ≠ 0) (p : ℕ) (tag : ℤ)
    (sBuf : Option (List α)) (rBuf : List α) :
    ulmReduceP2p op nproc p root tag count sBuf rBuf =
      logFanIn op nproc (p2pNodeOf nproc root p) (p2pNode nproc root) tag nproc 1
        (sBuf.getD rBuf) := by
  rw [ulmReduceP2p, if_neg hcount]
  exact if_neg hmany

/-- **The fan-in over all processes.** -/
theorem leads_p2p (hroot : root < nproc) (hmany : nproc ≠ 1) {blockCount : ℕ}
    (hblock : 0 < blockCount) (tag : ℤ) (hr : ∀ p < nproc, (rBuf p).length = count)
    (hs : ∀ p < nproc, ((sBuf p).getD (rBuf p)).length = count) (k : ℕ → List α → HostProg α γ)
    {s : System ℤ (List α) α γ D} (hchan : s.config.shared.chan = fun _ => [])
    (hprocs : ∀ p < nproc,
      s.procs p = Prog.ofProc
      (ulmReduce.blocks (ulmReduceP2p op nproc p root) blockCount count tag count (sBuf p) (rBuf p))
      >>= k p) :
    ∃ s', Leads s s' ∧
      ∀ p < nproc, ∃ out, (p = root → out = FanIn.value op.call nproc
          (fun y => (sBuf (p2pNode nproc root y)).getD (rBuf (p2pNode nproc root y))) nproc 0) ∧
        s'.procs p = k p out := by
  have halg : ∀ y < nproc, ∀ (tag : ℤ) (m : ℕ) (sBuf : Option (List α)) (rBuf : List α), m ≠ 0 →
      ulmReduceP2p op nproc (p2pNode nproc root y) root tag m sBuf rBuf =
        logFanIn op nproc y (p2pNode nproc root) tag nproc 1 (sBuf.getD rBuf) := by
    intro y hy tag m sBuf rBuf hm
    rw [ulmReduceP2p_eq hmany hm, p2pNodeOf_p2pNode hroot hy]
  obtain ⟨s', hleads, -, hran⟩ := leads_fanInBlocks (p2pNode_inj hroot) (fun _ _ => rfl)
    hblock halg count tag count (fun y => sBuf (p2pNode nproc root y))
    (fun y => rBuf (p2pNode nproc root y)) (fun y => k (p2pNode nproc root y)) s le_rfl
    (fun y _ => hr _ (p2pNode_lt hroot y)) (fun y _ => hs _ (p2pNode_lt hroot y)) hchan
    (fun y _ => hprocs _ (p2pNode_lt hroot y))
  refine ⟨s', hleads.leads, fun p hp => ?_⟩
  obtain ⟨out, hout, hp'⟩ := hran _ (p2pNodeOf_lt hroot p)
  rw [p2pNode_p2pNodeOf hroot hp] at hp'
  refine ⟨out, fun heq => hout ?_, hp'⟩
  rw [heq, p2pNodeOf, Nat.add_sub_cancel_left, mod_self]

lemma combines_p2p {nproc : ℕ} (hroot : root < nproc) :
    FanIn.Combines op.call a (range nproc : Multiset ℕ)
      (FanIn.value op.call nproc (fun y => a (p2pNode nproc root y)) nproc 0) := by
  have hmap : (range nproc : Multiset ℕ).map (p2pNode nproc root) = (range nproc : Multiset ℕ) := by
    refine FanIn.map_range_eq (Multiset.coe_nodup.mpr nodup_range) (p2pNode_inj hroot)
      fun p => ⟨fun hp => ?_, ?_⟩
    · exact ⟨_, p2pNodeOf_lt hroot p, p2pNode_p2pNodeOf hroot (mem_range.mp hp)⟩
    · rintro ⟨y, -, rfl⟩
      exact Multiset.mem_coe.mpr (mem_range.mpr (p2pNode_lt hroot y))
  rw [← hmap]
  exact (FanIn.combines_value_zero ((zero_le _).trans_lt hroot) Nat.lt_two_pow_self.le).map

end P2p

section Root

variable (hroot : root < layout.nproc)

include hroot

lemma hostValue_of_alone (hh : h < layout.nhost) (halone : nprocOn layout h = 1) :
    hostValue op layout root a h = a (layout.representative root h) := by
  rw [hostValue, halone, FanIn.value_one, reduceRank_zero hroot hh]

lemma length_hostValue (ha : ∀ p < layout.nproc, (a p).length = count) (hh : h < layout.nhost) :
    (hostValue op layout root a h).length = count :=
  length_value (fun x _ => ha _ (lt_nproc_of_mem (reduceRank_mem hroot hh x))) _ 0
    (nprocOn_pos hroot hh)

lemma ulmReduceIntrahost_eq (hg : group.OnHosts layout p) (hp : p < layout.nproc)
    (hcount : count ≠ 0) (hseveral : nprocOn layout (layout.hostOf p) ≠ 1) (blockCount : ℕ)
    (sBuf : Option (List α)) (rBuf : List α) :
    ulmReduceIntrahost op group root blockCount count sBuf rBuf =
      ulmReduceIntrahost.blocks op (layout.hostOf p) (nprocOn layout (layout.hostOf p))
        (reduceRankOf layout root p) blockCount count 0 count (sBuf.getD rBuf) rBuf := by
  have hrep := representative_mem hroot (hostOf_lt hp)
  have hrootOn : ulmReduceIntrahost.rootOnhost group root =
      rootOn layout root (layout.hostOf p) := by
    have hhost := hg.onHost _ (lt_nproc_of_mem hrep) (hostOf_eq hrep)
    rw [rootOn, ← hhost, ulmReduceIntrahost.rootOnhost, hg.selfHost, hg.hostOf root hroot,
      hg.procsOn, representative]
    exact (apply_ite group.onHost _ _ _).symm
  rw [ulmReduceIntrahost, if_neg hcount, hg.onHostGroupSize, hg.onHostProcID, hg.selfHost, hrootOn]
  exact if_neg hseveral

lemma ulmReduceInterhost_eq (hg : group.OnHosts layout p) (hhosts : layout.nhost ≠ 1)
    (hcount : count ≠ 0) (tag : ℤ) (sBuf : Option (List α)) (rBuf : List α) :
    ulmReduceInterhost op group root tag count sBuf rBuf =
      if Represents layout root p then
        logFanIn op layout.nhost (bcastNodeOf layout root p) (bcastNode layout root) tag
          layout.nhost 1 (sBuf.getD rBuf)
      else pure (sBuf.getD rBuf) := by
  have hrep : ulmReduceInterhost.representative group root = layout.representative root := by
    funext host
    rw [ulmReduceInterhost.representative, hg.hostOf root hroot, hg.procsOn, representative]
  rw [ulmReduceInterhost, if_neg hcount]
  rw [hg.numberOfHostsInGroup, if_neg hhosts, hg.self, hg.selfHost, hrep, hg.hostOf root hroot,
    ite_not]
  rfl

/-! ### Every process contributes once -/

lemma map_reduceRank (hh : h < layout.nhost) :
    (range (nprocOn layout h) : Multiset ℕ).map (reduceRank layout root h) =
      (layout.procsOn h : Multiset ℕ) := by
  refine FanIn.map_range_eq (Multiset.coe_nodup.mpr (nodup_procsOn h)) (reduceRank_inj hroot hh)
    fun p => ⟨fun hp => ?_, ?_⟩
  · have hlt := lt_nproc_of_mem (Multiset.mem_coe.mp hp)
    have hx : reduceRankOf layout root p < _ := reduceRankOf_lt hlt
    have hrank := reduceRank_reduceRankOf hroot hlt
    rw [hostOf_eq (Multiset.mem_coe.mp hp)] at hx hrank
    exact ⟨_, hx, hrank⟩
  · rintro ⟨x, -, rfl⟩
    exact Multiset.mem_coe.mpr (reduceRank_mem hroot hh x)

lemma bind_procsOn :
    ((range layout.nhost : Multiset ℕ).bind fun y =>
      (layout.procsOn (layout.hostOf (bcastNode layout root y)) : Multiset ℕ)) =
        (range layout.nproc : Multiset ℕ) := by
  have hnodup : ((range layout.nhost : Multiset ℕ).bind fun y =>
      (layout.procsOn (layout.hostOf (bcastNode layout root y)) : Multiset ℕ)).Nodup := by
    refine Multiset.nodup_bind.mpr ⟨fun y _ => Multiset.coe_nodup.mpr (nodup_procsOn _),
      Multiset.Nodup.pairwise (fun x hx y hy hne => ?_) (Multiset.coe_nodup.mpr nodup_range)⟩
    -- two nodes are on different hosts
    apply Multiset.disjoint_left.mpr
    intro p hpx hpy
    apply hne
    have hhost := (hostOf_eq (Multiset.mem_coe.mp hpx)).symm.trans
      (hostOf_eq (Multiset.mem_coe.mp hpy))
    rw [hostOf_bcastNode hroot, hostOf_bcastNode hroot] at hhost
    exact FanIn.absolute_inj (hostOf_lt hroot) (mem_range.mp hx) (mem_range.mp hy) hhost
  apply (hnodup.ext (Multiset.coe_nodup.mpr nodup_range)).mpr
  intro p
  rw [Multiset.mem_bind, Multiset.mem_coe, mem_range]
  constructor
  · rintro ⟨y, -, hp⟩
    exact lt_nproc_of_mem (Multiset.mem_coe.mp hp)
  · intro hp
    refine ⟨bcastNodeOf layout root p, mem_range.mpr (bcastNodeOf_lt hroot p), ?_⟩
    rw [hostOf_bcastNode hroot, bcastNodeOf,
      FanIn.absolute_relative (hostOf_lt hroot) (hostOf_lt hp)]
    exact Multiset.mem_coe.mpr (mem_procsOn_hostOf hp)

/-- **On the hosts and between them, the contribution of every process is used once.** -/
theorem combines_hostsValue : FanIn.Combines op.call a (range layout.nproc : Multiset ℕ)
      (hostsValue op layout root a) := by
  rw [← bind_procsOn hroot]
  apply FanIn.Combines.bind (FanIn.combines_value_zero
    ((zero_le _).trans_lt (hostOf_lt hroot)) Nat.lt_two_pow_self.le)
  intro y _
  have hh := hostOf_lt (bcastNode_lt hroot y)
  rw [← map_reduceRank hroot hh]
  exact (FanIn.combines_value_zero (nprocOn_pos hroot hh) Nat.lt_two_pow_self.le).map

/-! ### One after the other -/

/-- A representative goes on with the combination of what the processes of its host have, whether it
is alone or not. -/
lemma getD_beforeInterhost (hp : p < layout.nproc) (hrep : Represents layout root p) :
    (if nprocOn layout (layout.hostOf p) > 1 then none else sBuf p).getD
        (beforeInterhost op layout root sBuf rBuf p) =
      hostValue op layout root (fun p => (sBuf p).getD (rBuf p)) (layout.hostOf p) := by
  have hle : nprocOn layout (layout.hostOf p) ≤ layout.maxOnHost := length_procsOn_le _
  have hpos := nprocOn_pos hroot (hostOf_lt hp)
  by_cases hseveral : nprocOn layout (layout.hostOf p) > 1
  · rw [if_pos hseveral, beforeInterhost, if_pos (hseveral.trans_le hle), afterIntrahost,
      if_pos hrep]
    rfl
  · have halone : nprocOn layout (layout.hostOf p) = 1 := by omega
    rw [if_neg hseveral, beforeInterhost, afterIntrahost, if_pos hrep,
      hostValue_of_alone hroot (hostOf_lt hp) halone, ← hrep]
    cases sBuf p with
    | some s => rfl
    | none => exact ite_self _

lemma maxOnHost_of_one (hone : layout.nhost = 1) (hmany : layout.nproc ≠ 1) :
    layout.maxOnHost > 1 := by
  have hhost : ∀ {p}, p < layout.nproc → layout.hostOf p = 0 := fun hp =>
    lt_one_iff.mp (hone ▸ hostOf_lt hp)
  by_contra hle
  have hplace : ∀ p < layout.nproc, layout.onHost p = 0 := by
    intro p hp
    have hlt := (onHost_lt hp).trans_le (length_procsOn_le _)
    omega
  have hsame : ∀ p < layout.nproc, p = procOn layout 0 0 := by
    intro p hp
    have hmem := mem_procsOn_hostOf hp
    rw [hhost hp] at hmem
    rw [← procOn_onHost hmem, hplace p hp]
  have h0 := hsame 0 (by omega)
  have h1 := hsame 1 (by omega)
  omega

section Buffers

variable (hr : ∀ p < layout.nproc, (rBuf p).length = count)
  (hs : ∀ p < layout.nproc, ((sBuf p).getD (rBuf p)).length = count)

include hr hs

section Lengths

variable {p : ℕ} (hp : p < layout.nproc)

include hp

lemma length_beforeInterhost : (beforeInterhost op layout root sBuf rBuf p).length = count := by
  rw [beforeInterhost, afterIntrahost]
  split_ifs
  · exact length_hostValue hroot hs (hostOf_lt hp)
  · exact hr p hp
  · exact hr p hp

lemma length_getD_beforeInterhost :
    ((if nprocOn layout (layout.hostOf p) > 1 then none else sBuf p).getD
      (beforeInterhost op layout root sBuf rBuf p)).length = count := by
  have hbefore : (beforeInterhost op layout root sBuf rBuf p).length = count :=
    length_beforeInterhost hroot hr hs hp
  have hsp := hs p hp
  split_ifs
  · exact hbefore
  · cases h : sBuf p with
    | none => exact hbefore
    | some s => rwa [h] at hsp

end Lengths

variable (hgroups : ∀ p < layout.nproc, (groups p).OnHosts layout p) {blockCount : ℕ → ℕ}
  {s : System ℤ (List α) α γ (layoutDiscipline layout root)}
  (k : ℕ → List α → HostProg α γ)

include hgroups

/-- **The processes of one host** run the algorithm on their host. -/
theorem leads_intrahost (hh : h < layout.nhost) (hblock : 0 < blockCount h)
    (hchan : s.config.shared.chan = fun _ => []) (htimes : ∀ f, f.host = h → s.config.times f = 0)
    (hprocs : ∀ p ∈ layout.procsOn h, s.procs p = ulmReduceIntrahost op (groups p) root
      (blockCount h) count (sBuf p) (rBuf p) >>= k p) :
    ∃ s', Leads s s' ∧ (s'.config.shared.chan = fun _ => []) ∧
      (∀ f, f.host ≠ h → s'.config.times f = s.config.times f) ∧
      (∀ p ∈ layout.procsOn h, s'.procs p =
        k p (afterIntrahost op layout root (fun p => (sBuf p).getD (rBuf p)) rBuf p)) ∧
      ∀ p ∉ layout.procsOn h, s'.procs p = s.procs p := by
  -- without objects, or for one process, nobody uses the shared buffer
  by_cases hnothing : count = 0 ∨ nprocOn layout h = 1
  · refine ⟨s, Leads.refl s, hchan, fun _ _ => rfl, fun p hp => ?_, fun _ _ => rfl⟩
    have hlt := lt_nproc_of_mem hp
    have hhost := hostOf_eq hp
    rw [hprocs p hp, ulmReduceIntrahost, (hgroups p hlt).onHostGroupSize, hhost, afterIntrahost,
      hhost]
    by_cases hcount : count = 0
    · subst hcount
      rw [if_pos rfl, eq_nil_of_length_eq_zero (length_hostValue hroot hs hh),
        eq_nil_of_length_eq_zero (hr p hlt), ite_self]
      rfl
    · have halone := hnothing.resolve_left hcount
      have hrep : Represents layout root p := represents_of_alone hroot hlt (hhost ▸ halone)
      rw [if_neg hcount, if_pos hrep, hostValue_of_alone hroot hh halone, ← hhost, ← hrep, hhost]
      exact congrArg (· >>= k p) (if_pos halone)
  · obtain ⟨hcount, hseveral⟩ := not_or.mp hnothing
    obtain ⟨s', hleads, ⟨t', buf', hat⟩, hran⟩ := leads_intrahostBlocks
      (reduceRank_inj hroot hh) hblock count 0 count (fun _ => [])
      (fun x => (sBuf (reduceRank layout root h x)).getD (rBuf (reduceRank layout root h x)))
      (fun x => rBuf (reduceRank layout root h x)) (fun x => k (reduceRank layout root h x)) s
      le_rfl (zero_mod _) (fun x _ => hs _ (lt_nproc_of_mem (reduceRank_mem hroot hh x)))
      (fun x _ => hr _ (lt_nproc_of_mem (reduceRank_mem hroot hh x)))
      (hostAt_cleared hchan htimes)
      (fun x hx => by
        have hmem := reduceRank_mem hroot hh x
        have hlt := lt_nproc_of_mem hmem
        have hhost := hostOf_eq hmem
        rw [hprocs _ hmem, ulmReduceIntrahost_eq hroot (hgroups _ hlt) hlt hcount
          (hhost.symm ▸ hseveral), reduceRankOf_reduceRank hroot hh hx, hhost])
    refine ⟨s', hleads.leads, hat.chan, hat.other, fun p hp => ?_, fun p hp => hleads.procs p
      fun x _ heq => hp (heq ▸ reduceRank_mem hroot hh x)⟩
    have hlt := lt_nproc_of_mem hp
    have hhost := hostOf_eq hp
    have hp' := hran (reduceRankOf layout root p) (hhost ▸ reduceRankOf_lt hlt)
    have hrank := reduceRank_reduceRankOf hroot hlt
    rw [hhost] at hrank
    rw [hrank] at hp'
    rw [hp', afterIntrahost, hhost]
    exact congrArg (k p) (if_congr (reduceRankOf_eq_zero hroot hlt) rfl rfl)

lemma leads_intrahosts (hblock : ∀ h < layout.nhost, 0 < blockCount h)
    (hchan : s.config.shared.chan = fun _ => []) (htimes : s.config.times = fun _ => 0)
    (hprocs : ∀ p < layout.nproc, s.procs p = ulmReduceIntrahost op (groups p) root
      (blockCount (layout.hostOf p)) count (sBuf p) (rBuf p) >>= k p) :
    ∃ s', Leads s s' ∧ (s'.config.shared.chan = fun _ => []) ∧
      ∀ p < layout.nproc, s'.procs p =
        k p (afterIntrahost op layout root (fun p => (sBuf p).getD (rBuf p)) rBuf p) := by
  obtain ⟨s', hleads, ⟨hchan', -⟩, hran⟩ := leads_hosts
    (fun m c => (c.shared.chan = fun _ => []) ∧ ∀ f, m ≤ f.host → c.times f = 0)
    (fun h hh s1 hprocs1 ⟨hchan1, htimes1⟩ => by
      obtain ⟨s2, hleads2, hchan2, htimes2, hran2, hrest2⟩ := leads_intrahost hroot hr hs hgroups
        k hh (hblock h hh) hchan1 (fun f hf => htimes1 f hf.ge) fun p hp => by
          rw [hprocs1 p hp, hostOf_eq hp]
      refine ⟨s2, hleads2, ⟨hchan2, fun f hf => ?_⟩, hran2, hrest2⟩
      rw [htimes2 f (lt_of_succ_le hf).ne', htimes1 f (le_of_succ_le hf)])
    hprocs ⟨hchan, fun f _ => congrFun htimes f⟩
  exact ⟨s', hleads, hchan', hran⟩

/-- **The representatives of the hosts** combine what they have. -/
theorem leads_representatives (hhosts : layout.nhost ≠ 1) {blockCount : ℕ} (hblock : 0 < blockCount)
    (tag : ℤ) (hnone : ∀ p < layout.nproc, ¬Represents layout root p → sBuf p = none)
    {s : System ℤ (List α) α γ D} (hchan : s.config.shared.chan = fun _ => [])
    (hprocs : ∀ p < layout.nproc, s.procs p = Prog.ofProc (ulmReduce.blocks
      (ulmReduceInterhost op (groups p) root) blockCount count tag count (sBuf p) (rBuf p)) >>=
        k p) :
    ∃ s', Leads s s' ∧
      ∀ p < layout.nproc, ∃ out, (p = root → out = FanIn.value op.call layout.nhost
          (fun y => (sBuf (bcastNode layout root y)).getD (rBuf (bcastNode layout root y)))
          layout.nhost 0) ∧ s'.procs p = k p out := by
  have halg : ∀ y < layout.nhost, ∀ (tag : ℤ) (m : ℕ) (sBuf : Option (List α)) (rBuf : List α),
      m ≠ 0 → ulmReduceInterhost op (groups (bcastNode layout root y)) root tag m sBuf rBuf =
        logFanIn op layout.nhost y (bcastNode layout root) tag layout.nhost 1 (sBuf.getD rBuf) := by
    intro y hy tag m sBuf rBuf hm
    rw [ulmReduceInterhost_eq hroot (hgroups _ (bcastNode_lt hroot y)) hhosts hm,
      if_pos (represents_bcastNode hroot y), bcastNodeOf_bcastNode hroot hy]
  obtain ⟨s', hleads, -, hran⟩ := leads_fanInBlocks (bcastNode_inj hroot) (fun _ _ => rfl)
    hblock halg count tag count (fun y => sBuf (bcastNode layout root y))
    (fun y => rBuf (bcastNode layout root y)) (fun y => k (bcastNode layout root y)) s le_rfl
    (fun y _ => hr _ (bcastNode_lt hroot y)) (fun y _ => hs _ (bcastNode_lt hroot y)) hchan
    (fun y _ => hprocs _ (bcastNode_lt hroot y))
  refine ⟨s', hleads.leads, fun p hp => ?_⟩
  by_cases hrep : Represents layout root p
  · obtain ⟨out, hout, hp'⟩ := hran _ (bcastNodeOf_lt hroot p)
    rw [bcastNode_bcastNodeOf hroot hp hrep] at hp'
    refine ⟨out, fun heq => hout ?_, hp'⟩
    rw [heq, bcastNodeOf_root]
  · -- the others keep what they have
    refine ⟨rBuf p, fun heq => absurd (heq ▸ represents_root) hrep, ?_⟩
    have hpure : ∀ tag m rBuf, ulmReduceInterhost op (groups p) root tag m none rBuf =
        pure rBuf := by
      intro tag m rBuf
      by_cases hm : m = 0
      · exact if_pos hm
      · rw [ulmReduceInterhost_eq hroot (hgroups p hp) hhosts hm, if_neg hrep]
        rfl
    rw [hleads.procs p fun y _ heq => hrep (heq ▸ represents_bcastNode hroot y), hprocs p hp,
      hnone p hp hrep, blocks_of_pure hpure]
    rfl

/-- **First the hosts**, if there are several processes on one of them. -/
theorem leads_beforeInterhost
    (hblock : ∀ p < layout.nproc, 0 < (reduceComm groups useSharedMem nprocs p).blockCount type)
    (hconfig : s.config = reduceConfig layout root mem)
    (hprocs : ∀ p < layout.nproc, s.procs p = (if layout.maxOnHost > 1 then
        ulmReduceIntrahost op (groups p) root ((reduceComm groups useSharedMem nprocs p).blockCount
          type) count (sBuf p) (rBuf p)
      else pure (rBuf p)) >>= k p) :
    ∃ s', Leads s s' ∧ (s'.config.shared.chan = fun _ => []) ∧
      ∀ p < layout.nproc, s'.procs p = k p (beforeInterhost op layout root sBuf rBuf p) := by
  have hchan : s.config.shared.chan = fun _ => [] := by rw [hconfig]; rfl
  have htimes : s.config.times = fun _ => 0 := by rw [hconfig, times_reduceConfig]
  unfold beforeInterhost
  by_cases hmax : layout.maxOnHost > 1
  · simp only [if_pos hmax] at hprocs ⊢
    -- the representative of a host stands for its segment size
    have hrep : ∀ h < layout.nhost, layout.representative root h < layout.nproc := fun h hh =>
      lt_nproc_of_mem (representative_mem hroot hh)
    apply leads_intrahosts hroot hr hs hgroups k (fun h hh => hblock _ (hrep h hh)) hchan htimes
    intro p hp
    have hh := hostOf_lt hp
    rw [hprocs p hp, blockCount_comm hgroups hp (hrep _ hh) (hostOf_representative hroot hh).symm]
  · simp only [if_neg hmax] at hprocs ⊢
    exact ⟨s, Leads.refl s, hchan, hprocs⟩

/-- **Then their representatives**, if there are several hosts. -/
theorem leads_betweenHosts (hmany : layout.nproc ≠ 1) (hchan : s.config.shared.chan = fun _ => [])
    (hprocs : ∀ p < layout.nproc, s.procs p = betweenHosts op type layout
      (groups p) root baseTag count p (sBuf p) (beforeInterhost op layout root sBuf rBuf p) >>=
      k p) :
    ∃ s', Leads s s' ∧
      ∀ p < layout.nproc, ∃ out, (p = root →
          out = hostsValue op layout root fun p => (sBuf p).getD (rBuf p)) ∧
        s'.procs p = k p out := by
  unfold betweenHosts at hprocs
  by_cases hone : layout.nhost = 1
  · -- the root represents the only host
    simp only [if_pos hone] at hprocs
    refine ⟨s, Leads.refl s, fun p hp => ⟨_, fun heq => ?_, hprocs p hp⟩⟩
    rw [heq, beforeInterhost, if_pos (maxOnHost_of_one hroot hone hmany), afterIntrahost,
      if_pos represents_root, hostsValue, hone, FanIn.value_one, bcastNode_zero hroot]
  · simp only [if_neg hone] at hprocs
    have halone : ∀ p < layout.nproc, ¬Represents layout root p →
        nprocOn layout (layout.hostOf p) > 1 := by
      intro p hp hnot
      have hpos := nprocOn_pos hroot (hostOf_lt hp)
      by_contra hle
      exact hnot (represents_of_alone hroot hp (by omega))
    obtain ⟨s', hleads, hran⟩ := leads_representatives hroot
      (fun p hp => length_beforeInterhost hroot hr hs hp)
      (fun p hp => length_getD_beforeInterhost hroot hr hs hp) hgroups k hone
      (ulmReduce.blockCount_pos type.toReduceType) _
      (fun p hp hnot => if_pos (halone p hp hnot)) hchan hprocs
    refine ⟨s', hleads, fun p hp => ?_⟩
    obtain ⟨out, hout, hp'⟩ := hran p hp
    refine ⟨out, fun heq => ?_, hp'⟩
    rw [hout heq, hostsValue]
    congr 1
    funext y
    exact getD_beforeInterhost hroot (bcastNode_lt hroot y) (represents_bcastNode hroot y)

end Buffers

/-! ### Reduce -/

/-- All runs end in one state.  All processes are done then, and the root has this result. -/
def ReduceEnds
    (net : SharedMemory.Net ℕ ℤ (List α) ReduceFlag ReduceCell α (Except ReduceError (List α)))
    (root : ℕ) (result : List α) : Prop :=
  ∃ final, Completes net final ∧ Finished final ∧ final.procs root = .done (.ok result)

lemma reduceEnds_of_leads {comms : ℕ → ReduceComm} {result : List α}
    (h : ∃ s' : System ℤ (List α) α (Except ReduceError (List α)) (layoutDiscipline layout root),
      Leads ⟨(ulmReduceShared.start op type comms layout.nproc root baseTag count args mem).procs,
        reduceConfig layout root mem⟩ s' ∧
      ∀ p < layout.nproc, ∃ out, (p = root → out = result) ∧ s'.procs p = pure (.ok out)) :
    ReduceEnds (ulmReduceShared.start op type comms layout.nproc root baseTag count args mem) root
      result := by
  obtain ⟨s', hleads, hran⟩ := h
  have hdone : Finished s'.net := by
    refine hleads.finished (A := (· < layout.nproc)) (fun p hp => ?_) fun p hp => ⟨_, if_neg hp⟩
    obtain ⟨out, -, hp'⟩ := hran p hp
    exact ⟨_, hp'⟩
  obtain ⟨out, hout, hroot'⟩ := hran root hroot
  rw [hout rfl] at hroot'
  exact ⟨s'.net, hleads.completes hdone, hdone, hroot'⟩

variable (hgroups : ∀ p < layout.nproc, (groups p).OnHosts layout p)

include hgroups

lemma ulmReduceShared_one (hone : layout.nproc = 1) (hbuf : (args root).rBuf ≠ none) :
    ReduceEnds (ulmReduceShared.start op type (reduceComm groups useSharedMem nprocs) layout.nproc
      root baseTag count args mem) root (args root).contribution := by
  refine reduceEnds_of_leads hroot ⟨_, Leads.refl _, fun p hp => ?_⟩
  obtain rfl : p = root := by omega
  refine ⟨_, fun _ => rfl, (if_pos hp).trans ?_⟩
  rw [ulmReduceShared]
  rw [(hgroups p hp).groupSize, if_neg fun h => hbuf h.1, if_pos hone]
  rfl

lemma ulmReduceShared_several (htype : 0 < type.packedSize) (hextent : 0 < type.extent)
    (hmany : layout.nproc ≠ 1) (hop : op.commute = true)
    (hargs : ∀ p < layout.nproc, (args p).Fits count) (hbuf : (args root).rBuf ≠ none) :
    ReduceEnds (ulmReduceShared.start op type (reduceComm groups useSharedMem nprocs) layout.nproc
      root baseTag count args mem) root
      (if useSharedMem = false ∨
          type.extent > (reduceComm groups useSharedMem nprocs root).maxReduceExtent then
        FanIn.value op.call layout.nproc
          (fun y => (args (p2pNode layout.nproc root y)).contribution) layout.nproc 0
      else hostsValue op layout root fun p => (args p).contribution) := by
  have hr : ∀ p < layout.nproc, ((args p).rBuf.getD (args p).reduceBuffer).length = count :=
    fun p hp => (hargs p hp).rBuf
  have hs : ∀ p < layout.nproc, ((args p).sBuf.getD
      ((args p).rBuf.getD (args p).reduceBuffer)).length = count :=
    fun p hp => (hargs p hp).length_contribution
  have hprocs : ∀ p < layout.nproc, (ulmReduceShared.start op type
      (reduceComm groups useSharedMem nprocs) layout.nproc root baseTag count args mem).procs p =
        _ := fun p hp => (if_pos hp).trans (ulmReduceShared_eq hop (hgroups p hp) hmany
      fun h => hbuf (h.2 ▸ h.1))
  apply reduceEnds_of_leads hroot
  by_cases hp2p : useSharedMem = false ∨
      type.extent > (reduceComm groups useSharedMem nprocs root).maxReduceExtent
  · rw [if_pos hp2p]
    apply leads_p2p hroot hmany (ulmReduce.blockCount_pos type.toReduceType) baseTag hr hs
      (fun _ out => pure (Except.ok out)) rfl
    intro p hp
    refine (hprocs p hp).trans ?_
    rw [maxReduceExtent_eq hgroups hp hroot, if_pos hp2p, blockwise_eq htype]
  · rw [if_neg hp2p]
    have hblock : ∀ p < layout.nproc,
        0 < (reduceComm groups useSharedMem nprocs p).blockCount type := by
      intro p hp
      apply blockCount_comm_pos hextent (hgroups p hp) hp
      rw [maxReduceExtent_eq hgroups hp hroot]
      exact fun h => hp2p (.inr h)
    have hprocs' : ∀ p < layout.nproc, (ulmReduceShared.start op type
        (reduceComm groups useSharedMem nprocs) layout.nproc root baseTag count args mem).procs p =
          (if layout.maxOnHost > 1 then
            ulmReduceIntrahost op (groups p) root
              ((reduceComm groups useSharedMem nprocs p).blockCount type) count (args p).sBuf
              ((args p).rBuf.getD (args p).reduceBuffer)
          else pure ((args p).rBuf.getD (args p).reduceBuffer)) >>= fun out =>
            betweenHosts op type layout (groups p) root baseTag count p (args p).sBuf out >>=
              fun out => pure (Except.ok out) := by
      intro p hp
      rw [hprocs p hp, maxReduceExtent_eq hgroups hp hroot, if_neg hp2p,
        onHosts_eq htype hextent (hgroups p hp)]
    obtain ⟨s1, hleads1, hchan1, hran1⟩ := leads_beforeInterhost hroot hr hs hgroups _ hblock
      (s := ⟨_, reduceConfig layout root mem⟩) rfl hprocs'
    obtain ⟨s2, hleads2, hran2⟩ := leads_betweenHosts hroot hr hs hgroups
      (fun _ out => pure (Except.ok out)) hmany hchan1 hran1
    exact ⟨s2, hleads1.trans hleads2, hran2⟩

/-- **The root gets the contributions of all processes**, each used once. -/
theorem exists_reduceEnds (htype : 0 < type.packedSize) (hextent : 0 < type.extent)
    (hop : op.commute = true)
    (hargs : ∀ p < layout.nproc, (args p).Fits count) (hbuf : (args root).rBuf ≠ none) :
    ∃ result, ReduceEnds (ulmReduceShared.start op type (reduceComm groups useSharedMem nprocs)
        layout.nproc root baseTag count args mem) root result ∧
      FanIn.Combines op.call (fun p => (args p).contribution)
        (range layout.nproc : Multiset ℕ) result := by
  by_cases hone : layout.nproc = 1
  · refine ⟨_, ulmReduceShared_one hroot hgroups hone hbuf, ?_⟩
    obtain rfl : root = 0 := by omega
    rw [hone]
    exact FanIn.Combines.single 0
  · refine ⟨_, ulmReduceShared_several hroot hgroups htype hextent hone hop hargs hbuf, ?_⟩
    split_ifs
    · exact combines_p2p hroot
    · exact combines_hostsValue hroot

end Root

/-- **The root after a reduce with an operation that commutes** has the contributions of all
processes, combined object by object, in all runs and whichever algorithm is used. -/
theorem ulmReduce_commuting_root {sizes rnkLst : List ℕ} {groups : ℕ → Group}
    (h : Group.Created sizes rnkLst groups) {op : ULMOp α} (hop : op.commute = true)
    (hassoc : ∀ x y z, op.func (op.func x y) z = op.func x (op.func y z))
    (hcomm : ∀ x y, op.func x y = op.func y x) {root : ℕ} (hroot : root < rnkLst.length)
    {type : ReduceHostType} (htype : 0 < type.packedSize) (hextent : 0 < type.extent)
    (useSharedMem : Bool) (baseTag : ℤ) {count : ℕ} {args : ℕ → ReduceArgs α}
    (hargs : ∀ p < rnkLst.length, (args p).Fits count)
    (hbuf : (args root).rBuf ≠ none) (mem : ReduceCell → α) :
    ReduceEnds (ulmReduceShared.start op type (reduceComm groups useSharedMem sizes.sum)
      rnkLst.length root baseTag count args mem) root
      (prefixReduce op (fun p => (args p).contribution) (rnkLst.length - 1)) := by
  obtain ⟨layout, hnproc, hgroups⟩ := h.exists_layout
  rw [← hnproc] at hroot hgroups hargs ⊢
  obtain ⟨result, hends, hcombines⟩ := exists_reduceEnds hroot hgroups htype hextent hop hargs hbuf
  have hpos := (zero_le _).trans_lt hroot
  rw [← eq_prefixReduce_of_combines hassoc hcomm hpos hcombines]
  exact hends

/-- Rank `p` contributes the number `p + 1`. -/
def rankNumbers (p : ℕ) : ReduceArgs ℕ := ⟨some [p + 1], some [0], []⟩

/-- Three processes on two hosts add their numbers, and the second one gets the sum. -/
theorem ulmReduce_commuting_root_threeProcesses :
    ∃ groups, Group.Created [2, 1] [0, 1, 2] groups ∧
      (∀ p < 3, (rankNumbers p).Fits 1) ∧
      ReduceEnds (ulmReduceShared.start ⟨true, (· + ·)⟩ ⟨⟨4⟩, 4⟩
        (reduceComm groups true 3) 3 1 (-1) 1 rankNumbers fun _ => 0) 1 [6] := by
  obtain ⟨groups, hgroups⟩ := Group.exists_created_twoHosts
  have hfits : ∀ p < 3, (rankNumbers p).Fits 1 := fun p _ => ⟨by rintro s ⟨⟩; rfl, rfl⟩
  exact ⟨groups, hgroups, hfits, ulmReduce_commuting_root hgroups rfl add_assoc add_comm
    (show 1 < 3 by decide) (show 0 < 4 by decide) (show 0 < 4 by decide) true (-1) hfits nofun
    fun _ => 0⟩

end Lampi
