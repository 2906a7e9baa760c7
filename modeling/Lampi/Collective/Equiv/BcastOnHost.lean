import Lampi.Collective.Equiv.BcastFanOut
import Lampi.Mpi.Equiv.TypePack

/-!
# Passing on the data on a host

The barriers cut what the processes of a host do into epochs: first, if there are several hosts, the
exchange between the hosts, and then passing on a block and resetting the flag in turn
(`bcastEpochs`).  While a block is passed on, the representative may write the shared buffer until
it sets the flag, and the others may read it after they have seen that.

**`leads_disperse`**: if calls of `type_pack` come to the end of the array, then the processes of a
host come to the end of the loop, and each has a copy of what the calls have copied.
-/

namespace Lampi

open SharedMemory RunList ulmBcast typePack Function List Finset

/-! ### The epochs -/

/-- What the processes of a host do in an epoch. -/
inductive BcastPhase
  | interhost
  | pass
  | reset
  deriving DecidableEq, Repr

/-- The epochs below `first` belong to the exchange between the hosts. -/
def bcastPhase (first e : ℕ) : BcastPhase :=
  if e < first then .interhost else if (e - first) % 2 = 0 then .pass else .reset

section Phases

variable {first e : ℕ}

lemma bcastPhase_first : bcastPhase first first = .pass := by
  rw [bcastPhase, if_neg (lt_irrefl _), Nat.sub_self, if_pos rfl]

lemma bcastPhase_of_pass (h : bcastPhase first e = .pass) : bcastPhase first (e + 1) = .reset := by
  unfold bcastPhase at h ⊢
  split_ifs at h with hlt heven
  rw [if_neg (by omega), if_neg (by omega)]

lemma bcastPhase_of_reset (h : bcastPhase first e = .reset) : bcastPhase first (e + 1) = .pass := by
  unfold bcastPhase at h ⊢
  split_ifs at h with hlt heven
  rw [if_neg (by omega), if_pos (by omega)]

lemma bcastPhase_of_interhost (h : bcastPhase first e = .interhost) :
    bcastPhase first (e + 1) = .interhost ∨ bcastPhase first (e + 1) = .pass := by
  unfold bcastPhase at h ⊢
  split_ifs at h with hlt heven
  rcases Nat.lt_or_ge (e + 1) first with hlt' | hge
  · exact .inl (if_pos hlt')
  · rw [if_neg (not_lt.mpr hge), if_pos (by omega)]
    exact .inr rfl

end Phases

/-- How the notes of the processes and the flag go together.  A process makes a note when it has the
block, or has reset the flag. -/
def BcastPhase.Inv (members : Finset ℕ) (rep : ℕ) (notes : ℕ → Bool) (v : ℤ) : BcastPhase → Prop
  | .interhost => v ≠ 2
  | .pass => (notes rep = true ↔ v = 2) ∧ ∀ p ∈ members, notes p = true → notes rep = true
  | .reset => ∀ p ∈ members, notes p = true → v = 1

def BcastPhase.MaySet (rep p : ℕ) (note : Bool) (v : ℤ) (note' : Bool) : BcastPhase → Prop
  | .interhost => False
  | .pass => p = rep ∧ note = false ∧ v = 2 ∧ note' = true
  | .reset => v = 1 ∧ note' = true

def BcastPhase.MayWait (rep p : ℕ) (ready : ℤ → Bool) (note' : Bool) : BcastPhase → Prop
  | .pass => p ≠ rep ∧ ready = (· == 2) ∧ note' = true
  | _ => False

/-- **The epochs of a broadcast.** -/
def bcastEpochs (members : ℕ → Finset ℕ)
    (disjoint : ∀ {p h h'}, p ∈ members h → p ∈ members h' → h = h') (rep : ℕ → ℕ) (first : ℕ)
    (base : ℕ → ℤ) : Epochs ℕ ℕ BcastCell Bool where
  members := members
  home := BcastCell.host
  base := base
  start := false
  Inv h e notes v := rep h ∈ members h → (bcastPhase first e).Inv (members h) (rep h) notes v
  final _ e _ note := bcastPhase first e ≠ .interhost → note = true
  maySet h e p note v note' := (bcastPhase first e).MaySet (rep h) p note v note'
  mayWait h e p _ ready note' := (bcastPhase first e).MayWait (rep h) p ready note'
  mayStore h e p note l := bcastPhase first e = .pass ∧ l.host = h ∧ p = rep h ∧ note = false
  mayLoad h e p note l := bcastPhase first e = .pass ∧ l.host = h ∧ p ≠ rep h ∧ note = true
  disjoint := disjoint
  congr := by
    intro h e notes notes' v hnotes hinv hrep
    have hinv := hinv hrep
    cases hphase : bcastPhase first e <;> rw [hphase] at hinv
    · exact hinv
    · unfold BcastPhase.Inv at hinv ⊢
      rw [← hnotes _ hrep]
      exact ⟨hinv.1, fun p hp hnote => hinv.2 p hp ((hnotes p hp).trans hnote)⟩
    · exact fun p hp hnote => hinv p hp ((hnotes p hp).trans hnote)
  set := by
    intro h e notes v p v' s hinv hp hmay hrep
    have hinv := hinv hrep
    cases hphase : bcastPhase first e <;> rw [hphase] at hinv hmay
    · exact hmay.elim
    · obtain ⟨rfl, -, rfl, rfl⟩ := hmay
      unfold BcastPhase.Inv
      rw [update_self]
      exact ⟨Iff.intro (fun _ => rfl) fun _ => rfl, fun _ _ _ => rfl⟩
    · exact fun _ _ _ => hmay.1
  pass := by
    intro h e notes v p ready s hinv hp hmay hready hrep
    have hinv := hinv hrep
    cases hphase : bcastPhase first e <;> rw [hphase] at hinv hmay
    · exact hmay.elim
    · obtain ⟨hne, rfl, rfl⟩ := hmay
      have hflag : notes (rep h) = true := hinv.1.mpr (beq_iff_eq.mp hready)
      unfold BcastPhase.Inv
      rw [update_of_ne hne.symm]
      exact ⟨hinv.1, fun _ _ _ => hflag⟩
    · exact hmay.elim
  commute := by
    intro h e notes v p q v1 v2 s1 s2 _ _ _ hpq hmay hmay'
    cases hphase : bcastPhase first e <;> rw [hphase] at hmay hmay'
    · exact hmay.elim
    · exact absurd (hmay.1.trans hmay'.1.symm) hpq
    · exact hmay.1.trans hmay'.1.symm
  stays := by
    intro h e notes v p q v' ready s1 s2 _ _ _ _ hmay hwait _
    cases hphase : bcastPhase first e <;> rw [hphase] at hmay hwait
    · exact hmay.elim
    · obtain ⟨-, rfl, -⟩ := hwait
      exact beq_iff_eq.mpr hmay.2.2.1
    · exact hwait.elim
  exclusive := by
    rintro h e notes v p q l hinv hp hq hpq ⟨hphase, -, rfl, hnote⟩
    have hinv := hinv hp
    rw [hphase] at hinv
    refine ⟨fun hmay => hpq hmay.2.2.1.symm, ?_⟩
    rintro ⟨-, -, -, hnote'⟩
    have := hinv.2 q hq hnote'
    rw [hnote] at this
    cases this
  store_home hmay := hmay.2.1
  load_home hmay := hmay.2.1
  turn := by
    intro h e notes v hinv hfinal hrep
    have hinv := hinv hrep
    cases hphase : bcastPhase first e <;> rw [hphase] at hinv
    · have hpass : BcastPhase.Inv (members h) (rep h) (fun _ => false) v .pass :=
        ⟨⟨fun hfalse => absurd hfalse Bool.false_ne_true, fun hv => absurd hv hinv⟩,
          fun _ _ hfalse => absurd hfalse Bool.false_ne_true⟩
      rcases bcastPhase_of_interhost hphase with hnext | hnext <;> rw [hnext]
      · exact hinv
      · exact hpass
    · rw [bcastPhase_of_pass hphase]
      exact fun _ _ hfalse => absurd hfalse Bool.false_ne_true
    · rw [bcastPhase_of_reset hphase]
      have hv : v = 1 := hinv _ hrep (hfinal _ hrep (by rw [hphase]; nofun))
      refine ⟨⟨fun hfalse => absurd hfalse Bool.false_ne_true, fun htwo => ?_⟩,
        fun _ _ hfalse => absurd hfalse Bool.false_ne_true⟩
      rw [hv] at htwo
      exact absurd htwo (by decide)

/-! ### The programs -/

section Programs

variable {γ : Type} {group : Group} {commRoot copyBufferSize count : ℕ} {type : CommittedType}
  {cursor : TypeCursor} {st : BcastState} {k : Packing} {status : TypePackStatus}

lemma smpSWBarrier_bind (releaseCnt : ℤ) (f : ℤ → BcastProg γ) :
    smpSWBarrier group releaseCnt >>= f =
      Prog.barrier group.selfHost (releaseCnt + group.onHostGroupSize) >>= fun _ =>
        f (releaseCnt + group.onHostGroupSize) := by
  rfl

lemma disperse_end (hend : count ≤ cursor.typeIndex) (rounds : ℕ) (releaseCnt : ℤ) :
    disperse group commRoot copyBufferSize count type rounds releaseCnt cursor st =
      pure (.ok st) := by
  cases rounds with
  | zero => rw [disperse, if_neg (not_lt.mpr hend)]
  | succ rounds => rw [disperse, if_neg (not_lt.mpr hend)]

/-- What follows a block that has been passed on. -/
def afterBlock (group : Group) (commRoot copyBufferSize count : ℕ) (type : CommittedType)
    (rounds : ℕ) (releaseCnt : ℤ) (cursor : TypeCursor) (st : BcastState) :
    BcastProg (Except BcastFault BcastState) :=
  if cursor.typeIndex ≠ count then do
    let releaseCnt ← smpSWBarrier group releaseCnt
    Prog.setFlag (.flag group.selfHost) 1
    let releaseCnt ← smpSWBarrier group releaseCnt
    disperse group commRoot copyBufferSize count type rounds releaseCnt cursor st
  else disperse group commRoot copyBufferSize count type rounds releaseCnt cursor st

lemma disperse_succ (hlt : cursor.typeIndex < count) (rounds : ℕ) (releaseCnt : ℤ) :
    disperse group commRoot copyBufferSize count type (rounds + 1) releaseCnt cursor st =
      passBlock group commRoot copyBufferSize count type cursor st >>= fun
        | .error fault => pure (.error fault)
        | .ok (cursor, st) =>
          afterBlock group commRoot copyBufferSize count type rounds releaseCnt cursor st := by
  rw [disperse, if_pos hlt]
  rfl

lemma passBlock_root (hself : group.self = commRoot)
    (hcall : typePack type copyBufferSize 0 count cursor = some (k, status)) :
    passBlock group commRoot copyBufferSize count type cursor st = (do
      Prog.storeAll ((cells group.selfHost (st.buf.read (positions k.pieces)).length).zip
        (st.buf.read (positions k.pieces)))
      Prog.setFlag (.flag group.selfHost) 2 return .ok (k.cursor, st)) := by
  rw [passBlock, if_pos hself, hcall]

lemma passBlock_other (hself : group.self ≠ commRoot)
    (hcall : typePack type copyBufferSize 0 count cursor = some (k, status)) :
    passBlock group commRoot copyBufferSize count type cursor st = (do
      Prog.waitFlag (.flag group.selfHost) (· == 2)
      let bytes ← Prog.loadAll (cells group.selfHost (positions k.pieces).length)
      return .ok (k.cursor, { st with buf := st.buf.write (positions k.pieces) bytes })) := by
  rw [passBlock, if_neg hself, hcall]

lemma nodup_bcastCells (host n : ℕ) : (cells host n).Nodup :=
  nodup_range.map fun _ _ heq => (BcastCell.mk.inj heq).2

lemma length_bcastCells (host n : ℕ) : (cells host n).length = n := by
  rw [cells, length_map, length_range]

lemma host_of_mem_bcastCells {host n : ℕ} {l : BcastCell} (hl : l ∈ cells host n) :
    l.host = host := by
  obtain ⟨i, -, rfl⟩ := mem_map.mp hl
  rfl

end Programs

/-! ### One host -/

section Host

variable {γ : Type} {members : ℕ → Finset ℕ}
  {disjoint : ∀ {p h h'}, p ∈ members h → p ∈ members h' → h = h'} {rep : ℕ → ℕ} {first : ℕ}
  {base : ℕ → ℤ} {h n r : ℕ} {proc : ℕ → ℕ} {group : ℕ → Group} {copyBufferSize count : ℕ}
  {type : CommittedType} {x : ℕ}

/-- The processes of host `h` are `proc x`, for `x < n`, and `proc r` represents it. -/
structure HostMembers (members : ℕ → Finset ℕ) (rep : ℕ → ℕ) (h n r : ℕ) (proc : ℕ → ℕ)
    (group : ℕ → Group) : Prop where
  inj : ∀ x < n, ∀ y < n, proc x = proc y → x = y
  mem : ∀ p, p ∈ members h ↔ ∃ x < n, proc x = p
  rep_lt : r < n
  rep_eq : rep h = proc r
  self : ∀ x < n, (group x).self = proc x
  selfHost : ∀ x < n, (group x).selfHost = h
  onHostGroupSize : ∀ x < n, (group x).onHostGroupSize = n

variable {e : ℕ} {cursor : TypeCursor} {k : Packing} {status : TypePackStatus} {st : BcastState}
  {c : Config ℤ (List UInt8) UInt8 (bcastEpochs members disjoint rep first base).discipline}
  {s : System ℤ (List UInt8) UInt8 γ (bcastEpochs members disjoint rep first base).discipline}
  (H : HostMembers members rep h n r proc group) (hphase : bcastPhase first e = .pass)
  (hcall : typePack type copyBufferSize 0 count cursor = some (k, status))

include H

lemma HostMembers.mem_of_lt (hx : x < n) : proc x ∈ members h := (H.mem _).mpr ⟨x, hx, rfl⟩

lemma HostMembers.card : (members h).card = n := by
  have himage : members h = (Finset.range n).image proc := by
    ext p
    rw [H.mem, mem_image]
    simp only [Finset.mem_range]
  rw [himage, card_image_of_injOn, card_range]
  intro x hx y hy heq
  exact H.inj x (Finset.mem_range.mp hx) y (Finset.mem_range.mp hy) heq

lemma HostMembers.release_succ (e : ℕ) :
    (bcastEpochs members disjoint rep first base).release h (e + 1) =
      (bcastEpochs members disjoint rep first base).release h e + n := by
  have hcard : ((bcastEpochs members disjoint rep first base).members h).card = n := H.card
  rw [Epochs.release, Epochs.release, hcard]
  push_cast
  ring

section Block

include hphase hcall

lemma wp_passBlock_root (hstate : c.state (proc r) = ⟨e, false, false⟩) :
    wp (proc r) (passBlock (group r) (rep h) copyBufferSize count type cursor st)
      (fun out c' => out = .ok (k.cursor, st) ∧
        (cells h (positions k.pieces).length).map c'.shared.mem =
          st.buf.read (positions k.pieces) ∧
        c'.shared.chan = c.shared.chan ∧
        c'.state = update c.state (proc r) ⟨e, false, true⟩) c := by
  have hmember := H.mem_of_lt H.rep_lt
  have hlen : (st.buf.read (positions k.pieces)).length = (positions k.pieces).length :=
    length_map _
  rw [passBlock_root ((H.self r H.rep_lt).trans H.rep_eq.symm) hcall, H.selfHost r H.rep_lt, hlen]
  refine wp_bind.mpr (wp_storeAll (fun w hw => ?_) (wp_bind.mpr ?_))
  · apply Epochs.mayStore_of_state hmember hstate
    have hcell : w.1.host = h := host_of_mem_bcastCells (of_mem_zip hw).1
    exact ⟨hphase, hcell, H.rep_eq.symm, rfl⟩
  · have hmay : (bcastEpochs members disjoint rep first base).maySet h e (proc r) false 2 true := by
      show (bcastPhase first e).MaySet (rep h) (proc r) false 2 true
      rw [hphase]
      exact ⟨H.rep_eq.symm, rfl, rfl, rfl⟩
    set c1 := c.withMem (writeAll c.shared.mem ((cells h (positions k.pieces).length).zip
      (st.buf.read (positions k.pieces))))
    have hstate1 : c1.state (proc r) = ⟨e, false, false⟩ := hstate
    refine Epochs.wp_setFlag hmember hstate1 hmay fun c' hmoved => ?_
    refine ⟨rfl, ?_, hmoved.chan, hmoved.state⟩
    rw [hmoved.mem]
    exact map_writeAll_zip (nodup_bcastCells _ _) (by rw [length_bcastCells, hlen])

lemma wp_passBlock_other {root : Buffer} (hx : x < n) (hxr : x ≠ r)
    (hstate : c.state (proc x) = ⟨e, false, false⟩) (hroot : c.state (proc r) = ⟨e, false, true⟩)
    (hmem : (cells h (positions k.pieces).length).map c.shared.mem =
      root.read (positions k.pieces)) :
    wp (proc x) (passBlock (group x) (rep h) copyBufferSize count type cursor st)
      (fun out c' => out = .ok (k.cursor, ⟨st.buf.copy root (positions k.pieces), st.log⟩) ∧
        c.Moved (proc x) ⟨e, false, true⟩ c') c := by
  have hmember := H.mem_of_lt hx
  have hne : proc x ≠ rep h := by
    rw [H.rep_eq]
    exact fun heq => hxr (H.inj x hx r H.rep_lt heq)
  rw [passBlock_other (by rw [H.self x hx]; exact hne) hcall, H.selfHost x hx]
  have hmay : (bcastEpochs members disjoint rep first base).mayWait h e (proc x) false (· == 2)
      true := by
    show (bcastPhase first e).MayWait (rep h) (proc x) (· == 2) true
    rw [hphase]
    exact ⟨hne, rfl, rfl⟩
  refine wp_bind.mpr (Epochs.wp_waitFlag hmember hstate hmay (fun v hinv => ?_) fun c' hmoved =>
    wp_bind.mpr (wp_loadAll (fun l hl => ?_) ?_))
  · -- the representative has set the flag
    have hrep : rep h ∈ members h := by
      rw [H.rep_eq]
      exact H.mem_of_lt H.rep_lt
    have hpass := hinv hrep
    rw [hphase] at hpass
    refine beq_iff_eq.mpr (hpass.1.mp ?_)
    beta_reduce
    rw [H.rep_eq, hroot]
    exact if_pos rfl
  · have hstate' : c'.state (proc x) = ⟨e, false, true⟩ := by
      rw [hmoved.state, update_self]
    exact Epochs.mayLoad_of_state hmember hstate' ⟨hphase, host_of_mem_bcastCells hl, hne, rfl⟩
  · refine ⟨?_, hmoved⟩
    rw [hmoved.mem, hmem, Buffer.write_read]

/-- **One block** goes from the representative to the other processes of the host. -/
theorem leads_passBlock {st : ℕ → BcastState}
    (next : ℕ → Except BcastFault (TypeCursor × BcastState) → BcastProg γ)
    (hstate : ∀ x < n, s.config.state (proc x) = ⟨e, false, false⟩)
    (hprocs : ∀ x < n, s.procs (proc x) =
      passBlock (group x) (rep h) copyBufferSize count type cursor (st x) >>= next x) :
    ∃ s', Frame proc n s s' ∧ (∀ x < n, s'.config.state (proc x) = ⟨e, false, true⟩) ∧
      ∀ x < n, s'.procs (proc x) = next x
        (.ok (k.cursor, ⟨(st x).buf.copy (st r).buf (positions k.pieces), (st x).log⟩)) := by
  -- the representative first
  obtain ⟨out, c, ⟨rfl, hmem, hchan, hstate1⟩, hleads1⟩ :=
    (wp_passBlock_root H hphase hcall (hstate r H.rep_lt)).leads (hprocs r H.rep_lt)
  have hother : ∀ x < n, x ≠ r → proc x ≠ proc r := fun x hx hne heq =>
    hne (H.inj x hx r H.rep_lt heq)
  set s1 := { s with
    procs := update s.procs (proc r) (next r (.ok (k.cursor, st r))), config := c } with hs1
  have hframe1 : Frame proc n s s1 :=
    ⟨⟨hleads1, fun p hp => update_of_ne (hp r H.rep_lt).symm _ _⟩, fun p hp => by
      show c.state p = _
      rw [hstate1, update_of_ne (hp r H.rep_lt).symm], hchan⟩
  -- then the others, while it rests
  obtain ⟨s2, hframe2, -, hstate2, hprocs2⟩ := leads_moves H.inj
    (fun x => if x = r then pure (.ok (k.cursor, st r))
      else passBlock (group x) (rep h) copyBufferSize count type cursor (st x)) next
    (fun x out => out =
      .ok (k.cursor, ⟨(st x).buf.copy (st r).buf (positions k.pieces), (st x).log⟩))
    (fun x => if x = r then ⟨e, false, true⟩ else ⟨e, false, false⟩) (fun _ => ⟨e, false, true⟩)
    (s := s1) (fun x hx => by
      by_cases hxr : x = r
      · subst hxr
        rw [if_pos rfl]
        exact update_self ..
      · rw [if_neg hxr]
        exact (update_of_ne (hother x hx hxr) _ _).trans (hprocs x hx))
    (fun x hx => by
      show c.state (proc x) = _
      rw [hstate1]
      by_cases hxr : x = r
      · rw [hxr, update_self, if_pos rfl]
      · rw [update_of_ne (hother x hx hxr), if_neg hxr, hstate x hx])
    (by
      intro m hm c1 hmem1 hst
      have hroot : c1.state (proc r) = ⟨e, false, true⟩ := by
        rw [hst r H.rep_lt, if_pos rfl]
        exact ite_self _
      by_cases hmr : m = r
      · subst hmr
        rw [if_pos rfl]
        refine wp_pure.mpr ⟨?_, rfl, rfl, ?_⟩
        · rw [Buffer.copy_self]
        · rw [← hroot, update_eq_self]
      · rw [if_neg hmr]
        refine wp_passBlock_other H hphase hcall hm hmr ?_ hroot ?_
        · rw [hst m hm, if_neg (lt_irrefl m), if_neg hmr]
        · rw [hmem1]
          exact hmem)
  refine ⟨s2, hframe1.trans hframe2, hstate2, fun x hx => ?_⟩
  obtain ⟨out, rfl, hout⟩ := hprocs2 x hx
  exact hout

end Block

include hphase in
lemma leads_resetFlag {releaseCnt : ℤ}
    (hrelease : releaseCnt + n = (bcastEpochs members disjoint rep first base).release h e)
    (next : ℕ → ℤ → BcastProg γ) (hstate : ∀ x < n, s.config.state (proc x) = ⟨e, false, true⟩)
    (hprocs : ∀ x < n, s.procs (proc x) = do
      let releaseCnt ← smpSWBarrier (group x) releaseCnt
      Prog.setFlag (.flag (group x).selfHost) 1
      let releaseCnt ← smpSWBarrier (group x) releaseCnt
      next x releaseCnt) :
    ∃ s', Frame proc n s s' ∧ (∀ x < n, s'.config.state (proc x) = ⟨e + 2, false, false⟩) ∧
      ∀ x < n, s'.procs (proc x) = next x (releaseCnt + n + n) := by
  have hreset := bcastPhase_of_pass hphase
  have hfinal : ∀ e' p, (bcastEpochs members disjoint rep first base).final h e' p true :=
    fun _ _ _ => rfl
  obtain ⟨s1, hframe1, -, hstate1, hprocs1⟩ := leads_barrier H.inj H.mem hrelease hstate
    (fun x _ => hfinal e (proc x))
    (fun x => Prog.setFlag (.flag h) 1 >>= fun _ => Prog.barrier h (releaseCnt + n + n) >>= fun _ =>
      next x (releaseCnt + n + n))
    (fun x hx => by
      rw [hprocs x hx, smpSWBarrier_bind, H.selfHost x hx, H.onHostGroupSize x hx]
      simp only [smpSWBarrier_bind, H.selfHost x hx, H.onHostGroupSize x hx])
  obtain ⟨s2, hframe2, -, hstate2, hprocs2⟩ := leads_moves H.inj
    (fun _ => Prog.setFlag (.flag h) 1)
    (fun x _ => Prog.barrier h (releaseCnt + n + n) >>= fun _ => next x (releaseCnt + n + n))
    (fun _ _ => True) (fun _ => ⟨e + 1, false, false⟩) (fun _ => ⟨e + 1, false, true⟩)
    hprocs1 hstate1 (by
      intro m hm c _ hst
      have hstm : c.state (proc m) = ⟨e + 1, false, false⟩ := by
        rw [hst m hm, if_neg (lt_irrefl m)]
      have hmay : (bcastEpochs members disjoint rep first base).maySet h (e + 1) (proc m) false 1
          true := by
        show (bcastPhase first (e + 1)).MaySet (rep h) (proc m) false 1 true
        rw [hreset]
        exact ⟨rfl, rfl⟩
      exact Epochs.wp_setFlag (H.mem_of_lt hm) hstm hmay fun c' hmoved => ⟨trivial, hmoved⟩)
  have hrelease' : releaseCnt + n + n =
      (bcastEpochs members disjoint rep first base).release h (e + 1) := by
    rw [hrelease, H.release_succ]
  obtain ⟨s3, hframe3, -, hstate3, hprocs3⟩ := leads_barrier H.inj H.mem hrelease' hstate2
    (fun x _ => hfinal (e + 1) (proc x)) (fun x => next x (releaseCnt + n + n))
    (fun x hx => by
      obtain ⟨-, -, hx'⟩ := hprocs2 x hx
      exact hx')
  exact ⟨s3, (hframe1.trans hframe2).trans hframe3, hstate3, hprocs3⟩

/-- **The loop on a host.**  All its processes get what the calls of `type_pack` copy. -/
theorem leads_disperse {calls : ℕ} {rest : List ℤ}
    (hcalls : Calls type copyBufferSize count calls cursor rest) :
    ∀ (e rounds : ℕ) (releaseCnt : ℤ) (st : ℕ → BcastState)
      (next : ℕ → Except BcastFault BcastState → BcastProg γ)
      (s : System ℤ (List UInt8) UInt8 γ (bcastEpochs members disjoint rep first base).discipline),
      bcastPhase first e = .pass → calls ≤ rounds →
      releaseCnt + n = (bcastEpochs members disjoint rep first base).release h e →
      (∀ x < n, s.config.state (proc x) = ⟨e, false, false⟩) →
      (∀ x < n, s.procs (proc x) = disperse (group x) (rep h) copyBufferSize count type rounds
        releaseCnt cursor (st x) >>= next x) →
      ∃ s', Frame proc n s s' ∧ ∀ x < n, s'.procs (proc x) =
        next x (.ok ⟨(st x).buf.copy (st r).buf rest, (st x).log⟩) := by
  -- by induction on the calls: each is one round of the loop
  induction hcalls with
  | done hend =>
    intro e rounds releaseCnt st next s _ _ _ _ hprocs
    refine ⟨s, Frame.refl s, fun x hx => ?_⟩
    rw [hprocs x hx, disperse_end hend.ge]
    rfl
  | @call calls cursor k status rest hlt hcall hrest ih =>
    intro e rounds releaseCnt st next s hphase hrounds hrelease hstate hprocs
    obtain ⟨rounds, rfl⟩ : ∃ m, rounds = m + 1 := ⟨rounds - 1, by omega⟩
    obtain ⟨s1, hframe1, hstate1, hprocs1⟩ := leads_passBlock H hphase hcall
      (fun x out => (match out with
        | .error fault => pure (.error fault)
        | .ok (cursor, st) => afterBlock (group x) (rep h) copyBufferSize count type rounds
          releaseCnt cursor st) >>= next x) hstate
      (fun x hx => by rw [hprocs x hx, disperse_succ hlt, bind_assoc])
    set st1 : ℕ → BcastState := fun x =>
      ⟨(st x).buf.copy (st r).buf (positions k.pieces), (st x).log⟩ with hst1
    have hroot : (st1 r).buf = (st r).buf := Buffer.copy_self _ _
    by_cases hmore : k.cursor.typeIndex = count
    · -- that was the last block
      have hnil : rest = [] := by
        cases hrest with
        | done => rfl
        | call hlt' => exact absurd hlt' (by rw [hmore]; exact lt_irrefl _)
      refine ⟨s1, hframe1, fun x hx => ?_⟩
      rw [hprocs1 x hx, hnil, append_nil]
      show afterBlock _ _ _ _ _ _ _ _ _ >>= next x = _
      rw [afterBlock, if_neg (not_not_intro hmore), disperse_end hmore.ge]
      rfl
    · obtain ⟨s2, hframe2, hstate2, hprocs2⟩ := leads_resetFlag H hphase hrelease
        (fun x releaseCnt => disperse (group x) (rep h) copyBufferSize count type rounds releaseCnt
          k.cursor (st1 x) >>= next x) hstate1 (fun x hx => by
            rw [hprocs1 x hx]
            show afterBlock _ _ _ _ _ _ _ _ _ >>= next x = _
            rw [afterBlock, if_pos hmore]
            simp only [bind_assoc, hst1])
      have hphase2 := bcastPhase_of_reset (bcastPhase_of_pass hphase)
      have hrelease2 : releaseCnt + n + n + n =
          (bcastEpochs members disjoint rep first base).release h (e + 2) := by
        rw [hrelease, H.release_succ, H.release_succ]
      obtain ⟨s3, hframe3, hprocs3⟩ := ih (e + 2) rounds _ st1 next s2 hphase2 (by omega)
        hrelease2 hstate2 hprocs2
      refine ⟨s3, (hframe1.trans hframe2).trans hframe3, fun x hx => ?_⟩
      rw [hprocs3 x hx, hroot, Buffer.copy_append]

end Host

end Lampi
