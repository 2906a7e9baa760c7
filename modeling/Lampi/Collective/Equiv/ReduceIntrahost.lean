import Mathlib.Data.Nat.Log
import Mathlib.Data.Nat.Nth
import Lampi.Collective.Equiv.ReduceFanIn
import Lampi.Lib.TurnFlags

/-!
# Fan-in in shared memory

The processes of a host go through the rounds of `ulm_reduce_intrahost` in pairs.  The rounds of all
blocks are numbered through; round `t` uses bit `t % K` of the numbers, with `K` masks to a block,
and the flags of parity `t % 2`.

A flag of process `x` is set by `x` itself and then cleared by the process that reads, which is `x`
or its peer.  So it is clear after an even number of times, and after an odd number of times
it holds the peer of the round (`flagScheme`).  A process may write its segment while it is its turn
to set both of its flags, and it may read the segment of another process while it is its turn to
clear a flag of that one (`reduceDiscipline`).

`leads_pair` follows the two processes of a pair through one round, `leads_phase` all processes,
`leads_masks` all rounds of a block, and **`leads_intrahostBlocks`** all blocks.
-/

namespace Lampi

open MessagePassing SharedMemory ulmReduceIntrahost Function Nat List

/-! ### The discipline -/

/-- The number of masks of a host with `n` processes. -/
def maskCount (n : ℕ) : ℕ := clog 2 n

lemma le_two_pow_maskCount (n : ℕ) : n ≤ 2 ^ maskCount n := le_pow_clog Nat.one_lt_two n

/-- The peer of process `x` in round `t`. -/
def peerIn (n t x : ℕ) : ℕ := x ^^^ 2 ^ (t % maskCount n)

/-- Process `x` uses its flag of this parity in round `t`. -/
def UsesFlag (n x parity t : ℕ) : Prop := t % 2 = parity ∧ peerIn n t x < n

instance (n x parity : ℕ) : DecidablePred (UsesFlag n x parity) := fun t =>
  inferInstanceAs (Decidable (t % 2 = parity ∧ peerIn n t x < n))

/-- How often the flag has been set before round `t`. -/
def timesSet (n x parity t : ℕ) : ℕ := 2 * count (UsesFlag n x parity) t

section Scheme

variable (nprocOn : ℕ → ℕ) (rank : ℕ → ℕ → ℕ)

/-- The peer for which a flag is set after `2 * m` times. -/
noncomputable def peerOfFlag (f : ReduceFlag) (m : ℕ) : ℕ :=
  peerIn (nprocOn f.host) (nth (UsesFlag (nprocOn f.host) f.proc f.parity) m) f.proc

/-- Who sets the flags and to what; process `x` of host `h` is `rank h x`. -/
noncomputable def flagScheme : Scheme ℕ ReduceFlag where
  value f m := if m % 2 = 0 then -1 else peerOfFlag nprocOn f (m / 2)
  owner f m := if m % 2 = 0 then rank f.host f.proc
    else rank f.host (min f.proc (peerOfFlag nprocOn f (m / 2)))

noncomputable def reduceDiscipline : TurnDiscipline ℕ ReduceFlag ReduceCell where
  toScheme := flagScheme nprocOn rank
  mayStore p know l := rank l.host l.proc = p ∧ ∀ parity < 2,
    (flagScheme nprocOn rank).owner ⟨l.host, l.proc, parity⟩
      (know ⟨l.host, l.proc, parity⟩) = p
  mayLoad p know l := rank l.host l.proc = p ∨ ∃ parity < 2,
    (flagScheme nprocOn rank).owner ⟨l.host, l.proc, parity⟩
      (know ⟨l.host, l.proc, parity⟩) = p
  exclusive := by
    rintro p q know know' l hpq hagree ⟨hrank, hturn⟩
    constructor
    · rintro ⟨hrank', -⟩
      exact hpq (hrank.symm.trans hrank')
    · rintro (hrank' | ⟨parity, hparity, hturn'⟩)
      · exact hpq (hrank.symm.trans hrank')
      · exact hpq (hagree.eq_of_owner (hturn parity hparity) hturn')

variable {nprocOn rank}

lemma reduceDiscipline_value_even (f : ReduceFlag) (m : ℕ) :
    (reduceDiscipline nprocOn rank).value f (2 * m) = -1 := if_pos (mul_mod_right 2 m)

lemma reduceDiscipline_owner_even (f : ReduceFlag) (m : ℕ) :
    (reduceDiscipline nprocOn rank).owner f (2 * m) = rank f.host f.proc :=
  if_pos (mul_mod_right 2 m)

private lemma odd_mod_div (m : ℕ) : ¬(2 * m + 1) % 2 = 0 ∧ (2 * m + 1) / 2 = m := by omega

/-- Where a flag holds the number of a smaller process, it is for this one to clear it. -/
lemma reduceDiscipline_owner_of_value {f : ReduceFlag} {m y : ℕ} (hy : y < f.proc)
    (hvalue : (reduceDiscipline nprocOn rank).value f m = y) :
    (reduceDiscipline nprocOn rank).owner f m = rank f.host y := by
  have hvalue' : (if m % 2 = 0 then (-1 : ℤ) else peerOfFlag nprocOn f (m / 2)) = y := hvalue
  show (if _ then _ else _) = _
  by_cases hm : m % 2 = 0
  · omega
  · rw [if_neg hm] at hvalue' ⊢
    have hpeer : peerOfFlag nprocOn f (m / 2) = y := by exact_mod_cast hvalue'
    rw [hpeer, min_eq_right hy.le]

variable {h x t : ℕ} (huses : UsesFlag (nprocOn h) x (t % 2) t)

include huses

/-- In a round in which the process has a peer, the flag is set for this peer. -/
lemma peerOfFlag_count :
    peerOfFlag nprocOn ⟨h, x, t % 2⟩ (count (UsesFlag (nprocOn h) x (t % 2)) t) =
      peerIn (nprocOn h) t x := by
  rw [peerOfFlag, nth_count huses]

lemma reduceDiscipline_value_odd :
    (reduceDiscipline nprocOn rank).value ⟨h, x, t % 2⟩ (timesSet (nprocOn h) x (t % 2) t + 1) =
      peerIn (nprocOn h) t x := by
  rw [timesSet]
  show (if _ then _ else _) = _
  rw [if_neg (odd_mod_div _).1, (odd_mod_div _).2, peerOfFlag_count huses]

lemma reduceDiscipline_owner_odd :
    (reduceDiscipline nprocOn rank).owner ⟨h, x, t % 2⟩ (timesSet (nprocOn h) x (t % 2) t + 1) =
      rank h (min x (peerIn (nprocOn h) t x)) := by
  rw [timesSet]
  show (if _ then _ else _) = _
  rw [if_neg (odd_mod_div _).1, (odd_mod_div _).2, peerOfFlag_count huses]

end Scheme

/-! ### What holds on a host -/

abbrev HostConfig (α : Type) (nprocOn : ℕ → ℕ) (rank : ℕ → ℕ → ℕ) : Type :=
  Config ℤ (List α) α (reduceDiscipline nprocOn rank).discipline

abbrev HostSystem (α γ : Type) (nprocOn : ℕ → ℕ) (rank : ℕ → ℕ → ℕ) : Type :=
  System ℤ (List α) α γ (reduceDiscipline nprocOn rank).discipline

variable {α γ : Type} {nprocOn : ℕ → ℕ} {rank : ℕ → ℕ → ℕ} {op : ULMOp α} {l : ReduceCell}
  {h m t r w self mask blockCount parity v k : ℕ}

/-- The state of host `h`: how often the flags have been set, how often their processes know it, and
what the segments hold.  No message is under way, and the other hosts are as in `times0`. -/
structure HostStands (h : ℕ) (times0 : ReduceFlag → ℕ) (times know : ℕ → ℕ → ℕ)
    (buf : ℕ → List α) (c : HostConfig α nprocOn rank) : Prop where
  chan : c.shared.chan = fun _ => []
  other : ∀ f, f.host ≠ h → c.times f = times0 f
  times : ∀ x < nprocOn h, ∀ parity < 2, c.times ⟨h, x, parity⟩ = times x parity
  know : ∀ x < nprocOn h, ∀ parity < 2, c.know (rank h x) ⟨h, x, parity⟩ = know x parity
  mem : ∀ x < nprocOn h, (cells h x (buf x).length).map c.shared.mem = buf x

/-- One value of a function of process and parity is another. -/
def setAt (g : ℕ → ℕ → ℕ) (x parity v : ℕ) : ℕ → ℕ → ℕ :=
  fun y parity' => if y = x ∧ parity' = parity then v else g y parity'

lemma setAt_self (g : ℕ → ℕ → ℕ) (x parity v : ℕ) : setAt g x parity v x parity = v :=
  if_pos ⟨rfl, rfl⟩

variable {times0 : ReduceFlag → ℕ} {times know : ℕ → ℕ → ℕ} {buf a : ℕ → List α} {stage : ℕ → ℕ}
  {next : ℕ → HostProg α γ} {c : HostConfig α nprocOn rank} {s : HostSystem α γ nprocOn rank}
  (hrank : ∀ x < nprocOn h, ∀ y < nprocOn h, rank h x = rank h y → x = y)

namespace HostStands

private lemma flag_inj {h x y parity' : ℕ} :
    (⟨h, y, parity'⟩ : ReduceFlag) = ⟨h, x, parity⟩ ↔ y = x ∧ parity' = parity := by
  rw [ReduceFlag.mk.injEq]
  exact and_iff_right rfl

private lemma update_flag {g : ReduceFlag → ℕ} {h x y parity' : ℕ} :
    update g ⟨h, x, parity⟩ v ⟨h, y, parity'⟩ =
      if y = x ∧ parity' = parity then v else g ⟨h, y, parity'⟩ := by
  rw [update_apply]
  exact if_congr flag_inj rfl rfl

variable (hst : HostStands h times0 times know buf c) {x y : ℕ} (hx : x < nprocOn h)

include hrank hst hx

private lemma know_update : ∀ z < nprocOn h, ∀ parity' < 2,
      update c.know (rank h x) (update (c.know (rank h x)) ⟨h, y, parity⟩ v)
        (rank h z) ⟨h, z, parity'⟩ = (if y = x then setAt know x parity v else know) z parity' := by
  intro z hz parity' hparity'
  rcases eq_or_ne z x with rfl | hzx
  · rw [update_self, update_flag, hst.know z hz parity' hparity']
    rcases eq_or_ne y z with rfl | hyz
    · rw [if_pos rfl]
      rfl
    · rw [if_neg hyz, if_neg fun heq => hyz heq.1.symm]
  · rw [update_of_ne fun heq => hzx (hrank z hz x hx heq), hst.know z hz parity' hparity']
    split_ifs
    · exact (if_neg fun heq => hzx heq.1).symm
    · rfl

lemma set (hv : c.know (rank h x) ⟨h, y, parity⟩ = v)
    (howner : (reduceDiscipline nprocOn rank).owner ⟨h, y, parity⟩
      (c.know (rank h x) ⟨h, y, parity⟩) = rank h x) :
    HostStands h times0 (setAt times y parity (v + 1))
      (if y = x then setAt know x parity (v + 1) else know) buf
      (c.set (rank h x) ⟨h, y, parity⟩ howner) := by
  subst hv
  refine ⟨hst.chan, fun f hf => ?_, fun z hz parity' hparity' => ?_, hst.know_update hrank hx,
    hst.mem⟩
  · rw [Config.times_set, update_of_ne fun heq => hf (congrArg ReduceFlag.host heq)]
    exact hst.other f hf
  · rw [Config.times_set, update_flag, hst.times z hz parity' hparity']
    rfl

lemma learn (hge : c.know (rank h x) ⟨h, y, parity⟩ ≤ v) (hle : v ≤ c.times ⟨h, y, parity⟩) :
    HostStands h times0 times (if y = x then setAt know x parity v else know) buf
      (c.learn (rank h x) ⟨h, y, parity⟩ v hge hle) := by
  have htimes := Config.times_learn hge hle
  exact ⟨hst.chan, htimes ▸ hst.other, htimes ▸ hst.times, hst.know_update hrank hx, hst.mem⟩

end HostStands

/-! ### Segments -/

lemma length_cells (h x m : ℕ) : (cells h x m).length = m := by
  rw [cells, length_map, length_range]

lemma mem_cells {h x m : ℕ} : l ∈ cells h x m ↔ ∃ i < m, l = ⟨h, x, i⟩ := by
  simp only [cells, mem_map, mem_range, eq_comm]

lemma nodup_cells (h x m : ℕ) : (cells h x m).Nodup := by
  refine Nodup.map (fun i j heq => ?_) nodup_range
  exact (ReduceCell.mk.inj heq).2.2

lemma HostStands.store (hst : HostStands h times0 times know buf c) (x : ℕ) (vals : List α) :
    HostStands h times0 times know (update buf x vals)
      (c.withMem (writeAll c.shared.mem ((cells h x vals.length).zip vals))) := by
  refine ⟨hst.chan, hst.other, hst.times, hst.know, fun y hy => ?_⟩
  by_cases hyx : y = x
  · subst hyx
    rw [update_self]
    exact map_writeAll_zip (nodup_cells h y _) (length_cells h y _)
  · rw [update_of_ne hyx, ← hst.mem y hy, length_map, length_cells]
    refine map_congr_left fun l hl => writeAll_of_not_mem fun w hw heq => ?_
    -- the segments of two processes have nothing in common
    obtain ⟨i, -, rfl⟩ := mem_cells.mp hl
    obtain ⟨j, -, hj⟩ := mem_cells.mp (of_mem_zip hw).1
    rw [hj] at heq
    exact hyx (ReduceCell.mk.inj heq).2.1.symm

/-! ### One pair in one round -/

lemma peerIn_peerIn (n t x : ℕ) : peerIn n t (peerIn n t x) = x := by
  rw [peerIn, peerIn, Nat.xor_assoc, Nat.xor_self, xor_zero]

lemma timesSet_succ {n x t : ℕ} (huses : UsesFlag n x parity t) :
    timesSet n x parity (t + 1) = timesSet n x parity t + 2 := by
  rw [timesSet, count_succ, if_pos huses, mul_add]
  rfl

lemma timesSet_succ_of_not {n x t : ℕ} (huses : ¬UsesFlag n x parity t) :
    timesSet n x parity (t + 1) = timesSet n x parity t := by
  rw [timesSet, count_succ, if_neg huses]
  rfl

lemma phase_skip {n : ℕ} (hpeer : n ≤ self ^^^ mask) :
    phase op h n self m parity mask = pure () := if_pos hpeer

lemma phase_reader {n : ℕ} (hpeer : self ^^^ mask < n) (hlt : self < self ^^^ mask) :
    phase op h n self m parity mask = (do
      Prog.setFlag ⟨h, self, parity⟩ (self ^^^ mask : ℕ)
      Prog.waitFlag ⟨h, self ^^^ mask, parity⟩ (· == self)
      let invec ← Prog.loadAll (cells h (self ^^^ mask) m)
      let inoutvec ← Prog.loadAll (cells h self m)
      Prog.storeAll ((cells h self m).zip (op.call invec inoutvec))
      Prog.setFlag ⟨h, self ^^^ mask, parity⟩ (-1)
      Prog.setFlag ⟨h, self, parity⟩ (-1)) := (if_neg (not_le.mpr hpeer)).trans (if_pos hlt)

lemma phase_writer {n : ℕ} (hpeer : self ^^^ mask < n) (hlt : ¬self < self ^^^ mask) :
    phase op h n self m parity mask = (do
      Prog.setFlag ⟨h, self, parity⟩ (self ^^^ mask : ℕ)
      Prog.waitFlag ⟨h, self, parity⟩ (· != (self ^^^ mask : ℕ))) :=
  (if_neg (not_le.mpr hpeer)).trans (if_neg hlt)

lemma HostStands.congr (hst : HostStands h times0 times know buf c) {times' know' : ℕ → ℕ → ℕ}
    (htimes : ∀ x < nprocOn h, ∀ parity < 2, times x parity = times' x parity)
    (hknow : ∀ x < nprocOn h, ∀ parity < 2, know x parity = know' x parity) :
    HostStands h times0 times' know' buf c :=
  ⟨hst.chan, hst.other,
    fun x hx parity hparity => (hst.times x hx parity hparity).trans (htimes x hx parity hparity),
    fun x hx parity hparity => (hst.know x hx parity hparity).trans (hknow x hx parity hparity),
    hst.mem⟩

/-- A process that waits for a larger one may do so at any time: where the flag holds its number, it
is its own turn. -/
lemma mayWait_reader {x y seen : ℕ} (hxy : x < y) :
    (reduceDiscipline nprocOn rank).MayWait (rank h x) ⟨h, y, parity⟩ (· == x) seen := by
  intro n _ _ howner hready
  exact absurd (reduceDiscipline_owner_of_value hxy (eq_of_beq hready)) howner

/-- A process that has set its flag for a smaller one may wait until it is cleared. -/
lemma mayWait_writer {x t : ℕ} (huses : UsesFlag (nprocOn h) x (t % 2) t) :
    (reduceDiscipline nprocOn rank).MayWait (rank h x) ⟨h, x, t % 2⟩
      (· != (peerIn (nprocOn h) t x : ℕ)) (timesSet (nprocOn h) x (t % 2) t + 1) := by
  intro n hn hknown howner hready
  have hmine : (reduceDiscipline nprocOn rank).owner ⟨h, x, t % 2⟩
      (timesSet (nprocOn h) x (t % 2) t + 2) = rank h x := reduceDiscipline_owner_even _ (_ + 1)
  rcases lt_trichotomy n (timesSet (nprocOn h) x (t % 2) t + 2) with hlt | rfl | hlt
  · -- the flag is not cleared yet
    obtain rfl : n = timesSet (nprocOn h) x (t % 2) t + 1 := by omega
    beta_reduce at hready
    rw [reduceDiscipline_value_odd huses, bne_self_eq_false] at hready
    exact absurd hready Bool.false_ne_true
  · exact absurd hmine howner
  · have := hknown _ hlt hmine
    omega

lemma seen_eq {x y : ℕ} (hxy : x < y) (hge : c.know (rank h x) ⟨h, y, parity⟩ ≤ v)
    (hle : v ≤ c.times ⟨h, y, parity⟩)
    (hready : ((reduceDiscipline nprocOn rank).value ⟨h, y, parity⟩ v == (x : ℤ)) = true) :
    v = c.times ⟨h, y, parity⟩ := by
  have howner : (reduceDiscipline nprocOn rank).owner ⟨h, y, parity⟩ v = rank h x :=
    reduceDiscipline_owner_of_value hxy (eq_of_beq hready)
  by_contra hne
  have hown := c.sound.own _ v (lt_of_le_of_ne hle hne)
  rw [howner] at hown
  exact absurd hown (not_lt.mpr hge)

/-- `r` reads from `w` in round `t`. -/
structure ReadsFrom (n t r w : ℕ) : Prop where
  peer : peerIn n t r = w
  lt : r < w
  bound : w < n

namespace ReadsFrom

variable {n : ℕ} (hpair : ReadsFrom n t r w)

include hpair

lemma reader_lt : r < n := hpair.lt.trans hpair.bound

lemma peer_writer : peerIn n t w = r := by rw [← hpair.peer, peerIn_peerIn]

lemma uses_reader : UsesFlag n r (t % 2) t := ⟨rfl, hpair.peer.symm ▸ hpair.bound⟩

lemma uses_writer : UsesFlag n w (t % 2) t := ⟨rfl, hpair.peer_writer.symm ▸ hpair.reader_lt⟩

end ReadsFrom

include hrank in
lemma wp_signal (hst : HostStands h times0 times know buf c) {x : ℕ} (hx : x < nprocOn h)
    (huses : UsesFlag (nprocOn h) x (t % 2) t)
    (hknow : know x (t % 2) = timesSet (nprocOn h) x (t % 2) t) :
    wp (rank h x) (Prog.setFlag ⟨h, x, t % 2⟩ (peerIn (nprocOn h) t x : ℕ)) (fun _ c' =>
      HostStands h times0 (setAt times x (t % 2) (timesSet (nprocOn h) x (t % 2) t + 1))
        (setAt know x (t % 2) (timesSet (nprocOn h) x (t % 2) t + 1)) buf c') c := by
  have hval : c.know (rank h x) ⟨h, x, t % 2⟩ = timesSet (nprocOn h) x (t % 2) t :=
    (hst.know x hx _ (mod_lt t Nat.zero_lt_two)).trans hknow
  have howner : (reduceDiscipline nprocOn rank).owner ⟨h, x, t % 2⟩
      (c.know (rank h x) ⟨h, x, t % 2⟩) = rank h x := by
    rw [hval]
    exact reduceDiscipline_owner_even _ _
  refine wp_set howner ?_ ?_
  · rw [hval, reduceDiscipline_value_odd huses]
  · have hset := hst.set hrank hx hval howner
    rwa [if_pos rfl] at hset

include hrank in
lemma wp_writerWait (hst : HostStands h times0 times know buf c)
    (hpair : ReadsFrom (nprocOn h) t r w)
    (htimes : times w (t % 2) = timesSet (nprocOn h) w (t % 2) t + 2)
    (hknow : know w (t % 2) = timesSet (nprocOn h) w (t % 2) t + 1) :
    wp (rank h w) (Prog.waitFlag ⟨h, w, t % 2⟩ (· != (r : ℤ))) (fun _ c' =>
      HostStands h times0 times
        (setAt know w (t % 2) (timesSet (nprocOn h) w (t % 2) t + 2)) buf c') c := by
  have hparity : t % 2 < 2 := mod_lt t Nat.zero_lt_two
  have hval : c.know (rank h w) ⟨h, w, t % 2⟩ = timesSet (nprocOn h) w (t % 2) t + 1 :=
    (hst.know w hpair.bound _ hparity).trans hknow
  have hnow : c.times ⟨h, w, t % 2⟩ = timesSet (nprocOn h) w (t % 2) t + 2 :=
    (hst.times w hpair.bound _ hparity).trans htimes
  have hodd : (reduceDiscipline nprocOn rank).value ⟨h, w, t % 2⟩
      (timesSet (nprocOn h) w (t % 2) t + 1) = r := by
    rw [reduceDiscipline_value_odd hpair.uses_writer, hpair.peer_writer]
  refine wp_wait ?_ ?_ fun v hge hle hready => ?_
  · have hmay := @mayWait_writer nprocOn rank _ _ _ hpair.uses_writer
    rw [hpair.peer_writer] at hmay
    rw [hval]
    exact hmay
  · -- the flag is clear
    rw [hnow, show timesSet (nprocOn h) w (t % 2) t + 2 =
      2 * (count (UsesFlag (nprocOn h) w (t % 2)) t + 1) from rfl, reduceDiscipline_value_even]
    exact bne_iff_ne.mpr (by omega)
  · obtain rfl : v = timesSet (nprocOn h) w (t % 2) t + 2 := by
      by_contra hne
      have hv : v = timesSet (nprocOn h) w (t % 2) t + 1 := by omega
      rw [hv, hodd, bne_self_eq_false] at hready
      exact Bool.false_ne_true hready
    have hlearn := hst.learn hrank hpair.bound hge hle
    rwa [if_pos rfl] at hlearn

/-- A process whose turn it is at both of its flags may write its segment. -/
lemma mayStore_cells {x : ℕ} (hl : l ∈ cells h x m)
    (hturn : ∀ parity < 2, (reduceDiscipline nprocOn rank).owner ⟨h, x, parity⟩
      (c.know (rank h x) ⟨h, x, parity⟩) = rank h x) :
    (reduceDiscipline nprocOn rank).mayStore (rank h x) (c.know (rank h x)) l := by
  obtain ⟨i, -, rfl⟩ := mem_cells.mp hl
  exact ⟨rfl, hturn⟩

lemma mayLoad_cells {x : ℕ} (hl : l ∈ cells h x m) :
    (reduceDiscipline nprocOn rank).mayLoad (rank h x) (c.know (rank h x)) l := by
  obtain ⟨i, -, rfl⟩ := mem_cells.mp hl
  exact .inl rfl

include hrank in
/-- **The reader** in its round: it reads the segment of the writer and combines it with its own. -/
theorem wp_reader (hst : HostStands h times0 times know buf c) (hpair : ReadsFrom (nprocOn h) t r w)
    (htimes : times w (t % 2) = timesSet (nprocOn h) w (t % 2) t + 1)
    (hknow : know r (t % 2) = timesSet (nprocOn h) r (t % 2) t)
    (heven : ∀ parity < 2, parity ≠ t % 2 → ∃ v, know r parity = 2 * v) (hlenR : (buf r).length = m)
    (hlenW : (buf w).length = m) :
    wp (rank h r) (phase op h (nprocOn h) r m (t % 2) (2 ^ (t % maskCount (nprocOn h))))
      (fun _ c' => HostStands h times0
        (setAt (setAt times w (t % 2) (timesSet (nprocOn h) w (t % 2) t + 2)) r (t % 2)
          (timesSet (nprocOn h) r (t % 2) t + 2))
        (setAt know r (t % 2) (timesSet (nprocOn h) r (t % 2) t + 2))
        (update buf r (op.call (buf w) (buf r))) c') c := by
  have hparity : t % 2 < 2 := mod_lt t Nat.zero_lt_two
  have hr := hpair.reader_lt
  have hrw : r ≠ w := hpair.lt.ne
  have hxor : r ^^^ 2 ^ (t % maskCount (nprocOn h)) = w := hpair.peer
  have hsignal := wp_signal hrank hst hr hpair.uses_reader hknow
  rw [hpair.peer] at hsignal
  set π := t % 2 with hπ
  set sr := timesSet (nprocOn h) r π t with hsr
  set sw := timesSet (nprocOn h) w π t with hsw
  -- whose turn it is at the two flags after they have been set
  have hownerR : (reduceDiscipline nprocOn rank).owner ⟨h, r, π⟩ (sr + 1) = rank h r := by
    rw [reduceDiscipline_owner_odd hpair.uses_reader, hpair.peer, min_eq_left hpair.lt.le]
  have hownerW : (reduceDiscipline nprocOn rank).owner ⟨h, w, π⟩ (sw + 1) = rank h r := by
    rw [reduceDiscipline_owner_odd hpair.uses_writer, hpair.peer_writer, min_eq_right hpair.lt.le]
  have hvalueW : (reduceDiscipline nprocOn rank).value ⟨h, w, π⟩ (sw + 1) = r := by
    rw [reduceDiscipline_value_odd hpair.uses_writer, hpair.peer_writer]
  have hclear : ∀ x, (reduceDiscipline nprocOn rank).value ⟨h, x, π⟩
      (timesSet (nprocOn h) x π t + 1 + 1) = -1 := fun x =>
    reduceDiscipline_value_even _ (count (UsesFlag (nprocOn h) x π) t + 1)
  rw [phase_reader (hxor ▸ hpair.bound) (hxor ▸ hpair.lt), hxor]
  refine wp_bind.mpr (hsignal.mono fun _ c1 hst1 => ?_)
  -- wait for the flag of the writer
  have hnow : c1.times ⟨h, w, π⟩ = sw + 1 := by
    rw [hst1.times w hpair.bound π hparity, setAt, if_neg fun heq => hrw heq.1.symm, htimes]
  refine wp_bind.mpr (wp_wait (mayWait_reader hpair.lt) ?_ fun v hge hle hready => ?_)
  · rw [hnow, hvalueW]
    exact beq_self_eq_true _
  obtain rfl := seen_eq hpair.lt hge hle hready
  have hst2 := hst1.learn hrank hr hge hle
  rw [if_neg hrw.symm] at hst2
  have hknowW : (c1.learn (rank h r) ⟨h, w, π⟩ _ hge hle).know (rank h r) ⟨h, w, π⟩ = sw + 1 := by
    show update c1.know _ _ _ _ = _
    rw [update_self, update_self, hnow]
  generalize c1.learn (rank h r) ⟨h, w, π⟩ _ hge hle = c2 at hst2 hknowW
  have hknowR : c2.know (rank h r) ⟨h, r, π⟩ = sr + 1 := by
    rw [hst2.know r hr π hparity, setAt, if_pos ⟨rfl, rfl⟩]
  -- read both segments, and write the own one
  refine wp_bind.mpr (wp_loadAll (fun l hl => ?_) ?_)
  · obtain ⟨i, -, rfl⟩ := mem_cells.mp hl
    refine .inr ⟨π, hparity, ?_⟩
    rw [← hknowW] at hownerW
    exact hownerW
  refine wp_bind.mpr (wp_loadAll (fun l hl => mayLoad_cells hl) ?_)
  have hloadW : (cells h w m).map c2.shared.mem = buf w := hlenW ▸ hst2.mem w hpair.bound
  have hloadR : (cells h r m).map c2.shared.mem = buf r := hlenR ▸ hst2.mem r hr
  rw [hloadW, hloadR]
  have hlen : (op.call (buf w) (buf r)).length = m := by
    rw [ULMOp.call, length_zipWith, hlenW, hlenR, min_self]
  refine wp_bind.mpr (wp_storeAll (fun l hl => ?_) ?_)
  · refine mayStore_cells (of_mem_zip hl).1 fun parity hparity' => ?_
    by_cases hsame : parity = π
    · rw [hsame, hknowR]
      exact hownerR
    · obtain ⟨v, hv⟩ := heven parity hparity' hsame
      rw [hst2.know r hr parity hparity', setAt, if_neg fun heq => hsame heq.2, hv]
      exact reduceDiscipline_owner_even _ _
  have hst3 := hst2.store r (op.call (buf w) (buf r))
  rw [hlen] at hst3
  have hknowW3 : (c2.withMem (writeAll c2.shared.mem ((cells h r m).zip
      (op.call (buf w) (buf r))))).know (rank h r) ⟨h, w, π⟩ = sw + 1 := hknowW
  generalize c2.withMem (writeAll c2.shared.mem ((cells h r m).zip
    (op.call (buf w) (buf r)))) = c3 at hst3 hknowW3
  -- clear both flags
  refine wp_bind.mpr (wp_set (hknowW3.symm ▸ hownerW) ?_ ?_)
  · rw [hknowW3, hclear w]
  have hst4 := hst3.set hrank hr hknowW3 (hknowW3.symm ▸ hownerW)
  rw [if_neg hrw.symm] at hst4
  generalize c3.set (rank h r) ⟨h, w, π⟩ _ = c4 at hst4
  have hknowR4 : c4.know (rank h r) ⟨h, r, π⟩ = sr + 1 := by
    rw [hst4.know r hr π hparity, setAt, if_pos ⟨rfl, rfl⟩]
  refine wp_set (hknowR4.symm ▸ hownerR) ?_ ?_
  · rw [hknowR4, hclear r]
  · have hst5 := hst4.set hrank hr hknowR4 (hknowR4.symm ▸ hownerR)
    rw [if_pos rfl] at hst5
    refine hst5.congr (fun x hx parity hparity' => ?_) fun x hx parity hparity' => ?_
    · simp only [setAt]
      split_ifs <;> rfl
    · simp only [setAt]
      split_ifs <;> rfl

/-! ### All processes, round by round -/

/-- Process `x` of the host is before round `stage x`. -/
def HostAt (h : ℕ) (times0 : ReduceFlag → ℕ) (stage : ℕ → ℕ) (buf : ℕ → List α)
    (c : HostConfig α nprocOn rank) : Prop :=
  HostStands h times0 (fun x parity => timesSet (nprocOn h) x parity (stage x))
    (fun x parity => timesSet (nprocOn h) x parity (stage x)) buf c

lemma HostAt.congr {stage' : ℕ → ℕ} {buf' : ℕ → List α} (hat : HostAt h times0 stage buf c)
    (hstage : ∀ x < nprocOn h, ∀ parity < 2, timesSet (nprocOn h) x parity (stage x) =
      timesSet (nprocOn h) x parity (stage' x))
    (hbuf : ∀ x < nprocOn h, buf x = buf' x) : HostAt h times0 stage' buf' c := by
  have hst := HostStands.congr hat hstage hstage
  exact ⟨hst.chan, hst.other, hst.times, hst.know, fun x hx => hbuf x hx ▸ hst.mem x hx⟩

include hrank in
/-- **A pair goes through a round.** -/
theorem leads_pair (hpair : ReadsFrom (nprocOn h) t r w)
    (hat : HostAt h times0 stage buf s.config) (hstageR : stage r = t) (hstageW : stage w = t)
    (hlenR : (buf r).length = m) (hlenW : (buf w).length = m) (k : ℕ → HostProg α γ)
    (hprocs : ∀ x, x = r ∨ x = w → s.procs (rank h x) = phase op h (nprocOn h) x m (t % 2)
      (2 ^ (t % maskCount (nprocOn h))) >>= fun _ => k x) :
    ∃ s', Leads s s' ∧ HostAt h times0 (update (update stage r (t + 1)) w (t + 1))
        (update buf r (op.call (buf w) (buf r))) s'.config ∧
      s'.procs = update (update s.procs (rank h r) (k r)) (rank h w) (k w) := by
  have hrw : r ≠ w := hpair.lt.ne
  have hne : rank h r ≠ rank h w := fun heq =>
    hrw (hrank r hpair.reader_lt w hpair.bound heq)
  have hxor : w ^^^ 2 ^ (t % maskCount (nprocOn h)) = r := hpair.peer_writer
  -- the writer signals
  have hwriter := hprocs w (.inr rfl)
  rw [phase_writer (hxor ▸ hpair.reader_lt) (hxor ▸ not_lt.mpr hpair.lt.le), hxor,
    bind_assoc] at hwriter
  have hsignal := wp_signal hrank hat hpair.bound hpair.uses_writer (by rw [hstageW])
  rw [hpair.peer_writer] at hsignal
  obtain ⟨-, c1, hst1, hleads1⟩ := hsignal.leads hwriter
  -- the reader goes through the round
  have hreader := hprocs r (.inl rfl)
  set procs1 := update s.procs (rank h w)
    (Prog.waitFlag ⟨h, w, t % 2⟩ (· != (r : ℤ)) >>= fun _ => k w) with hprocs1
  have hreader1 : procs1 (rank h r) = _ := (update_of_ne hne _ _).trans hreader
  obtain ⟨-, c2, hst2, hleads2⟩ := (wp_reader hrank hst1 hpair (setAt_self _ _ _ _)
    (by rw [setAt, if_neg fun heq => hrw heq.1, hstageR])
    (fun parity _ _ => ⟨_, if_neg fun heq => hrw heq.1⟩) hlenR hlenW).leads
    (s := ⟨procs1, c1⟩) hreader1
  -- the writer sees that its segment has been read
  have hwriter2 : update procs1 (rank h r) (k r) (rank h w) = _ :=
    (update_of_ne hne.symm _ _).trans (update_self ..)
  obtain ⟨-, c3, hst3, hleads3⟩ := (wp_writerWait hrank hst2 hpair
    (by rw [setAt, if_neg fun heq => hrw heq.1.symm, setAt_self])
    (by rw [setAt, if_neg fun heq => hrw heq.1.symm, setAt_self])).leads
    (s := ⟨update procs1 (rank h r) (k r), c2⟩) hwriter2
  refine ⟨_, hleads1.trans (hleads2.trans hleads3), ?_, ?_⟩
  · -- both are one round further
    have hother : ∀ x parity, parity ≠ t % 2 → timesSet (nprocOn h) x parity (t + 1) =
        timesSet (nprocOn h) x parity t := fun x parity hparity =>
      timesSet_succ_of_not fun huses => hparity huses.1.symm
    have hsuccR := timesSet_succ hpair.uses_reader
    have hsuccW := timesSet_succ hpair.uses_writer
    refine HostStands.congr hst3 (fun x hx parity hparity => ?_) fun x hx parity hparity => ?_
    all_goals
      rcases eq_or_ne x w with rfl | hxw
      · rw [update_self]
        rcases eq_or_ne parity (t % 2) with rfl | hpar
        · simp only [setAt, hrw.symm, false_and, if_false, and_self, if_true, hsuccW]
        · simp only [setAt, hpar, and_false, if_false, hother x parity hpar, hstageW]
      · rw [update_of_ne hxw]
        rcases eq_or_ne x r with rfl | hxr
        · rw [update_self]
          rcases eq_or_ne parity (t % 2) with rfl | hpar
          · simp only [setAt, hxw, false_and, if_false, and_self, if_true, hsuccR]
          · simp only [setAt, hpar, and_false, if_false, hother x parity hpar, hstageR]
        · rw [update_of_ne hxr]
          simp only [setAt, hxw, hxr, false_and, if_false]
  · rw [hprocs1, update_comm hne, update_idem, update_comm hne.symm]

/-- Process `x` is through round `t` when the processes below `j` have been looked at, each together
with its peer. -/
def Through (n t j x : ℕ) : Prop := x < j ∨ peerIn n t x < j

instance (n t j : ℕ) : DecidablePred (Through n t j) := fun x =>
  inferInstanceAs (Decidable (x < j ∨ peerIn n t x < j))

lemma through_succ (n t j x : ℕ) :
    Through n t (j + 1) x ↔ Through n t j x ∨ x = j ∨ x = peerIn n t j := by
  have hinv : peerIn n t x = j ↔ x = peerIn n t j := by
    constructor
    · rintro rfl
      exact (peerIn_peerIn n t x).symm
    · rintro rfl
      exact peerIn_peerIn n t j
  rw [Through, Through, ← hinv]
  omega

/-- Some processes are through round `t`, which uses bit `k`, and go on with `next`; the others are
before it. -/
structure MidRound (op : ULMOp α) (h m t k : ℕ) (times0 : ReduceFlag → ℕ) (a : ℕ → List α)
    (next : ℕ → HostProg α γ) (through : ℕ → Prop) [DecidablePred through]
    (s : HostSystem α γ nprocOn rank) : Prop where
  hostAt : HostAt h times0 (fun x => if through x then t + 1 else t)
    (fun x => if through x then FanIn.value op.call (nprocOn h) a (k + 1) x
      else FanIn.value op.call (nprocOn h) a k x) s.config
  procs : ∀ x < nprocOn h, s.procs (rank h x) = if through x then next x else
    phase op h (nprocOn h) x m (t % 2) (2 ^ k) >>= fun _ => next x

lemma MidRound.congr {through through' : ℕ → Prop} [DecidablePred through]
    [DecidablePred through'] (hmid : MidRound op h m t k times0 a next through s)
    (hiff : ∀ x < nprocOn h, (through x ↔ through' x)) :
    MidRound op h m t k times0 a next through' s := by
  constructor
  · apply hmid.hostAt.congr
    · intro x hx parity _
      simp only [hiff x hx]
    · intro x hx
      simp only [hiff x hx]
  · intro x hx
    rw [hmid.procs x hx]
    simp only [hiff x hx]

lemma MidRound.skip {j : ℕ} (hk : t % maskCount (nprocOn h) = k)
    (hmid : MidRound op h m t k times0 a next (Through (nprocOn h) t j) s)
    (hskip : nprocOn h ≤ peerIn (nprocOn h) t j) :
    MidRound op h m t k times0 a next (Through (nprocOn h) t (j + 1)) s := by
  have hpeer : peerIn (nprocOn h) t j = j ^^^ 2 ^ k := by rw [peerIn, hk]
  -- what process `j` has is the same before the round and after it
  have hsame : ∀ {β : Type} (f g : ℕ → β), f j = g j → ∀ x < nprocOn h,
      (if Through (nprocOn h) t j x then f x else g x) =
        if Through (nprocOn h) t (j + 1) x then f x else g x := by
    intro β f g hfg x hx
    have hne : x ≠ peerIn (nprocOn h) t j := fun heq => absurd hx (not_lt.mpr (heq ▸ hskip))
    rcases eq_or_ne x j with rfl | hxj
    · rw [hfg, ite_self, ite_self]
    · simp only [through_succ, hxj, hne, or_false]
  have hstay : FanIn.value op.call (nprocOn h) a (k + 1) j =
      FanIn.value op.call (nprocOn h) a k j := by
    cases hbit : j.testBit k with
    | false =>
      apply FanIn.value_of_le
      rwa [← FanIn.xor_of_testBit_eq_false hbit, ← hpeer]
    | true => exact FanIn.value_of_testBit hbit
  have hpure : (phase op h (nprocOn h) j m (t % 2) (2 ^ k) >>= fun _ => next j) = next j := by
    rw [phase_skip (hpeer ▸ hskip), pure_bind]
  refine ⟨hmid.hostAt.congr (fun x hx parity _ => ?_) (hsame _ _ hstay), fun x hx => ?_⟩
  · rw [apply_ite (timesSet _ x parity), apply_ite (timesSet _ x parity)]
    exact hsame (timesSet _ · parity (t + 1)) (timesSet _ · parity t) (timesSet_succ_of_not
      fun huses => absurd huses.2 (not_lt.mpr hskip)) x hx
  · rw [hmid.procs x hx]
    exact hsame next (fun x => phase _ _ _ x _ _ _ >>= fun _ => next x) hpure.symm x hx

include hrank in
/-- A process reads from its peer; both are through the round then. -/
lemma MidRound.pair (ha : ∀ x < nprocOn h, (a x).length = m) (hk : t % maskCount (nprocOn h) = k)
    {j : ℕ} (hmid : MidRound op h m t k times0 a next (Through (nprocOn h) t j) s)
    (hpair : ReadsFrom (nprocOn h) t j (peerIn (nprocOn h) t j)) :
    ∃ s', LeadsBy (rank h) (nprocOn h) s s' ∧
      MidRound op h m t k times0 a next (Through (nprocOn h) t (j + 1)) s' := by
  obtain ⟨w, hw⟩ : ∃ w, w = peerIn (nprocOn h) t j := ⟨_, rfl⟩
  rw [← hw] at hpair
  have hj := hpair.reader_lt
  have hxor : j ^^^ 2 ^ k = w := by rw [hw, peerIn, hk]
  -- neither of the two is through yet
  have hnotJ : ¬Through (nprocOn h) t j j := by
    have := hpair.lt
    unfold Through
    omega
  have hnotW : ¬Through (nprocOn h) t j w := by
    have := hpair.lt
    rw [Through, hpair.peer_writer]
    omega
  have hlen : ∀ x < nprocOn h, (FanIn.value op.call (nprocOn h) a k x).length = m :=
    length_value ha k
  obtain ⟨s', hleads, hat, hprocs⟩ := leads_pair (m := m) hrank hpair hmid.hostAt
    (if_neg hnotJ) (if_neg hnotW) (by rw [if_neg hnotJ, hlen j hj])
    (by rw [if_neg hnotW, hlen w hpair.bound]) next (by
      rintro x (rfl | rfl)
      · rw [hmid.procs x hj, if_neg hnotJ, hk]
      · rw [hmid.procs _ hpair.bound, if_neg hnotW, hk])
  -- what the reader holds then
  have hbit : j.testBit k = false := by
    by_contra hbit
    have hsum := FanIn.xor_of_testBit_eq_true (Bool.of_not_eq_false hbit)
    have hlt := hpair.lt
    have hpos := Nat.two_pow_pos k
    omega
  have hadd : j + 2 ^ k = w := by rw [← hxor, FanIn.xor_of_testBit_eq_false hbit]
  have hvalue : FanIn.value op.call (nprocOn h) a (k + 1) j =
      op.call (FanIn.value op.call (nprocOn h) a k w) (FanIn.value op.call (nprocOn h) a k j) := by
    rw [FanIn.value_of_lt hbit (hadd.symm ▸ hpair.bound), hadd]
  have hvalueW : FanIn.value op.call (nprocOn h) a (k + 1) w =
      FanIn.value op.call (nprocOn h) a k w := by
    apply FanIn.value_of_testBit
    rw [← hxor, testBit_xor, testBit_two_pow_self, hbit]
    rfl
  have hne : j ≠ w := hpair.lt.ne
  -- the two are through now, and nobody else
  have hmoved : ∀ {β : Type} (f g : ℕ → β) x,
      (if Through (nprocOn h) t (j + 1) x then f x else g x) = update (update
        (fun x => if Through (nprocOn h) t j x then f x else g x) j (f j)) w (f w) x := by
    intro β f g x
    simp only [through_succ, ← hw, update_apply]
    by_cases hxw : x = w
    · simp only [hxw, or_true, if_true]
    · by_cases hxj : x = j
      · simp only [hxj, hne, true_or, or_true, if_true, if_false]
      · simp only [hxj, hxw, or_false, if_false]
  refine ⟨s', ⟨hleads, fun p hp => ?_⟩, hat.congr (fun x hx parity _ => ?_) fun x hx => ?_,
    fun x hx => ?_⟩
  · rw [hprocs, update_of_ne (hp w hpair.bound).symm, update_of_ne (hp j hj).symm]
  · exact congrArg _ (hmoved (fun _ => t + 1) (fun _ => t) x).symm
  · rw [hmoved, if_neg hnotW, if_neg hnotJ, ← hvalue, hvalueW]
    refine congrFun (update_eq_self_iff.mpr ?_).symm x
    rw [update_of_ne hne.symm, if_neg hnotW]
  · rw [hprocs, hmoved next fun x => phase op h (nprocOn h) x m (t % 2) (2 ^ k) >>= fun _ => next x]
    simp only [update_apply, ← hmid.procs x hx,
      show ∀ y < nprocOn h, (rank h x = rank h y ↔ x = y) from fun y hy =>
        ⟨hrank x hx y hy, congrArg _⟩, hpair.bound, hj]

include hrank in
/-- **All processes go through a round**: afterwards each segment holds what its process holds
before the next round of the fan-in. -/
theorem leads_phase (ha : ∀ x < nprocOn h, (a x).length = m) (hk : t % maskCount (nprocOn h) = k)
    (hat : HostAt h times0 (fun _ => t) (FanIn.value op.call (nprocOn h) a k) s.config)
    (hprocs : ∀ x < nprocOn h, s.procs (rank h x) = phase op h (nprocOn h) x m (t % 2) (2 ^ k) >>=
      fun _ => next x) :
    ∃ s', LeadsBy (rank h) (nprocOn h) s s' ∧
      HostAt h times0 (fun _ => t + 1) (FanIn.value op.call (nprocOn h) a (k + 1)) s'.config ∧
      ∀ x < nprocOn h, s'.procs (rank h x) = next x := by
  have hzero : ∀ x, ¬Through (nprocOn h) t 0 x := by
    rintro x (hx | hx) <;> exact not_lt_zero _ hx
  have hinit : MidRound op h m t k times0 a next (Through (nprocOn h) t 0) s := by
    constructor
    · exact hat
    · intro x hx
      rw [if_neg (hzero x), hprocs x hx]
  obtain ⟨s', -, hleads, hmid⟩ := leads_range (n := nprocOn h)
    (J := fun j s' => LeadsBy (rank h) (nprocOn h) s s' ∧
      MidRound op h m t k times0 a next (Through (nprocOn h) t j) s')
    (by
      rintro j hj s1 ⟨hleads, hmid⟩
      rcases le_or_gt (nprocOn h) (peerIn (nprocOn h) t j) with hskip | hbound
      · exact ⟨s1, Leads.refl s1, hleads, hmid.skip hk hskip⟩
      · rcases lt_or_ge j (peerIn (nprocOn h) t j) with hlt | hge
        · obtain ⟨s2, hleads2, hmid2⟩ := hmid.pair hrank ha hk ⟨rfl, hlt, hbound⟩
          exact ⟨s2, hleads2.leads, hleads.trans hleads2, hmid2⟩
        · -- the peer was looked at before
          refine ⟨s1, Leads.refl s1, hleads, hmid.congr fun x hx => ?_⟩
          have hne : peerIn (nprocOn h) t j ≠ j := by
            intro heq
            have hzero : j ^^^ 2 ^ (t % maskCount (nprocOn h)) = j := heq
            have hpow := congrArg (j ^^^ ·) hzero
            rw [← Nat.xor_assoc, Nat.xor_self, zero_xor] at hpow
            exact (Nat.two_pow_pos _).ne' hpow
          have hlt : peerIn (nprocOn h) t j < j := lt_of_le_of_ne hge hne
          rw [through_succ]
          constructor
          · exact .inl
          · rintro (hx | rfl | rfl)
            · exact hx
            · exact .inr hlt
            · exact .inl hlt)
    ⟨LeadsBy.refl s, hinit⟩
  have hall : ∀ x < nprocOn h, Through (nprocOn h) t (nprocOn h) x := fun x hx => .inl hx
  refine ⟨s', hleads, hmid.hostAt.congr (fun x hx parity _ => ?_) (fun x hx => ?_),
    fun x hx => ?_⟩
  · rw [if_pos (hall x hx)]
  · rw [if_pos (hall x hx)]
  · rw [hmid.procs x hx, if_pos (hall x hx)]

private lemma round_mod {n t : ℕ} (ht : t % maskCount n = 0) (hk : k < maskCount n) :
    (t + k) % maskCount n = k := by
  rw [add_mod, ht, zero_add, mod_mod, mod_eq_of_lt hk]

private lemma parity_succ (t : ℕ) : (t % 2) ^^^ 1 = (t + 1) % 2 := by
  rcases mod_two_eq_zero_or_one t with h | h
  · rw [h, add_mod, h]
    rfl
  · rw [h, add_mod, h]
    rfl

lemma masks_step {n x rounds : ℕ} (hk : k < maskCount n) :
    masks op h n x m (rounds + 1) parity (2 ^ k) =
      phase op h n x m parity (2 ^ k) >>= fun _ =>
        masks op h n x m rounds (parity ^^^ 1) (2 ^ (k + 1)) := by
  have hlt : 2 ^ k < n := (lt_clog_iff_pow_lt Nat.one_lt_two).mp hk
  rw [masks, if_pos hlt, shiftLeft_eq, pow_one, ← pow_succ]

lemma masks_end {n x rounds : ℕ} (hk : maskCount n ≤ k) :
    masks op h n x m rounds parity (2 ^ k) = pure parity := by
  cases rounds with
  | zero => rfl
  | succ rounds =>
    have hle : n ≤ 2 ^ k := (clog_le_iff_le_pow Nat.one_lt_two).mp hk
    rw [masks, if_neg (not_lt.mpr hle)]

include hrank in
/-- **The rounds of a block**, from the one with bit `k` on.  The block begins at round `t`. -/
theorem leads_masks (ha : ∀ x < nprocOn h, (a x).length = m) (ht : t % maskCount (nprocOn h) = 0)
    (next : ℕ → ℕ → HostProg α γ) :
    ∀ (rounds k : ℕ) (s : HostSystem α γ nprocOn rank),
      k ≤ maskCount (nprocOn h) → maskCount (nprocOn h) ≤ k + rounds →
      HostAt h times0 (fun _ => t + k) (FanIn.value op.call (nprocOn h) a k) s.config →
      (∀ x < nprocOn h, s.procs (rank h x) =
        masks op h (nprocOn h) x m rounds ((t + k) % 2) (2 ^ k) >>= next x) →
      ∃ s', LeadsBy (rank h) (nprocOn h) s s' ∧ HostAt h times0 (fun _ => t + maskCount (nprocOn h))
          (FanIn.value op.call (nprocOn h) a (maskCount (nprocOn h))) s'.config ∧
        ∀ x < nprocOn h, s'.procs (rank h x) = next x ((t + maskCount (nprocOn h)) % 2) := by
  intro rounds
  induction rounds with
  | zero =>
    intro k s hle hge hat hprocs
    obtain rfl : k = maskCount (nprocOn h) := le_antisymm hle hge
    refine ⟨s, LeadsBy.refl s, hat, fun x hx => ?_⟩
    rw [hprocs x hx, masks_end le_rfl, pure_bind]
  | succ rounds ih =>
    intro k s hle hge hat hprocs
    rcases eq_or_lt_of_le hle with rfl | hk
    · refine ⟨s, LeadsBy.refl s, hat, fun x hx => ?_⟩
      rw [hprocs x hx, masks_end le_rfl, pure_bind]
    · have hphase : ∀ x < nprocOn h, s.procs (rank h x) =
          phase op h (nprocOn h) x m ((t + k) % 2) (2 ^ k) >>= fun _ =>
            masks op h (nprocOn h) x m rounds ((t + (k + 1)) % 2) (2 ^ (k + 1)) >>= next x := by
        intro x hx
        rw [hprocs x hx, masks_step hk, parity_succ, bind_assoc]
        rfl
      obtain ⟨s1, hleads1, hat1, hprocs1⟩ := leads_phase hrank ha (round_mod ht hk) hat hphase
      obtain ⟨s2, hleads2, hat2, hprocs2⟩ := ih (k + 1) s1 hk (by omega) hat1 hprocs1
      exact ⟨s2, hleads1.trans hleads2, hat2, hprocs2⟩

/-! ### Block by block -/

/-- Between two blocks every process may write its segment. -/
lemma HostAt.wp_store {t m x : ℕ} {vals : List α} (hat : HostAt h times0 (fun _ => t) buf c)
    (hx : x < nprocOn h) (hlen : vals.length = m) :
    wp (rank h x) (Prog.storeAll ((cells h x m).zip vals))
      (fun _ c' => HostAt h times0 (fun _ => t) (update buf x vals) c') c := by
  subst hlen
  refine wp_storeAll (fun l hl => ?_) (HostStands.store hat x vals)
  refine mayStore_cells (of_mem_zip hl).1 fun parity hparity => ?_
  rw [hat.know x hx parity hparity]
  exact reduceDiscipline_owner_even _ _

include hrank in
lemma leads_storeBlock {t m : ℕ} {vals : ℕ → List α} (hlen : ∀ x < nprocOn h, (vals x).length = m)
    (k : ℕ → HostProg α γ) (hat : HostAt h times0 (fun _ => t) buf s.config)
    (hprocs : ∀ x < nprocOn h, s.procs (rank h x) = Prog.storeAll ((cells h x m).zip (vals x)) >>=
      fun _ => k x) :
    ∃ s', LeadsBy (rank h) (nprocOn h) s s' ∧ HostAt h times0 (fun _ => t) vals s'.config ∧
      ∀ x < nprocOn h, s'.procs (rank h x) = k x := by
  obtain ⟨s', hleads, hat', hran⟩ := leads_each hrank
    (fun x => Prog.storeAll ((cells h x m).zip (vals x))) (fun x _ => k x) (fun _ _ => True)
    (fun j c => HostAt h times0 (fun _ => t) (fun x => if x < j then vals x else buf x) c)
    hprocs (hat.congr (fun _ _ _ _ => rfl) fun x _ => (if_neg (not_lt_zero x)).symm)
    (by
      intro j hj c hat
      refine (hat.wp_store hj (hlen j hj)).mono fun _ c' hat' => ⟨trivial, ?_⟩
      refine hat'.congr (fun _ _ _ _ => rfl) fun x _ => ?_
      rcases lt_trichotomy x j with hlt | rfl | hgt
      · rw [update_of_ne hlt.ne, if_pos hlt, if_pos (lt_succ_of_lt hlt)]
      · rw [update_self, if_pos (lt_succ_self x)]
      · rw [update_of_ne hgt.ne', if_neg hgt.not_gt, if_neg (by omega)])
  refine ⟨s', hleads, hat'.congr (fun _ _ _ _ => rfl) fun x hx => if_pos hx, fun x hx => ?_⟩
  obtain ⟨-, -, hx'⟩ := hran x hx
  exact hx'

include hrank in
lemma leads_loadBlock {t m : ℕ} {rp : ℕ → List α} (hlen : ∀ x < nprocOn h, (buf x).length = m)
    (k : ℕ → List α → HostProg α γ) (hat : HostAt h times0 (fun _ => t) buf s.config)
    (hprocs : ∀ x < nprocOn h, s.procs (rank h x) =
      (if x = 0 then Prog.loadAll (cells h x m) else pure (rp x)) >>= k x) :
    ∃ s', LeadsBy (rank h) (nprocOn h) s s' ∧ HostAt h times0 (fun _ => t) buf s'.config ∧
      ∀ x < nprocOn h, s'.procs (rank h x) = k x (if x = 0 then buf 0 else rp x) := by
  obtain ⟨s', hleads, hat', hran⟩ := leads_each hrank
    (fun x => if x = 0 then Prog.loadAll (cells h x m) else pure (rp x)) k
    (fun x out => out = if x = 0 then buf 0 else rp x)
    (fun _ c => HostAt h times0 (fun _ => t) buf c) hprocs hat
    (by
      intro j hj c hat
      by_cases hzero : j = 0
      · subst hzero
        refine wp_loadAll (fun l hl => mayLoad_cells hl) ⟨?_, hat⟩
        rw [← hlen 0 hj]
        exact hat.mem 0 hj
      · simp only [hzero, if_false]
        exact ⟨rfl, hat⟩)
  refine ⟨s', hleads, hat', fun x hx => ?_⟩
  obtain ⟨out, rfl, hx'⟩ := hran x hx
  exact hx'

lemma blocks_step {n x rounds count m : ℕ} {sp rp : List α} (hpos : 0 < count)
    (hm : m = if blockCount < count then blockCount else count) (k : List α → HostProg α γ) :
    blocks op h n x blockCount (rounds + 1) parity count sp rp >>= k =
      Prog.storeAll ((cells h x m).zip (sp.take m)) >>= fun _ =>
        masks op h n x m n parity (2 ^ 0) >>= fun parity =>
          (if x = 0 then Prog.loadAll (cells h x m) else pure (rp.take m)) >>= fun front =>
            blocks op h n x blockCount rounds parity (count - m) (sp.drop m) (rp.drop m) >>=
              fun rest => k (front ++ rest) := by
  subst hm
  rw [blocks, if_pos hpos]
  by_cases hx : x = 0
  · simp only [hx, if_true, bind_assoc, pure_bind, pow_zero]
  · simp only [hx, if_false, bind_assoc, pure_bind, pow_zero]

include hrank in
/-- **All blocks**: process 0 of the host gets the combination of what all processes of the host
have. -/
theorem leads_intrahostBlocks (hblock : 0 < blockCount) :
    ∀ (rounds t count : ℕ) (buf sp rp : ℕ → List α) (k : ℕ → List α → HostProg α γ)
      (s : HostSystem α γ nprocOn rank), count ≤ rounds →
      t % maskCount (nprocOn h) = 0 → (∀ x < nprocOn h, (sp x).length = count) →
      (∀ x < nprocOn h, (rp x).length = count) →
      HostAt h times0 (fun _ => t) buf s.config →
      (∀ x < nprocOn h, s.procs (rank h x) =
        blocks op h (nprocOn h) x blockCount rounds (t % 2) count (sp x) (rp x) >>= k x) →
      ∃ s', LeadsBy (rank h) (nprocOn h) s s' ∧
        (∃ t' buf', HostAt h times0 (fun _ => t') buf' s'.config) ∧
        ∀ x < nprocOn h, s'.procs (rank h x) =
          k x (if x = 0 then FanIn.value op.call (nprocOn h) sp (nprocOn h) 0 else rp x) := by
  intro rounds t count
  induction count using Nat.strong_induction_on generalizing rounds t with
  | _ count ih =>
    intro buf sp rp k s hcount ht hsp hrp hat hprocs
    rcases Nat.eq_zero_or_pos count with rfl | hpos
    · -- without objects there is nothing to do
      refine ⟨s, LeadsBy.refl s, ⟨t, buf, hat⟩, fun x hx => ?_⟩
      have hpure : blocks op h (nprocOn h) x blockCount rounds (t % 2) 0 (sp x) (rp x) =
          pure (rp x) := by
        cases rounds with
        | zero => rfl
        | succ rounds => rw [blocks, if_neg (lt_irrefl 0)]
      rw [hprocs x hx, hpure, pure_bind]
      split_ifs with hzero
      · subst hzero
        rw [eq_nil_of_length_eq_zero (hrp 0 hx), eq_nil_of_length_eq_zero (length_value hsp _ 0 hx)]
      · rfl
    obtain ⟨rounds, rfl⟩ := exists_eq_add_one.mpr (hpos.trans_le hcount)
    obtain ⟨m, hm⟩ : ∃ m, m = if blockCount < count then blockCount else count := ⟨_, rfl⟩
    have hm0 : 0 < m ∧ m ≤ count := by
      rw [hm]
      split_ifs with hlt
      · exact ⟨hblock, hlt.le⟩
      · exact ⟨hpos, le_rfl⟩
    have htake : ∀ x < nprocOn h, ((sp x).take m).length = m := fun x hx => by
      rw [length_take, hsp x hx, min_eq_left hm0.2]
    -- the objects of the block are written, combined and read
    obtain ⟨s1, hleads1, hat1, hprocs1⟩ := leads_storeBlock hrank htake _ hat
      fun x hx => (hprocs x hx).trans (blocks_step hpos hm (k x))
    obtain ⟨s2, hleads2, hat2, hprocs2⟩ := leads_masks hrank htake ht _ (nprocOn h) 0 s1
      (zero_le _) ((clog_le_of_le_pow Nat.lt_two_pow_self.le).trans (le_add_left _ _)) hat1 hprocs1
    obtain ⟨s3, hleads3, hat3, hprocs3⟩ :=
      leads_loadBlock hrank (length_value htake _) _ hat2 hprocs2
    obtain ⟨s4, hleads4, hat4, hprocs4⟩ := ih (count - m) (by omega) rounds
      (t + maskCount (nprocOn h)) _
      (fun x => (sp x).drop m) (fun x => (rp x).drop m) _ s3 (by omega)
      (by rw [add_mod_right, ht]) (fun x hx => by rw [length_drop, hsp x hx])
      (fun x hx => by rw [length_drop, hrp x hx]) hat3 hprocs3
    refine ⟨s4, hleads1.trans (hleads2.trans (hleads3.trans hleads4)), hat4, fun x hx => ?_⟩
    rw [hprocs4 x hx]
    split_ifs with hzero
    · rw [value_end (le_two_pow_maskCount _), value_take, value_drop, take_append_drop]
    · rw [take_append_drop]

end Lampi
