import Lampi.Collective.Equiv.Reduce
import Lampi.Collective.ReduceHosts
import Lampi.Lib.FanIn
import Lampi.Lib.SharedMemoryLogic
import Lampi.Lib.UnderWay

/-!
# Fan-in by messages

In round `k` of `logFanIn` the node `x + 2 ^ k`, for a multiple `x` of `2 ^ (k + 1)`, sends what it
holds to node `x` and is done.  Node `x` holds `FanIn.value op.call nnode a k x` before the round.

A node receives from nodes above it only.  So the nodes can run one after the other from the last
one down, none of them having to wait: `FanInUnderWay` says which messages are under way then, and
`wp_logFanIn` follows one node through its rounds.  `leads_logFanIn` puts the nodes together, and
**`leads_fanInBlocks`** the blocks.
-/

namespace Lampi

open MessagePassing SharedMemory FanIn Nat List

variable {α γ G : Type} {D : Discipline ℕ ReduceFlag ReduceCell G} {n u x k : ℕ}

lemma ofProc_bind {β : Type} (prog : RankProc α β) (f : β → RankProc α γ) :
    (Prog.ofProc (prog >>= f) : HostProg α γ) = Prog.ofProc prog >>= fun b => Prog.ofProc (f b) :=
  Prog.ofProc_bind prog f

/-! ### Messages under way -/

/-- Node `u` sends to node `x` in round `k`. -/
structure FanInSends (n u x k : ℕ) : Prop where
  dvd : 2 ^ (k + 1) ∣ x
  eq : u = x + 2 ^ k
  lt : u < n

lemma FanInSends.dst_lt (h : FanInSends n u x k) : x < n :=
  (h.eq ▸ le_add_right x (2 ^ k)).trans_lt h.lt

lemma FanInSends.unique {x' k' : ℕ} (h : FanInSends n u x k) (h' : FanInSends n u x' k') :
    k = k' ∧ x = x' := by
  have hk := neighbour_unique h.dvd h'.dvd (h.eq.symm.trans h'.eq)
  subst hk
  exact ⟨rfl, add_right_cancel (h.eq.symm.trans h'.eq)⟩

section UnderWay

variable (op : ULMOp α) (n : ℕ) (proc : ℕ → ℕ) (tag : ℤ) (a : ℕ → List α)

/-- The messages of the fan-in that are under way are those from `u` to `x` with `W u x`. -/
def FanInUnderWay (W : ℕ → ℕ → Prop) (chan : ℕ × ℕ × ℤ → List (List α)) : Prop :=
  UnderWay n proc tag (fun u x => value op.call n a (u - x).log2 u)
    (fun u x => (∃ k, FanInSends n u x k) ∧ W u x) chan

variable {op n proc tag a} {W W' : ℕ → ℕ → Prop} {chan : ℕ × ℕ × ℤ → List (List α)}

lemma FanInSends.log2_sub (h : FanInSends n u x k) : (u - x).log2 = k := by
  rw [h.eq, Nat.add_sub_cancel_left, log2_two_pow]

variable (h : FanInUnderWay op n proc tag a W chan)

include h

lemma FanInUnderWay.congr (hW : ∀ u x k, FanInSends n u x k → (W u x ↔ W' u x)) :
    FanInUnderWay op n proc tag a W' chan :=
  UnderWay.congr h fun u _ x _ => and_congr_right fun ⟨k, hs⟩ => hW u x k hs

lemma FanInUnderWay.sent (hs : FanInSends n u x k) (hw : W u x) :
    chan (proc u, proc x, tag) = [value op.call n a k u] := by
  rw [UnderWay.sent h u hs.lt x hs.dst_lt ⟨⟨k, hs⟩, hw⟩, hs.log2_sub]

variable (hproc : ∀ x < n, ∀ y < n, proc x = proc y → x = y) (hs : FanInSends n u x k)

include hproc hs

lemma FanInUnderWay.take :
    FanInUnderWay op n proc tag a (fun u' x' => W u' x' ∧ ¬(u' = u ∧ x' = x))
      (Function.update chan (proc u, proc x, tag) []) :=
  (UnderWay.take hproc h hs.lt hs.dst_lt).congr fun _ _ _ _ => and_assoc

lemma FanInUnderWay.put (hw : ¬W u x) :
    FanInUnderWay op n proc tag a (fun u' x' => W u' x' ∨ (u' = u ∧ x' = x))
      (Function.update chan (proc u, proc x, tag)
        (chan (proc u, proc x, tag) ++ [value op.call n a k u])) := by
  have hput := UnderWay.put hproc h hs.lt hs.dst_lt fun hw' => hw hw'.2
  rw [hs.log2_sub] at hput
  refine hput.congr fun u' _ x' _ => ?_
  rw [and_or_left]
  refine or_congr_right (and_iff_right_of_imp ?_).symm
  rintro ⟨rfl, rfl⟩
  exact ⟨k, hs⟩

end UnderWay

/-! ### One node -/

section Node

variable {op : ULMOp α} {n : ℕ} {proc peerOf : ℕ → ℕ} {tag : ℤ} {a : ℕ → List α}
  {rounds mask self : ℕ} {rBuf : List α}

lemma logFanIn_end (hmask : n ≤ mask) :
    logFanIn op n self peerOf tag rounds mask rBuf = pure rBuf := by
  cases rounds with
  | zero => rfl
  | succ rounds =>
    rw [logFanIn, if_neg (not_lt.mpr hmask)]

lemma logFanIn_skip (hmask : mask < n) (hpeer : n ≤ self ^^^ mask) :
    logFanIn op n self peerOf tag (rounds + 1) mask rBuf =
      logFanIn op n self peerOf tag rounds (mask <<< 1) rBuf := by
  rw [logFanIn, if_pos hmask]
  exact if_pos hpeer

lemma logFanIn_recv (hmask : mask < n) (hpeer : self ^^^ mask < n) (hlt : self < self ^^^ mask) :
    logFanIn op n self peerOf tag (rounds + 1) mask rBuf =
      .recv (peerOf (self ^^^ mask)) tag fun buf =>
        logFanIn op n self peerOf tag rounds (mask <<< 1) (op.call buf rBuf) := by
  rw [logFanIn, if_pos hmask]
  exact (if_neg (not_le.mpr hpeer)).trans (if_pos hlt)

lemma logFanIn_send (hmask : mask < n) (hpeer : self ^^^ mask < n) (hlt : ¬self < self ^^^ mask) :
    logFanIn op n self peerOf tag (rounds + 1) mask rBuf =
      .send (peerOf (self ^^^ mask)) tag rBuf (.done rBuf) := by
  rw [logFanIn, if_pos hmask]
  exact (if_neg (not_le.mpr hpeer)).trans (if_neg hlt)

private lemma two_pow_shiftLeft (k : ℕ) : 2 ^ k <<< 1 = 2 ^ (k + 1) := by
  rw [shiftLeft_eq, pow_one, pow_succ]

lemma value_end (hk : n ≤ 2 ^ k) : value op.call n a k 0 = value op.call n a n 0 := by
  have hn : n ≤ 2 ^ n := Nat.lt_two_pow_self.le
  rcases le_total k n with hle | hle
  · exact (value_stable hk hle 0).symm
  · exact value_stable hn hle 0

/-- Messages under way while node `m` is in round `k` and the nodes above it have run: from these,
to nodes below `m` and to itself from round `k` on. -/
def waitingAt (m k u x : ℕ) : Prop := m < u ∧ (x < m ∨ (x = m ∧ m + 2 ^ k ≤ u))

/-- When the nodes from `m` on have run. -/
def sentFrom (m u x : ℕ) : Prop := m ≤ u ∧ x < m

/-- **One node runs alone** from round `k` on, if the nodes above it have run. -/
theorem wp_logFanIn (hproc : ∀ x < n, ∀ y < n, proc x = proc y → x = y)
    (hpeer : ∀ y < n, peerOf y = proc y) {m : ℕ} (hm : m < n) {c : Config ℤ (List α) α D} :
    ∀ (rounds k : ℕ) (chan : ℕ × ℕ × ℤ → List (List α)), n ≤ 2 ^ (k + rounds) → 2 ^ k ∣ m →
      FanInUnderWay op n proc tag a (waitingAt m k) chan → wp (proc m)
        (Prog.ofProc (logFanIn op n m peerOf tag rounds (2 ^ k) (value op.call n a k m)))
        (fun out c' => (m = 0 → out = value op.call n a n 0) ∧
          ∃ chan', c' = c.withChan chan' ∧ FanInUnderWay op n proc tag a (sentFrom m) chan')
        (c.withChan chan) := by
  -- the end of the loop, which only node 0 reaches
  have hend : ∀ k chan, n ≤ 2 ^ k → 2 ^ k ∣ m → FanInUnderWay op n proc tag a (waitingAt m k) chan →
      (m = 0 → value op.call n a k m = value op.call n a n 0) ∧
        ∃ chan', c.withChan chan = c.withChan chan' ∧
          FanInUnderWay op n proc tag a (sentFrom m) chan' := by
    intro k chan hk hdvd hway
    obtain rfl : m = 0 := eq_zero_of_dvd_of_lt hdvd (hm.trans_le hk)
    refine ⟨fun _ => value_end hk, chan, rfl, hway.congr fun u x j hs => ?_⟩
    have hlt := hs.lt
    constructor
    · rintro ⟨-, hx | ⟨-, hu⟩⟩
      · exact absurd hx (not_lt_zero x)
      · omega
    · rintro ⟨-, hx⟩
      exact absurd hx (not_lt_zero x)
  intro rounds
  induction rounds with
  | zero =>
    intro k chan hk hdvd hway
    exact hend k chan hk hdvd hway
  | succ rounds ih =>
    intro k chan hrounds hdvd hway
    by_cases hmask : 2 ^ k < n
    swap
    · rw [logFanIn_end (not_lt.mp hmask)]
      exact hend k chan (not_lt.mp hmask) hdvd hway
    have hrounds' : n ≤ 2 ^ (k + 1 + rounds) := by
      rwa [add_right_comm, add_assoc]
    cases hbit : m.testBit k with
    | false =>
      have hxor := xor_of_testBit_eq_false hbit
      have hdvd' := dvd_of_testBit_eq_false hdvd hbit
      by_cases hlt : m + 2 ^ k < n
      · -- the neighbour above has sent its message
        have hs : FanInSends n (m + 2 ^ k) m k := ⟨hdvd', rfl, hlt⟩
        have hw : waitingAt m k (m + 2 ^ k) m :=
          ⟨Nat.lt_add_of_pos_right (Nat.two_pow_pos k), .inr ⟨rfl, le_rfl⟩⟩
        rw [logFanIn_recv hmask (hxor ▸ hlt) (hxor ▸ hw.1), hxor, two_pow_shiftLeft, hpeer _ hlt]
        refine ⟨_, [], hway.sent hs hw, ?_⟩
        beta_reduce
        rw [← value_of_lt (f := op.call) (b := a) hbit hlt]
        refine ih (k + 1) _ hrounds' hdvd' ((hway.take hproc hs).congr fun u x j hs' => ?_)
        have hu := hs'.eq
        constructor
        · rintro ⟨⟨hmu, hx | ⟨rfl, hle⟩⟩, hne⟩
          · exact ⟨hmu, .inl hx⟩
          · refine ⟨hmu, .inr ⟨rfl, ?_⟩⟩
            -- a later round
            have hjk : k ≤ j := (Nat.pow_le_pow_iff_right Nat.one_lt_two).mp (by omega)
            have hjk' : k ≠ j := by
              rintro rfl
              exact hne ⟨hu, rfl⟩
            have := Nat.pow_le_pow_right Nat.zero_lt_two (lt_of_le_of_ne hjk hjk')
            omega
        · rintro ⟨hmu, hx | ⟨rfl, hle⟩⟩
          · exact ⟨⟨hmu, .inl hx⟩, fun heq => by omega⟩
          · exact ⟨⟨hmu, .inr ⟨rfl, by omega⟩⟩, fun heq => by omega⟩
      · -- there is no neighbour
        rw [logFanIn_skip hmask (hxor ▸ not_lt.mp hlt), two_pow_shiftLeft,
          ← value_of_le (not_lt.mp hlt)]
        refine ih (k + 1) _ hrounds' hdvd' (hway.congr fun u x j hs' => ?_)
        have hu := hs'.lt
        constructor <;> rintro ⟨hmu, hx | ⟨hx, hle⟩⟩
        · exact ⟨hmu, .inl hx⟩
        · omega
        · exact ⟨hmu, .inl hx⟩
        · omega
    | true =>
      -- the neighbour is below: send, and that is all
      have hxor := xor_of_testBit_eq_true hbit
      have hdvd' := dvd_xor hdvd hbit
      have hs : FanInSends n m (m ^^^ 2 ^ k) k := ⟨hdvd', hxor.symm, hm⟩
      have hw : ¬waitingAt m k m (m ^^^ 2 ^ k) := fun h => lt_irrefl m h.1
      rw [logFanIn_send hmask (by omega) (by omega), hpeer _ (by omega)]
      refine ⟨fun hzero => ?_, _, rfl, (hway.put hproc hs hw).congr fun u x j hs' => ?_⟩
      · rw [hzero, zero_testBit] at hbit
        exact absurd hbit Bool.false_ne_true
      · have hu := hs'.eq
        constructor
        · rintro (⟨hmu, hx | ⟨rfl, hle⟩⟩ | ⟨rfl, rfl⟩)
          · exact ⟨hmu.le, hx⟩
          · -- nobody sends to this node in a later round
            have hjk : k ≤ j := (Nat.pow_le_pow_iff_right Nat.one_lt_two).mp (by omega)
            have hdvd'' : 2 ^ (k + 1) ∣ x := dvd_trans (pow_dvd_pow 2 (by omega)) hs'.dvd
            rw [testBit_of_dvd hdvd''] at hbit
            exact absurd hbit Bool.false_ne_true
          · exact ⟨le_rfl, by omega⟩
        · rintro ⟨hmu, hx⟩
          rcases eq_or_lt_of_le hmu with rfl | hlt
          · exact .inr ⟨rfl, (hs'.unique hs).2⟩
          · exact .inl ⟨hlt, .inl hx⟩

end Node

/-! ### All nodes, block by block -/

section Nodes

variable {op : ULMOp α} {n : ℕ} {proc peerOf : ℕ → ℕ} {a : ℕ → List α}

/-- **One block**: all nodes run the fan-in, the last one first. -/
theorem leads_logFanIn (hproc : ∀ x < n, ∀ y < n, proc x = proc y → x = y)
    (hpeer : ∀ y < n, peerOf y = proc y) {tag : ℤ} (k : ℕ → List α → HostProg α γ)
    {s : System ℤ (List α) α γ D} (hchan : s.config.shared.chan = fun _ => [])
    (hprocs : ∀ x < n, s.procs (proc x) = Prog.ofProc (logFanIn op n x peerOf tag n 1 (a x)) >>=
      k x) :
    ∃ s', LeadsBy proc n s s' ∧ s'.config = s.config ∧
      ∀ x < n, ∃ out, (x = 0 → out = value op.call n a n 0) ∧ s'.procs (proc x) = k x out := by
  -- the node that runs at time `j`
  have hnode : ∀ x < n, n - 1 - x < n ∧ n - 1 - (n - 1 - x) = x := by
    intro x hx
    omega
  have hproc' : ∀ x < n, ∀ y < n, proc (n - 1 - x) = proc (n - 1 - y) → x = y := by
    intro x hx y hy heq
    have := hproc _ (hnode x hx).1 _ (hnode y hy).1 heq
    omega
  obtain ⟨s', hleads, ⟨chan, hconfig, hway⟩, hran⟩ := leads_each hproc'
    (fun j => Prog.ofProc (logFanIn op n (n - 1 - j) peerOf tag n 1 (a (n - 1 - j))))
    (fun j => k (n - 1 - j)) (fun j out => n - 1 - j = 0 → out = value op.call n a n 0)
    (fun j c => ∃ chan, c = s.config.withChan chan ∧
      FanInUnderWay op n proc tag a (sentFrom (n - j)) chan)
    (fun x hx => hprocs _ (hnode x hx).1)
    ⟨fun _ => [], by rw [← hchan]; rfl, underWay_none fun u hu x _ hw =>
      absurd hu (not_lt.mpr hw.2.1)⟩
    (by
      rintro j hj c ⟨chan, rfl, hway⟩
      have hm := (hnode j hj).1
      have hstep : n - j = n - 1 - j + 1 := by omega
      refine (wp_logFanIn hproc hpeer hm n 0 chan ?_ (one_dvd _) (hway.congr ?_)).mono ?_
      · rw [zero_add]
        exact Nat.lt_two_pow_self.le
      · intro u x i hs
        unfold sentFrom waitingAt
        omega
      · rintro out c' ⟨hout, chan', hc', hway'⟩
        refine ⟨hout, chan', hc', ?_⟩
        rwa [show n - (j + 1) = n - 1 - j by omega])
  refine ⟨s', ⟨hleads.leads, fun p hp => hleads.procs p fun x hx => hp _ (hnode x hx).1⟩, ?_,
    fun x hx => ?_⟩
  · -- nothing is under way any more
    have hempty : chan = s.config.shared.chan := by
      rw [hchan]
      refine UnderWay.eq_nil hway fun u _ x _ hw => absurd hw.2.2 ?_
      rw [Nat.sub_self]
      exact not_lt_zero x
    rw [hconfig, hempty]
    rfl
  · obtain ⟨out, hout, hproc'⟩ := hran _ (hnode x hx).1
    rw [(hnode x hx).2] at hout hproc'
    exact ⟨out, hout, hproc'⟩

lemma value_take (a : ℕ → List α) (m k x : ℕ) :
    value op.call n (fun x => (a x).take m) k x = (value op.call n a k x).take m := by
  induction k generalizing x with
  | zero => rfl
  | succ k ih =>
    rw [value, value]
    split_ifs
    · rw [ih, ih, ULMOp.call, ULMOp.call, take_zipWith]
    · exact ih x

lemma value_drop (a : ℕ → List α) (m k x : ℕ) :
    value op.call n (fun x => (a x).drop m) k x = (value op.call n a k x).drop m := by
  induction k generalizing x with
  | zero => rfl
  | succ k ih =>
    rw [value, value]
    split_ifs
    · rw [ih, ih, ULMOp.call, ULMOp.call, drop_zipWith]
    · exact ih x

lemma length_value {count : ℕ} (ha : ∀ x < n, (a x).length = count) (k : ℕ) :
    ∀ x < n, (value op.call n a k x).length = count := by
  induction k with
  | zero => exact ha
  | succ k ih =>
    intro x hx
    rw [value]
    split_ifs with h
    · rw [ULMOp.call, length_zipWith, ih _ h.2, ih x hx, min_self]
    · exact ih x hx

lemma leads_fanInBlocks (hproc : ∀ x < n, ∀ y < n, proc x = proc y → x = y)
    (hpeer : ∀ y < n, peerOf y = proc y) {blockCount : ℕ} (hblock : 0 < blockCount)
    {algorithm : ℕ → ℤ → ℕ → Option (List α) → List α → RankProc α (List α)}
    (halg : ∀ x < n, ∀ tag count sBuf rBuf, count ≠ 0 → algorithm x tag count sBuf rBuf =
      logFanIn op n x peerOf tag n 1 (sBuf.getD rBuf)) :
    ∀ (rounds : ℕ) (tag : ℤ) (count : ℕ) (sBuf : ℕ → Option (List α)) (rBuf : ℕ → List α)
      (k : ℕ → List α → HostProg α γ) (s : System ℤ (List α) α γ D), count ≤ rounds →
      (∀ x < n, (rBuf x).length = count) → (∀ x < n, ((sBuf x).getD (rBuf x)).length = count) →
      s.config.shared.chan = (fun _ => []) →
      (∀ x < n, s.procs (proc x) = Prog.ofProc
        (ulmReduce.blocks (algorithm x) blockCount rounds tag count (sBuf x) (rBuf x)) >>= k x) →
      ∃ s', LeadsBy proc n s s' ∧ s'.config = s.config ∧
        ∀ x < n, ∃ out, (x = 0 →
            out = value op.call n (fun x => (sBuf x).getD (rBuf x)) n 0) ∧
          s'.procs (proc x) = k x out := by
  intro rounds tag count
  induction count using Nat.strong_induction_on generalizing rounds tag with
  | _ count ih =>
    intro sBuf rBuf k s hcount hr hs hchan hprocs
    rcases Nat.eq_zero_or_pos count with rfl | hpos
    · -- without objects there is nothing to do
      have hnothing : ∀ x, ulmReduce.blocks (algorithm x) blockCount rounds tag 0 (sBuf x)
          (rBuf x) = pure (rBuf x) := by
        intro x
        cases rounds with
        | zero => rfl
        | succ rounds => rw [ulmReduce.blocks, if_neg (lt_irrefl 0)]
      refine ⟨s, LeadsBy.refl s, rfl, fun x hx => ⟨rBuf x, fun hzero => ?_, ?_⟩⟩
      · subst hzero
        rw [eq_nil_of_length_eq_zero (hr 0 hx), eq_nil_of_length_eq_zero (length_value hs n 0 hx)]
      · rw [hprocs x hx, hnothing]
        rfl
    obtain ⟨rounds, rfl⟩ := exists_eq_add_one.mpr (hpos.trans_le hcount)
    -- one block, and then the rest
    set m := if blockCount < count then blockCount else count with hm
    have hm0 : 0 < m ∧ m ≤ count := by
      rw [hm]
      split_ifs with h
      · exact ⟨hblock, h.le⟩
      · exact ⟨hpos, le_rfl⟩
    have hblocks : ∀ x < n, s.procs (proc x) =
        Prog.ofProc (logFanIn op n x peerOf tag n 1 (((sBuf x).getD (rBuf x)).take m)) >>=
          fun front => Prog.ofProc (ulmReduce.blocks (algorithm x) blockCount rounds (tag - 1)
            (count - m) ((sBuf x).map (drop m)) ((rBuf x).drop m)) >>=
              fun rest => k x (front ++ rest) := by
      intro x hx
      rw [hprocs x hx, ulmReduce.blocks, if_pos hpos]
      rw [ofProc_bind, ← hm, halg x hx _ _ _ _ hm0.1.ne', getD_map_take, bind_assoc]
      refine congrArg _ (funext fun front => ?_)
      rw [ofProc_bind, bind_assoc]
      rfl
    obtain ⟨s1, hleads1, hconfig1, hran1⟩ := leads_logFanIn hproc hpeer _ hchan hblocks
    choose! front hfront hprocs1 using hran1
    obtain ⟨s2, hleads2, hconfig2, hran2⟩ := ih (count - m) (by omega) rounds (tag - 1)
      (fun x => (sBuf x).map (drop m)) (fun x => (rBuf x).drop m)
      (fun x rest => k x (front x ++ rest)) s1 (by omega)
      (fun x hx => by rw [length_drop, hr x hx])
      (fun x hx => by rw [getD_map_drop, length_drop, hs x hx])
      (by rw [hconfig1, hchan]) hprocs1
    refine ⟨s2, hleads1.trans hleads2, hconfig2.trans hconfig1, fun x hx => ?_⟩
    obtain ⟨rest, hout, hproc'⟩ := hran2 x hx
    refine ⟨front x ++ rest, fun hzero => ?_, hproc'⟩
    have hdrop : (fun x => ((sBuf x).map (drop m)).getD ((rBuf x).drop m)) =
        fun x => ((sBuf x).getD (rBuf x)).drop m := by
      funext y
      exact getD_map_drop (sBuf y) (rBuf y) m
    rw [hfront x hx hzero, hout hzero, hdrop, value_take, value_drop, take_append_drop]

end Nodes

end Lampi
