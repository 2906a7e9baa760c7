import Lampi.Collective.Bcast
import Lampi.Lib.FanOut
import Lampi.Lib.UnderWay

/-!
# Fan-out by messages

In `logFanOut` every node but node 0 receives from its parent, in the round in which it first takes
part, and then sends to its children, one in each round.  A node receives from a node below it only,
so the nodes can run one after the other from node 0 on.  `wp_logFanOut` follows one node through
its rounds, **`leads_logFanOut`** puts the nodes together: in the end each has a copy of the bytes
of node 0, and its log has grown by `fanOutLog`.
-/

namespace Lampi

open MessagePassing SharedMemory FanOut Nat List

/-! ### The loop -/

variable {k : ℕ}

section Loop

variable {n self mask rounds : ℕ} {peerOf : ℕ → ℕ} {tag : ℤ} {positions : List ℤ} {s : BcastState}

lemma logFanOut_end (hmask : n ≤ mask) :
    logFanOut n self peerOf tag positions rounds mask s = pure s := by
  cases rounds with
  | zero => rfl
  | succ rounds => rw [logFanOut, if_neg (not_lt.mpr hmask)]

lemma logFanOut_skip (hmask : mask < n) (hself : 2 * mask ≤ self) :
    logFanOut n self peerOf tag positions (rounds + 1) mask s =
      logFanOut n self peerOf tag positions rounds (mask <<< 1) s := by
  rw [logFanOut, if_pos hmask, if_pos hself]

lemma logFanOut_break (hmask : mask < n) (hself : self < 2 * mask) (hpeer : n ≤ self ^^^ mask) :
    logFanOut n self peerOf tag positions (rounds + 1) mask s = pure s := by
  rw [logFanOut, if_pos hmask, if_neg (not_le.mpr hself)]
  exact if_pos hpeer

lemma logFanOut_send (hmask : mask < n) (hself : self < 2 * mask) (hpeer : self ^^^ mask < n)
    (hlt : self < self ^^^ mask) :
    logFanOut n self peerOf tag positions (rounds + 1) mask s =
      .send (peerOf (self ^^^ mask)) tag (s.buf.read positions)
        (logFanOut n self peerOf tag positions rounds (mask <<< 1)
          { s with log := s.log ++ [.sent (peerOf (self ^^^ mask)) tag] }) := by
  rw [logFanOut, if_pos hmask, if_neg (not_le.mpr hself)]
  exact (if_neg (not_le.mpr hpeer)).trans (if_pos hlt)

lemma logFanOut_recv (hmask : mask < n) (hself : self < 2 * mask) (hpeer : self ^^^ mask < n)
    (hlt : ¬self < self ^^^ mask) :
    logFanOut n self peerOf tag positions (rounds + 1) mask s =
      .recv (peerOf (self ^^^ mask)) tag fun bytes =>
        logFanOut n self peerOf tag positions rounds (mask <<< 1)
          ⟨s.buf.write positions bytes, s.log ++ [.received (peerOf (self ^^^ mask)) tag]⟩ := by
  rw [logFanOut, if_pos hmask, if_neg (not_le.mpr hself)]
  exact (if_neg (not_le.mpr hpeer)).trans (if_neg hlt)

private lemma pow_shiftLeft (k : ℕ) : 2 ^ k <<< 1 = 2 ^ (k + 1) := by
  rw [shiftLeft_eq, pow_one, pow_succ]

lemma logFanOut_skips (hself : self < n) (hk : 2 ^ k ≤ self) :
    logFanOut n self peerOf tag positions (rounds + k) 1 s =
      logFanOut n self peerOf tag positions rounds (2 ^ k) s := by
  induction k generalizing rounds with
  | zero => rfl
  | succ k ih =>
    have hpow : 2 ^ (k + 1) = 2 * 2 ^ k := by rw [pow_succ, mul_comm]
    have hle : 2 ^ k ≤ self := by omega
    rw [← add_assoc, add_right_comm, ih hle,
      logFanOut_skip (hle.trans_lt hself) (hpow ▸ hk), pow_shiftLeft]

end Loop

/-! ### One node -/

section Node

variable {γ G : Type} {D : Discipline ℕ (Word ℕ) BcastCell G} {n m : ℕ} {proc peerOf : ℕ → ℕ}
  {tag : ℤ} {positions : List ℤ} {msg : List UInt8} {c : Config ℤ (List UInt8) UInt8 D}

/-- When the nodes below `m` have run, messages are under way from them to the others. -/
def passedTo (m u x : ℕ) : Prop := 0 < x ∧ parent x = u ∧ u < m ∧ m ≤ x

/-- While node `m` sends, it has done so to its children of the rounds before round `k`. -/
def passing (m k u x : ℕ) : Prop := 0 < x ∧ parent x = u ∧ (u < m ∧ m < x ∨ u = m ∧ x < m + 2 ^ k)

private lemma passing_end (hk : n ≤ m + 2 ^ k) :
    ∀ u < n, ∀ x < n, passing m k u x ↔ passedTo (m + 1) u x := by
  intro u _ x hx
  refine and_congr_right fun hpos => and_congr_right fun hparent => ?_
  have := parent_lt hpos
  omega

private lemma passing_next (hk : m < 2 ^ k) (u x : ℕ) :
    passing m k u x ∨ (u = m ∧ x = m + 2 ^ k) ↔ passing m (k + 1) u x := by
  constructor
  · rintro (⟨hx, hparent, hcase⟩ | ⟨rfl, rfl⟩)
    · exact ⟨hx, hparent, by omega⟩
    · exact ⟨by omega, parent_add hk, by omega⟩
  · rintro ⟨hx, hparent, hcase | ⟨rfl, hlt⟩⟩
    · exact .inl ⟨hx, hparent, .inl hcase⟩
    · -- the only child in between
      obtain ⟨i, -, rfl⟩ := (parent_eq_iff hx).mp hparent
      have hik : i < k + 1 := (Nat.pow_lt_pow_iff_right Nat.one_lt_two).mp (by omega)
      rcases Nat.lt_succ_iff_lt_or_eq.mp hik with hlt' | rfl
      · have hlow := Nat.pow_lt_pow_right Nat.one_lt_two hlt'
        exact .inl ⟨hx, hparent, .inr ⟨rfl, by omega⟩⟩
      · exact .inr ⟨rfl, rfl⟩

def sentTo (proc : ℕ → ℕ) (tag : ℤ) (children : List ℕ) : List BcastEvent :=
  children.map fun x => .sent (proc x) tag

/-- What a node adds to its log. -/
def fanOutLog (n : ℕ) (proc : ℕ → ℕ) (tag : ℤ) (x : ℕ) : List BcastEvent :=
  (if 0 < x then [.received (proc (parent x)) tag] else []) ++ sentTo proc tag (children n x)

variable (hproc : ∀ x < n, ∀ y < n, proc x = proc y → x = y) (hpeer : ∀ y < n, peerOf y = proc y)

include hproc hpeer

lemma wp_sendToChildren (hm : m < n) {buf : Buffer}
    (hread : buf.read positions = msg) (log : List BcastEvent) :
    ∀ (rounds k : ℕ) (chan : ℕ × ℕ × ℤ → List (List UInt8)), n ≤ 2 ^ (k + rounds) → m < 2 ^ k →
      UnderWay n proc tag (fun _ _ => msg) (passing m k) chan → wp (proc m)
        (logFanOut n m peerOf tag positions rounds (2 ^ k)
          ⟨buf, log ++ sentTo proc tag (children (min n (m + 2 ^ k)) m)⟩)
        (fun out c' => out = ⟨buf, log ++ sentTo proc tag (children n m)⟩ ∧
          ∃ chan', c' = c.withChan chan' ∧
            UnderWay n proc tag (fun _ _ => msg) (passedTo (m + 1)) chan')
        (c.withChan chan) := by
  -- the end of the loop
  have hend : ∀ k chan, n ≤ m + 2 ^ k →
      UnderWay n proc tag (fun _ _ => msg) (passing m k) chan →
      (⟨buf, log ++ sentTo proc tag (children (min n (m + 2 ^ k)) m)⟩ : BcastState) =
          ⟨buf, log ++ sentTo proc tag (children n m)⟩ ∧
        ∃ chan', c.withChan chan = c.withChan chan' ∧
          UnderWay n proc tag (fun _ _ => msg) (passedTo (m + 1)) chan' := by
    intro k chan hk hway
    rw [min_eq_left hk]
    exact ⟨rfl, chan, rfl, hway.congr (passing_end hk)⟩
  intro rounds
  induction rounds with
  | zero =>
    intro k chan hrounds _ hway
    exact hend k chan (hrounds.trans (le_add_left _ _)) hway
  | succ rounds ih =>
    intro k chan hrounds hk hway
    by_cases hmask : 2 ^ k < n
    swap
    · rw [logFanOut_end (not_lt.mp hmask)]
      exact hend k chan ((not_lt.mp hmask).trans (le_add_left _ _)) hway
    have hxor := xor_of_lt hk
    have hself : m < 2 * 2 ^ k := by omega
    by_cases hlt : m + 2 ^ k < n
    · have hnot : ¬passing m k m (m + 2 ^ k) := by
        rintro ⟨-, -, hcase⟩
        omega
      have hsent : log ++ sentTo proc tag (children (min n (m + 2 ^ k)) m) ++
          [.sent (proc (m + 2 ^ k)) tag] =
            log ++ sentTo proc tag (children (min n (m + 2 ^ (k + 1))) m) := by
        rw [children_next hk (lt_min hlt (by omega)) (min_le_right _ _), sentTo, sentTo,
          map_append, min_eq_right hlt.le, append_assoc]
        rfl
      rw [logFanOut_send hmask hself (hxor ▸ hlt) (by omega), hxor, hpeer _ hlt, pow_shiftLeft]
      rw [hsent, hread]
      refine ih (k + 1) _ (by rwa [add_right_comm, add_assoc]) (by omega) ?_
      exact (hway.put hproc hm hlt hnot).congr fun u _ x _ => passing_next hk u x
    · rw [logFanOut_break hmask hself (hxor ▸ not_lt.mp hlt)]
      exact hend k chan (not_lt.mp hlt) hway

/-- **One node runs alone**, if the nodes below it have run. -/
theorem wp_logFanOut (hm : m < n) {s : BcastState} {root : Buffer}
    (hroot : m = 0 → s.buf = root) {chan : ℕ × ℕ × ℤ → List (List UInt8)}
    (hway : UnderWay n proc tag (fun _ _ => root.read positions) (passedTo m) chan) :
    wp (proc m) (logFanOut n m peerOf tag positions n 1 s)
      (fun out c' => out = ⟨s.buf.copy root positions, s.log ++ fanOutLog n proc tag m⟩ ∧
        ∃ chan', c' = c.withChan chan' ∧
          UnderWay n proc tag (fun _ _ => root.read positions) (passedTo (m + 1)) chan')
      (c.withChan chan) := by
  rcases Nat.eq_zero_or_pos m with rfl | hpos
  · have hcopy : s.buf.copy root positions = s.buf := by
      rw [hroot rfl, Buffer.copy_self]
    have hnone : children (min n (0 + 2 ^ 0)) 0 = [] := by
      rw [min_eq_right (by rw [pow_zero]; exact hm)]
      exact children_first (.inr rfl)
    have hread : s.buf.read positions = root.read positions := by rw [hroot rfl]
    have hrun := wp_sendToChildren (c := c) hproc hpeer hm hread s.log n 0 chan
      (by rw [zero_add]; exact Nat.lt_two_pow_self.le) one_pos
      (hway.congr fun u _ x _ => by unfold passedTo passing; rw [pow_zero]; omega)
    rw [hnone, sentTo, map_nil, append_nil] at hrun
    rw [hcopy, fanOutLog, if_neg (lt_irrefl 0), nil_append]
    exact hrun
  · -- the message from the parent
    obtain ⟨rounds, hrounds⟩ : ∃ rounds, n = rounds + 1 + m.log2 := by
      have : m.log2 < n := (log2_le_self m).trans_lt hm
      exact ⟨n - 1 - m.log2, by omega⟩
    have hle := log2_self_le hpos.ne'
    have hself : m < 2 * 2 ^ m.log2 := by
      rw [mul_comm, ← pow_succ]
      exact lt_log2_self
    have hxor := xor_log2 hpos
    have hparent := parent_lt hpos
    have hw : passedTo m (parent m) m := ⟨hpos, rfl, hparent, le_rfl⟩
    have hsplit : logFanOut n m peerOf tag positions n 1 s =
        logFanOut n m peerOf tag positions (rounds + 1) (2 ^ m.log2) s := by
      rw [← logFanOut_skips hm hle, ← hrounds]
    have hnone : children (min n (m + 2 ^ (m.log2 + 1))) m = [] := by
      have hfirst : children (m + 2 ^ (m.log2 + 1)) m = [] :=
        children_first (.inl (by rw [pow_succ]; omega))
      rw [← length_eq_zero_iff, ← le_zero, ← length_eq_zero_iff.mpr hfirst]
      apply Sublist.length_le
      exact (range_sublist.mpr (min_le_right _ _)).filter _
    rw [hsplit, logFanOut_recv (hle.trans_lt hm) hself (hxor ▸ hparent.trans hm)
      (hxor ▸ hparent.not_gt), hxor, hpeer _ (hparent.trans hm), pow_shiftLeft]
    refine ⟨_, [], hway.sent _ (hparent.trans hm) _ hm hw, ?_⟩
    beta_reduce
    rw [Buffer.write_read]
    have hrun := wp_sendToChildren (c := c) hproc hpeer hm
      (Buffer.read_copy s.buf root positions)
      (s.log ++ [.received (proc (parent m)) tag]) rounds (m.log2 + 1)
      (Function.update chan (proc (parent m), proc m, tag) []) (by
        rw [add_assoc, add_comm 1 rounds, add_comm, ← hrounds]
        exact Nat.lt_two_pow_self.le) lt_log2_self
      ((hway.take hproc (hparent.trans hm) hm).congr fun u _ x _ => ?_)
    · rw [hnone, sentTo, map_nil, append_nil] at hrun
      rw [fanOutLog, if_pos hpos, ← append_assoc]
      exact hrun
    · constructor
      · rintro ⟨⟨hx, hpar, hu, hle'⟩, hne⟩
        refine ⟨hx, hpar, .inl ⟨hu, lt_of_le_of_ne hle' ?_⟩⟩
        rintro rfl
        exact hne ⟨hpar.symm, rfl⟩
      · rintro ⟨hx, hpar, ⟨hu, hlt⟩ | ⟨rfl, hlt⟩⟩
        · exact ⟨⟨hx, hpar, hu, hlt.le⟩, fun heq => hlt.ne' heq.2⟩
        · -- it has not sent anything yet
          have hmem : x ∈ children (u + 2 ^ (u.log2 + 1)) u := mem_children.mpr ⟨hlt, hx, hpar⟩
          rw [children_first (.inl (by rw [pow_succ]; omega))] at hmem
          cases hmem

/-! ### All nodes -/

/-- **One fan-out**: all nodes run, node 0 first. -/
theorem leads_logFanOut {st : ℕ → BcastState} (k : ℕ → BcastState → BcastProg γ)
    {s : System ℤ (List UInt8) UInt8 γ D} (hchan : s.config.shared.chan = fun _ => [])
    (hprocs : ∀ x < n, s.procs (proc x) = logFanOut n x peerOf tag positions n 1 (st x) >>= k x) :
    ∃ s', LeadsBy proc n s s' ∧ s'.config = s.config ∧
      ∀ x < n, s'.procs (proc x) = k x ⟨(st x).buf.copy (st 0).buf positions,
        (st x).log ++ fanOutLog n proc tag x⟩ := by
  let msg : ℕ → ℕ → List UInt8 := fun _ _ => (st 0).buf.read positions
  obtain ⟨s', hleads, ⟨chan, hconfig, hway⟩, hran⟩ := leads_each hproc
    (fun x => logFanOut n x peerOf tag positions n 1 (st x)) k
    (fun x out => out = ⟨(st x).buf.copy (st 0).buf positions,
      (st x).log ++ fanOutLog n proc tag x⟩)
    (fun m c => ∃ chan, c = s.config.withChan chan ∧ UnderWay n proc tag msg (passedTo m) chan)
    hprocs
    ⟨fun _ => [], by rw [← hchan]; rfl, underWay_none fun u _ x _ hw =>
      not_lt_zero u hw.2.2.1⟩
    (by
      rintro m hm c ⟨chan, rfl, hway⟩
      exact wp_logFanOut hproc hpeer hm (fun hzero => by rw [hzero]) hway)
  refine ⟨s', hleads, ?_, fun x hx => ?_⟩
  · -- nothing is under way any more
    have hempty := hway.eq_nil fun u _ x hx hw => absurd hw.2.2.2 (not_le.mpr hx)
    rw [hconfig, hempty, ← hchan]
    rfl
  · obtain ⟨out, rfl, hout⟩ := hran x hx
    exact hout

end Node

end Lampi
