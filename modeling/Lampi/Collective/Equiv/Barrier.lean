import Lampi.Collective.Barrier
import Lampi.Lib.Hypercube

/-!
# Correctness of the point-to-point barrier

In the main phase a process hears, round by round, of the processes near it in the hypercube
(`Hypercube.Near`), so at the end it has heard of all; a message is there only if what it tells is
true (`Knows`).  The phases can be run one after the other, so no run gets stuck.  Both together are
`barrierP2p_correct`.
-/

namespace Lampi

open MessagePassing UlmBarrierP2p Hypercube Function Nat List

variable {nproc k self r : ℕ} {tag : ℤ} {p x : ℕ} {entered : ℕ → Bool} {s : BarrierState}
  {heard : ℕ → Prop} {c : Chan ℕ ℤ PUnit}

/-! ### The programs -/

/-- `nproc2` is the power `2 ^ k`, the largest up to the number of processes. -/
structure IsNproc2 (nproc k : ℕ) : Prop where
  eq : nproc2 nproc = 2 ^ k
  le : 2 ^ k ≤ nproc
  lt : nproc < 2 ^ (k + 1)

private lemma doubleUp_eq {rounds n : ℕ} (acc : ℕ) (hn : 0 < n) (hrounds : n ≤ rounds) :
    ∃ k, doubleUp rounds n acc = acc * 2 ^ k ∧ 2 ^ k ≤ n ∧ n < 2 ^ (k + 1) := by
  induction rounds generalizing n acc with
  | zero => omega
  | succ rounds ih =>
    rw [doubleUp, shiftRight_one, shiftLeft_eq, pow_one]
    by_cases hhalf : n / 2 = 0
    · refine ⟨0, ?_, ?_, ?_⟩
      · rw [if_neg (not_not.mpr hhalf), pow_zero, mul_one]
      · exact hn
      · omega
    · obtain ⟨k, hk, hle, hlt⟩ := ih (acc * 2) (n := n / 2) (by omega) (by omega)
      refine ⟨k + 1, ?_, ?_, ?_⟩
      · rw [if_pos hhalf, hk, pow_succ, mul_assoc, mul_comm 2]
      · omega
      · omega

lemma exists_isNproc2 (hnproc : 0 < nproc) : ∃ k, IsNproc2 nproc k := by
  obtain ⟨k, hk, hle, hlt⟩ := doubleUp_eq 1 hnproc (le_refl nproc)
  rw [one_mul] at hk
  exact ⟨k, hk, hle, hlt⟩

/-- What is left of the program of a process below `nproc2` before round `r` of the main phase. -/
def mainFrom (nproc self : ℕ) (tag : ℤ) (r : ℕ) : BarrierProc :=
  mainPhase nproc self tag (nproc - r) (2 ^ r) >>= fun _ => finalPhase nproc self tag

namespace IsNproc2

lemma mainFrom_of_lt (h : IsNproc2 nproc k) (hr : r < k) :
    mainFrom nproc self tag r =
      .send (flip r self) tag ⟨⟩ (.recv (flip r self) tag fun _ => mainFrom nproc self tag (r + 1))
        := by
  have hk : k < 2 ^ k := Nat.lt_two_pow_self
  have hrounds : nproc - r = nproc - (r + 1) + 1 := by
    have := h.le
    omega
  have hmask : 2 ^ r < nproc2 nproc := by
    rw [h.eq]
    exact Nat.pow_lt_pow_right (by decide) hr
  have hshift : 2 ^ r <<< 1 = 2 ^ (r + 1) := by
    rw [shiftLeft_eq, pow_one, pow_succ]
  unfold mainFrom
  rw [hrounds, mainPhase, if_pos hmask, hshift]
  rfl

variable (h : IsNproc2 nproc k)

include h

lemma mainFrom_last : mainFrom nproc self tag k = finalPhase nproc self tag := by
  unfold mainFrom
  cases nproc - k with
  | zero => rfl
  | succ rounds =>
    rw [mainPhase, if_neg (by rw [h.eq]; exact lt_irrefl _)]
    rfl

lemma finalPhase_low (hself : self < 2 ^ k) :
    finalPhase nproc self tag =
      if self + 2 ^ k < nproc then .send (self + 2 ^ k) tag ⟨⟩ (.done ⟨⟩) else .done ⟨⟩ := by
  unfold finalPhase
  rw [h.eq]
  by_cases hextra : self + 2 ^ k < nproc
  · rw [if_pos (by omega), if_pos ⟨hself, hextra⟩, if_pos hextra]
    rfl
  · simp only [hextra, and_false, if_false, ge_iff_le, not_le.mpr hself, ite_self]
    rfl

lemma program_low (hself : self < 2 ^ k) :
    ulmBarrierP2p nproc self tag =
      if self + 2 ^ k < nproc then .recv (self + 2 ^ k) tag fun _ => mainFrom nproc self tag 0
      else mainFrom nproc self tag 0 := by
  have hmain : mainFrom nproc self tag 0 = mainPhase nproc self tag nproc 1 >>= fun _ =>
      finalPhase nproc self tag := rfl
  unfold ulmBarrierP2p setupPhase
  rw [h.eq, if_pos hself, hmain]
  by_cases hextra : self + 2 ^ k < nproc
  · rw [if_pos (by omega), if_pos ⟨hself, hextra⟩, if_pos hextra]
    rfl
  · simp only [hextra, and_false, if_false, ge_iff_le, not_le.mpr hself, ite_self]
    rfl

lemma program_high (hself : 2 ^ k ≤ self) (hlt : self < nproc) :
    ulmBarrierP2p nproc self tag =
      .send (self - 2 ^ k) tag ⟨⟩ (.recv (self - 2 ^ k) tag .done) := by
  unfold ulmBarrierP2p setupPhase finalPhase
  have hnot : ¬(self < 2 ^ k) := not_lt.mpr hself
  rw [h.eq, if_pos (by omega : nproc ≠ 2 ^ k), if_neg (fun h => hnot h.1), if_neg hnot,
    if_pos hself, if_pos (by omega : nproc ≠ 2 ^ k), if_neg (fun h => hnot h.1), if_pos hself]
  rfl

end IsNproc2

/-! ### No run gets stuck -/

private def highs (nproc k : ℕ) : List ℕ := (List.range nproc).filter (2 ^ k ≤ ·)

/-- The processes below `nproc2` that have a partner from `nproc2` on. -/
private def partners (nproc k : ℕ) : List ℕ := (List.range (2 ^ k)).filter (· + 2 ^ k < nproc)

private lemma mem_highs : p ∈ highs nproc k ↔ 2 ^ k ≤ p ∧ p < nproc := by
  simp [highs, and_comm]

private lemma mem_partners : p ∈ partners nproc k ↔ p < 2 ^ k ∧ p + 2 ^ k < nproc := by
  simp [partners]

private lemma IsNproc2.pairs (h : IsNproc2 nproc k) :
    (∀ p ∈ highs nproc k, p - 2 ^ k ∈ partners nproc k ∧ p - 2 ^ k + 2 ^ k = p) ∧
      ∀ p ∈ partners nproc k, p + 2 ^ k ∈ highs nproc k ∧ p + 2 ^ k - 2 ^ k = p := by
  have hlt := h.lt
  constructor
  · intro p hp
    rw [mem_highs] at hp
    rw [mem_partners]
    omega
  · intro p hp
    rw [mem_partners] at hp
    rw [mem_highs]
    omega

/-- Everybody is before round `r` of the main phase. -/
private def beforeRound (nproc k : ℕ) (tag : ℤ) (r : ℕ) : Net ℕ ℤ PUnit PUnit where
  procs p :=
    if p < 2 ^ k then mainFrom nproc p tag r
    else if p < nproc then .recv (p - 2 ^ k) tag .done
    else .done ⟨⟩
  chan := Chan.empty

private lemma reaches_main (h : IsNproc2 nproc k) (tag : ℤ) :
    Reaches (BarrierState.init nproc tag).net (beforeRound nproc k tag 0) := by
  obtain ⟨hhighs, hpartners⟩ := h.pairs
  have hle := h.le
  refine reaches_phase (S := highs nproc k) (R := partners nproc k) (nodup_range.filter _)
    (nodup_range.filter _) (fun p => p - 2 ^ k) (fun p => p + 2 ^ k) tag (fun _ => ⟨⟩)
    (fun p => .recv (p - 2 ^ k) tag .done) (fun p _ => mainFrom nproc p tag 0) hhighs hpartners
    (fun p hp => ?_) (fun p hp => ?_) (fun _ _ => rfl) (fun p => ?_) rfl
  · rw [mem_highs] at hp
    simp only [BarrierState.init, if_pos hp.2]
    exact h.program_high hp.1 hp.2
  · have hnot : p ∉ highs nproc k := by
      rw [mem_partners] at hp
      rw [mem_highs]
      omega
    rw [mem_partners] at hp
    simp only [BarrierState.init, if_neg hnot]
    rw [if_pos (by omega), h.program_low hp.1, if_pos hp.2]
  · simp only [beforeRound, BarrierState.init, mem_partners, mem_highs]
    by_cases hlow : p < 2 ^ k
    · simp only [hlow, lt_of_lt_of_le hlow hle, not_le.mpr hlow, true_and, false_and,
        if_true, if_false, h.program_low hlow]
      split_ifs <;> rfl
    · simp only [hlow, not_lt.mp hlow, true_and, false_and, if_false]
      split_ifs <;> rfl

private lemma reaches_round (h : IsNproc2 nproc k) (tag : ℤ) (hr : r < k) :
    Reaches (beforeRound nproc k tag r) (beforeRound nproc k tag (r + 1)) := by
  have hflip : ∀ p ∈ range (2 ^ k), flip r p ∈ range (2 ^ k) ∧ flip r (flip r p) = p := by
    intro p hp
    rw [mem_range] at hp ⊢
    exact ⟨flip_lt hp hr, flip_flip r p⟩
  refine reaches_phase nodup_range nodup_range (flip r) (flip r) tag (fun _ => ⟨⟩)
    (fun p => .recv (flip r p) tag fun _ => mainFrom nproc p tag (r + 1))
    (fun p _ => mainFrom nproc p tag (r + 1)) hflip hflip (fun p hp => ?_) (fun p hp => if_pos hp)
    (fun _ _ => rfl) (fun p => ?_) rfl
  · rw [mem_range] at hp
    simp only [beforeRound, if_pos hp]
    exact h.mainFrom_of_lt hr
  · simp only [beforeRound, mem_range]
    split_ifs <;> rfl

private lemma reaches_final (h : IsNproc2 nproc k) (tag : ℤ) :
    Reaches (beforeRound nproc k tag k) { procs := fun _ => .done ⟨⟩, chan := Chan.empty } := by
  obtain ⟨hhighs, hpartners⟩ := h.pairs
  refine reaches_phase (S := partners nproc k) (R := highs nproc k) (nodup_range.filter _)
    (nodup_range.filter _) (fun p => p + 2 ^ k) (fun p => p - 2 ^ k) tag (fun _ => ⟨⟩)
    (fun _ => .done ⟨⟩) (fun _ => .done) hpartners hhighs (fun p hp => ?_) (fun p hp => ?_)
    (fun _ _ => rfl) (fun p => ?_) rfl
  · rw [mem_partners] at hp
    simp only [beforeRound, if_pos hp.1]
    rw [h.mainFrom_last, h.finalPhase_low hp.1, if_pos hp.2]
  · have hnot : p ∉ partners nproc k := by
      rw [mem_highs] at hp
      rw [mem_partners]
      omega
    rw [mem_highs] at hp
    rw [if_neg hnot]
    simp only [beforeRound, if_neg (not_lt.mpr hp.1), if_pos hp.2]
  · simp only [beforeRound, mem_partners, mem_highs]
    by_cases hlow : p < 2 ^ k
    · simp only [hlow, not_le.mpr hlow, true_and, false_and, if_true, if_false, h.mainFrom_last,
        h.finalPhase_low hlow]
      split_ifs <;> rfl
    · simp only [hlow, not_lt.mp hlow, true_and, false_and, if_false]
      split_ifs <;> rfl

/-- The phases can be run one after the other. -/
lemma reaches_done (hnproc : 0 < nproc) (tag : ℤ) : Reaches (BarrierState.init nproc tag).net
      { procs := fun _ => .done ⟨⟩, chan := Chan.empty } := by
  obtain ⟨k, hk⟩ := exists_isNproc2 hnproc
  refine (reaches_main hk tag).trans (Reaches.trans ?_ (reaches_final hk tag))
  have hrounds : ∀ r ≤ k, Reaches (beforeRound nproc k tag 0) (beforeRound nproc k tag r) := by
    intro r hr
    induction r with
    | zero => exact Reaches.refl _
    | succ r ih => exact (ih (le_of_succ_le hr)).trans (reaches_round hk tag hr)
  exact hrounds k (le_refl k)

/-! ### Nobody leaves early -/

/-- The process below `nproc2` that hears of process `x` in the setup phase. -/
def lowOf (k x : ℕ) : ℕ := if x < 2 ^ k then x else x - 2 ^ k

lemma IsNproc2.lowOf_lt (h : IsNproc2 nproc k) (hx : x < nproc) : lowOf k x < 2 ^ k := by
  have hlt := h.lt
  unfold lowOf
  split_ifs
  · assumption
  · omega

lemma lowOf_eq_iff (hp : p < 2 ^ k) : lowOf k x = p ↔ x = p ∨ x = p + 2 ^ k := by
  unfold lowOf
  split_ifs <;> omega

/-- What the program of process `p` can be, and of which processes it has then heard. -/
inductive Stage (nproc k : ℕ) (tag : ℤ) (p : ℕ) : BarrierProc → (ℕ → Prop) → Prop
  | setup (hp : p < 2 ^ k) :
      Stage nproc k tag p (.recv (p + 2 ^ k) tag fun _ => mainFrom nproc p tag 0) (· = p)
  | before (hp : p < 2 ^ k) (r : ℕ) (hr : r ≤ k) :
      Stage nproc k tag p (mainFrom nproc p tag r) fun x => Near r p (lowOf k x)
  | waiting (hp : p < 2 ^ k) (r : ℕ) (hr : r < k) :
      Stage nproc k tag p (.recv (flip r p) tag fun _ => mainFrom nproc p tag (r + 1))
        fun x => Near r p (lowOf k x)
  | arriving (hp : 2 ^ k ≤ p) :
      Stage nproc k tag p (.send (p - 2 ^ k) tag ⟨⟩ (.recv (p - 2 ^ k) tag .done)) (· = p)
  | arrived (hp : 2 ^ k ≤ p) : Stage nproc k tag p (.recv (p - 2 ^ k) tag .done) (· = p)
  | left : Stage nproc k tag p (.done ⟨⟩) fun _ => True

/-- What a message from `p` to `q` tells is true. -/
inductive Told (nproc k : ℕ) (entered : ℕ → Bool) (p q : ℕ) : Prop
  | arrived (hp : 2 ^ k ≤ p) (h : entered p = true)
  | near (hp : p < 2 ^ k) (r : ℕ) (hr : r < k) (hq : q = flip r p)
      (h : ∀ x < nproc, Near r p (lowOf k x) → entered x = true)
  | all (hp : p < 2 ^ k) (hq : 2 ^ k ≤ q) (h : ∀ x < nproc, entered x = true)

/-- Whoever a process has heard of has entered, and so for the messages under way. -/
structure Knows (nproc k : ℕ) (tag : ℤ) (s : BarrierState) : Prop where
  stage : ∀ p < nproc, ∃ heard, Stage nproc k tag p (s.net.procs p) heard ∧
    ∀ x < nproc, heard x → s.entered x = true ∨ x = p
  told : ∀ p q, s.net.chan (p, q, tag) ≠ [] → Told nproc k s.entered p q
  outside : ∀ p, nproc ≤ p → s.entered p = false ∧ s.net.procs p = .done ⟨⟩

lemma Told.mono {entered' : ℕ → Bool} {q : ℕ} (h : Told nproc k entered p q)
    (hmono : ∀ x, entered x = true → entered' x = true) : Told nproc k entered' p q := by
  cases h with
  | arrived hp h => exact .arrived hp (hmono p h)
  | near hp r hr hq h => exact .near hp r hr hq fun x hx hnear => hmono x (h x hx hnear)
  | all hp hq h => exact .all hp hq fun x hx => hmono x (h x hx)

lemma init_knows (h : IsNproc2 nproc k) (tag : ℤ) : Knows nproc k tag (.init nproc tag) := by
  refine ⟨fun p hp => ?_, fun p q hne => absurd rfl hne,
    fun p hp => ⟨rfl, if_neg (not_lt.mpr hp)⟩⟩
  have hprogram : (BarrierState.init nproc tag).net.procs p = ulmBarrierP2p nproc p tag := if_pos hp
  rw [hprogram]
  by_cases hlow : p < 2 ^ k
  · rw [h.program_low hlow]
    split_ifs with hextra
    · exact ⟨_, .setup hlow, fun x _ hx => .inr hx⟩
    · refine ⟨_, .before hlow 0 (zero_le k), fun x hx hnear => .inr ?_⟩
      rcases (lowOf_eq_iff hlow).mp (near_zero.mp hnear).symm with hxp | hxp
      · exact hxp
      · omega
  · rw [h.program_high (not_lt.mp hlow) hp]
    exact ⟨_, .arriving (not_lt.mp hlow), fun x _ hx => .inr hx⟩

lemma Knows.goOn {prog : BarrierProc} {chan : Chan ℕ ℤ PUnit} (h : Knows nproc k tag s)
    (hp : p < nproc) (hstage : Stage nproc k tag p prog heard)
    (hheard : ∀ x < nproc, heard x → s.entered x = true)
    (hchan : ∀ q q', chan (q, q', tag) ≠ [] → s.net.chan (q, q', tag) ≠ [] ∨
      Told nproc k s.entered q q') : Knows nproc k tag
      { s with net := { procs := update s.net.procs p prog, chan := chan } } := by
  refine ⟨fun q hq => ?_, fun q q' hne => ?_, fun q hq => ?_⟩
  · by_cases hqp : q = p
    · subst hqp
      refine ⟨heard, ?_, fun x hx hheardx => .inl (hheard x hx hheardx)⟩
      simpa using hstage
    · simpa [hqp] using h.stage q hq
  · rcases hchan q q' hne with hold | htold
    · exact h.told q q' hold
    · exact htold
  · have hqp : q ≠ p := by omega
    refine ⟨(h.outside q hq).1, ?_⟩
    exact (update_of_ne hqp _ _).trans (h.outside q hq).2

private lemma update_chan {key : ℕ × ℕ × ℤ} {m : PUnit} {ms : List PUnit} (hkey : c key = m :: ms)
    (q q' : ℕ) (h : update c key ms (q, q', tag) ≠ []) : c (q, q', tag) ≠ [] := by
  by_cases heq : (q, q', tag) = key
  · rw [heq, hkey]
    simp
  · rwa [update_of_ne heq] at h

private lemma update_chan_send {dst : ℕ} {msgs : List PUnit} (htold : Told nproc k entered p dst)
    (q q' : ℕ) (h : update c (p, dst, tag) msgs (q, q', tag) ≠ []) :
    c (q, q', tag) ≠ [] ∨ Told nproc k entered q q' := by
  by_cases heq : (q, q', tag) = (p, dst, tag)
  · obtain ⟨rfl, rfl, -⟩ : q = p ∧ q' = dst ∧ tag = tag := by simpa using heq
    exact .inr htold
  · rw [update_of_ne heq] at h
    exact .inl h

/-- **One step** of the barrier. -/
theorem Knows.step {s' : BarrierState} (h : Knows nproc k tag s) (hk : IsNproc2 nproc k)
    (hstep : BarrierState.Step nproc s s') : Knows nproc k tag s' := by
  cases hstep with
  | enter p hp hnot =>
    have hmono : ∀ x, s.entered x = true → update s.entered p true x = true := by
      intro x hx
      by_cases hxp : x = p
      · simp [hxp]
      · rwa [update_of_ne hxp]
    refine ⟨fun q hq => ?_, fun q q' hne => (h.told q q' hne).mono hmono, fun q hq => ?_⟩
    · obtain ⟨heard, hstage, hheard⟩ := h.stage q hq
      exact ⟨heard, hstage, fun x hx hx' => (hheard x hx hx').imp_left (hmono x)⟩
    · have hqp : q ≠ p := by omega
      refine ⟨?_, (h.outside q hq).2⟩
      exact (update_of_ne hqp _ _).trans (h.outside q hq).1
  | step p hentered net' hstep =>
    have hp : p < nproc := by
      by_contra hout
      rw [(h.outside p (not_lt.mp hout)).1] at hentered
      exact absurd hentered (by decide)
    obtain ⟨heard, hstage, hheard⟩ := h.stage p hp
    have hheard' : ∀ x < nproc, heard x → s.entered x = true := by
      intro x hx hheardx
      rcases hheard x hx hheardx with hx' | rfl
      · exact hx'
      · exact hentered
    generalize hprog : s.net.procs p = prog at hstage
    cases hstage with
    | setup hlow =>
      obtain ⟨m, ms, hm, rfl⟩ := stepOf_of_recv hprog hstep
      refine h.goOn hp (.before hlow 0 (zero_le k)) (fun x hx hnear => ?_)
        (fun q q' hne => .inl (update_chan hm q q' hne))
      rcases (lowOf_eq_iff hlow).mp (near_zero.mp hnear).symm with rfl | rfl
      · exact hentered
      · cases h.told _ _ (by rw [hm]; simp) with
        | arrived _ hin => exact hin
        | near hlow' => omega
        | all hlow' => omega
    | before hlow r hr =>
      rcases lt_or_eq_of_le hr with hlt | rfl
      · rw [hk.mainFrom_of_lt hlt] at hprog
        rw [stepOf_send hprog] at hstep
        cases hstep
        exact h.goOn hp (.waiting hlow r hlt) hheard'
          (update_chan_send (.near hlow r hlt rfl hheard'))
      · rw [hk.mainFrom_last, hk.finalPhase_low hlow] at hprog
        have hall : ∀ x < nproc, s.entered x = true := fun x hx =>
          hheard' x hx (near_of_lt hlow (hk.lowOf_lt hx))
        split_ifs at hprog with hextra
        · rw [stepOf_send hprog] at hstep
          cases hstep
          exact h.goOn hp .left (fun x hx _ => hall x hx)
            (update_chan_send (.all hlow (le_add_left _ _) hall))
        · simp [stepOf, hprog] at hstep
    | waiting hlow r hr =>
      obtain ⟨m, ms, hm, rfl⟩ := stepOf_of_recv hprog hstep
      refine h.goOn hp (.before hlow (r + 1) hr) (fun x hx hnear => ?_)
        (fun q q' hne => .inl (update_chan hm q q' hne))
      rcases near_succ.mp hnear with hnear | hnear
      · exact hheard' x hx hnear
      · cases h.told _ _ (by rw [hm]; simp) with
        | arrived hhigh => exact absurd (flip_lt hlow hr) (not_lt.mpr hhigh)
        | near _ r' _ hq hin =>
          -- the neighbour in direction `r` only
          have hsame : r = r' := flip_inj ((flip_flip r p).trans hq)
          subst hsame
          exact hin x hx hnear
        | all _ hhigh => omega
    | arriving hhigh =>
      rw [stepOf_send hprog] at hstep
      cases hstep
      exact h.goOn hp (.arrived hhigh) hheard' (update_chan_send (.arrived hhigh hentered))
    | arrived hhigh =>
      obtain ⟨m, ms, hm, rfl⟩ := stepOf_of_recv hprog hstep
      refine h.goOn hp .left (fun x hx _ => ?_) (fun q q' hne => .inl (update_chan hm q q' hne))
      have hlt := hk.lt
      cases h.told _ _ (by rw [hm]; simp) with
      | arrived hhigh' => omega
      | near hlow r hr hq =>
        have := flip_lt hlow hr
        omega
      | all _ _ hall => exact hall x hx
    | left => simp [stepOf, hprog] at hstep

/-! ### Runs -/

lemma reachable_knows (hk : IsNproc2 nproc k) (h : BarrierState.Reachable nproc tag s) :
    Knows nproc k tag s := by
  induction h with
  | refl => exact init_knows hk tag
  | tail _ hstep ih => exact ih.step hk hstep

lemma reachable_reaches (h : BarrierState.Reachable nproc tag s) :
    Reaches (BarrierState.init nproc tag).net s.net := by
  induction h with
  | refl => exact Reaches.refl _
  | tail _ hstep ih =>
    cases hstep with
    | enter => exact ih
    | step p _ net' hstep => exact ih.trans (Reaches.step p hstep)

lemma Stage.heard_of_done (hk : IsNproc2 nproc k) (h : Stage nproc k tag p (.done ⟨⟩) heard)
    (hx : x < nproc) : heard x := by
  generalize hprog : (.done ⟨⟩ : BarrierProc) = prog at h
  cases h with
  | before hlow r hr =>
    rcases lt_or_eq_of_le hr with hlt | rfl
    · rw [hk.mainFrom_of_lt hlt] at hprog
      cases hprog
    · exact near_of_lt hlow (hk.lowOf_lt hx)
  | left => trivial
  | setup | waiting | arriving | arrived => cases hprog

/-- **The barrier**: in every state that can be reached, if some process has returned then all have
entered; and if all have entered and not all have returned, then some process can take a step. -/
theorem barrierP2p_correct (hnproc : 0 < nproc) {s : BarrierState}
    (h : BarrierState.Reachable nproc tag s) :
    (∀ p < nproc, s.Returned p → ∀ q < nproc, s.entered q = true) ∧
      ((∀ q < nproc, s.entered q = true) → (∃ p < nproc, ¬s.Returned p) →
        ∃ p < nproc, ∃ net', stepOf p s.net = some net') := by
  obtain ⟨k, hk⟩ := exists_isNproc2 hnproc
  have hknows := reachable_knows hk h
  constructor
  · rintro p hp ⟨hentered, hdone⟩ q hq
    obtain ⟨heard, hstage, hheard⟩ := hknows.stage p hp
    rw [hdone] at hstage
    rcases hheard q hq (hstage.heard_of_done hk hq) with hq' | rfl
    · exact hq'
    · exact hentered
  · rintro hall ⟨p, hp, hnot⟩
    -- the run so far can be continued to the end
    obtain ⟨n, hn⟩ := reachable_reaches h
    obtain ⟨m, hm⟩ := reaches_done hnproc tag
    obtain ⟨i, -, hi⟩ := hm.extend (fun _ => rfl) hn
    generalize hnet : s.net = net at hi
    cases hi with
    | refl => exact absurd ⟨hall p hp, by rw [hnet]⟩ hnot
    | head q hq =>
      refine ⟨q, ?_, _, hq⟩
      by_contra hout
      rw [stepOf, ← hnet, (hknows.outside q (not_lt.mp hout)).2] at hq
      cases hq

lemma reachable_steps {net : Net ℕ ℤ PUnit PUnit} {schedule : List ℕ}
    (h : BarrierState.Reachable nproc tag s) (hentered : ∀ p ∈ schedule, s.entered p = true)
    (hrun : schedule.foldlM (fun net p => stepOf p net) s.net = some net) :
    BarrierState.Reachable nproc tag { s with net := net } := by
  induction schedule generalizing s with
  | nil =>
    obtain rfl := Option.some.inj hrun
    exact h
  | cons p schedule ih =>
    obtain ⟨net', hstep, hrun⟩ := Option.bind_eq_some_iff.mp hrun
    obtain ⟨hp, hentered⟩ := forall_mem_cons.mp hentered
    exact ih (s := { s with net := net' }) (h.tail (.step s p hp net' hstep)) hentered hrun

def threeEntered : BarrierState :=
  { BarrierState.init 3 0 with
    entered := update (update (update (fun _ => false) 0 true) 1 true) 2 true }

/-- Process 1 has returned, and the others have not. -/
theorem barrierP2p_correct_oneReturned :
    ∃ s, BarrierState.Reachable 3 0 s ∧ s.Returned 1 ∧ ¬s.Returned 2 ∧
      (∀ q < 3, s.entered q = true) ∧ ∃ p < 3, ∃ net', stepOf p s.net = some net' := by
  have hentered : BarrierState.Reachable 3 0 threeEntered :=
    .tail (.tail (.tail .refl (.enter _ 0 (by decide) rfl)) (.enter _ 1 (by decide) rfl))
      (.enter _ 2 (by decide) rfl)
  obtain ⟨net, hrun, hdone, hwaits⟩ : ∃ net, [2, 0, 0, 1, 1].foldlM (fun net p => stepOf p net)
      threeEntered.net = some net ∧ net.procs 1 = .done ⟨⟩ ∧ net.procs 2 ≠ .done ⟨⟩ :=
    ⟨_, rfl, rfl, nofun⟩
  have hreachable := reachable_steps hentered (by decide) hrun
  obtain ⟨hall, hgoes⟩ := barrierP2p_correct (by decide) hreachable
  have hreturned : BarrierState.Returned { threeEntered with net := net } 1 := ⟨rfl, hdone⟩
  exact ⟨_, hreachable, hreturned, fun h => hwaits h.2, hall 1 (by decide) hreturned,
    hgoes (hall 1 (by decide) hreturned) ⟨2, by decide, fun h => hwaits h.2⟩⟩

end Lampi
