import Lampi.Lib.SharedMemoryLogic

/-!
# Flags that are set in turn

Each flag is set by one process after the other: a `Scheme` says whose turn it is and what the value
is then.  Where a process stands is how often it knows each flag to have been set.  A process whose
turn it is knows that exactly, so no two processes set a flag at the same time; and a process may
wait for a flag if it stays ready until it is the turn of the process itself.

`TurnDiscipline.discipline` is the discipline that results, and `wp_set` and `wp_wait` are the rules
for it.
-/

namespace SharedMemory

open Function

variable {P T M F L V : Type} {p q : P} {f flag : F} {ready : ℤ → Bool} {n : ℕ} {flags : F → ℤ}

/-! ### Who sets a flag, and to what -/

/-- How often a process knows each flag to have been set. -/
abbrev Know (F : Type) := F → ℕ

/-- Who sets a flag, and to what: `owner f n` is the process that sets `f` for the time `n + 1`, and
`value f n` is the value after `n` times. -/
structure Scheme (P F : Type) where
  value : F → ℕ → ℤ
  owner : F → ℕ → P

/-- What one process knows of the flags that the other one sets, the other one knows too. -/
structure Scheme.Agree (S : Scheme P F) (p q : P) (know know' : Know F) : Prop where
  left : ∀ f n, S.owner f n = q → n < know f → n < know' f
  right : ∀ f n, S.owner f n = p → n < know' f → n < know f

section Agree

variable {S : Scheme P F} {know know' : Know F} (h : S.Agree p q know know')

include h

lemma Scheme.Agree.symm : S.Agree q p know' know := ⟨h.right, h.left⟩

/-- The owner of a flag knows at least as much about it as anybody. -/
lemma Scheme.Agree.le_of_owner (howner : S.owner f (know' f) = q) : know f ≤ know' f := by
  by_contra hlt
  exact absurd (h.left f (know' f) howner (not_le.mp hlt)) (lt_irrefl _)

lemma Scheme.Agree.eq_of_owner (hp : S.owner f (know f) = p) (hq : S.owner f (know' f) = q) :
    p = q := by
  have hle := h.le_of_owner hq
  have hge := h.symm.le_of_owner hp
  rw [← hp, ← hq, le_antisymm hle hge]

/-- A process may wait for a flag it knows to have been set `seen` times: once the flag is ready, it
stays so until it is the turn of the process to set it. -/
def Scheme.MayWait (S : Scheme P F) (p : P) (f : F) (ready : ℤ → Bool) (seen : ℕ) : Prop :=
  ∀ n, seen ≤ n → (∀ m < n, S.owner f m = p → m < seen) → S.owner f n ≠ p →
    ready (S.value f n) = true → ready (S.value f (n + 1)) = true

lemma Scheme.Agree.stays (hpq : p ≠ q) (hwait : S.MayWait p f ready (know f))
    (howner : S.owner f (know' f) = q) (hready : ready (S.value f (know' f)) = true) :
    ready (S.value f (know' f + 1)) = true := by
  apply hwait (know' f) (h.le_of_owner howner) _ _ hready
  · intro m hm hturn
    exact h.right f m hturn hm
  · rw [howner]
    exact hpq.symm

end Agree

section Seen

variable (S : Scheme P F) (know : Know F)

open Classical in
/-- How often a flag has been set at least when it is seen ready. -/
noncomputable def Scheme.seen (flag : F) (ready : ℤ → Bool) : ℕ :=
  if h : ∃ n, know flag ≤ n ∧ ready (S.value flag n) = true then Nat.find h else know flag

lemma Scheme.le_seen (flag : F) (ready : ℤ → Bool) : know flag ≤ S.seen know flag ready := by
  unfold Scheme.seen
  split_ifs with h
  · exact (Nat.find_spec h).1
  · exact le_rfl

variable {S know} (hle : know flag ≤ n) (hready : ready (S.value flag n) = true)

include hle hready

lemma Scheme.ready_seen : ready (S.value flag (S.seen know flag ready)) = true := by
  have hex : ∃ n, know flag ≤ n ∧ ready (S.value flag n) = true := ⟨n, hle, hready⟩
  rw [Scheme.seen, dif_pos hex]
  exact (Nat.find_spec hex).2

lemma Scheme.seen_le : S.seen know flag ready ≤ n := by
  have hex : ∃ n, know flag ≤ n ∧ ready (S.value flag n) = true := ⟨n, hle, hready⟩
  rw [Scheme.seen, dif_pos hex]
  exact Nat.find_min' hex ⟨hle, hready⟩

end Seen

/-- Each flag has its value by the number of times it was set.  The processes know of no time before
it, and of their own times for sure. -/
structure Sound (S : Scheme P F) (times : F → ℕ) (know : P → Know F) (flags : F → ℤ) : Prop where
  value : ∀ f, flags f = S.value f (times f)
  le : ∀ p f, know p f ≤ times f
  own : ∀ f n, n < times f → n < know (S.owner f n) f

section Sound

variable {S : Scheme P F} {times : F → ℕ} {know : P → Know F} (h : Sound S times know flags)

include h

/-- A process whose turn it is to set a flag knows how often it has been set. -/
lemma Sound.eq_of_owner (howner : S.owner f (know p f) = p) : know p f = times f := by
  refine le_antisymm (h.le p f) (not_lt.mp fun hlt => ?_)
  have hown := h.own f (know p f) hlt
  rw [howner] at hown
  exact lt_irrefl _ hown

lemma Sound.agree (p q : P) : S.Agree p q (know p) (know q) := by
  constructor
  · rintro f n rfl hlt
    exact h.own f n (hlt.trans_le (h.le p f))
  · rintro f n rfl hlt
    exact h.own f n (hlt.trans_le (h.le q f))

/-- How often each flag has been set is determined by what the processes know. -/
lemma Sound.times_unique {times' : F → ℕ} {flags' : F → ℤ} (h' : Sound S times' know flags') :
    times = times' := by
  have hle : ∀ {times times' : F → ℕ} {flags flags' : F → ℤ}, Sound S times know flags →
      Sound S times' know flags' → ∀ f, times f ≤ times' f := by
    intro times times' flags flags' h h' f
    by_contra hlt
    exact absurd (h.own f _ (not_le.mp hlt)) (not_lt.mpr (h'.le _ f))
  funext f
  exact le_antisymm (hle h h' f) (hle h' h f)

/-! ### The discipline -/

variable [DecidableEq P]

lemma Sound.learn {know' : Know F} (hge : ∀ f, know p f ≤ know' f)
    (hle : ∀ f, know' f ≤ times f) : Sound S times (update know p know') flags := by
  have hmore : know ≤ update know p know' := le_update_iff.mpr ⟨hge, fun _ _ => le_rfl⟩
  refine ⟨h.value, ?_, fun f n hn => (h.own f n hn).trans_le (hmore _ f)⟩
  exact (forall_update_iff know fun _ k => ∀ f, k f ≤ times f).mpr ⟨hle, fun q _ => h.le q⟩

variable [DecidableEq F]

lemma Sound.learnFlag (hge : know p f ≤ n) (hle : n ≤ times f) :
    Sound S times (update know p (update (know p) f n)) flags := by
  apply h.learn
  · exact le_update_iff.mpr ⟨hge, fun _ _ => le_rfl⟩
  · exact update_le_iff.mpr ⟨hle, fun g _ => h.le p g⟩

lemma Sound.set (howner : S.owner f (know p f) = p) : Sound S (update times f (know p f + 1))
      (update know p (update (know p) f (know p f + 1)))
      (update flags f (S.value f (know p f + 1))) := by
  have htimes := h.eq_of_owner howner
  have hmore : know ≤ update know p (update (know p) f (know p f + 1)) :=
    le_update_iff.mpr ⟨le_update_iff.mpr ⟨Nat.le_succ _, fun _ _ => le_rfl⟩, fun _ _ => le_rfl⟩
  constructor
  · refine (forall_update_iff flags fun g v => v = S.value g (update times f _ g)).mpr ⟨?_, ?_⟩
    · rw [update_self]
    · intro g hg
      rw [update_of_ne hg, h.value g]
  · refine (forall_update_iff know fun _ k => ∀ g, k g ≤ update times f _ g).mpr ⟨?_, ?_⟩
    · exact update_le_update_iff.mpr ⟨le_rfl, fun g _ => h.le p g⟩
    · intro q _
      exact le_update_iff.mpr ⟨(h.le q f).trans (htimes ▸ Nat.le_succ _), fun g _ => h.le q g⟩
  · refine (forall_update_iff times fun g m => ∀ n < m, n < update know p _ (S.owner g n) g).mpr
      ⟨fun n hn => ?_, fun g _ n hn => (h.own g n hn).trans_le (hmore _ g)⟩
    rcases Nat.lt_succ_iff_lt_or_eq.mp hn with hlt | rfl
    · exact (h.own f n (htimes ▸ hlt)).trans_le (hmore _ f)
    · -- the last time was the turn of `p`
      rw [howner, update_self, update_self]
      exact Nat.lt_succ_self _

end Sound

variable [DecidableEq P] [DecidableEq F]

/-- What a process may do with the locations, given what it knows.  If two processes agree, then
neither may write a location that the other may use. -/
structure TurnDiscipline (P F L : Type) extends Scheme P F where
  mayStore : P → Know F → L → Prop
  mayLoad : P → Know F → L → Prop
  exclusive : ∀ {p q : P} {know know' : Know F} {l : L}, p ≠ q → toScheme.Agree p q know know' →
    mayStore p know l → ¬mayStore q know' l ∧ ¬mayLoad q know' l

/-- Setting flags in turn keeps the order of steps from mattering. -/
noncomputable def TurnDiscipline.discipline (D : TurnDiscipline P F L) :
    Discipline P F L (Know F) where
  Possible know flags := ∃ times, Sound D.toScheme times know flags
  mayStore := D.mayStore
  mayLoad := D.mayLoad
  mayModify p know f change know' := D.owner f (know f) = p ∧
    change = (fun _ => D.value f (know f + 1)) ∧ know' = update know f (know f + 1)
  mayWait p know f ready know' := D.MayWait p f ready (know f) ∧
    know' = update know f (D.seen know f ready)
  exclusive := by
    rintro know flags p q l ⟨times, h⟩ hpq hmay
    exact D.exclusive hpq (h.agree p q) hmay
  modify := by
    rintro know flags p f change know' ⟨times, h⟩ ⟨howner, rfl, rfl⟩
    exact ⟨_, h.set howner⟩
  pass := by
    rintro know flags p f ready know' ⟨times, h⟩ ⟨-, rfl⟩ hready
    rw [h.value f] at hready
    exact ⟨times, h.learnFlag (D.le_seen (know p) f ready) (D.seen_le (h.le p f) hready)⟩
  commute := by
    rintro know flags p q f c c' know1 know2 ⟨times, h⟩ hpq ⟨howner, -, -⟩ ⟨howner', -, -⟩
    -- it is the turn of only one process
    exact absurd ((h.agree p q).eq_of_owner howner howner') hpq
  stays := by
    rintro know flags p q f change ready know1 know2 ⟨times, h⟩ hpq ⟨howner, rfl, -⟩ ⟨hwait, -⟩
      hready
    rw [h.value f, ← h.eq_of_owner howner] at hready
    exact (h.agree q p).stays hpq.symm hwait howner hready

/-! ### Rules -/

namespace Config

variable {D : TurnDiscipline P F L} (c : Config T M V D.discipline)

def know : P → Know F := c.state

noncomputable def times : F → ℕ := Classical.choose c.possible

lemma sound : Sound D.toScheme c.times c.know c.shared.flags := Classical.choose_spec c.possible

variable {c} in
lemma times_eq {times : F → ℕ} (h : Sound D.toScheme times c.know flags) : c.times = times :=
  c.sound.times_unique h

/-- A flag is set by the process whose turn it is. -/
noncomputable def set (p : P) (f : F) (h : D.owner f (c.know p f) = p) :
    Config T M V D.discipline := c.modify p f (fun _ => D.value f (c.know p f + 1))
    (update (c.know p) f (c.know p f + 1)) ⟨h, rfl, rfl⟩

/-- A process gets to know that a flag has been set `n` times. -/
def learn (p : P) (f : F) (n : ℕ) (hge : c.know p f ≤ n) (hle : n ≤ c.times f) :
    Config T M V D.discipline where
  shared := c.shared
  state := update c.know p (update (c.know p) f n)
  possible := ⟨c.times, c.sound.learnFlag hge hle⟩

variable {c}

lemma times_set (h : D.owner f (c.know p f) = p) :
    (c.set p f h).times = update c.times f (c.know p f + 1) := times_eq (c.sound.set h)

lemma times_learn (hge : c.know p f ≤ n) (hle : n ≤ c.times f) :
    (c.learn p f n hge hle).times = c.times := times_eq (c.sound.learnFlag hge hle)

end Config

section Rules

variable {D : TurnDiscipline P F L} {c : Config T M V D.discipline} [DecidableEq T]
  [DecidableEq L] {Q : Unit → Config T M V D.discipline → Prop}

lemma wp_set {val : ℤ} (howner : D.owner f (c.know p f) = p)
    (hval : val = D.value f (c.know p f + 1)) (h : Q () (c.set p f howner)) :
    wp p (Prog.setFlag f val) Q c := by
  subst hval
  exact wp_setFlag _ h

lemma wp_wait (hmay : D.MayWait p f ready (c.know p f))
    (hready : ready (D.value f (c.times f)) = true)
    (h : ∀ n (hge : c.know p f ≤ n) (hle : n ≤ c.times f), ready (D.value f n) = true →
      Q () (c.learn p f n hge hle)) : wp p (Prog.waitFlag f ready) Q c := by
  have hle := c.sound.le p f
  refine wp_waitFlag ⟨hmay, rfl⟩ ?_ ?_
  · rw [c.sound.value f]
    exact hready
  · -- the process sees the flag when it is ready for the first time
    exact h _ (D.le_seen (c.know p) f ready) (D.seen_le hle hready) (D.ready_seen hle hready)

end Rules

end SharedMemory
