import Mathlib.Algebra.BigOperators.Group.Finset.Piecewise
import Mathlib.Algebra.Order.BigOperators.Group.Finset
import Lampi.Lib.SharedMemoryLogic

/-!
# Epochs between barriers

The processes are in groups.  Each group has a flag, and a counter for its barrier: a process adds
one to the counter, and waits until everybody has done so.  The barriers cut the work of a group
into epochs.

While a process is in an epoch, a process of the same group may be one epoch further only if the
first one has arrived at the barrier.  So it is enough to say of one epoch at a time what its
processes do with the flag and with the memory.  `Epochs` collects that: the notes the processes
make on where they stand, the invariant that connects the notes and the flag, and that the next
epoch's holds when everybody has come to the end of one.  `Epochs.discipline` is the discipline that
results.

**`leads_barrier`** takes a group through a barrier.
-/

namespace SharedMemory

open Function Finset

/-- The words that the processes of a group use to synchronise. -/
inductive Word (H : Type)
  | flag (h : H)
  | counter (h : H)
  deriving DecidableEq, Repr

lemma Word.flag_ne_counter (h h' : H) : Word.flag h ≠ Word.counter h' := nofun

/-- Where a process stands: the epoch, whether it has arrived at the barrier at the end of it, and
the note it has made. -/
structure Stage (S : Type) where
  epoch : ℕ
  arrived : Bool
  note : S

/-- How often a process has arrived at a barrier. -/
def Stage.arrivals {S : Type} (g : Stage S) : ℕ := g.epoch + if g.arrived then 1 else 0

variable {g : Stage S}

lemma Stage.arrivals_of_arrived (hg : g.arrived = true) : g.arrivals = g.epoch + 1 := by
  rw [Stage.arrivals, if_pos hg]

lemma Stage.arrivals_of_not_arrived (hg : g.arrived = false) : g.arrivals = g.epoch := by
  rw [Stage.arrivals, hg]
  rfl

/-- The note of a process, as it looks from an epoch: a process that is one behind is going to start
with a fresh one. -/
def Stage.view {S : Type} (start : S) (e : ℕ) (g : Stage S) : S :=
  if g.epoch = e then g.note else start

/-- What the processes of a group do in each epoch.  `base` is the value of the counter before they
come to a barrier. -/
structure Epochs (P H L S : Type) [DecidableEq P] where
  members : H → Finset P
  home : L → H
  base : H → ℤ
  start : S
  Inv : H → ℕ → (P → S) → ℤ → Prop
  final : H → ℕ → P → S → Prop
  maySet : H → ℕ → P → S → ℤ → S → Prop
  mayWait : H → ℕ → P → S → (ℤ → Bool) → S → Prop
  mayStore : H → ℕ → P → S → L → Prop
  mayLoad : H → ℕ → P → S → L → Prop
  disjoint : ∀ {p h h'}, p ∈ members h → p ∈ members h' → h = h'
  congr : ∀ {h e notes notes' v}, (∀ p ∈ members h, notes p = notes' p) → Inv h e notes v →
    Inv h e notes' v
  set : ∀ {h e notes v p v' s}, Inv h e notes v → p ∈ members h →
    maySet h e p (notes p) v' s → Inv h e (update notes p s) v'
  pass : ∀ {h e notes v p ready s}, Inv h e notes v → p ∈ members h →
    mayWait h e p (notes p) ready s → ready v = true → Inv h e (update notes p s) v
  commute : ∀ {h e notes v p q v1 v2 s1 s2}, Inv h e notes v → p ∈ members h → q ∈ members h →
    p ≠ q → maySet h e p (notes p) v1 s1 → maySet h e q (notes q) v2 s2 → v1 = v2
  stays : ∀ {h e notes v p q v' ready s1 s2}, Inv h e notes v → p ∈ members h → q ∈ members h →
    p ≠ q → maySet h e p (notes p) v' s1 → mayWait h e q (notes q) ready s2 → ready v = true →
    ready v' = true
  exclusive : ∀ {h e notes v p q l}, Inv h e notes v → p ∈ members h → q ∈ members h → p ≠ q →
    mayStore h e p (notes p) l → ¬mayStore h e q (notes q) l ∧ ¬mayLoad h e q (notes q) l
  store_home : ∀ {h e p s l}, mayStore h e p s l → home l = h
  load_home : ∀ {h e p s l}, mayLoad h e p s l → home l = h
  turn : ∀ {h e notes v}, Inv h e notes v → (∀ p ∈ members h, final h e p (notes p)) →
    Inv h (e + 1) (fun _ => start) v

variable {P H L S T M V β : Type} [DecidableEq P]

namespace Epochs

variable (E : Epochs P H L S)

/-- The counter when everybody has come to the end of an epoch. -/
def release (h : H) (e : ℕ) : ℤ := E.base h + ((E.members h).card * (e + 1) : ℕ)

/-- A group is in an epoch; some of its processes may have to pass the barrier before it. -/
structure AtEpoch (h : H) (e : ℕ) (st : P → Stage S) (flags : Word H → ℤ) : Prop where
  near : ∀ p ∈ E.members h, (st p).epoch = e ∨ (st p).epoch + 1 = e ∧ (st p).arrived = true
  inv : E.Inv h e (fun p => (st p).view E.start e) (flags (.flag h))
  count : flags (.counter h) = E.base h + (∑ p ∈ E.members h, (st p).arrivals : ℕ)
  final : ∀ p ∈ E.members h, (st p).arrived = true → E.final h (st p).epoch p (st p).note

/-- A process sets the flag, or arrives at the barrier. -/
inductive MayModify (p : P) (g : Stage S) : Word H → (ℤ → ℤ) → Stage S → Prop
  | set {h v s} (hp : p ∈ E.members h) (hg : g.arrived = false)
      (hmay : E.maySet h g.epoch p g.note v s) :
      MayModify p g (.flag h) (fun _ => v) ⟨g.epoch, false, s⟩
  | arrive {h} (hp : p ∈ E.members h) (hg : g.arrived = false) (hmay : E.final h g.epoch p g.note) :
      MayModify p g (.counter h) (· + 1) ⟨g.epoch, true, g.note⟩

/-- A process sees that the flag is ready, or that everybody has arrived. -/
inductive MayWait (p : P) (g : Stage S) : Word H → (ℤ → Bool) → Stage S → Prop
  | see {h ready s} (hp : p ∈ E.members h) (hg : g.arrived = false)
      (hmay : E.mayWait h g.epoch p g.note ready s) :
      MayWait p g (.flag h) ready ⟨g.epoch, false, s⟩
  | leave {h} (hp : p ∈ E.members h) (hg : g.arrived = true) :
      MayWait p g (.counter h) (fun v => decide (E.release h g.epoch ≤ v))
        ⟨g.epoch + 1, false, E.start⟩

variable {E} {h : H} {e : ℕ} {st st' : P → Stage S} {flags flags' : Word H → ℤ} {p : P} {s : S}

private lemma sum_update_arrivals (st : P → Stage S) {s : Finset P} (hp : p ∈ s) (g : Stage S) :
    ∑ q ∈ s, (update st p g q).arrivals + (st p).arrivals =
      ∑ q ∈ s, (st q).arrivals + g.arrivals := by
  have hold := add_sum_erase s (fun q => (st q).arrivals) hp
  have hnew := add_sum_erase s (fun q => (update st p g q).arrivals) hp
  have hrest : ∑ q ∈ s.erase p, (update st p g q).arrivals = ∑ q ∈ s.erase p, (st q).arrivals := by
    refine sum_congr rfl fun q hq => ?_
    rw [update_of_ne (ne_of_mem_erase hq)]
  rw [update_self] at hnew
  omega

private lemma view_update (g : Stage S) :
    (fun q => (update st p g q).view E.start e) =
      update (fun q => (st q).view E.start e) p (g.view E.start e) := by
  funext q
  by_cases hq : q = p
  · rw [hq, update_self, update_self]
  · rw [update_of_ne hq, update_of_ne hq]

section

variable (hat : E.AtEpoch h e st flags)

include hat

lemma AtEpoch.epoch_eq (hp : p ∈ E.members h) (hg : (st p).arrived = false) : (st p).epoch = e := by
  rcases hat.near p hp with heq | ⟨-, harrived⟩
  · exact heq
  · rw [hg] at harrived
    cases harrived

lemma AtEpoch.view_eq (hp : p ∈ E.members h) (hg : (st p).arrived = false) :
    (st p).view E.start e = (st p).note :=
  if_pos (hat.epoch_eq hp hg)

lemma AtEpoch.frame (hst : ∀ p ∈ E.members h, st' p = st p)
    (hflag : flags' (.flag h) = flags (.flag h))
    (hcounter : flags' (.counter h) = flags (.counter h)) : E.AtEpoch h e st' flags' := by
  constructor
  · intro p hp
    rw [hst p hp]
    exact hat.near p hp
  · rw [hflag]
    exact E.congr (fun p hp => by rw [hst p hp]) hat.inv
  · rw [hcounter, hat.count]
    congr 2
    exact sum_congr rfl fun p hp => by rw [hst p hp]
  · intro p hp
    rw [hst p hp]
    exact hat.final p hp

lemma AtEpoch.move {g : Stage S} (hp : p ∈ E.members h) (hepoch : g.epoch = e)
    (hinv : E.Inv h e (update (fun q => (st q).view E.start e) p (g.view E.start e))
      (flags' (.flag h)))
    (hcounter : flags' (.counter h) + (st p).arrivals = flags (.counter h) + g.arrivals)
    (hfinal : g.arrived = true → E.final h g.epoch p g.note) :
    E.AtEpoch h e (update st p g) flags' := by
  refine ⟨?_, ?_, ?_, ?_⟩
  · exact (forall_update_iff st fun q g => q ∈ E.members h →
      g.epoch = e ∨ g.epoch + 1 = e ∧ g.arrived = true).mpr
        ⟨fun _ => .inl hepoch, fun q _ => hat.near q⟩
  · rw [view_update]
    exact hinv
  · have hsum := sum_update_arrivals st hp g
    rw [hat.count] at hcounter
    omega
  · exact (forall_update_iff st fun q g => q ∈ E.members h →
      g.arrived = true → E.final h g.epoch q g.note).mpr ⟨fun _ => hfinal, fun q _ => hat.final q⟩

lemma AtEpoch.note (hp : p ∈ E.members h) (hg : (st p).arrived = false)
    (hinv : E.Inv h e (update (fun q => (st q).view E.start e) p s) (flags' (.flag h)))
    (hcounter : flags' (.counter h) = flags (.counter h)) :
    E.AtEpoch h e (update st p ⟨(st p).epoch, false, s⟩) flags' := by
  have hepoch := hat.epoch_eq hp hg
  refine hat.move hp hepoch ?_ ?_ nofun
  · rwa [Stage.view, if_pos hepoch]
  · rw [hcounter, Stage.arrivals_of_not_arrived hg, Stage.arrivals_of_not_arrived rfl]

lemma AtEpoch.arrive (hp : p ∈ E.members h) (hg : (st p).arrived = false)
    (hfinal : E.final h (st p).epoch p (st p).note) (hflag : flags' (.flag h) = flags (.flag h))
    (hcounter : flags' (.counter h) = flags (.counter h) + 1) :
    E.AtEpoch h e (update st p ⟨(st p).epoch, true, (st p).note⟩) flags' := by
  have hepoch := hat.epoch_eq hp hg
  refine hat.move hp hepoch ?_ ?_ fun _ => hfinal
  · rw [hflag, Stage.view, if_pos hepoch, ← hat.view_eq hp hg, update_eq_self]
    exact hat.inv
  · rw [hcounter, Stage.arrivals_of_not_arrived hg, Stage.arrivals_of_arrived rfl]
    push_cast
    omega

/-- Nobody has arrived more often than the others will have at the end of the epoch. -/
lemma AtEpoch.arrivals_le (hp : p ∈ E.members h) : (st p).arrivals ≤ e + 1 := by
  have hnear := hat.near p hp
  cases harrived : (st p).arrived with
  | true =>
    rw [Stage.arrivals_of_arrived harrived]
    omega
  | false =>
    rw [Stage.arrivals_of_not_arrived harrived]
    omega

/-- **The counter tells when everybody has arrived.** -/
theorem AtEpoch.all_arrived (hready : E.release h e ≤ flags (.counter h)) (hp : p ∈ E.members h) :
    (st p).epoch = e ∧ (st p).arrived = true := by
  have hall : (st p).arrivals = e + 1 := by
    by_contra hne
    have hlt : ∑ q ∈ E.members h, (st q).arrivals < ∑ _q ∈ E.members h, (e + 1) :=
      sum_lt_sum (fun q hq => hat.arrivals_le hq)
        ⟨p, hp, lt_of_le_of_ne (hat.arrivals_le hp) hne⟩
    rw [sum_const_nat fun _ _ => rfl] at hlt
    rw [hat.count, release] at hready
    omega
  have hnear := hat.near p hp
  cases harrived : (st p).arrived with
  | true =>
    rw [Stage.arrivals_of_arrived harrived] at hall
    exact ⟨Nat.succ.inj hall, rfl⟩
  | false =>
    rw [Stage.arrivals_of_not_arrived harrived] at hall
    omega

lemma AtEpoch.turn (hready : E.release h e ≤ flags (.counter h)) :
    E.AtEpoch h (e + 1) st flags := by
  have hall := fun q hq => hat.all_arrived (p := q) hready hq
  refine ⟨fun q hq => .inr ⟨by rw [(hall q hq).1], (hall q hq).2⟩, ?_, hat.count, hat.final⟩
  refine E.congr (fun q hq => ?_) (E.turn hat.inv fun q hq => ?_)
  · rw [Stage.view, (hall q hq).1, if_neg (Nat.lt_succ_self e).ne]
  · have hfinal := hat.final q hq (hall q hq).2
    rw [Stage.view, if_pos (hall q hq).1]
    rwa [(hall q hq).1] at hfinal

end

lemma AtEpoch.release_le {e' : ℕ} (hat : E.AtEpoch h e' st flags)
    (hall : ∀ p ∈ E.members h, e + 1 ≤ (st p).arrivals) : E.release h e ≤ flags (.counter h) := by
  have hsum : ∑ _p ∈ E.members h, (e + 1) ≤ ∑ p ∈ E.members h, (st p).arrivals := sum_le_sum hall
  rw [sum_const_nat fun _ _ => rfl] at hsum
  rw [hat.count, release]
  omega

lemma AtEpoch.leave (hat : E.AtEpoch h e st flags) (hp : p ∈ E.members h)
    (hg : (st p).arrived = true) (hready : E.release h (st p).epoch ≤ flags (.counter h)) :
    ∃ e', E.AtEpoch h e' (update st p ⟨(st p).epoch + 1, false, E.start⟩) flags := by
  obtain ⟨e', hepoch, hat'⟩ : ∃ e', (st p).epoch + 1 = e' ∧ E.AtEpoch h e' st flags := by
    rcases hat.near p hp with hepoch | ⟨hepoch, -⟩
    · exact ⟨e + 1, congrArg (· + 1) hepoch, hat.turn (hepoch ▸ hready)⟩
    · -- somebody else has left it already
      exact ⟨e, hepoch, hat⟩
  refine ⟨e', hat'.move hp hepoch ?_ ?_ nofun⟩
  · have hold : (st p).view E.start e' = E.start := if_neg (by omega)
    have hnew : (⟨(st p).epoch + 1, false, E.start⟩ : Stage S).view E.start e' =
        (st p).view E.start e' := (ite_self _).trans hold.symm
    rw [hnew, update_eq_self]
    exact hat'.inv
  · rw [Stage.arrivals_of_arrived hg, Stage.arrivals_of_not_arrived rfl]

/-- The other groups do not notice that a process of one group does something with the words of this
group. -/
private lemma AtEpoch.others {h' : H} (hat : E.AtEpoch h' e st flags) (hp : p ∈ E.members h)
    (hne : h' ≠ h) (g : Stage S) (hflags : ∀ w, w ≠ .flag h → w ≠ .counter h → flags' w = flags w) :
    E.AtEpoch h' e (update st p g) flags' := by
  refine hat.frame (fun q hq => update_of_ne ?_ _ _) (hflags _ ?_ nofun) (hflags _ nofun ?_)
  · rintro rfl
    exact hne (E.disjoint hq hp)
  all_goals
    rintro ⟨⟩
    exact hne rfl

/-! ### The discipline -/

variable [DecidableEq H]

variable (E) in
/-- **The discipline of the epochs.** -/
def discipline : Discipline P (Word H) L (Stage S) where
  Possible st flags := ∀ h, ∃ e, E.AtEpoch h e st flags
  mayStore p g l := ∃ h, p ∈ E.members h ∧ g.arrived = false ∧ E.mayStore h g.epoch p g.note l
  mayLoad p g l := ∃ h, p ∈ E.members h ∧ g.arrived = false ∧ E.mayLoad h g.epoch p g.note l
  mayModify := E.MayModify
  mayWait := E.MayWait
  exclusive := by
    rintro st flags p q l hpossible hpq ⟨h, hp, hgp, hmay⟩
    obtain ⟨e, hat⟩ := hpossible h
    rw [hat.epoch_eq hp hgp, ← hat.view_eq hp hgp] at hmay
    constructor
    · rintro ⟨h', hq, hgq, hmay'⟩
      obtain rfl : h = h' := (E.store_home hmay).symm.trans (E.store_home hmay')
      rw [hat.epoch_eq hq hgq, ← hat.view_eq hq hgq] at hmay'
      exact (E.exclusive hat.inv hp hq hpq hmay).1 hmay'
    · rintro ⟨h', hq, hgq, hmay'⟩
      obtain rfl : h = h' := (E.store_home hmay).symm.trans (E.load_home hmay')
      rw [hat.epoch_eq hq hgq, ← hat.view_eq hq hgq] at hmay'
      exact (E.exclusive hat.inv hp hq hpq hmay).2 hmay'
  modify := by
    intro st flags p f change g hpossible hmay h'
    obtain ⟨e, hat⟩ := hpossible h'
    cases hmay with
    | @set h v s hp hg hmay =>
      by_cases hne : h' = h
      · subst hne
        rw [hat.epoch_eq hp hg, ← hat.view_eq hp hg] at hmay
        refine ⟨e, hat.note hp hg ?_ (update_of_ne (Word.flag_ne_counter _ _).symm _ _)⟩
        rw [update_self]
        exact E.set hat.inv hp hmay
      · exact ⟨e, hat.others hp hne _ fun w hw _ => update_of_ne hw _ _⟩
    | @arrive h hp hg hmay =>
      by_cases hne : h' = h
      · subst hne
        exact ⟨e, hat.arrive hp hg hmay (update_of_ne (Word.flag_ne_counter _ _) _ _)
          (update_self ..)⟩
      · exact ⟨e, hat.others hp hne _ fun w _ hw => update_of_ne hw _ _⟩
  pass := by
    intro st flags p f ready g hpossible hmay hready h'
    obtain ⟨e, hat⟩ := hpossible h'
    cases hmay with
    | @see h _ s hp hg hmay =>
      by_cases hne : h' = h
      · subst hne
        rw [hat.epoch_eq hp hg, ← hat.view_eq hp hg] at hmay
        exact ⟨e, hat.note hp hg (E.pass hat.inv hp hmay hready) rfl⟩
      · exact ⟨e, hat.others hp hne _ fun _ _ _ => rfl⟩
    | @leave h hp hg =>
      by_cases hne : h' = h
      · subst hne
        exact hat.leave hp hg (of_decide_eq_true hready)
      · exact ⟨e, hat.others hp hne _ fun _ _ _ => rfl⟩
  commute := by
    intro st flags p q f c c' g g' hpossible hpq hmay hmay'
    cases hmay with
    | @set h v s hp hg hmay =>
      cases hmay' with
      | @set _ v' s' hq hg' hmay' =>
        obtain ⟨e, hat⟩ := hpossible h
        rw [hat.epoch_eq hp hg, ← hat.view_eq hp hg] at hmay
        rw [hat.epoch_eq hq hg', ← hat.view_eq hq hg'] at hmay'
        exact E.commute hat.inv hp hq hpq hmay hmay'
    | arrive =>
      cases hmay' with
      | arrive => rfl
  stays := by
    intro st flags p q f change ready g g' hpossible hpq hmay hwait hready
    cases hmay with
    | @set h v s hp hg hmay =>
      cases hwait with
      | @see _ _ s' hq hg' hwait =>
        obtain ⟨e, hat⟩ := hpossible h
        rw [hat.epoch_eq hp hg, ← hat.view_eq hp hg] at hmay
        rw [hat.epoch_eq hq hg', ← hat.view_eq hq hg'] at hwait
        exact E.stays hat.inv hp hq hpq hmay hwait hready
    | arrive =>
      cases hwait with
      | leave =>
        apply decide_eq_true
        exact (of_decide_eq_true hready).trans (Int.le_add_of_nonneg_right Int.one_nonneg)

/-! ### Rules -/

variable {c : Config T M V E.discipline} {l : L}

variable (hp : p ∈ E.members h) (hst : c.state p = ⟨e, false, s⟩)

include hp hst

/-- The group of a process that has not arrived at the barrier is in its epoch. -/
lemma atEpoch_of_state : E.AtEpoch h e c.state c.shared.flags := by
  obtain ⟨e', hat⟩ := c.possible h
  have hepoch : e = e' := by
    rw [← hat.epoch_eq hp (by rw [hst]), hst]
  exact hepoch ▸ hat

lemma mayStore_of_state (hmay : E.mayStore h e p s l) : E.discipline.mayStore p (c.state p) l := by
  rw [hst]
  exact ⟨h, hp, rfl, hmay⟩

lemma mayLoad_of_state (hmay : E.mayLoad h e p s l) : E.discipline.mayLoad p (c.state p) l := by
  rw [hst]
  exact ⟨h, hp, rfl, hmay⟩

variable [DecidableEq T] [DecidableEq L] {s' : S} {Q : Unit → Config T M V E.discipline → Prop}

lemma wp_setFlag {v : ℤ} (hmay : E.maySet h e p s v s')
    (hQ : ∀ c', c.Moved p ⟨e, false, s'⟩ c' → Q () c') : wp p (Prog.setFlag (.flag h) v) Q c := by
  have hmodify : E.MayModify p (c.state p) (.flag h) (fun _ => v) ⟨e, false, s'⟩ := by
    rw [hst]
    exact .set hp rfl hmay
  exact SharedMemory.wp_setFlag hmodify (hQ _ ⟨rfl, rfl, rfl⟩)

lemma wp_waitFlag {ready : ℤ → Bool} (hmay : E.mayWait h e p s ready s')
    (hready : ∀ v, E.Inv h e (fun q => (c.state q).view E.start e) v → ready v = true)
    (hQ : ∀ c', c.Moved p ⟨e, false, s'⟩ c' → Q () c') :
    wp p (Prog.waitFlag (.flag h) ready) Q c := by
  have hwait : E.MayWait p (c.state p) (.flag h) ready ⟨e, false, s'⟩ := by
    rw [hst]
    exact .see hp rfl hmay
  exact SharedMemory.wp_waitFlag hwait (hready _ (atEpoch_of_state hp hst).inv)
    (hQ _ ⟨rfl, rfl, rfl⟩)

end Epochs

/-- A process comes to the barrier of its group, and waits until the counter has the value. -/
def Prog.barrier (h : H) (bound : ℤ) : Prog P T M (Word H) L V Unit := do
  Prog.incrFlag (.counter h)
  Prog.waitFlag (.counter h) fun v => decide (bound ≤ v)

section Barrier

variable [DecidableEq H] [DecidableEq T] [DecidableEq L] {E : Epochs P H L S} {h : H} {e : ℕ}

open Epochs

/-- **A group goes through its barrier.** -/
theorem leads_barrier {n : ℕ} {proc : ℕ → P} (hproc : ∀ x < n, ∀ y < n, proc x = proc y → x = y)
    (hmem : ∀ p, p ∈ E.members h ↔ ∃ x < n, proc x = p) {bound : ℤ} (hbound : bound = E.release h e)
    {note : ℕ → S} {s : System T M V β E.discipline}
    (hstate : ∀ x < n, s.config.state (proc x) = ⟨e, false, note x⟩)
    (hfinal : ∀ x < n, E.final h e (proc x) (note x)) (k : ℕ → Prog P T M (Word H) L V β)
    (hprocs : ∀ x < n, s.procs (proc x) = Prog.barrier h bound >>= fun _ => k x) :
    ∃ s', Frame proc n s s' ∧ s'.config.shared.mem = s.config.shared.mem ∧
      (∀ x < n, s'.config.state (proc x) = ⟨e + 1, false, E.start⟩) ∧
      ∀ x < n, s'.procs (proc x) = k x := by
  subst hbound
  have hmember : ∀ x < n, proc x ∈ E.members h := fun x hx => (hmem _).mpr ⟨x, hx, rfl⟩
  -- everybody arrives
  obtain ⟨s1, hframe1, hmem1, hstate1, hprocs1⟩ := leads_moves hproc
    (fun _ => Prog.incrFlag (.counter h))
    (fun x _ => Prog.waitFlag (.counter h) (fun v => decide (E.release h e ≤ v)) >>= fun _ => k x)
    (fun _ _ => True) (fun x => ⟨e, false, note x⟩) (fun x => ⟨e, true, note x⟩)
    hprocs hstate (by
      intro m hm c _ hst
      have hstm : c.state (proc m) = ⟨e, false, note m⟩ := by
        rw [hst m hm, if_neg (lt_irrefl m)]
      have hmay : E.MayModify (proc m) (c.state (proc m)) (.counter h) (· + 1)
          ⟨e, true, note m⟩ := by
        rw [hstm]
        exact .arrive (hmember m hm) rfl (hfinal m hm)
      exact wp_incrFlag hmay ⟨trivial, rfl, rfl, rfl⟩)
  -- everybody leaves
  obtain ⟨s2, hframe2, hmem2, hstate2, hprocs2⟩ := leads_moves hproc
    (fun _ => Prog.waitFlag (.counter h) (fun v => decide (E.release h e ≤ v)))
    (fun x _ => k x) (fun _ _ => True) (fun x => (⟨e, true, note x⟩ : Stage S))
    (fun _ => ⟨e + 1, false, E.start⟩)
    (fun x hx => by
      obtain ⟨-, -, hx'⟩ := hprocs1 x hx
      exact hx') hstate1 (by
      intro m hm c _ hst
      have hstm : c.state (proc m) = ⟨e, true, note m⟩ := by
        rw [hst m hm, if_neg (lt_irrefl m)]
      have hmay : E.MayWait (proc m) (c.state (proc m)) (.counter h)
          (fun v => decide (E.release h e ≤ v)) ⟨e + 1, false, E.start⟩ := by
        rw [hstm]
        exact .leave (g := ⟨e, true, note m⟩) (hmember m hm) rfl
      refine wp_waitFlag hmay (decide_eq_true ?_) ⟨trivial, rfl, rfl, rfl⟩
      obtain ⟨e', hat⟩ := c.possible h
      refine hat.release_le fun p hp => ?_
      obtain ⟨x, hx, rfl⟩ := (hmem p).mp hp
      rw [hst x hx]
      split_ifs
      · exact le_rfl
      · exact le_rfl)
  refine ⟨s2, hframe1.trans hframe2, hmem2.trans hmem1, hstate2, fun x hx => ?_⟩
  obtain ⟨-, -, hx'⟩ := hprocs2 x hx
  exact hx'

end Barrier

end SharedMemory
