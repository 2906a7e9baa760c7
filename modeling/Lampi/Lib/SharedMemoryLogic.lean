import Lampi.Lib.SharedMemory

/-!
# A program logic for processes with shared memory

To show that every run of some processes ends as it should, it is enough to follow one schedule and
to keep to a discipline on the way.  Here are rules for that.

`wp p prog Q c` says that process `p` can run `prog` alone, from the configuration `c`, without
having to wait and within the discipline, and that `Q` holds then of its result and of the
configuration.  It is computed from the program; `wp_bind` and one rule for each operation take a
program apart.  `wp.leads` turns it into a part of a run of all processes, `leads_each` lets several
processes run one after the other, and **`Leads.completes`** says what such a run, if it comes to
the end, means for all runs.
-/

namespace SharedMemory

open Function Nat List

variable {P T M F L V G α β : Type} [DecidableEq P] [DecidableEq F]

/-- What is shared, and where the processes stand. -/
structure Config (T M V : Type) (D : Discipline P F L G) where
  shared : Shared P T M F L V
  state : P → G
  possible : D.Possible state shared.flags

variable {D : Discipline P F L G}

namespace Config

variable (c : Config T M V D)

def withChan (chan : P × P × T → List M) : Config T M V D :=
  { c with shared := { c.shared with chan := chan } }

def withMem (mem : L → V) : Config T M V D :=
  { c with shared := { c.shared with mem := mem } }

/-- A process changes a flag. -/
def modify (p : P) (f : F) (change : ℤ → ℤ) (g : G) (h : D.mayModify p (c.state p) f change g) :
    Config T M V D where
  shared := { c.shared with
    flags := update c.shared.flags f (change (c.shared.flags f)) }
  state := update c.state p g
  possible := D.modify c.possible h

/-- A process sees a flag that is ready. -/
def pass (p : P) (f : F) (ready : ℤ → Bool) (g : G) (h : D.mayWait p (c.state p) f ready g)
    (hready : ready (c.shared.flags f) = true) : Config T M V D where
  shared := c.shared
  state := update c.state p g
  possible := D.pass c.possible h hready

end Config

variable [DecidableEq T] [DecidableEq L] {p : P} {c : Config T M V D} {prog : Prog P T M F L V α}
  {k : α → Prog P T M F L V β} {n : ℕ} {g : G} {proc : ℕ → P}

/-! ### Running alone -/

/-- Process `p` can run the program to its end while the others rest, and keeps to the discipline;
`Q` holds of the result and of the configuration then. -/
def wp (p : P) : Prog P T M F L V α → (α → Config T M V D → Prop) → Config T M V D → Prop
  | .done a, Q, c => Q a c
  | .send dst tag msg next, Q, c => wp p next Q
      (c.withChan (update c.shared.chan (p, dst, tag) (c.shared.chan (p, dst, tag) ++ [msg])))
  | .recv src tag next, Q, c => ∃ m ms, c.shared.chan (src, p, tag) = m :: ms ∧
      wp p (next m) Q (c.withChan (update c.shared.chan (src, p, tag) ms))
  | .store loc val next, Q, c => D.mayStore p (c.state p) loc ∧
      wp p next Q (c.withMem (update c.shared.mem loc val))
  | .load loc next, Q, c => D.mayLoad p (c.state p) loc ∧ wp p (next (c.shared.mem loc)) Q c
  | .modify f change next, Q, c => ∃ g, ∃ h : D.mayModify p (c.state p) f change g,
      wp p next Q (c.modify p f change g h)
  | .wait f ready next, Q, c => ∃ g, ∃ h : D.mayWait p (c.state p) f ready g,
      ∃ hready : ready (c.shared.flags f) = true, wp p next Q (c.pass p f ready g h hready)

lemma wp_pure {a : α} {Q : α → Config T M V D → Prop} : wp p (pure a) Q c ↔ Q a c := Iff.rfl

lemma wp_bind {Q : β → Config T M V D → Prop} :
    wp p (prog >>= k) Q c ↔ wp p prog (fun a c => wp p (k a) Q c) c := by
  show wp p (prog.bind k) Q c ↔ _
  induction prog generalizing c with
  | done a => rfl
  | send dst tag msg next ih => exact ih
  | recv src tag next ih =>
    exact exists_congr fun m => exists_congr fun ms => and_congr_right' (ih m)
  | store loc val next ih => exact and_congr_right' ih
  | load loc next ih => exact and_congr_right' (ih _)
  | modify f change next ih => exact exists_congr fun g => exists_congr fun h => ih
  | wait f ready next ih =>
    exact exists_congr fun g => exists_congr fun h => exists_congr fun hready => ih

lemma wp.mono {Q Q' : α → Config T M V D → Prop} (h : wp p prog Q c)
    (hQ : ∀ a c, Q a c → Q' a c) : wp p prog Q' c := by
  induction prog generalizing c with
  | done a => exact hQ a c h
  | send dst tag msg next ih => exact ih h
  | recv src tag next ih =>
    obtain ⟨m, ms, hm, hnext⟩ := h
    exact ⟨m, ms, hm, ih m hnext⟩
  | store loc val next ih => exact ⟨h.1, ih h.2⟩
  | load loc next ih => exact ⟨h.1, ih _ h.2⟩
  | modify f change next ih =>
    obtain ⟨g, hmay, hnext⟩ := h
    exact ⟨g, hmay, ih hnext⟩
  | wait f ready next ih =>
    obtain ⟨g, hmay, hready, hnext⟩ := h
    exact ⟨g, hmay, hready, ih hnext⟩

/-! ### Runs of all processes -/

/-- The processes and the configuration they are in. -/
structure System (T M V α : Type) (D : Discipline P F L G) where
  procs : P → Prog P T M F L V α
  config : Config T M V D

/-- The processes with what they share. -/
def System.net (s : System T M V α D) : Net P T M F L V α := ⟨s.procs, s.config.shared⟩

/-- Some run that keeps to the discipline leads from one state to the other. -/
def Leads (s s' : System T M V α D) : Prop :=
  ∃ n, GuardedRun D n s.net s.config.state s'.net s'.config.state

variable {s s' s'' : System T M V α D}

lemma Leads.refl (s : System T M V α D) : Leads s s := ⟨0, GuardedRun.refl _ _⟩

private lemma GuardedRun.trans {m : ℕ} {net net' net'' : Net P T M F L V α} {st st' st'' : P → G}
    (h : GuardedRun D n net st net' st') (h' : GuardedRun D m net' st' net'' st'') :
    GuardedRun D (n + m) net st net'' st'' := by
  induction h with
  | refl =>
    rw [Nat.zero_add]
    exact h'
  | head p g hstep hallows _ ih =>
    rw [Nat.add_right_comm]
    exact GuardedRun.head p g hstep hallows (ih h')

lemma Leads.trans (h : Leads s s') (h' : Leads s' s'') : Leads s s'' := by
  obtain ⟨n, hn⟩ := h
  obtain ⟨m, hm⟩ := h'
  exact ⟨n + m, hn.trans hm⟩

private lemma leads_head (hact : act p (s.procs p) s.config.shared = some (prog, c.shared))
    (hallows : D.Allows p (s.config.state p) (s.procs p) g)
    (hstate : c.state = update s.config.state p g) (hrest : Leads ⟨update s.procs p prog, c⟩ s') :
    Leads s s' := by
  obtain ⟨n, hn⟩ := hrest
  have hn' : GuardedRun D n ⟨update s.procs p prog, c.shared⟩ c.state s'.net
    s'.config.state := hn
  rw [hstate] at hn'
  exact ⟨n + 1, GuardedRun.head p g (stepOf_of_act hact) hallows hn'⟩

private lemma leads_next {Q : α → Config T M V D → Prop} {c' : Config T M V D}
    {procs : P → Prog P T M F L V β} {prog' : Prog P T M F L V β}
    (hrest : ∀ procs, procs p = prog >>= k →
      ∃ a c'', Q a c'' ∧ Leads ⟨procs, c'⟩ ⟨update procs p (k a), c''⟩)
    (hp : procs p = prog') (hact : act p prog' c.shared = some (prog >>= k, c'.shared))
    (hallows : D.Allows p (c.state p) prog' g) (hstate : c'.state = update c.state p g) :
    ∃ a c'', Q a c'' ∧ Leads ⟨procs, c⟩ ⟨update procs p (k a), c''⟩ := by
  subst hp
  obtain ⟨a, c'', hQ, hleads⟩ := hrest (update procs p (prog >>= k)) (update_self ..)
  rw [update_idem] at hleads
  exact ⟨a, c'', hQ, leads_head hact hallows hstate hleads⟩

/-- **One process runs alone.** -/
theorem wp.leads {Q : α → Config T M V D → Prop} {s : System T M V β D} (h : wp p prog Q s.config)
    (hp : s.procs p = prog >>= k) : ∃ a c, Q a c ∧ Leads s ⟨update s.procs p (k a), c⟩ := by
  obtain ⟨procs, c⟩ := s
  induction prog generalizing procs c with
  | done a =>
    have hprocs : update procs p (k a) = procs := update_eq_self_iff.mpr hp.symm
    refine ⟨a, c, h, ?_⟩
    rw [hprocs]
    exact Leads.refl _
  | send dst tag msg next ih =>
    exact leads_next (fun procs => ih procs _ h) hp rfl rfl (update_eq_self ..).symm
  | recv src tag next ih =>
    obtain ⟨m, ms, hm, h⟩ := h
    exact leads_next (fun procs => ih m procs _ h) hp (act_recv hm) rfl (update_eq_self ..).symm
  | store loc val next ih =>
    obtain ⟨hmay, h⟩ := h
    exact leads_next (fun procs => ih procs _ h) hp rfl ⟨hmay, rfl⟩ (update_eq_self ..).symm
  | load loc next ih =>
    obtain ⟨hmay, h⟩ := h
    exact leads_next (fun procs => ih _ procs _ h) hp rfl ⟨hmay, rfl⟩ (update_eq_self ..).symm
  | modify f change next ih =>
    obtain ⟨g, hmay, h⟩ := h
    exact leads_next (fun procs => ih procs _ h) hp rfl hmay rfl
  | wait f ready next ih =>
    obtain ⟨g, hmay, hready, h⟩ := h
    exact leads_next (fun procs => ih procs _ h) hp (act_wait hready) hmay rfl

/-- **One such run speaks for all.** -/
theorem Leads.completes (h : Leads s s') (hdone : Finished s'.net) : Completes s.net s'.net := by
  obtain ⟨n, hn⟩ := h
  exact hn.completes hdone s.config.possible

lemma Leads.finished (h : Leads s s') {A : P → Prop}
    (hin : ∀ p, A p → ∃ a, s'.procs p = .done a) (hout : ∀ p, ¬A p → ∃ a, s.procs p = .done a) :
    Finished s'.net := by
  obtain ⟨n, hn⟩ := h
  intro p
  by_cases hp : A p
  · exact hin p hp
  · obtain ⟨a, ha⟩ := hout p hp
    exact ⟨a, hn.steps.procs_of_done ha⟩

/-! ### Rules -/

section Rules

variable {p : P} {c : Config T M V D} {mem : L → V} {writes : List (L × V)} {locs : List L}
  {Q : Unit → Config T M V D → Prop} {f : F}

def writeAll (mem : L → V) (writes : List (L × V)) : L → V :=
  writes.foldl (fun mem w => update mem w.1 w.2) mem

lemma writeAll_of_not_mem {l : L} (h : ∀ w ∈ writes, w.1 ≠ l) : writeAll mem writes l = mem l := by
  induction writes generalizing mem with
  | nil => rfl
  | cons w writes ih =>
    obtain ⟨hw, hrest⟩ := forall_mem_cons.mp h
    exact (ih hrest).trans (update_of_ne (Ne.symm hw) _ _)

lemma writeAll_of_mem {w : L × V} (hw : w ∈ writes) (hnodup : (writes.map Prod.fst).Nodup) :
    writeAll mem writes w.1 = w.2 := by
  induction writes generalizing mem with
  | nil => cases hw
  | cons v writes ih =>
    obtain ⟨hv, hnodup⟩ := nodup_cons.mp hnodup
    rcases mem_cons.mp hw with rfl | hw
    · -- the later writes go elsewhere
      have hne : ∀ u ∈ writes, u.1 ≠ w.1 := fun u hu heq =>
        hv (mem_map.mpr ⟨u, hu, heq⟩)
      exact (writeAll_of_not_mem hne).trans (update_self ..)
    · exact ih hw hnodup

lemma map_writeAll_zip {vals : List V} (hnodup : locs.Nodup) (hlen : locs.length = vals.length) :
    locs.map (writeAll mem (locs.zip vals)) = vals := by
  have hfst : (locs.zip vals).map Prod.fst = locs := map_fst_zip hlen.le
  apply ext_getElem
  · rw [length_map, hlen]
  · intro i hi hi'
    rw [getElem_map]
    have hmem : (locs[i], vals[i]) ∈ locs.zip vals := by
      have hzip : i < (locs.zip vals).length := by
        rw [length_zip, hlen, min_self]
        exact hi'
      rw [← getElem_zip (h := hzip)]
      exact getElem_mem hzip
    apply writeAll_of_mem hmem
    rw [hfst]
    exact hnodup

lemma wp_storeAll (hmay : ∀ w ∈ writes, D.mayStore p (c.state p) w.1)
    (h : Q () (c.withMem (writeAll c.shared.mem writes))) : wp p (Prog.storeAll writes) Q c := by
  induction writes generalizing c with
  | nil => exact h
  | cons w writes ih =>
    obtain ⟨hw, hrest⟩ := forall_mem_cons.mp hmay
    exact ⟨hw, ih hrest h⟩

lemma wp_loadAll {Q : List V → Config T M V D → Prop}
    (hmay : ∀ l ∈ locs, D.mayLoad p (c.state p) l) (h : Q (locs.map c.shared.mem) c) :
    wp p (Prog.loadAll locs) Q c := by
  induction locs generalizing Q with
  | nil => exact h
  | cons l locs ih =>
    obtain ⟨hl, hrest⟩ := forall_mem_cons.mp hmay
    exact ⟨hl, wp_bind.mpr (ih hrest h)⟩

lemma wp_setFlag {val : ℤ} (hmay : D.mayModify p (c.state p) f (fun _ => val) g)
    (h : Q () (c.modify p f (fun _ => val) g hmay)) : wp p (Prog.setFlag f val) Q c := ⟨g, hmay, h⟩

lemma wp_incrFlag (hmay : D.mayModify p (c.state p) f (· + 1) g)
    (h : Q () (c.modify p f (· + 1) g hmay)) : wp p (Prog.incrFlag f) Q c := ⟨g, hmay, h⟩

lemma wp_waitFlag {ready : ℤ → Bool} (hmay : D.mayWait p (c.state p) f ready g)
    (hready : ready (c.shared.flags f) = true) (h : Q () (c.pass p f ready g hmay hready)) :
    wp p (Prog.waitFlag f ready) Q c :=
  ⟨g, hmay, hready, h⟩

end Rules

/-! ### Schedules -/

lemma leads_range {J : ℕ → System T M V α D → Prop}
    (hstep : ∀ m < n, ∀ s, J m s → ∃ s', Leads s s' ∧ J (m + 1) s') (hinit : J 0 s) :
    ∃ s', Leads s s' ∧ J n s' := by
  induction n with
  | zero => exact ⟨s, Leads.refl s, hinit⟩
  | succ n ih =>
    obtain ⟨s1, hleads1, h1⟩ := ih fun m hm => hstep m (hm.trans (lt_succ_self n))
    obtain ⟨s2, hleads2, h2⟩ := hstep n (lt_succ_self n) s1 h1
    exact ⟨s2, hleads1.trans hleads2, h2⟩

/-- Part of a run in which only the processes `proc x` with `x < n` take part. -/
structure LeadsBy (proc : ℕ → P) (n : ℕ) (s s' : System T M V α D) : Prop where
  leads : Leads s s'
  procs : ∀ p, (∀ x < n, proc x ≠ p) → s'.procs p = s.procs p

lemma LeadsBy.refl (s : System T M V α D) : LeadsBy proc n s s :=
  ⟨Leads.refl s, fun _ _ => rfl⟩

lemma LeadsBy.trans (h : LeadsBy proc n s s') (h' : LeadsBy proc n s' s'') : LeadsBy proc n s s'' :=
  ⟨h.leads.trans h'.leads, fun p hp => (h'.procs p hp).trans (h.procs p hp)⟩

/-- Each of `n` processes runs its program alone, one after the other.  `Inv` says what holds of the
configuration after some of them, and `R` of the results. -/
lemma leads_each (hproc : ∀ x < n, ∀ y < n, proc x = proc y → x = y)
    (prog : ℕ → Prog P T M F L V α) (k : ℕ → α → Prog P T M F L V β) (R : ℕ → α → Prop)
    (Inv : ℕ → Config T M V D → Prop) {s : System T M V β D}
    (hprocs : ∀ x < n, s.procs (proc x) = prog x >>= k x) (hinit : Inv 0 s.config)
    (hrun : ∀ m < n, ∀ c, Inv m c → wp (proc m) (prog m) (fun a c' => R m a ∧ Inv (m + 1) c') c) :
    ∃ s', LeadsBy proc n s s' ∧ Inv n s'.config ∧
      ∀ x < n, ∃ a, R x a ∧ s'.procs (proc x) = k x a := by
  -- those that have run are at their continuation, the others where they were
  let J : ℕ → System T M V β D → Prop := fun m s' => Inv m s'.config ∧
    (∀ x < m, ∃ a, R x a ∧ s'.procs (proc x) = k x a) ∧
    ∀ p, (∀ x < m, proc x ≠ p) → s'.procs p = s.procs p
  have hstep : ∀ m < n, ∀ s1, J m s1 → ∃ s2, Leads s1 s2 ∧ J (m + 1) s2 := by
    rintro m hm s1 ⟨hinv, hran, hrest⟩
    have hnot : ∀ x < m, proc x ≠ proc m := fun x hx heq =>
      absurd (hproc x (hx.trans hm) m hm heq) hx.ne
    obtain ⟨a, c, ⟨hR, hinv'⟩, hleads⟩ := (hrun m hm s1.config hinv).leads
      ((hrest _ hnot).trans (hprocs m hm))
    refine ⟨_, hleads, hinv', fun x hx => ?_, fun p hp => ?_⟩
    · rcases Nat.lt_succ_iff_lt_or_eq.mp hx with hlt | rfl
      · obtain ⟨a', hR', hx'⟩ := hran x hlt
        exact ⟨a', hR', (update_of_ne (hnot x hlt) _ _).trans hx'⟩
      · exact ⟨a, hR, update_self ..⟩
    · have hne := hp m (lt_succ_self m)
      refine (update_of_ne hne.symm _ _).trans (hrest p fun x hx => ?_)
      exact hp x (hx.trans (lt_succ_self m))
  obtain ⟨s', hleads, hinv, hran, hrest⟩ := leads_range hstep (s := s)
    ⟨hinit, fun x hx => absurd hx (not_lt_zero x), fun _ _ => rfl⟩
  exact ⟨s', ⟨hleads, hrest⟩, hinv, hran⟩

/-- Only the flags and the state of process `p` have changed. -/
structure Config.Moved (p : P) (g : G) (c c' : Config T M V D) : Prop where
  mem : c'.shared.mem = c.shared.mem
  chan : c'.shared.chan = c.shared.chan
  state : c'.state = update c.state p g

/-- They do so without leaving messages under way, and the others stay where they stand. -/
structure Frame (proc : ℕ → P) (n : ℕ) (s s' : System T M V α D) : Prop
    extends LeadsBy proc n s s' where
  state : ∀ p, (∀ x < n, proc x ≠ p) → s'.config.state p = s.config.state p
  chan : s'.config.shared.chan = s.config.shared.chan

lemma Frame.refl (s : System T M V α D) : Frame proc n s s :=
  ⟨LeadsBy.refl s, fun _ _ => rfl, rfl⟩

lemma Frame.trans (h : Frame proc n s s') (h' : Frame proc n s' s'') : Frame proc n s s'' :=
  ⟨h.toLeadsBy.trans h'.toLeadsBy, fun p hp => (h'.state p hp).trans (h.state p hp),
    h'.chan.trans h.chan⟩

/-- Each of `n` processes runs alone, one after the other, from one state to another and without
writing the memory. -/
lemma leads_moves (hproc : ∀ x < n, ∀ y < n, proc x = proc y → x = y)
    (prog : ℕ → Prog P T M F L V α) (k : ℕ → α → Prog P T M F L V β) (R : ℕ → α → Prop)
    (g g' : ℕ → G) {s : System T M V β D} (hprocs : ∀ x < n, s.procs (proc x) = prog x >>= k x)
    (hstate : ∀ x < n, s.config.state (proc x) = g x)
    (hrun : ∀ m < n, ∀ c : Config T M V D, c.shared.mem = s.config.shared.mem →
      (∀ x < n, c.state (proc x) = if x < m then g' x else g x) →
      wp (proc m) (prog m) (fun a c' => R m a ∧ c.Moved (proc m) (g' m) c') c) :
    ∃ s', Frame proc n s s' ∧ s'.config.shared.mem = s.config.shared.mem ∧
      (∀ x < n, s'.config.state (proc x) = g' x) ∧
      ∀ x < n, ∃ a, R x a ∧ s'.procs (proc x) = k x a := by
  let Inv : ℕ → Config T M V D → Prop := fun m c =>
    c.shared.mem = s.config.shared.mem ∧ c.shared.chan = s.config.shared.chan ∧
    (∀ x < n, c.state (proc x) = if x < m then g' x else g x) ∧
    ∀ p, (∀ x < n, proc x ≠ p) → c.state p = s.config.state p
  have hinit : Inv 0 s.config := by
    refine ⟨rfl, rfl, fun x hx => ?_, fun _ _ => rfl⟩
    exact hstate x hx
  obtain ⟨s', hleads, ⟨hmem, hchan, hst, hother⟩, hran⟩ :=
    leads_each hproc prog k R Inv hprocs hinit (by
      rintro m hm c ⟨hmem, hchan, hst, hother⟩
      refine (hrun m hm c hmem hst).mono fun a c' ⟨hR, hmoved⟩ => ⟨hR, hmoved.mem.trans hmem,
        hmoved.chan.trans hchan, fun x hx => ?_, fun p hp => ?_⟩
      · rw [hmoved.state]
        by_cases hxm : x = m
        · subst hxm
          rw [update_self, if_pos (lt_succ_self x)]
        · rw [update_of_ne fun heq => hxm (hproc x hx m hm heq), hst x hx]
          exact if_congr (by omega) rfl rfl
      · rw [hmoved.state, update_of_ne (hp m hm).symm]
        exact hother p hp)
  refine ⟨s', ⟨hleads, hother, hchan⟩, hmem, fun x hx => ?_, hran⟩
  rw [hst x hx, if_pos hx]

end SharedMemory
