import Mathlib.Data.Nat.Find
import Mathlib.Order.Basic
import Lampi.Lib.MessagePassing

/-!
# Processes with shared memory

Processes exchange messages as in a network of queues, and read and write the locations of a memory
that they share.  They synchronise by flags: a process changes the value of a flag, in one step, and
others wait until the value is one that they can go on with.

The schedule can matter only if two processes use one location at the same time, or if a flag is
changed again before everybody who waits has seen its value.  A `Discipline` gives each process a
state that says where it stands, tells which states and values of the flags are possible together,
and what a process may do where it stands.  If in *one* run that ends every step keeps to the
discipline, then all runs end in the same state (`GuardedRun.completes`).  So it is enough to follow
one convenient schedule.
-/

namespace SharedMemory

open Function Option

/-- What a process does: nothing more, send or wait for a message, write or read a location, change
a flag or wait until the value of a flag is ready. -/
inductive Prog (P T M F L V α : Type) : Type
  | done (result : α)
  | send (dst : P) (tag : T) (msg : M) (next : Prog P T M F L V α)
  | recv (src : P) (tag : T) (next : M → Prog P T M F L V α)
  | store (loc : L) (val : V) (next : Prog P T M F L V α)
  | load (loc : L) (next : V → Prog P T M F L V α)
  | modify (flag : F) (change : ℤ → ℤ) (next : Prog P T M F L V α)
  | wait (flag : F) (ready : ℤ → Bool) (next : Prog P T M F L V α)

variable {P T M F L V α β γ : Type}

namespace Prog

def bind : Prog P T M F L V α → (α → Prog P T M F L V β) → Prog P T M F L V β
  | done a, f => f a
  | send dst tag msg next, f => send dst tag msg (next.bind f)
  | recv src tag next, f => recv src tag fun m => (next m).bind f
  | store loc val next, f => store loc val (next.bind f)
  | load loc next, f => load loc fun v => (next v).bind f
  | modify flag change next, f => modify flag change (next.bind f)
  | wait flag ready next, f => wait flag ready (next.bind f)

lemma bind_done (p : Prog P T M F L V α) : p.bind done = p := by
  induction p with
  | done a => rfl
  | send dst tag msg next ih => exact congrArg (send dst tag msg) ih
  | recv src tag next ih => exact congrArg (recv src tag) (funext ih)
  | store loc val next ih => exact congrArg (store loc val) ih
  | load loc next ih => exact congrArg (load loc) (funext ih)
  | modify flag change next ih => exact congrArg (modify flag change) ih
  | wait flag ready next ih => exact congrArg (wait flag ready) ih

lemma bind_bind (p : Prog P T M F L V α) (f : α → Prog P T M F L V β) (g : β → Prog P T M F L V γ)
    : (p.bind f).bind g = p.bind fun a => (f a).bind g := by
  induction p with
  | done a => rfl
  | send dst tag msg next ih => exact congrArg (send dst tag msg) ih
  | recv src tag next ih => exact congrArg (recv src tag) (funext ih)
  | store loc val next ih => exact congrArg (store loc val) ih
  | load loc next ih => exact congrArg (load loc) (funext ih)
  | modify flag change next ih => exact congrArg (modify flag change) ih
  | wait flag ready next ih => exact congrArg (wait flag ready) ih

instance : Monad (Prog P T M F L V) where
  pure := done
  bind := bind

instance : LawfulMonad (Prog P T M F L V) := LawfulMonad.mk' _ bind_done (fun _ _ => rfl) bind_bind

def sendTo (dst : P) (tag : T) (msg : M) : Prog P T M F L V Unit := send dst tag msg (done ())

def recvFrom (src : P) (tag : T) : Prog P T M F L V M := recv src tag done

def storeAll : List (L × V) → Prog P T M F L V Unit
  | [] => done ()
  | (loc, val) :: rest => store loc val (storeAll rest)

def loadAll : List L → Prog P T M F L V (List V)
  | [] => done []
  | loc :: locs => load loc fun v => (loadAll locs).bind fun vs => done (v :: vs)

def setFlag (flag : F) (val : ℤ) : Prog P T M F L V Unit := modify flag (fun _ => val) (done ())

/-- Add one to a flag that is used as a counter. -/
def incrFlag (flag : F) : Prog P T M F L V Unit := modify flag (· + 1) (done ())

def waitFlag (flag : F) (ready : ℤ → Bool) : Prog P T M F L V Unit := wait flag ready (done ())

/-- A program that only exchanges messages. -/
def ofProc : MessagePassing.Proc P T M α → Prog P T M F L V α
  | .done a => done a
  | .send dst tag msg next => send dst tag msg (ofProc next)
  | .recv src tag next => recv src tag fun m => ofProc (next m)

lemma ofProc_bind (prog : MessagePassing.Proc P T M α) (f : α → MessagePassing.Proc P T M β) :
    (ofProc (prog.bind f) : Prog P T M F L V β) = (ofProc prog).bind fun a => ofProc (f a) := by
  induction prog with
  | done a => rfl
  | send dst tag msg next ih => exact congrArg (send dst tag msg) ih
  | recv src tag next ih => exact congrArg (recv src tag) (funext ih)

end Prog

/-! ### Steps -/

/-- What the processes share: the messages under way, the memory and the flags. -/
structure Shared (P T M F L V : Type) where
  chan : P × P × T → List M
  mem : L → V
  flags : F → ℤ

/-- The processes and what they share. -/
structure Net (P T M F L V α : Type) where
  procs : P → Prog P T M F L V α
  shared : Shared P T M F L V

variable [DecidableEq P] [DecidableEq T] [DecidableEq F] [DecidableEq L] {p q : P}

/-- One step of a program that process `p` runs, if it can make one. -/
def act (p : P) : Prog P T M F L V α → Shared P T M F L V →
    Option (Prog P T M F L V α × Shared P T M F L V)
  | .done _, _ => none
  | .send dst tag msg next, sh => some (next, { sh with
      chan := update sh.chan (p, dst, tag) (sh.chan (p, dst, tag) ++ [msg]) })
  | .recv src tag next, sh =>
    match sh.chan (src, p, tag) with
    | [] => none
    | m :: ms => some (next m, { sh with chan := update sh.chan (src, p, tag) ms })
  | .store loc val next, sh => some (next, { sh with mem := update sh.mem loc val })
  | .load loc next, sh => some (next (sh.mem loc), sh)
  | .modify flag change next, sh => some (next, { sh with
      flags := update sh.flags flag (change (sh.flags flag)) })
  | .wait flag ready next, sh => if ready (sh.flags flag) then some (next, sh) else none

/-- The next step of process `p`, if it can make one. -/
def stepOf (p : P) (net : Net P T M F L V α) : Option (Net P T M F L V α) :=
  match act p (net.procs p) net.shared with
  | none => none
  | some (next, sh) => some ⟨update net.procs p next, sh⟩

/-- Runs, with the number of their steps. -/
inductive Steps : ℕ → Net P T M F L V α → Net P T M F L V α → Prop
  | refl (net) : Steps 0 net net
  | head {n net net' net''} (p : P) (hstep : stepOf p net = some net')
      (hrest : Steps n net' net'') : Steps (n + 1) net net''

def Stopped (net : Net P T M F L V α) : Prop := ∀ p, stepOf p net = none

/-- However the processes are scheduled, the run is finite, and where it stops the state is this. -/
def Completes (net final : Net P T M F L V α) : Prop :=
  ∃ bound, ∀ n net', Steps n net net' → n ≤ bound ∧ (Stopped net' → net' = final)

/-! ### Steps that commute -/

section Commute

variable {a a' b b' next prog : Prog P T M F L V α} {sh sh' sh1 sh2 : Shared P T M F L V}
  {net net' net1 net2 : Net P T M F L V α} {dst src : P} {tag : T} {msg m : M} {ms : List M}
  {flag : F} {ready : ℤ → Bool} {loc : L}

/-- The location that the next step writes. -/
def Prog.stores : Prog P T M F L V α → L → Prop
  | .store loc _ _, l => loc = l
  | _, _ => False

/-- The location that the next step reads. -/
def Prog.loads : Prog P T M F L V α → L → Prop
  | .load loc _, l => loc = l
  | _, _ => False

/-- The flag that the next step changes, and how. -/
def Prog.modifies : Prog P T M F L V α → F → (ℤ → ℤ) → Prop
  | .modify flag change _, f, c => flag = f ∧ change = c
  | _, _, _ => False

/-- The flag that the next step waits for, and what is ready. -/
def Prog.waits : Prog P T M F L V α → F → (ℤ → Bool) → Prop
  | .wait flag ready _, f, r => flag = f ∧ ready = r
  | _, _, _ => False

/-- Neither program writes a location that the other uses, or changes a flag such that the other has
to wait again.  If both change a flag, the order does not matter. -/
structure Prog.Compatible (flags : F → ℤ) (a b : Prog P T M F L V α) : Prop where
  stores : ∀ l, a.stores l → ¬b.stores l ∧ ¬b.loads l
  loads : ∀ l, b.stores l → ¬a.loads l
  modifies : ∀ f c c', a.modifies f c → b.modifies f c' → c (c' (flags f)) = c' (c (flags f))
  waits : ∀ f c r, a.modifies f c → b.waits f r → r (flags f) = true → r (c (flags f)) = true
  waits' : ∀ f c r, b.modifies f c → a.waits f r → r (flags f) = true → r (c (flags f)) = true

lemma act_send :
    act p (.send dst tag msg next) sh = some (next, { sh with
      chan := update sh.chan (p, dst, tag) (sh.chan (p, dst, tag) ++ [msg]) }) := rfl

lemma act_recv {next : M → Prog P T M F L V α} (h : sh.chan (src, p, tag) = m :: ms) :
    act p (.recv src tag next) sh =
      some (next m, { sh with chan := update sh.chan (src, p, tag) ms }) := by
  simp only [act, h]

lemma act_recv_cases {next : M → Prog P T M F L V α}
    (h : act p (.recv src tag next) sh = some (prog, sh')) :
    ∃ m ms, sh.chan (src, p, tag) = m :: ms ∧ prog = next m ∧
      sh' = { sh with chan := update sh.chan (src, p, tag) ms } := by
  cases hm : sh.chan (src, p, tag) with
  | nil => simp only [act, hm, reduceCtorEq] at h
  | cons m ms =>
    rw [act_recv hm, some.injEq, Prod.mk.injEq] at h
    exact ⟨m, ms, rfl, h.1.symm, h.2.symm⟩

private lemma act_send_recv_comm {tag' : T} (next : Prog P T M F L V α)
    (next' : M → Prog P T M F L V α) (hm : sh.chan (src, q, tag') = m :: ms) :
    ∃ sh3,
      act q (.recv src tag' next') { sh with
        chan := update sh.chan (p, dst, tag) (sh.chan (p, dst, tag) ++ [msg]) } =
          some (next' m, sh3) ∧
      act p (.send dst tag msg next) { sh with
        chan := update sh.chan (src, q, tag') ms } = some (next, sh3) := by
  obtain ⟨ms', hm', hcomm⟩ := MessagePassing.append_take_comm hm msg
  refine ⟨_, act_recv hm', ?_⟩
  rw [act_send, hcomm]

lemma act_wait (h : ready (sh.flags flag) = true) :
    act p (.wait flag ready next) sh = some (next, sh) := if_pos h

lemma act_wait_cases (h : act p (.wait flag ready next) sh = some (prog, sh')) :
    ready (sh.flags flag) = true ∧ prog = next ∧ sh' = sh := by
  rw [act] at h
  split_ifs at h with hready
  rw [some.injEq, Prod.mk.injEq] at h
  exact ⟨hready, h.1.symm, h.2.symm⟩

private lemma act_send_comm (hpq : p ≠ q) (h : act q b sh = some (b', sh2)) :
    ∃ sh3,
      act q b { sh with
        chan := update sh.chan (p, dst, tag) (sh.chan (p, dst, tag) ++ [msg]) } =
          some (b', sh3) ∧ act p (.send dst tag msg next) sh2 = some (next, sh3) := by
  cases b with
  | done => cases h
  | send dst' tag' msg' next' =>
    -- two senders write to different queues
    have hne : (p, dst, tag) ≠ (q, dst', tag') := fun h => hpq (congrArg Prod.fst h)
    cases h
    refine ⟨_, rfl, ?_⟩
    simp only [act_send, update_of_ne hne, update_of_ne hne.symm, update_comm hne]
  | recv src tag' next' =>
    obtain ⟨m, ms, hm, rfl, rfl⟩ := act_recv_cases h
    exact act_send_recv_comm next next' hm
  | store | load | modify =>
    cases h
    exact ⟨_, rfl, rfl⟩
  | wait flag ready next' =>
    obtain ⟨hready, rfl, rfl⟩ := act_wait_cases h
    exact ⟨_, act_wait hready, rfl⟩

private lemma act_recv_comm {next : M → Prog P T M F L V α} (hpq : p ≠ q)
    (hm : sh.chan (src, p, tag) = m :: ms) (h : act q b sh = some (b', sh2)) :
    ∃ sh3,
      act q b { sh with chan := update sh.chan (src, p, tag) ms } = some (b', sh3) ∧
      act p (.recv src tag next) sh2 = some (next m, sh3) := by
  cases b with
  | done => cases h
  | send dst' tag' msg' next' =>
    cases h
    obtain ⟨sh3, hrecv, hsend⟩ := act_send_recv_comm (p := q) _ next hm
    exact ⟨sh3, hsend, hrecv⟩
  | recv src' tag' next' =>
    -- two receivers take from different queues
    have hne : (src, p, tag) ≠ (src', q, tag') := fun h => hpq (congrArg (·.2.1) h)
    obtain ⟨m', ms', hm', rfl, rfl⟩ := act_recv_cases h
    refine ⟨_, act_recv ((update_of_ne hne.symm _ _).trans hm'), ?_⟩
    rw [act_recv ((update_of_ne hne _ _).trans hm)]
    simp only [update_comm hne]
  | store | load | modify =>
    cases h
    exact ⟨_, rfl, act_recv hm⟩
  | wait flag ready next' =>
    obtain ⟨hready, rfl, rfl⟩ := act_wait_cases h
    exact ⟨_, act_wait hready, act_recv hm⟩

private lemma act_store_comm {val : V}
    (hcompat : Prog.Compatible sh.flags (.store loc val next) b) (h : act q b sh = some (b', sh2)) :
    ∃ sh3,
      act q b { sh with mem := update sh.mem loc val } = some (b', sh3) ∧
      act p (.store loc val next) sh2 = some (next, sh3) := by
  cases b with
  | done => cases h
  | send =>
    cases h
    exact ⟨_, rfl, rfl⟩
  | recv src tag next' =>
    obtain ⟨m, ms, hm, rfl, rfl⟩ := act_recv_cases h
    exact ⟨_, act_recv hm, rfl⟩
  | store loc' val' next' =>
    have hne : loc ≠ loc' := fun heq => (hcompat.stores loc rfl).1 heq.symm
    cases h
    refine ⟨_, rfl, ?_⟩
    simp only [act, update_comm hne]
  | load loc' next' =>
    have hne : loc' ≠ loc := fun heq => (hcompat.stores loc rfl).2 heq
    cases h
    refine ⟨_, ?_, rfl⟩
    simp only [act, update_of_ne hne]
  | modify =>
    cases h
    exact ⟨_, rfl, rfl⟩
  | wait flag ready next' =>
    obtain ⟨hready, rfl, rfl⟩ := act_wait_cases h
    exact ⟨_, act_wait hready, rfl⟩

private lemma act_modify_comm {change : ℤ → ℤ}
    (hcompat : Prog.Compatible sh.flags (.modify flag change next) b)
    (h : act q b sh = some (b', sh2)) :
    ∃ sh3,
      act q b { sh with flags := update sh.flags flag (change (sh.flags flag)) } =
        some (b', sh3) ∧ act p (.modify flag change next) sh2 = some (next, sh3) := by
  cases b with
  | done => cases h
  | send | store | load =>
    cases h
    exact ⟨_, rfl, rfl⟩
  | recv src tag next' =>
    obtain ⟨m, ms, hm, rfl, rfl⟩ := act_recv_cases h
    exact ⟨_, act_recv hm, rfl⟩
  | modify flag' change' next' =>
    cases h
    refine ⟨_, rfl, ?_⟩
    by_cases heq : flag = flag'
    · subst heq
      have hcomm := hcompat.modifies flag change change' ⟨rfl, rfl⟩ ⟨rfl, rfl⟩
      simp only [act, update_self, update_idem, hcomm]
    · simp only [act, update_of_ne heq, update_of_ne (Ne.symm heq), update_comm heq]
  | wait flag' ready next' =>
    obtain ⟨hready, rfl, rfl⟩ := act_wait_cases h
    refine ⟨_, act_wait ?_, rfl⟩
    by_cases heq : flag' = flag
    · subst heq
      dsimp only
      rw [update_self]
      exact hcompat.waits flag' change ready ⟨rfl, rfl⟩ ⟨rfl, rfl⟩ hready
    · exact (congrArg ready (update_of_ne heq _ _)).trans hready

omit [DecidableEq P] [DecidableEq T] [DecidableEq F] [DecidableEq L] in
lemma Prog.Compatible.symm {flags : F → ℤ} (h : Compatible flags a b) : Compatible flags b a where
  stores l hb := ⟨fun ha => (h.stores l ha).1 hb, h.loads l hb⟩
  loads l ha := (h.stores l ha).2
  modifies f c c' hb ha := (h.modifies f c' c ha hb).symm
  waits := h.waits'
  waits' := h.waits

private lemma act_read_comm (hpq : p ≠ q) (hcompat : Prog.Compatible sh.flags a b)
    (h1 : act p a sh = some (a', sh)) (h2 : act q b sh = some (b', sh2)) :
    ∃ sh3, act q b sh = some (b', sh3) ∧ act p a sh2 = some (a', sh3) := by
  cases b with
  | done => cases h2
  | send =>
    cases h2
    exact (act_send_comm hpq.symm h1).imp fun _ => And.symm
  | recv src tag next =>
    obtain ⟨m, ms, hm, rfl, rfl⟩ := act_recv_cases h2
    exact (act_recv_comm hpq.symm hm h1).imp fun _ => And.symm
  | store =>
    cases h2
    exact (act_store_comm hcompat.symm h1).imp fun _ => And.symm
  | modify =>
    cases h2
    exact (act_modify_comm hcompat.symm h1).imp fun _ => And.symm
  | load =>
    cases h2
    exact ⟨sh, rfl, h1⟩
  | wait =>
    obtain ⟨-, -, rfl⟩ := act_wait_cases h2
    exact ⟨_, h2, h1⟩

/-- **Steps of different processes commute** if they are compatible. -/
theorem act_comm (hpq : p ≠ q) (hcompat : Prog.Compatible sh.flags a b)
    (h1 : act p a sh = some (a', sh1)) (h2 : act q b sh = some (b', sh2)) :
    ∃ sh3, act q b sh1 = some (b', sh3) ∧ act p a sh2 = some (a', sh3) := by
  cases a with
  | done => cases h1
  | send =>
    cases h1
    exact act_send_comm hpq h2
  | recv src tag next =>
    obtain ⟨m, ms, hm, rfl, rfl⟩ := act_recv_cases h1
    exact act_recv_comm hpq hm h2
  | store =>
    cases h1
    exact act_store_comm hcompat h2
  | modify =>
    cases h1
    exact act_modify_comm hcompat h2
  | load =>
    cases h1
    exact act_read_comm hpq hcompat rfl h2
  | wait =>
    obtain ⟨-, -, rfl⟩ := act_wait_cases h1
    exact act_read_comm hpq hcompat h1 h2

lemma stepOf_of_act (h : act p (net.procs p) net.shared = some (a, sh)) :
    stepOf p net = some ⟨update net.procs p a, sh⟩ := by
  simp only [stepOf, h]

lemma stepOf_cases (h : stepOf p net = some net') :
    ∃ a sh, act p (net.procs p) net.shared = some (a, sh) ∧ net' = ⟨update net.procs p a, sh⟩ := by
  unfold stepOf at h
  split at h
  · cases h
  · rename_i a sh hact
    exact ⟨a, sh, hact, (some.inj h).symm⟩

lemma stepOf_comm (hpq : p ≠ q)
    (hcompat : Prog.Compatible net.shared.flags (net.procs p) (net.procs q))
    (h1 : stepOf p net = some net1) (h2 : stepOf q net = some net2) :
    ∃ net3, stepOf q net1 = some net3 ∧ stepOf p net2 = some net3 := by
  obtain ⟨a, sh1, ha, rfl⟩ := stepOf_cases h1
  obtain ⟨b, sh2, hb, rfl⟩ := stepOf_cases h2
  obtain ⟨sh3, hb', ha'⟩ := act_comm hpq hcompat ha hb
  refine ⟨⟨update (update net.procs p a) q b, sh3⟩, ?_, ?_⟩
  · apply stepOf_of_act
    dsimp only
    rw [update_of_ne hpq.symm]
    exact hb'
  · rw [update_comm hpq]
    apply stepOf_of_act
    dsimp only
    rw [update_of_ne hpq]
    exact ha'

lemma procs_of_stepOf (hpq : p ≠ q) (h : stepOf q net = some net') :
    net'.procs p = net.procs p := by
  obtain ⟨b, sh, -, rfl⟩ := stepOf_cases h
  exact update_of_ne hpq _ _

end Commute

/-! ### Disciplines -/

/-- Each process is in a state.  `Possible` says which states and values of the flags go together,
the other relations what a process may do: use a location, or change or see a flag and be in another
state then. -/
structure Discipline (P F L G : Type) [DecidableEq P] [DecidableEq F] where
  Possible : (P → G) → (F → ℤ) → Prop
  mayStore : P → G → L → Prop
  mayLoad : P → G → L → Prop
  mayModify : P → G → F → (ℤ → ℤ) → G → Prop
  mayWait : P → G → F → (ℤ → Bool) → G → Prop
  /-- Nobody may write a location that another process may use. -/
  exclusive : ∀ {st flags p q l}, Possible st flags → p ≠ q → mayStore p (st p) l →
    ¬mayStore q (st q) l ∧ ¬mayLoad q (st q) l
  modify : ∀ {st flags p f change g}, Possible st flags → mayModify p (st p) f change g →
    Possible (update st p g) (update flags f (change (flags f)))
  pass : ∀ {st flags p f ready g}, Possible st flags → mayWait p (st p) f ready g →
    ready (flags f) = true → Possible (update st p g) flags
  /-- If two processes may change a flag, then they may do so in any order. -/
  commute : ∀ {st flags p q f c c' g g'}, Possible st flags → p ≠ q →
    mayModify p (st p) f c g → mayModify q (st q) f c' g' → c (c' (flags f)) = c' (c (flags f))
  /-- A flag that is ready for somebody who may wait for it stays so. -/
  stays : ∀ {st flags p q f change ready g g'}, Possible st flags → p ≠ q →
    mayModify p (st p) f change g → mayWait q (st q) f ready g' → ready (flags f) = true →
    ready (change (flags f)) = true

variable {G : Type} {g : G} {a a' : Prog P T M F L V α} {sh sh' : Shared P T M F L V}

/-- The next step of the program keeps to the discipline, and leads to the second state. -/
def Discipline.Allows (D : Discipline P F L G) (p : P) (g : G) : Prog P T M F L V α → G → Prop
  | .store loc _ _, g' => D.mayStore p g loc ∧ g' = g
  | .load loc _, g' => D.mayLoad p g loc ∧ g' = g
  | .modify flag change _, g' => D.mayModify p g flag change g'
  | .wait flag ready _, g' => D.mayWait p g flag ready g'
  | _, g' => g' = g

section Allows

variable (D : Discipline P F L G) {p : P} {g g' : G} {a b : Prog P T M F L V α} {l : L} {f : F}

omit [DecidableEq T] [DecidableEq L]

section

variable (h : D.Allows p g a g')

include h

lemma Discipline.mayStore_of_stores (hstores : a.stores l) : D.mayStore p g l := by
  cases a with
  | store loc => exact hstores ▸ h.1
  | done | send | recv | load | modify | wait => cases hstores

lemma Discipline.mayLoad_of_loads (hloads : a.loads l) : D.mayLoad p g l := by
  cases a with
  | load loc => exact hloads ▸ h.1
  | done | send | recv | store | modify | wait => cases hloads

lemma Discipline.mayModify_of_modifies {c : ℤ → ℤ} (hmodifies : a.modifies f c) :
    D.mayModify p g f c g' := by
  cases a with
  | modify flag change =>
    obtain ⟨rfl, rfl⟩ := hmodifies
    exact h
  | done | send | recv | store | load | wait => cases hmodifies

lemma Discipline.mayWait_of_waits {r : ℤ → Bool} (hwaits : a.waits f r) : D.mayWait p g f r g' := by
  cases a with
  | wait flag ready =>
    obtain ⟨rfl, rfl⟩ := hwaits
    exact h
  | done | send | recv | store | load | modify => cases hwaits

end

lemma Discipline.compatible {flags : F → ℤ} (hpq : p ≠ q) (h : D.Possible st flags)
    (ha : D.Allows p (st p) a g) (hb : D.Allows q (st q) b g') : Prog.Compatible flags a b := by
  constructor
  · intro l hstore
    obtain ⟨hnoStore, hnoLoad⟩ := D.exclusive h hpq (D.mayStore_of_stores ha hstore)
    exact ⟨fun hb' => hnoStore (D.mayStore_of_stores hb hb'),
      fun hb' => hnoLoad (D.mayLoad_of_loads hb hb')⟩
  · intro l hstore hload
    exact (D.exclusive h hpq.symm (D.mayStore_of_stores hb hstore)).2 (D.mayLoad_of_loads ha hload)
  · intro f c c' hc hc'
    exact D.commute h hpq (D.mayModify_of_modifies ha hc) (D.mayModify_of_modifies hb hc')
  · intro f c r hc hr
    exact D.stays h hpq (D.mayModify_of_modifies ha hc) (D.mayWait_of_waits hb hr)
  · intro f c r hc hr
    exact D.stays h hpq.symm (D.mayModify_of_modifies hb hc) (D.mayWait_of_waits ha hr)

end Allows

lemma Discipline.step (D : Discipline P F L G) (h : D.Possible st sh.flags)
    (hallows : D.Allows p (st p) a g) (hact : act p a sh = some (a', sh')) :
    D.Possible (update st p g) sh'.flags := by
  have hstay : g = st p → D.Possible (update st p g) sh.flags := by
    rintro rfl
    rw [update_eq_self]
    exact h
  cases a with
  | done => cases hact
  | send =>
    cases hact
    exact hstay hallows
  | store | load =>
    cases hact
    exact hstay hallows.2
  | recv src tag next =>
    obtain ⟨m, ms, hm, rfl, rfl⟩ := act_recv_cases hact
    exact hstay hallows
  | modify flag change next =>
    cases hact
    exact D.modify h hallows
  | wait flag ready next =>
    obtain ⟨hready, rfl, rfl⟩ := act_wait_cases hact
    exact D.pass h hallows hready

/-! ### One run speaks for all -/

/-- Runs in which every step keeps to the discipline, with the states of the processes before and
after. -/
inductive GuardedRun (D : Discipline P F L G) :
    ℕ → Net P T M F L V α → (P → G) → Net P T M F L V α → (P → G) → Prop
  | refl (net st) : GuardedRun D 0 net st net st
  | head {n net st net' net'' st''} (p : P) (g : G) (hstep : stepOf p net = some net')
      (hallows : D.Allows p (st p) (net.procs p) g)
      (hrest : GuardedRun D n net' (update st p g) net'' st'') :
      GuardedRun D (n + 1) net st net'' st''

def Finished (net : Net P T M F L V α) : Prop := ∀ p, ∃ a, net.procs p = .done a

variable {D : Discipline P F L G} {n : ℕ} {st st' : P → G}
  {net net' final final' : Net P T M F L V α}

lemma Finished.stepOf_eq_none (h : Finished net) (p : P) : stepOf p net = none := by
  obtain ⟨a, ha⟩ := h p
  simp only [stepOf, ha, act]

/-- In a guarded run to the end, whatever step comes next somewhere keeps to the discipline: some
time it is made. -/
lemma GuardedRun.allows (h : GuardedRun D n net st final st') (hfinal : Finished final) (p : P) :
    ∃ g, D.Allows p (st p) (net.procs p) g := by
  induction h with
  | refl net st =>
    obtain ⟨a, ha⟩ := hfinal p
    rw [ha]
    exact ⟨_, rfl⟩
  | @head n net st net' net'' st'' q g hstep hallows _ ih =>
    by_cases hpq : p = q
    · subst hpq
      exact ⟨g, hallows⟩
    · have := ih hfinal
      rwa [update_of_ne hpq, procs_of_stepOf hpq hstep] at this

/-- A guarded run to the end can be made to start with any step that is possible. -/
lemma GuardedRun.after_step (h : GuardedRun D n net st final st') (hfinal : Finished final)
    (hpossible : D.Possible st net.shared.flags) :
    ∀ {p : P} {net'}, stepOf p net = some net' →
      ∃ m g, n = m + 1 ∧ D.Allows p (st p) (net.procs p) g ∧
        GuardedRun D m net' (update st p g) final st' := by
  induction h with
  | refl net st =>
    intro p net' hstep
    rw [hfinal.stepOf_eq_none p] at hstep
    cases hstep
  | @head n net st net1 final st' q gq hq hallows hrest ih =>
    intro p net' hp
    by_cases hpq : p = q
    · subst hpq
      rw [hp, some.injEq] at hq
      exact ⟨n, gq, rfl, hallows, hq ▸ hrest⟩
    · -- do the step of `p` first and the one of `q` after it
      obtain ⟨gp, hallowsP⟩ := (GuardedRun.head q gq hq hallows hrest).allows hfinal p
      have hcompat := D.compatible hpq hpossible hallowsP hallows
      obtain ⟨net2, hq', hp'⟩ := stepOf_comm hpq hcompat hp hq
      have hpossible1 : D.Possible (update st q gq) net1.shared.flags := by
        obtain ⟨b, sh, hact, rfl⟩ := stepOf_cases hq
        exact D.step hpossible hallows hact
      obtain ⟨m, g, rfl, hg, hm⟩ := ih hfinal hpossible1 hp'
      rw [update_of_ne hpq, procs_of_stepOf hpq hq] at hg
      refine ⟨m + 1, g, rfl, hg, GuardedRun.head q gq hq' ?_ ?_⟩
      · rw [update_of_ne (Ne.symm hpq), procs_of_stepOf (Ne.symm hpq) hp]
        exact hallows
      · rw [update_comm hpq]
        exact hm

/-- **One run speaks for all**: if some run keeps to a discipline and comes to the end, then every
run is the beginning of one that ends in the same state. -/
theorem GuardedRun.completes (h : GuardedRun D n net st final st') (hfinal : Finished final)
    (hpossible : D.Possible st net.shared.flags) : Completes net final := by
  refine ⟨n, fun m net' hm => ?_⟩
  induction hm generalizing n st with
  | refl net =>
    refine ⟨Nat.zero_le n, fun hstop => ?_⟩
    cases h with
    | refl => rfl
    | head q g hq => exact absurd (hstop q ▸ hq) (by simp)
  | @head m net net1 net' p hp _ ih =>
    obtain ⟨n, g, rfl, hallows, hn⟩ := h.after_step hfinal hpossible hp
    obtain ⟨a, sh, hact, rfl⟩ := stepOf_cases hp
    obtain ⟨hle, hend⟩ := ih hn (D.step hpossible hallows hact)
    exact ⟨Nat.succ_le_succ hle, hend⟩

/-! ### Where the runs end -/

lemma Completes.steps (h : Completes net final) : ∃ n, Steps n net final ∧ Stopped final := by
  obtain ⟨bound, hruns⟩ := h
  obtain ⟨n, net', hsteps, hstop⟩ := MessagePassing.exists_stopped_of_bound Steps.refl .head bound
    net fun n net' hsteps => (hruns n net' hsteps).1
  obtain rfl := (hruns n net' hsteps).2 hstop
  exact ⟨n, hsteps, hstop⟩

lemma Completes.unique (h : Completes net final) (h' : Completes net final') : final = final' := by
  obtain ⟨n, hsteps, hstop⟩ := h.steps
  obtain ⟨_, hruns⟩ := h'
  exact (hruns n final hsteps).2 hstop

lemma Steps.procs_of_done (h : Steps n net net') {a : α} (hp : net.procs p = .done a) :
    net'.procs p = .done a := by
  induction h with
  | refl => exact hp
  | head q hq _ ih =>
    apply ih
    obtain ⟨prog, sh, hact, rfl⟩ := stepOf_cases hq
    have hne : p ≠ q := by
      rintro rfl
      rw [hp] at hact
      cases hact
    exact (update_of_ne hne _ _).trans hp

lemma GuardedRun.steps (h : GuardedRun D n net st net' st') : Steps n net net' := by
  induction h with
  | refl => exact Steps.refl _
  | head p g hstep _ _ ih => exact Steps.head p hstep ih

lemma Completes.procs_of_done (h : Completes net final) {a : α} (hp : net.procs p = .done a) :
    final.procs p = .done a := by
  obtain ⟨n, hsteps, -⟩ := h.steps
  exact hsteps.procs_of_done hp

end SharedMemory
