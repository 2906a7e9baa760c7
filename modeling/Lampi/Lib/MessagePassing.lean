import Mathlib.Logic.Function.Basic
import Mathlib.Tactic.Convert
import Mathlib.Tactic.SplitIfs

/-!
# Processes that exchange messages

A process sends and receives messages and ends with a result; a receive names its source and its tag
and waits for such a message.  Messages between two processes with one tag arrive in the order in
which they were sent, and none is lost.

Since nobody can observe which of several messages came first, the order in which the processes
are scheduled does not matter: steps of different processes commute (`stepOf_comm`).  Hence one
run that ends with results for all processes speaks for every run (`Reaches.completes`), and it is
enough to follow one convenient schedule.  `reaches_of_eval` lets a process run a stretch of its
program alone.
-/

namespace MessagePassing

open Function Option List

universe u v w x

/-- What a process does: nothing more, send, or wait for a message. -/
inductive Proc (P : Type u) (T : Type v) (M : Type w) (α : Type x) : Type (max u v w x)
  | done (result : α)
  | send (dst : P) (tag : T) (msg : M) (next : Proc P T M α)
  | recv (src : P) (tag : T) (next : M → Proc P T M α)

variable {P : Type u} {T : Type v} {M : Type w} {α β : Type x} {γ : Type x}

namespace Proc

def bind : Proc P T M α → (α → Proc P T M β) → Proc P T M β
  | done a, f => f a
  | send dst tag msg next, f => send dst tag msg (next.bind f)
  | recv src tag next, f => recv src tag fun m => (next m).bind f

lemma bind_done (p : Proc P T M α) : p.bind done = p := by
  induction p with
  | done a => rfl
  | send dst tag msg next ih => exact congrArg (send dst tag msg) ih
  | recv src tag next ih => exact congrArg (recv src tag) (funext ih)

lemma bind_bind (p : Proc P T M α) (f : α → Proc P T M β) (g : β → Proc P T M γ) :
    (p.bind f).bind g = p.bind fun a => (f a).bind g := by
  induction p with
  | done a => rfl
  | send dst tag msg next ih => exact congrArg (send dst tag msg) ih
  | recv src tag next ih => exact congrArg (recv src tag) (funext ih)

instance : Monad (Proc P T M) where
  pure := done
  bind := bind

instance : LawfulMonad (Proc P T M) := LawfulMonad.mk' _ bind_done (fun _ _ => rfl) bind_bind

def sendTo (dst : P) (tag : T) (msg : M) : Proc P T M PUnit := send dst tag msg (done ⟨⟩)

def recvFrom (src : P) (tag : T) : Proc P T M M := recv src tag done

def sendToAll (tag : T) (msg : M) : List P → Proc P T M PUnit
  | [] => done ⟨⟩
  | dst :: dsts => send dst tag msg (sendToAll tag msg dsts)

end Proc

/-- The messages under way, by source, destination and tag. -/
abbrev Chan (P : Type u) (T : Type v) (M : Type w) := P × P × T → List M

def Chan.empty : Chan P T M := fun _ => []

/-- The processes and the messages under way. -/
structure Net (P : Type u) (T : Type v) (M : Type w) (α : Type x) where
  procs : P → Proc P T M α
  chan : Chan P T M

variable [DecidableEq P] [DecidableEq T] {p dst src q self : P} {net' net'' final : Net P T M α}
  {tag : T} {msg : M} {next : M → Proc P T M α} {n : ℕ} {a : α} {c' : Chan P T M} {S : List P}
  {ok : β → Prop} {prog : Proc P T M α} {k : α → Proc P T M β} {log : List M}

/-- The next step of process `p`, if it can make one. -/
def stepOf (p : P) (net : Net P T M α) : Option (Net P T M α) :=
  match net.procs p with
  | .done _ => none
  | .send dst tag msg next => some
      { procs := update net.procs p next
        chan := update net.chan (p, dst, tag) (net.chan (p, dst, tag) ++ [msg]) }
  | .recv src tag next =>
    match net.chan (src, p, tag) with
    | [] => none
    | m :: ms => some
      { procs := update net.procs p (next m)
        chan := update net.chan (src, p, tag) ms }

/-- Runs, with the number of their steps. -/
inductive Steps : ℕ → Net P T M α → Net P T M α → Prop
  | refl (net) : Steps 0 net net
  | head {n net net' net''} (p : P) (hstep : stepOf p net = some net')
      (hrest : Steps n net' net'') : Steps (n + 1) net net''

/-- Some run leads from one state to the other. -/
def Reaches (net net' : Net P T M α) : Prop := ∃ n, Steps n net net'

def Stopped (net : Net P T M α) : Prop := ∀ p, stepOf p net = none

/-- However the processes are scheduled, the run is finite, and it stops only when every process
has its result. -/
def Completes (net : Net P T M α) (out : P → α) : Prop :=
  ∃ bound, ∀ n net', Steps n net net' →
    n ≤ bound ∧ (Stopped net' → ∀ p, net'.procs p = .done (out p))

/-! ### One step -/

variable {net : Net P T M α}

/-- What a step can be: a send, or a receive of the oldest message. -/
lemma stepOf_cases (h : stepOf p net = some net') :
    (∃ dst tag msg next, net.procs p = .send dst tag msg next ∧ net' =
      { procs := update net.procs p next
        chan := update net.chan (p, dst, tag) (net.chan (p, dst, tag) ++ [msg]) }) ∨
    ∃ src tag next m ms, net.procs p = .recv src tag next ∧ net.chan (src, p, tag) = m :: ms ∧
      net' =
        { procs := update net.procs p (next m)
          chan := update net.chan (src, p, tag) ms } := by
  unfold stepOf at h
  split at h
  · cases h
  · rename_i dst tag msg next hp
    exact .inl ⟨dst, tag, msg, next, hp, (some.inj h).symm⟩
  · rename_i src tag next hp
    split at h
    · cases h
    · rename_i m ms hm
      exact .inr ⟨src, tag, next, m, ms, hp, hm, (some.inj h).symm⟩

lemma stepOf_send {next : Proc P T M α} (h : net.procs p = .send dst tag msg next) :
    stepOf p net = some
      { procs := update net.procs p next
        chan := update net.chan (p, dst, tag) (net.chan (p, dst, tag) ++ [msg]) } := by
  simp only [stepOf, h]

lemma stepOf_recv {m : M} {ms : List M} (h : net.procs p = .recv src tag next)
    (hm : net.chan (src, p, tag) = m :: ms) : stepOf p net = some
      { procs := update net.procs p (next m)
        chan := update net.chan (src, p, tag) ms } := by
  simp only [stepOf, h, hm]

lemma stepOf_of_recv (h : net.procs p = .recv src tag next) (hstep : stepOf p net = some net') :
    ∃ m ms, net.chan (src, p, tag) = m :: ms ∧ net' =
      { procs := update net.procs p (next m)
        chan := update net.chan (src, p, tag) ms } := by
  cases hm : net.chan (src, p, tag) with
  | nil => simp only [stepOf, h, hm, reduceCtorEq] at hstep
  | cons m ms =>
    rw [stepOf_recv h hm, some.injEq] at hstep
    exact ⟨m, ms, rfl, hstep.symm⟩

/-- To append to a queue and to take from one commute, also when it is the same queue: it holds an
older message already. -/
lemma append_take_comm {K : Type*} [DecidableEq K] {c : K → List M} {k k' : K} {m : M} {ms : List M}
    (hm : c k' = m :: ms) (msg : M) : ∃ ms', update c k (c k ++ [msg]) k' = m :: ms' ∧
      update (update c k (c k ++ [msg])) k' ms' =
        update (update c k' ms) k (update c k' ms k ++ [msg]) := by
  by_cases hkey : k' = k
  · subst hkey
    exact ⟨ms ++ [msg], by rw [update_self, hm, cons_append],
      by simp only [update_self, update_idem]⟩
  · exact ⟨ms, by rw [update_of_ne hkey, hm],
      by rw [update_of_ne (Ne.symm hkey), update_comm hkey]⟩

private lemma send_recv_comm (hpq : p ≠ q) {tag' : T} {m : M} {ms : List M} {next : Proc P T M α}
    {next' : M → Proc P T M α} (hp : net.procs p = .send dst tag msg next)
    (hq : net.procs q = .recv src tag' next') (hm : net.chan (src, q, tag') = m :: ms) :
    ∃ net3, stepOf q
        { procs := update net.procs p next
          chan := update net.chan (p, dst, tag) (net.chan (p, dst, tag) ++ [msg]) } =
          some net3 ∧ stepOf p
        { procs := update net.procs q (next' m)
          chan := update net.chan (src, q, tag') ms } = some net3 := by
  have hp' : update net.procs q (next' m) p = .send dst tag msg next := by
    rw [update_of_ne hpq, hp]
  have hq' : update net.procs p next q = .recv src tag' next' := by
    rw [update_of_ne hpq.symm, hq]
  obtain ⟨ms', hm', hcomm⟩ := append_take_comm hm msg
  refine ⟨_, stepOf_recv hq' hm', ?_⟩
  rw [stepOf_send hp', hcomm, update_comm hpq]

/-- **Steps of different processes commute.** -/
theorem stepOf_comm (hpq : p ≠ q) {net net1 net2 : Net P T M α} (h1 : stepOf p net = some net1)
    (h2 : stepOf q net = some net2) :
    ∃ net3, stepOf q net1 = some net3 ∧ stepOf p net2 = some net3 := by
  rcases stepOf_cases h1 with
    ⟨d1, t1, m1, k1, hp1, rfl⟩ | ⟨s1, t1, k1, m1, ms1, hp1, hc1, rfl⟩
  · rcases stepOf_cases h2 with
      ⟨d2, t2, m2, k2, hp2, rfl⟩ | ⟨s2, t2, k2, m2, ms2, hp2, hc2, rfl⟩
    · -- two senders write to different queues
      have hne : (p, d1, t1) ≠ (q, d2, t2) := fun h => hpq (congrArg Prod.fst h)
      refine ⟨_, stepOf_send ((update_of_ne hpq.symm _ _).trans hp2), ?_⟩
      rw [stepOf_send ((update_of_ne hpq _ _).trans hp1)]
      simp only [update_of_ne hne, update_of_ne hne.symm, update_comm hpq, update_comm hne]
    · exact send_recv_comm hpq hp1 hp2 hc2
  · rcases stepOf_cases h2 with
      ⟨d2, t2, m2, k2, hp2, rfl⟩ | ⟨s2, t2, k2, m2, ms2, hp2, hc2, rfl⟩
    · obtain ⟨net3, h, h'⟩ := send_recv_comm hpq.symm hp2 hp1 hc1
      exact ⟨net3, h', h⟩
    · -- two receivers take from different queues
      have hne : (s1, p, t1) ≠ (s2, q, t2) := fun h => hpq (congrArg (·.2.1) h)
      refine ⟨_, stepOf_recv ((update_of_ne hpq.symm _ _).trans hp2)
        ((update_of_ne hne.symm _ _).trans hc2), ?_⟩
      rw [stepOf_recv ((update_of_ne hpq _ _).trans hp1) ((update_of_ne hne _ _).trans hc1)]
      simp only [update_comm hpq, update_comm hne]

/-! ### Runs -/

lemma Reaches.refl (net : Net P T M α) : Reaches net net := ⟨0, Steps.refl net⟩

lemma Reaches.step (p : P) (h : stepOf p net = some net') :
    Reaches net net' := ⟨1, Steps.head p h (Steps.refl net')⟩

lemma Steps.trans {m : ℕ} (h : Steps m net net') (h' : Steps n net' net'') :
    Steps (n + m) net net'' := by
  induction h with
  | refl => exact h'
  | head p hstep _ ih => exact Steps.head p hstep (ih h')

lemma Reaches.trans (h : Reaches net net') (h' : Reaches net' net'') : Reaches net net'' := by
  obtain ⟨m, hm⟩ := h
  obtain ⟨n, hn⟩ := h'
  exact ⟨n + m, hm.trans hn⟩

/-- A run that stops can be made to start with any step that is possible. -/
lemma Steps.after_step (h : Steps n net final) (hfinal : Stopped final) :
    ∀ {p : P} {net'}, stepOf p net = some net' → ∃ m, n = m + 1 ∧ Steps m net' final := by
  induction h with
  | refl net =>
    intro p net' hstep
    rw [hfinal p] at hstep
    cases hstep
  | @head n net net1 final q hq hrest ih =>
    intro p net' hp
    by_cases hpq : p = q
    · subst hpq
      rw [hp, some.injEq] at hq
      exact ⟨n, rfl, hq ▸ hrest⟩
    · -- do the step of `p` first and the one of `q` after it
      obtain ⟨net2, hq', hp'⟩ := stepOf_comm hpq hp hq
      obtain ⟨m, rfl, hm⟩ := ih hfinal hp'
      exact ⟨m + 1, rfl, Steps.head q hq' hm⟩

/-- Every run is the beginning of one that ends in the same final state, with the same number of
steps. -/
lemma Steps.extend {m : ℕ} (h : Steps n net final) (hfinal : Stopped final)
    (h' : Steps m net net') : ∃ k, n = k + m ∧ Steps k net' final := by
  induction h' generalizing n with
  | refl => exact ⟨n, rfl, h⟩
  | head p hstep _ ih =>
    obtain ⟨n, rfl, hn⟩ := h.after_step hfinal hstep
    obtain ⟨k, rfl, hk⟩ := ih hn
    exact ⟨k, rfl, hk⟩

/-- **One run speaks for all.** -/
theorem Reaches.completes {out : P → α} (h : Reaches net final)
    (hout : ∀ p, final.procs p = .done (out p)) : Completes net out := by
  obtain ⟨n, hn⟩ := h
  have hfinal : Stopped final := fun p => by simp only [stepOf, hout p]
  refine ⟨n, fun m net' hm => ?_⟩
  obtain ⟨k, rfl, hk⟩ := hn.extend hfinal hm
  refine ⟨Nat.le_add_left m k, fun hstop p => ?_⟩
  cases hk with
  | refl => exact hout p
  | head q hq _ => exact absurd (hstop q ▸ hq) (by simp)

/-! ### Letting one process run -/

/-- The result of a program that `p` runs to its end while the others wait, and the messages then
under way; `none` if it has to wait itself. -/
def eval (p : P) : Proc P T M α → Chan P T M → Option (α × Chan P T M)
  | .done a, c => some (a, c)
  | .send dst tag msg next, c =>
    eval p next (update c (p, dst, tag) (c (p, dst, tag) ++ [msg]))
  | .recv src tag next, c =>
    match c (src, p, tag) with
    | [] => none
    | m :: ms => eval p (next m) (update c (src, p, tag) ms)

lemma eval_recvFrom {M : Type x} {m : M} {ms : List M} {c : Chan P T M} (k : M → Proc P T M α)
    (h : c (src, p, tag) = m :: ms) :
    eval p (Proc.recvFrom src tag >>= k) c = eval p (k m) (update c (src, p, tag) ms) := by
  show eval p (.recv src tag k) c = _
  simp only [eval, h]

lemma eval_bind (prog : Proc P T M α) (k : α → Proc P T M γ) : ∀ c, eval p prog c = some (a, c') →
      eval p (prog >>= k) c = eval p (k a) c' := by
  induction prog with
  | done b =>
    intro c heval
    obtain ⟨rfl, rfl⟩ := heval
    rfl
  | send dst tag msg next ih => exact fun c heval => ih _ heval
  | recv src tag next ih =>
    intro c heval
    show eval p (.recv src tag fun m => (next m).bind k) c = _
    cases hc : c (src, p, tag) with
    | nil => simp only [eval, hc, reduceCtorEq] at heval
    | cons m ms =>
      simp only [eval, hc] at heval ⊢
      exact ih m _ heval

lemma reaches_of_eval (prog : Proc P T M α) (k : α → Proc P T M γ) :
    ∀ (net : Net P T M γ), net.procs p = prog >>= k →
      eval p prog net.chan = some (a, c') →
      Reaches net { procs := update net.procs p (k a), chan := c' } := by
  induction prog with
  | done b =>
    intro net hp heval
    simp only [eval, some.injEq, Prod.mk.injEq] at heval
    obtain ⟨rfl, rfl⟩ := heval
    have hsame : update net.procs p (k b) = net.procs := update_eq_self_iff.mpr hp.symm
    rw [hsame]
    exact Reaches.refl net
  | send dst tag msg next ih =>
    intro net hp heval
    have hrest := ih
      { procs := update net.procs p (next >>= k)
        chan := update net.chan (p, dst, tag) (net.chan (p, dst, tag) ++ [msg]) }
      (update_self p _ _) heval
    rw [update_idem] at hrest
    exact (Reaches.step p (stepOf_send hp)).trans hrest
  | recv src tag next ih =>
    intro net hp heval
    cases hc : net.chan (src, p, tag) with
    | nil => simp only [eval, hc, reduceCtorEq] at heval
    | cons m ms =>
      simp only [eval, hc] at heval
      have hrest := ih m
        { procs := update net.procs p (next m >>= k)
          chan := update net.chan (src, p, tag) ms }
        (update_self p _ _) heval
      rw [update_idem] at hrest
      exact (Reaches.step p (stepOf_recv hp hc)).trans hrest

/-- The run in which the processes make their steps in this order, if that is possible. -/
def follow : List P → Net P T M α → Option (Net P T M α)
  | [], net => some net
  | p :: ps, net =>
    match stepOf p net with
    | none => none
    | some net' => follow ps net'

lemma reaches_of_follow {ps : List P} (h : follow ps net = some net') : Reaches net net' := by
  induction ps generalizing net with
  | nil =>
    obtain rfl := some.inj h
    exact Reaches.refl net
  | cons p ps ih =>
    rw [follow] at h
    split at h
    · cases h
    · rename_i net1 hstep
      exact (Reaches.step p hstep).trans (ih h)

/-! ### Phases -/

/-- Each of these processes makes one step: it goes on with `next` and leaves `msgs` in the queue
`key`, which no other of them uses. -/
lemma reaches_all (hS : S.Nodup) (key : P → P × P × T) {msgs : P → List M}
    {next : P → Proc P T M α} (hkey : ∀ p ∈ S, ∀ q ∈ S, key p = key q → p = q)
    (hstep : ∀ p ∈ S, ∀ net1 : Net P T M α, net1.procs p = net.procs p →
      net1.chan (key p) = net.chan (key p) → stepOf p net1 = some
        { procs := update net1.procs p (next p), chan := update net1.chan (key p) (msgs p) })
    (hprocs : ∀ p, net'.procs p = if p ∈ S then next p else net.procs p)
    (hin : ∀ p ∈ S, net'.chan (key p) = msgs p)
    (hout : ∀ k, (∀ p ∈ S, k ≠ key p) → net'.chan k = net.chan k) : Reaches net net' := by
  induction S generalizing net with
  | nil =>
    have hchan : net'.chan = net.chan := funext fun k => hout k fun _ h => absurd h not_mem_nil
    obtain rfl : net' = net := by
      cases net'
      cases net
      exact congr (congrArg _ (funext hprocs)) hchan
    exact Reaches.refl net'
  | cons p S ih =>
    obtain ⟨hp, hS⟩ := nodup_cons.mp hS
    have hmem := @mem_cons_of_mem _ p
    have hne : ∀ q ∈ S, q ≠ p := fun q hq hqp => hp (hqp ▸ hq)
    have hne' : ∀ q ∈ S, key q ≠ key p := fun q hq heq =>
      hne q hq (hkey q (hmem hq) p mem_cons_self heq)
    refine (Reaches.step p (hstep p mem_cons_self net rfl rfl)).trans (ih hS
      (fun q hq r hr => hkey q (hmem hq) r (hmem hr)) (fun q hq net1 hprog hchan => ?_)
      (fun q => ?_) (fun q hq => hin q (hmem hq)) fun k hk => ?_)
    · exact hstep q (hmem hq) net1 (hprog.trans (update_of_ne (hne q hq) _ _))
        (hchan.trans (update_of_ne (hne' q hq) _ _))
    · rw [hprocs]
      by_cases hqp : q = p
      · subst hqp
        rw [if_pos mem_cons_self, if_neg hp]
        exact (update_self q (next q) net.procs).symm
      · simp only [mem_cons, hqp, false_or, update_of_ne hqp]
    · by_cases hkp : k = key p
      · rw [hkp, hin p mem_cons_self]
        exact (update_self (key p) (msgs p) net.chan).symm
      · rw [hout k (forall_mem_cons.mpr ⟨hkp, hk⟩)]
        exact (update_of_ne hkp _ _).symm

lemma reaches_sendAll (hS : S.Nodup) (dst : P → P) (tag : P → T) (msg : P → M)
    (next : P → Proc P T M α) (net : Net P T M α)
    (h : ∀ p ∈ S, net.procs p = .send (dst p) (tag p) (msg p) (next p)) : Reaches net
      { procs := fun p => if p ∈ S then next p else net.procs p
        chan := fun key =>
          if key.1 ∈ S ∧ key.2 = (dst key.1, tag key.1) then net.chan key ++ [msg key.1]
          else net.chan key } := by
  refine reaches_all hS (fun p => (p, dst p, tag p)) (fun _ _ _ _ h => congrArg Prod.fst h)
    (fun p hp net1 hprog hchan => ?_) (fun _ => rfl) (fun _ hp => if_pos ⟨hp, rfl⟩)
    fun _ hkey => if_neg fun hmem => hkey _ hmem.1 (Prod.ext rfl hmem.2)
  rw [stepOf_send (hprog.trans (h p hp)), hchan]

lemma reaches_sendToAll {dsts : List P} (hdsts : dsts.Nodup) (tag : T) (msg : M)
    (next : PUnit → Proc P T M α) (net : Net P T M α)
    (h : net.procs p = (Proc.sendToAll tag msg dsts).bind next) : Reaches net
      { procs := update net.procs p (next ⟨⟩)
        chan := fun key =>
          if key.1 = p ∧ key.2.1 ∈ dsts ∧ key.2.2 = tag then net.chan key ++ [msg]
          else net.chan key } := by
  induction dsts generalizing net with
  | nil =>
    have hsame : update net.procs p (next ⟨⟩) = net.procs := update_eq_self_iff.mpr h.symm
    simp only [not_mem_nil, false_and, and_false, if_false, hsame]
    exact Reaches.refl net
  | cons dst dsts ih =>
    obtain ⟨hdst, hdsts⟩ := nodup_cons.mp hdsts
    refine (Reaches.step p (stepOf_send h)).trans ?_
    have hstep := ih hdsts
      { procs := update net.procs p ((Proc.sendToAll tag msg dsts).bind next)
        chan := update net.chan (p, dst, tag) (net.chan (p, dst, tag) ++ [msg]) }
      (update_self p _ _)
    rw [update_idem] at hstep
    convert hstep using 2
    funext key
    obtain ⟨q, d, t⟩ := key
    by_cases hkey : (q, d, t) = (p, dst, tag)
    · obtain ⟨rfl, rfl, rfl⟩ := hkey
      simp [hdst]
    · dsimp only
      rw [update_of_ne hkey]
      have hiff : (q = p ∧ d ∈ dst :: dsts ∧ t = tag) ↔ (q = p ∧ d ∈ dsts ∧ t = tag) := by
        constructor
        · rintro ⟨rfl, hd, rfl⟩
          rcases mem_cons.mp hd with rfl | hd
          · exact absurd rfl hkey
          · exact ⟨rfl, hd, rfl⟩
        · rintro ⟨rfl, hd, rfl⟩
          exact ⟨rfl, mem_cons_of_mem _ hd, rfl⟩
      simp only [hiff]

lemma reaches_recvAll (hS : S.Nodup) (src : P → P) (tag : P → T) (msg : P → M) (rest : P → List M)
    (next : P → M → Proc P T M α) (net : Net P T M α)
    (h : ∀ p ∈ S, net.procs p = .recv (src p) (tag p) (next p))
    (hmsg : ∀ p ∈ S, net.chan (src p, p, tag p) = msg p :: rest p) : Reaches net
      { procs := fun p => if p ∈ S then next p (msg p) else net.procs p
        chan := fun key =>
          if key.2.1 ∈ S ∧ key.1 = src key.2.1 ∧ key.2.2 = tag key.2.1 then rest key.2.1
          else net.chan key } :=
  reaches_all hS (fun p => (src p, p, tag p)) (fun _ _ _ _ h => congrArg (·.2.1) h)
    (fun p hp _ hprog hchan => stepOf_recv (hprog.trans (h p hp)) (hchan.trans (hmsg p hp)))
    (fun _ => rfl) (fun _ hp => if_pos ⟨hp, rfl, rfl⟩)
    fun _ hkey => if_neg fun hmem => hkey _ hmem.1 (Prod.ext hmem.2.1 (Prod.ext rfl hmem.2.2))

/-- **A phase**: the processes of `S` send, those of `R` receive what was sent to them (after their
own send, if they are also in `S`).  Nothing was under way between them, and nothing is left. -/
theorem reaches_phase {R : List P} (hS : S.Nodup) (hR : R.Nodup) (dst src : P → P) (tag : T)
    (msg : P → M) (mid : P → Proc P T M α) (next : P → M → Proc P T M α)
    (hdst : ∀ p ∈ S, dst p ∈ R ∧ src (dst p) = p) (hsrc : ∀ q ∈ R, src q ∈ S ∧ dst (src q) = q)
    (hsend : ∀ p ∈ S, net.procs p = .send (dst p) tag (msg p) (mid p))
    (hrecv : ∀ q ∈ R, (if q ∈ S then mid q else net.procs q) = .recv (src q) tag (next q))
    (hchan : ∀ p ∈ S, net.chan (p, dst p, tag) = [])
    (hprocs' : ∀ p, net'.procs p = if p ∈ R then next p (msg (src p)) else if p ∈ S then mid p
      else net.procs p)
    (hchan' : net'.chan = net.chan) : Reaches net net' := by
  have hsent := reaches_sendAll hS dst (fun _ => tag) msg mid net hsend
  refine hsent.trans ?_
  have hmsg : ∀ q ∈ R, (if src q ∈ S ∧ (q, tag) = (dst (src q), tag) then
      net.chan (src q, q, tag) ++ [msg (src q)] else net.chan (src q, q, tag)) =
        msg (src q) :: [] := by
    intro q hq
    obtain ⟨hqS, hqdst⟩ := hsrc q hq
    have hempty := hchan (src q) hqS
    rw [hqdst] at hempty
    rw [if_pos ⟨hqS, by rw [hqdst]⟩, hempty]
    rfl
  have hreceived := reaches_recvAll hR src (fun _ => tag) (fun q => msg (src q)) (fun _ => []) next
    { procs := fun p => if p ∈ S then mid p else net.procs p
      chan := fun key =>
        if key.1 ∈ S ∧ key.2 = (dst key.1, tag) then net.chan key ++ [msg key.1]
        else net.chan key } hrecv hmsg
  obtain ⟨procs', chan'⟩ := net'
  obtain rfl : chan' = net.chan := hchan'
  obtain rfl : procs' = _ := funext hprocs'
  convert hreceived using 2
  funext key
  obtain ⟨p, q, t⟩ := key
  dsimp only
  split_ifs with hkey hsentKey
  · obtain ⟨hq, rfl, rfl⟩ := hkey
    obtain ⟨hqS, hqdst⟩ := hsrc q hq
    have hempty := hchan (src q) hqS
    rwa [hqdst] at hempty
  · -- what was sent has been received
    obtain ⟨hp, hq⟩ := hsentKey
    cases hq
    obtain ⟨hdstR, hsrcp⟩ := hdst p hp
    exact absurd ⟨hdstR, hsrcp.symm, rfl⟩ hkey
  · rfl

/-! ### Queues that are only written -/

/-- On every path to a result that is `ok` the program of process `self` writes `log` to the
process's own queue with this tag; it never receives from there. -/
def Proc.Logs (self : P) (tag : T) (ok : α → Prop) : Proc P T M α → List M → Prop
  | done a, log => ok a → log = []
  | send dst t msg next, log =>
    if dst = self ∧ t = tag then ∃ log', log = msg :: log' ∧ next.Logs self tag ok log'
    else next.Logs self tag ok log
  | recv _ t next, log => t ≠ tag ∧ ∀ m, (next m).Logs self tag ok log

lemma Proc.Logs.bind {log' : List M} (h : prog.Logs self tag (fun _ => True) log)
    (hk : ∀ a, (k a).Logs self tag ok log') : (prog.bind k).Logs self tag ok (log ++ log') := by
  induction prog generalizing log with
  | done a =>
    rw [h trivial]
    exact hk a
  | send dst t msg next ih =>
    simp only [bind, Logs] at h ⊢
    split_ifs at h ⊢
    · obtain ⟨log1, rfl, hnext⟩ := h
      exact ⟨log1 ++ log', rfl, ih hnext⟩
    · exact ih h
  | recv src t next ih => exact ⟨h.1, fun m => ih m (h.2 m)⟩

lemma Proc.Logs.bind_of_nil (h : prog.Logs self tag (fun _ => True) [])
    (hk : ∀ a, (k a).Logs self tag ok log) : (prog.bind k).Logs self tag ok log := h.bind hk

lemma Proc.Logs.send_of_ne {t : T} {ok : α → Prop} (hne : t ≠ tag) (h : prog.Logs self tag ok log)
    : (send dst t msg prog).Logs self tag ok log := by
  rw [Logs, if_neg fun h => hne h.2]
  exact h

lemma Proc.logs_sendToAll {t : T} (hne : t ≠ tag) (msg : M) (dsts : List P) :
    (sendToAll t msg dsts).Logs self tag (fun _ => True) [] := by
  induction dsts with
  | nil => exact fun _ => rfl
  | cons dst dsts ih => exact Logs.send_of_ne hne ih

/-- What a process has written so far, and what it is going to write. -/
lemma Steps.logs {ok : α → Prop} (h : Steps n net net') (hlog : (net.procs p).Logs p tag ok log) :
    ∃ written rest, log = written ++ rest ∧
      net'.chan (p, p, tag) = net.chan (p, p, tag) ++ written ∧
      (net'.procs p).Logs p tag ok rest := by
  induction h generalizing log with
  | refl net => exact ⟨[], log, rfl, (append_nil _).symm, hlog⟩
  | @head n net net1 net' q hstep _ ih =>
    by_cases hq : q = p
    · subst hq
      rcases stepOf_cases hstep with
        ⟨dst, t, msg, next, hprog, rfl⟩ | ⟨src, t, next, m, ms, hprog, hm, rfl⟩
      · rw [hprog, Proc.Logs] at hlog
        split_ifs at hlog with hkey
        · obtain ⟨rfl, rfl⟩ := hkey
          obtain ⟨log', rfl, hnext⟩ := hlog
          obtain ⟨written, rest, rfl, hchan, hrest⟩ := ih (by simpa using hnext)
          refine ⟨msg :: written, rest, rfl, ?_, hrest⟩
          rw [hchan]
          simp
        · obtain ⟨written, rest, rfl, hchan, hrest⟩ := ih (by simpa using hlog)
          refine ⟨written, rest, rfl, ?_, hrest⟩
          have hne : (q, q, tag) ≠ (q, dst, t) := fun h =>
            hkey ⟨(congrArg (·.2.1) h).symm, (congrArg (·.2.2) h).symm⟩
          rw [hchan]
          simp only [update_of_ne hne]
      · rw [hprog, Proc.Logs] at hlog
        obtain ⟨hne, hnext⟩ := hlog
        obtain ⟨written, rest, rfl, hchan, hrest⟩ := ih (by simpa using hnext m)
        refine ⟨written, rest, rfl, ?_, hrest⟩
        have hkey : (q, q, tag) ≠ (src, q, t) := fun h => hne (congrArg (·.2.2) h).symm
        rw [hchan]
        simp only [update_of_ne hkey]
    · have hsame : net1.procs p = net.procs p ∧ net1.chan (p, p, tag) = net.chan (p, p, tag) := by
        rcases stepOf_cases hstep with
          ⟨dst, t, msg, next, -, rfl⟩ | ⟨src, t, next, m, ms, -, -, rfl⟩
        · refine ⟨update_of_ne (Ne.symm hq) _ _, update_of_ne ?_ _ _⟩
          exact fun h => hq (congrArg Prod.fst h).symm
        · refine ⟨update_of_ne (Ne.symm hq) _ _, update_of_ne ?_ _ _⟩
          exact fun h => hq (congrArg (·.2.1) h).symm
      rw [← hsame.2]
      exact ih (by rwa [hsame.1])

omit [DecidableEq P] in
lemma exists_stopped_of_bound {σ : Type*} {step : P → σ → Option σ} {Runs : ℕ → σ → σ → Prop}
    (hrefl : ∀ s, Runs 0 s s)
    (hhead : ∀ {n s s' s''} p, step p s = some s' → Runs n s' s'' → Runs (n + 1) s s'') (bound : ℕ)
    (s : σ) (hbound : ∀ n s', Runs n s s' → n ≤ bound) :
    ∃ n s', Runs n s s' ∧ ∀ p, step p s' = none := by
  induction bound generalizing s with
  | zero =>
    refine ⟨0, s, hrefl s, fun p => ?_⟩
    by_contra hstep
    obtain ⟨s', hs'⟩ := ne_none_iff_exists'.mp hstep
    exact absurd (hbound 1 s' (hhead p hs' (hrefl s'))) (Nat.not_succ_le_zero 0)
  | succ bound ih =>
    by_cases hstop : ∀ p, step p s = none
    · exact ⟨0, s, hrefl s, hstop⟩
    · obtain ⟨p, hstep⟩ := not_forall.mp hstop
      obtain ⟨s1, hs1⟩ := ne_none_iff_exists'.mp hstep
      obtain ⟨n, s', hruns, hstop'⟩ := ih s1 fun n s' hruns =>
        Nat.le_of_succ_le_succ (hbound (n + 1) s' (hhead p hs1 hruns))
      exact ⟨n + 1, s', hhead p hs1 hruns, hstop'⟩

lemma exists_stopped {bound : ℕ} (h : ∀ n net', Steps n net net' → n ≤ bound) :
    ∃ net', Reaches net net' ∧ Stopped net' := by
  obtain ⟨n, net', hsteps, hstop⟩ := exists_stopped_of_bound Steps.refl .head bound net h
  exact ⟨net', ⟨n, hsteps⟩, hstop⟩

end MessagePassing
