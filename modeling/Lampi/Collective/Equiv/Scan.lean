import Mathlib.Data.Int.ModEq
import Mathlib.Data.List.Count
import Mathlib.Data.List.Nodup
import Lampi.Collective.Equiv.Reduce
import Lampi.Collective.Scan

/-!
# What scan leaves with the processes

When the distance is `shift`, process `p` has the contributions of the `shift` processes up to it,
or of all processes up to it if there are not so many (`segment`).  A round combines two such
segments that are next to each other (`call_segment`), so it doubles their length, and the operation
need not commute.

A round runs like this, whoever waits for whom: all processes send; then they go on from the highest
rank downwards, each with the notice that its message has been taken (`reaches_round`).

**`ulmScan_prefix`** holds for every schedule of the processes.
-/

namespace Lampi

open MessagePassing List
open Function hiding eval

variable {α : Type} {op : ULMOp α} {shift p : ℕ}

/-! ### Segments -/

lemma ULMOp.call_assoc (hassoc : ∀ x y z, op.func (op.func x y) z = op.func x (op.func y z))
    (a b c : List α) : op.call (op.call a b) c = op.call a (op.call b c) := by
  unfold ULMOp.call
  induction a generalizing b c with
  | nil => simp
  | cons x a ih =>
    cases b with
    | nil => simp
    | cons y b =>
      cases c with
      | nil => simp
      | cons z c => simp only [zipWith_cons_cons, hassoc, ih]

/-- The contributions of the `shift` ranks up to `p`, or of all up to `p`. -/
def segment (op : ULMOp α) (a : ℕ → List α) (shift p : ℕ) : List α :=
  prefixReduce op (fun j => a (p + 1 - shift + j)) (p - (p + 1 - shift))

lemma prefixReduce_add (hassoc : ∀ x y z, op.func (op.func x y) z = op.func x (op.func y z))
    (a : ℕ → List α) (j k : ℕ) : prefixReduce op a (j + 1 + k) =
      op.call (prefixReduce op a j) (prefixReduce op (fun i => a (j + 1 + i)) k) := by
  induction k with
  | zero => rfl
  | succ k ih =>
    rw [← Nat.add_assoc, prefixReduce, ih, ULMOp.call_assoc hassoc, prefixReduce, Nat.add_assoc]

lemma segment_one (op : ULMOp α) (a : ℕ → List α) (p : ℕ) : segment op a 1 p = a p := by
  rw [segment, Nat.add_sub_cancel, Nat.sub_self]
  rfl

lemma segment_of_lt (op : ULMOp α) (a : ℕ → List α) (h : p < shift) :
    segment op a shift p = prefixReduce op a p := by
  have hstart : p + 1 - shift = 0 := by omega
  simp only [segment, hstart, Nat.zero_add, Nat.sub_zero]

/-- **A round combines segments** that are next to each other. -/
theorem call_segment (hassoc : ∀ x y z, op.func (op.func x y) z = op.func x (op.func y z))
    (a : ℕ → List α) (hshift : 0 < shift) (h : shift ≤ p) :
    op.call (segment op a shift (p - shift)) (segment op a shift p) =
      segment op a (2 * shift) p := by
  have hstart : p - shift + 1 - shift = p + 1 - 2 * shift := by omega
  have hend : p - (p + 1 - 2 * shift) =
      p - shift - (p + 1 - 2 * shift) + 1 + (p - (p + 1 - shift)) := by omega
  have hnext : ∀ i, p + 1 - 2 * shift + (p - shift - (p + 1 - 2 * shift) + 1 + i) =
      p + 1 - shift + i := by omega
  simp only [segment, hstart]
  rw [hend, prefixReduce_add hassoc]
  simp only [hnext]

/-! ### One round -/

namespace UlmScan

variable (op : ULMOp α) (nproc : ℕ) (tag : ℤ) (waits : ℕ → ℕ → Bool) (shift : ℕ) {self : ℕ}

lemma peer_of_self (hself : self < nproc) (d : ℤ) :
    peer nproc 0 ((((self : ℤ) - (0 : ℕ) + nproc) % nproc) + d) =
      if 0 ≤ self + d ∧ self + d < nproc then some (self + d).toNat else none := by
  have hmod : ∀ r : ℤ, 0 ≤ r → r < nproc → (r + nproc) % nproc = r := fun r h h' => by
    rw [Int.add_emod_right, Int.emod_eq_of_lt h h']
  rw [Nat.cast_zero, sub_zero, hmod self (by omega) (by omega), peer, Nat.cast_zero, sub_zero]
  split_ifs with h
  · rw [hmod _ h.1 h.2]
  · rfl

lemma peer_send (hself : self < nproc) :
    peer nproc 0 ((((self : ℤ) - (0 : ℕ) + nproc) % nproc) + shift) =
      if self + shift < nproc then some (self + shift) else none := by
  rw [peer_of_self nproc hself]
  exact if_congr (by omega) rfl rfl

lemma peer_recv (hself : self < nproc) :
    peer nproc 0 ((((self : ℤ) - (0 : ℕ) + nproc) % nproc) - shift) =
      if shift ≤ self then some (self - shift) else none := by
  rw [sub_eq_add_neg _ (shift : ℤ), peer_of_self nproc hself, ← sub_eq_add_neg, Int.toNat_sub]
  exact if_congr (by omega) rfl rfl

variable (s : ℕ → ScanState α)

def message (p : ℕ) : ScanMessage α :=
  { round := shift, waits := waits p shift, buf := (s p).recvbuf }

/-- The state of process `p` after the round. -/
def next (p : ℕ) : ScanState α :=
  { recvbuf :=
      if shift ≤ p then op.call (s (p - shift)).recvbuf (s p).recvbuf else (s p).recvbuf
    sent := if p + shift < nproc then (s p).sent ++ [(p + shift, shift)] else (s p).sent
    received :=
      if shift ≤ p then (s p).received ++ [(p - shift, shift, shift)] else (s p).received }

/-- What process `p` still does for its send: wait for the notice if it has to, and take note. -/
def awaitTaken (p : ℕ) (s : ScanState α) : ScanProc α (ScanState α) :=
  if p + shift < nproc then do
    if waits p shift then
      let _ ← Proc.recvFrom (p + shift) (.taken tag)
    pure { s with sent := s.sent ++ [(p + shift, shift)] }
  else pure s

/-- What process `p` does after its send. -/
def finish (p : ℕ) (s : ScanState α) : ScanProc α (ScanState α) :=
  awaitTaken nproc tag waits shift p s >>=
    recvFrom op tag shift (if shift ≤ p then some (p - shift) else none)

lemma round_eq (hp : p < nproc) :
    round op nproc p 0 1 tag (waits p) shift (s p) =
      if p + shift < nproc then
        .send (p + shift) (.data tag) (message waits shift s p)
          (finish op nproc tag waits shift p (s p))
      else finish op nproc tag waits shift p (s p) := by
  have hsense : (1 : ℤ) ≥ 0 := by decide
  simp only [round, finish, awaitTaken, if_pos hsense]
  rw [peer_send nproc shift hp, peer_recv nproc shift hp]
  by_cases hsend : p + shift < nproc
  · simp only [if_pos hsend]
    cases hwaits : waits p shift
    · simp only [message, hwaits]
      rfl
    · simp only [message, hwaits]
      rfl
  · simp only [if_neg hsend]
    rfl

/-! ### One round -/

/-- The messages under way when all have sent and the ranks from `k` on have finished. -/
def roundChan (k : ℕ) : Chan ℕ ScanTag (ScanMessage α)
  | (src, dst, .data t) =>
    if t = tag ∧ dst = src + shift ∧ dst < nproc ∧ dst < k then [message waits shift s src] else []
  | (src, dst, .taken t) =>
    if t = tag ∧ src = dst + shift ∧ src < nproc ∧ k ≤ src ∧ dst < k ∧ waits dst shift = true then
      [{ message waits shift s dst with buf := [] }]
    else []

def notice (p : ℕ) : ScanMessage α := { message waits shift s p with buf := [] }

variable {shift} {k : ℕ}

lemma roundChan_data (hk : k < nproc) (hle : shift ≤ k) :
    roundChan nproc tag waits shift s (k + 1) (k - shift, k, .data tag) =
      [message waits shift s (k - shift)] := by
  rw [roundChan, if_pos ⟨rfl, by omega, hk, by omega⟩]

lemma roundChan_of_lt (hlt : k < shift) :
    roundChan nproc tag waits shift s k = update (roundChan nproc tag waits shift s (k + 1))
      (k + shift, k, .taken tag) [] := by
  funext ⟨src, dst, t⟩
  cases t with
  | data t => grind [roundChan]
  | taken t =>
    simp only [roundChan, update_apply, Prod.mk.injEq, ScanTag.taken.injEq]
    grind

/-- Rank `k` finds the message for it, and gives notice if it has to. -/
lemma eval_recvFrom_of_le (t : ScanState α) {c : Chan ℕ ScanTag _}
    (hdata : c (k - shift, k, .data tag) = [message waits shift s (k - shift)])
    (htaken : c (k, k - shift, .taken tag) = []) :
    eval k (recvFrom op tag shift (some (k - shift)) t) c =
      some ({ t with
          recvbuf := op.call (s (k - shift)).recvbuf t.recvbuf
          received := t.received ++ [(k - shift, shift, shift)] },
        update (update c (k - shift, k, .data tag) []) (k, k - shift, .taken tag)
          (if waits (k - shift) shift then [notice waits shift s (k - shift)] else [])) := by
  have hkey : (k, k - shift, ScanTag.taken tag) ≠ (k - shift, k, .data tag) := by simp
  unfold recvFrom irecvWait
  simp only [bind_assoc]
  rw [eval_recvFrom _ hdata]
  cases hwaits : waits (k - shift) shift with
  | true =>
    have hmessage : (message waits shift s (k - shift)).waits = true := hwaits
    rw [if_pos hmessage, if_pos rfl]
    show eval k (Proc.send _ _ _ (Proc.done _)) _ = _
    rw [eval, eval, update_of_ne hkey, htaken]
    rfl
  | false =>
    have hmessage : ¬(message waits shift s (k - shift)).waits = true := Bool.eq_false_iff.mp hwaits
    have hsame : update (update c (k - shift, k, .data tag) [])
        (k, k - shift, .taken tag) [] = update c (k - shift, k, .data tag) [] :=
      update_eq_self_iff.mpr (by rw [update_of_ne hkey, htaken])
    rw [if_neg hmessage, if_neg (by decide), hsame]
    rfl

variable {γ : Type} {net : Net ℕ ScanTag (ScanMessage α) γ} (K : ℕ → ScanState α → ScanProc α γ)

lemma reaches_sends
    (hprocs : ∀ p < nproc, net.procs p = round op nproc p 0 1 tag (waits p) shift (s p) >>= K p)
    (hchan : net.chan = Chan.empty) : Reaches net
      { procs := fun p =>
          if p < nproc then finish op nproc tag waits shift p (s p) >>= K p else net.procs p
        chan := roundChan nproc tag waits shift s nproc } := by
  have hround : ∀ p < nproc, net.procs p = if p + shift < nproc then
      .send (p + shift) (.data tag) (message waits shift s p)
        (finish op nproc tag waits shift p (s p) >>= K p)
      else finish op nproc tag waits shift p (s p) >>= K p := by
    intro p hp
    rw [hprocs p hp, round_eq op nproc tag waits shift s hp]
    split_ifs <;> rfl
  have hmem : ∀ p, p ∈ (range nproc).filter (· + shift < nproc) ↔ p + shift < nproc := by
    intro p
    rw [mem_filter, mem_range, decide_eq_true_iff]
    omega
  have hsent := reaches_sendAll (nodup_range.filter (· + shift < nproc))
    (fun p => p + shift) (fun _ => .data tag) (message waits shift s)
    (fun p => finish op nproc tag waits shift p (s p) >>= K p) net (fun p hp => by
      rw [hmem] at hp
      rw [hround p (by omega), if_pos hp])
  simp only [hmem] at hsent
  convert hsent using 2
  · funext p
    by_cases hsend : p + shift < nproc
    · rw [if_pos hsend, if_pos (by omega)]
    · split_ifs with hp
      · rw [hround p hp, if_neg hsend]
      · rfl
  · ext1 ⟨src, dst, t⟩
    rw [hchan]
    cases t with
    | data t =>
      simp only [roundChan, Chan.empty, Prod.mk.injEq, ScanTag.data.injEq, nil_append]
      exact if_congr (by omega) rfl rfl
    | taken t =>
      simp only [roundChan, Chan.empty, Prod.mk.injEq, reduceCtorEq, and_false, if_false]
      exact if_neg fun h => absurd h.2.2.1 (by omega)

section Shift

variable (hshift : 0 < shift)

include hshift

lemma roundChan_taken (hk : k + shift < nproc) :
    roundChan nproc tag waits shift s (k + 1) (k + shift, k, .taken tag) =
      if waits k shift then [notice waits shift s k] else [] := by
  have hiff : (tag = tag ∧ k + shift = k + shift ∧ k + shift < nproc ∧ k + 1 ≤ k + shift ∧
      k < k + 1 ∧ waits k shift = true) ↔ waits k shift = true :=
    ⟨fun h => h.2.2.2.2.2, fun h => ⟨rfl, rfl, hk, by omega, by omega, h⟩⟩
  exact if_congr hiff rfl rfl

lemma roundChan_of_le (hk : k < nproc) (hle : shift ≤ k) :
    roundChan nproc tag waits shift s k =
      update (update (update (roundChan nproc tag waits shift s (k + 1))
        (k + shift, k, .taken tag) []) (k - shift, k, .data tag) []) (k, k - shift, .taken tag)
        (if waits (k - shift) shift then [notice waits shift s (k - shift)] else []) := by
  funext ⟨src, dst, t⟩
  cases t with
  | data t => grind [roundChan]
  | taken t =>
    simp only [roundChan, update_apply, Prod.mk.injEq, ScanTag.taken.injEq, reduceCtorEq,
      and_false, if_false]
    grind [notice]

lemma eval_awaitTaken (k : ℕ) :
    eval k (awaitTaken nproc tag waits shift k (s k)) (roundChan nproc tag waits shift s (k + 1)) =
      some ({ s k with
          sent := if k + shift < nproc then (s k).sent ++ [(k + shift, shift)] else (s k).sent },
        update (roundChan nproc tag waits shift s (k + 1)) (k + shift, k, .taken tag) []) := by
  unfold awaitTaken
  by_cases hsend : k + shift < nproc
  · have hnotice := roundChan_taken nproc tag waits s hshift hsend
    rw [if_pos hsend, if_pos hsend]
    cases hwaits : waits k shift with
    | true =>
      rw [hwaits, if_pos rfl] at hnotice
      rw [if_pos rfl, eval_recvFrom _ hnotice]
      rfl
    | false =>
      rw [hwaits, if_neg (by decide)] at hnotice
      rw [if_neg (by decide), ← hnotice, update_eq_self]
      rfl
  · have hnone : roundChan nproc tag waits shift s (k + 1) (k + shift, k, .taken tag) = [] := by
      rw [roundChan, if_neg fun h => hsend h.2.2.1]
    rw [if_neg hsend, if_neg hsend, ← hnone, update_eq_self]
    rfl

lemma eval_finish (hk : k < nproc) :
    eval k (finish op nproc tag waits shift k (s k)) (roundChan nproc tag waits shift s (k + 1)) =
      some (next op nproc shift s k, roundChan nproc tag waits shift s k) := by
  rw [finish, eval_bind _ _ _ (eval_awaitTaken nproc tag waits s hshift k)]
  by_cases hle : shift ≤ k
  · rw [if_pos hle, eval_recvFrom_of_le op tag waits s,
      ← roundChan_of_le nproc tag waits s hshift hk hle]
    · simp only [next, if_pos hle]
    · rw [update_of_ne (by simp)]
      exact roundChan_data nproc tag waits s hk hle
    · rw [update_of_ne (by simp; omega), roundChan, if_neg fun h => absurd h.2.2.2.1 (by omega)]
  · rw [if_neg hle, ← roundChan_of_lt nproc tag waits s (Nat.lt_of_not_le hle)]
    simp only [next, if_neg hle]
    rfl

/-- From the highest rank downwards the processes finish the round. -/
lemma reaches_finish (others : ℕ → ScanProc α γ) : ∀ j ≤ nproc, Reaches
      { procs := fun p =>
          if p < nproc then finish op nproc tag waits shift p (s p) >>= K p else others p
        chan := roundChan nproc tag waits shift s nproc }
      { procs := fun p =>
          if p < nproc then
            if nproc - j ≤ p then K p (next op nproc shift s p)
            else finish op nproc tag waits shift p (s p) >>= K p
          else others p
        chan := roundChan nproc tag waits shift s (nproc - j) } := by
  intro j
  induction j with
  | zero =>
    intro _
    have hnone : ∀ p < nproc, ¬nproc - 0 ≤ p := by omega
    have hsame : (fun p => if p < nproc then
        if nproc - 0 ≤ p then K p (next op nproc shift s p)
        else finish op nproc tag waits shift p (s p) >>= K p
        else others p) =
        fun p =>
          if p < nproc then finish op nproc tag waits shift p (s p) >>= K p else others p := by
      funext p
      split_ifs with hp hle
      · exact absurd hle (hnone p hp)
      · rfl
      · rfl
    rw [hsame]
    exact Reaches.refl _
  | succ j ih =>
    intro hj
    refine (ih (by omega)).trans ?_
    obtain ⟨k, hk⟩ : ∃ k, k = nproc - (j + 1) := ⟨_, rfl⟩
    have hnext : nproc - j = k + 1 := by omega
    rw [← hk, hnext]
    have hself : (if k < nproc then
        if k + 1 ≤ k then K k (next op nproc shift s k)
        else finish op nproc tag waits shift k (s k) >>= K k
        else others k) = finish op nproc tag waits shift k (s k) >>= K k := by
      rw [if_pos (by omega), if_neg (by omega)]
    have hrun := reaches_of_eval _ (K k)
      { procs := fun p =>
          if p < nproc then
            if k + 1 ≤ p then K p (next op nproc shift s p)
            else finish op nproc tag waits shift p (s p) >>= K p
          else others p
        chan := roundChan nproc tag waits shift s (k + 1) } hself
      (eval_finish op nproc tag waits s hshift (by omega))
    convert hrun using 2
    funext p
    by_cases hpk : p = k
    · subst hpk
      rw [update_self, if_pos (by omega), if_pos le_rfl]
    · rw [update_of_ne hpk]
      have hiff : k ≤ p ↔ k + 1 ≤ p := by omega
      simp only [hiff]

lemma reaches_round
    (hprocs : ∀ p < nproc, net.procs p = round op nproc p 0 1 tag (waits p) shift (s p) >>= K p)
    (hchan : net.chan = Chan.empty) : Reaches net
      { procs := fun p => if p < nproc then K p (next op nproc shift s p) else net.procs p
        chan := Chan.empty } := by
  have hfinish := (reaches_sends op nproc tag waits s K hprocs hchan).trans
    (reaches_finish op nproc tag waits s K hshift net.procs nproc le_rfl)
  simp only [Nat.sub_self, Nat.zero_le, if_true] at hfinish
  convert hfinish using 2
  ext1 ⟨src, dst, t⟩
  cases t with
  | data t => exact (if_neg fun h => Nat.not_lt_zero _ h.2.2.2).symm
  | taken t => exact (if_neg fun h => Nat.not_lt_zero _ h.2.2.2.2.1).symm

end Shift

/-! ### All rounds -/

def shifts : ℕ → ℕ → List ℕ
  | 0, _ => []
  | rounds + 1, shift => if shift < nproc then shift :: shifts rounds (shift <<< 1) else []

/-- The states of the processes after rounds with these distances. -/
def after (l : List ℕ) : ℕ → ScanState α := l.foldl (fun s shift => next op nproc shift s) s

lemma reaches_none {progs : ℕ → ScanProc α γ} (hprocs : ∀ p < nproc, net.procs p = progs p)
    (hchan : net.chan = Chan.empty) : Reaches net
      { procs := fun p => if p < nproc then progs p else net.procs p, chan := Chan.empty } := by
  convert Reaches.refl net using 1
  obtain ⟨procs, chan⟩ := net
  obtain rfl : chan = Chan.empty := hchan
  congr 1
  funext p
  split_ifs with hp
  · exact (hprocs p hp).symm
  · rfl

lemma reaches_loop (rounds : ℕ) : ∀ (shift : ℕ), 0 < shift → ∀ (s : ℕ → ScanState α)
    (K : ℕ → ScanState α → ScanProc α γ) (net : Net ℕ ScanTag (ScanMessage α) γ),
    (∀ p < nproc, net.procs p = loop op nproc p 0 1 tag (waits p) rounds shift (s p) >>= K p) →
    net.chan = Chan.empty → Reaches net
      { procs := fun p =>
          if p < nproc then K p (after op nproc s (shifts nproc rounds shift) p) else net.procs p
        chan := Chan.empty } := by
  induction rounds with
  | zero =>
    intro shift _ s K net hprocs hchan
    exact reaches_none nproc hprocs hchan
  | succ rounds ih =>
    intro shift hshift s K net hprocs hchan
    by_cases hlt : shift < nproc
    · simp only [loop, shifts, if_pos hlt] at hprocs ⊢
      have hround := reaches_round op nproc tag waits s (fun p t =>
        loop op nproc p 0 1 tag (waits p) rounds (shift <<< 1) t >>= K p) hshift
        (fun p hp => by rw [hprocs p hp, bind_assoc]) hchan
      refine hround.trans ?_
      have hrest := ih (shift <<< 1) (by rw [Nat.shiftLeft_eq]; omega) (next op nproc shift s) K
        { procs := fun p => if p < nproc then
            loop op nproc p 0 1 tag (waits p) rounds (shift <<< 1) (next op nproc shift s p) >>= K p
            else net.procs p
          chan := Chan.empty } (fun p hp => if_pos hp) rfl
      convert hrest using 2
      funext p
      by_cases hp : p < nproc
      · rw [if_pos hp, if_pos hp]
        rfl
      · simp only [if_neg hp]
    · simp only [loop, shifts, if_neg hlt] at hprocs ⊢
      exact reaches_none nproc hprocs hchan

variable {op}

/-- **After all rounds** a process has the contributions up to it. -/
theorem after_recvbuf (hassoc : ∀ x y z, op.func (op.func x y) z = op.func x (op.func y z))
    (a : ℕ → List α) (rounds : ℕ) : ∀ (shift : ℕ), 0 < shift → nproc ≤ shift * 2 ^ rounds →
      ∀ (s : ℕ → ScanState α), (∀ p < nproc, (s p).recvbuf = segment op a shift p) →
      ∀ p < nproc, (after op nproc s (shifts nproc rounds shift) p).recvbuf =
        prefixReduce op a p := by
  induction rounds with
  | zero =>
    intro shift _ hbound s hs p hp
    rw [shifts, after, foldl_nil, hs p hp, segment_of_lt op a (by omega)]
  | succ rounds ih =>
    intro shift hshift hbound s hs p hp
    by_cases hlt : shift < nproc
    · have hdouble : shift <<< 1 = 2 * shift := by rw [Nat.shiftLeft_eq]; omega
      rw [shifts, if_pos hlt, after, foldl_cons, hdouble]
      rw [Nat.pow_succ', ← Nat.mul_assoc, Nat.mul_comm shift 2] at hbound
      refine ih (2 * shift) (by omega) hbound _ (fun q hq => ?_) p hp
      by_cases hle : shift ≤ q
      · rw [next, if_pos hle, hs q hq, hs (q - shift) (by omega), call_segment hassoc a hshift hle]
      · rw [next, if_neg hle, hs q hq, segment_of_lt op a (by omega), segment_of_lt op a (by omega)]
    · rw [shifts, if_neg hlt, after, foldl_nil, hs p hp, segment_of_lt op a (by omega)]

variable (op)

lemma after_sent (l : List ℕ) : ∀ (s : ℕ → ScanState α) (p : ℕ), (after op nproc s l p).sent =
      (s p).sent ++ (l.filter (p + · < nproc)).map fun shift => (p + shift, shift) := by
  induction l with
  | nil => exact fun s p => (append_nil _).symm
  | cons shift l ih =>
    intro s p
    rw [after, foldl_cons, ← after, ih, next]
    by_cases hlt : p + shift < nproc
    · simp [hlt]
    · simp [hlt]

lemma after_received (l : List ℕ) : ∀ (s : ℕ → ScanState α) (p : ℕ),
    (after op nproc s l p).received =
      (s p).received ++ (l.filter (· ≤ p)).map fun shift => (p - shift, shift, shift) := by
  induction l with
  | nil => exact fun s p => (append_nil _).symm
  | cons shift l ih =>
    intro s p
    rw [after, foldl_cons, ← after, ih, next]
    by_cases hle : shift ≤ p
    · simp [hle]
    · simp [hle]

lemma le_of_mem_shifts (rounds : ℕ) :
    ∀ (shift : ℕ), ∀ r ∈ shifts nproc rounds shift, shift ≤ r := by
  induction rounds with
  | zero => exact fun shift r hr => absurd hr not_mem_nil
  | succ rounds ih =>
    intro shift r hr
    rw [shifts] at hr
    split_ifs at hr with hlt
    · rcases mem_cons.mp hr with rfl | hr
      · exact le_rfl
      · have hle := ih _ r hr
        omega
    · exact absurd hr not_mem_nil

lemma nodup_shifts (rounds : ℕ) : ∀ (shift : ℕ), 0 < shift → (shifts nproc rounds shift).Nodup := by
  induction rounds with
  | zero => exact fun _ _ => nodup_nil
  | succ rounds ih =>
    intro shift hshift
    have hdouble : shift <<< 1 = 2 * shift := by rw [Nat.shiftLeft_eq]; omega
    rw [shifts, hdouble]
    split_ifs with hlt
    · refine nodup_cons.mpr ⟨fun hin => ?_, ih _ (by omega)⟩
      have hle := le_of_mem_shifts nproc rounds _ _ hin
      omega
    · exact nodup_nil

end UlmScan

open UlmScan

/-- The state of process `p` at the end. -/
def scanResult (op : ULMOp α) (nproc count : ℕ) (sendbuf recvbuf : ℕ → List α) (p : ℕ) :
    ScanState α :=
  if p < nproc then
    if count = 0 then { recvbuf := recvbuf p, sent := [], received := [] }
    else after op nproc (fun p => { recvbuf := sendbuf p, sent := [], received := [] })
      (shifts nproc nproc 1) p
  else { recvbuf := [], sent := [], received := [] }

lemma ulmScan_completes (op : ULMOp α) (nproc : ℕ) (tag : ℤ) (waits : ℕ → ℕ → Bool) (count : ℕ)
    (sendbuf recvbuf : ℕ → List α) :
    Completes (ulmScan.start op nproc tag waits count sendbuf recvbuf)
      (scanResult op nproc count sendbuf recvbuf) := by
  by_cases hcount : count = 0
  · refine (Reaches.refl _).completes fun p => ?_
    simp only [ulmScan.start, ulmScan, scanFrom, scanResult, hcount, if_true]
    split_ifs <;> rfl
  · have hrun := reaches_loop op nproc tag waits nproc 1 Nat.one_pos
      (fun p => { recvbuf := sendbuf p, sent := [], received := [] }) (fun _ => pure)
      (ulmScan.start op nproc tag waits count sendbuf recvbuf) (fun p hp => by
        simp only [ulmScan.start, ulmScan, scanFrom, if_pos hp, if_neg hcount, bind_pure]) rfl
    refine hrun.completes fun p => ?_
    simp only [ulmScan.start, scanResult, if_neg hcount]
    split_ifs <;> rfl

lemma scanResult_count (op : ULMOp α) (nproc count : ℕ) (sendbuf recvbuf : ℕ → List α) {q : ℕ}
    (hp : p < nproc) (hq : q < nproc) (r : ℕ) :
    (scanResult op nproc count sendbuf recvbuf q).received.count (p, r, r) =
        (scanResult op nproc count sendbuf recvbuf p).sent.count (q, r) ∧
      (scanResult op nproc count sendbuf recvbuf p).sent.count (q, r) ≤ 1 := by
  unfold scanResult
  split_ifs
  · exact ⟨rfl, Nat.zero_le 1⟩
  · have hnodup := nodup_shifts nproc nproc 1 Nat.one_pos
    have hsent : (((shifts nproc nproc 1).filter (p + · < nproc)).map fun shift =>
        (p + shift, shift)).Nodup := (hnodup.filter _).map fun _ _ h => (Prod.mk.inj h).2
    have hreceived : (((shifts nproc nproc 1).filter (· ≤ q)).map fun shift =>
        (q - shift, shift, shift)).Nodup :=
      (hnodup.filter _).map fun _ _ h => (Prod.mk.inj (Prod.mk.inj h).2).1
    rw [after_sent, after_received, nil_append, nil_append, hsent.count, hreceived.count]
    refine ⟨if_congr ?_ rfl rfl, by split_ifs <;> omega⟩
    simp only [mem_map, mem_filter, decide_eq_true_iff, Prod.mk.injEq]
    constructor
    · rintro ⟨shift, ⟨hmem, hle⟩, rfl, rfl, -⟩
      exact ⟨shift, ⟨hmem, by omega⟩, by omega, rfl⟩
    · rintro ⟨shift, ⟨hmem, hlt⟩, rfl, rfl⟩
      exact ⟨shift, ⟨hmem, by omega⟩, by omega, rfl, rfl⟩

/-- **Scan**: with an associative operation and any schedule, `ulm_scan` returns on all processes,
each has the contributions up to its own in rank order, and every message was received where it was
sent to, in the round in which it was sent. -/
theorem ulmScan_prefix (op : ULMOp α)
    (hassoc : ∀ x y z, op.func (op.func x y) z = op.func x (op.func y z)) (nproc : ℕ) (tag : ℤ)
    (waits : ℕ → ℕ → Bool) (count : ℕ) (sendbuf recvbuf : ℕ → List α)
    (hsendbuf : ∀ p < nproc, (sendbuf p).length = count)
    (hrecvbuf : ∀ p < nproc, (recvbuf p).length = count) :
    ∃ out, Completes (ulmScan.start op nproc tag waits count sendbuf recvbuf) out ∧
      ∀ p < nproc, (out p).recvbuf = prefixReduce op sendbuf p ∧
        (∀ q < nproc, ∀ r, (out q).received.count (p, r, r) = (out p).sent.count (q, r) ∧
          (out p).sent.count (q, r) ≤ 1) ∧
        (∀ m ∈ (out p).sent, m.1 < nproc) ∧
        ∀ m ∈ (out p).received, m.1 < nproc ∧ m.2.2 = m.2.1 := by
  refine ⟨_, ulmScan_completes op nproc tag waits count sendbuf recvbuf, fun p hp =>
    ⟨?_, fun q hq r => scanResult_count op nproc count sendbuf recvbuf hp hq r, ?_, ?_⟩⟩
  · rw [scanResult, if_pos hp]
    split_ifs with hcount
    · have hlength := length_prefixReduce op p fun q hq => hsendbuf q (hq.trans_lt hp)
      rw [eq_nil_of_length_eq_zero (hlength.trans hcount)]
      exact eq_nil_of_length_eq_zero ((hrecvbuf p hp).trans hcount)
    · refine after_recvbuf nproc hassoc sendbuf nproc 1 Nat.one_pos ?_ _ (fun q _ => ?_) p hp
      · rw [Nat.one_mul]
        exact Nat.lt_two_pow_self.le
      · exact (segment_one op sendbuf q).symm
  · rw [scanResult, if_pos hp]
    split_ifs
    · exact fun m hm => absurd hm not_mem_nil
    · rw [after_sent, nil_append]
      simp only [mem_map, mem_filter, decide_eq_true_iff]
      rintro m ⟨shift, ⟨-, hlt⟩, rfl⟩
      exact hlt
  · rw [scanResult, if_pos hp]
    split_ifs
    · exact fun m hm => absurd hm not_mem_nil
    · rw [after_received, nil_append]
      simp only [mem_map, mem_filter, decide_eq_true_iff]
      rintro m ⟨shift, -, rfl⟩
      exact ⟨by omega, rfl⟩

/-- Three processes, with an operation that does not commute. -/
theorem ulmScan_prefix_three :
    ∃ out, Completes (ulmScan.start ⟨false, fun x _ => x⟩ 3 0 (fun p _ => p == 0) 1 (fun p => [p])
        fun _ => [0]) out ∧ (out 2).recvbuf = [0] := by
  obtain ⟨out, hout, hall⟩ :=
    ulmScan_prefix (⟨false, fun x _ => x⟩ : ULMOp ℕ) (fun _ _ _ => rfl) 3 0
    (fun p _ => p == 0) 1 (fun p => [p]) (fun _ => [0]) (fun _ _ => rfl) fun _ _ => rfl
  exact ⟨out, hout, (hall 2 (by decide)).1⟩

end Lampi
