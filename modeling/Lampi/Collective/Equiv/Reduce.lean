import Mathlib.Data.List.Basic
import Mathlib.Order.Nat
import Lampi.Collective.Reduce

/-!
# What the chain reduce leaves in the receive buffers

After a block of `ulm_reduce_linear` the receive buffer of rank `k` holds the contributions of the
ranks `0` to `k`, combined in rank order (`prefixReduce`).  The last rank sends the whole reduction
to the root, which receives it into the temporary buffer: its receive buffer keeps the contributions
up to its own.

1. `eval_chain`: with the message of its inferior under way, a rank runs its part of the chain
   without waiting.  So the ranks can run one after the other (`reaches_chain`).
2. `reaches_linear`: one block, with any continuation; the channels are empty again after it.
3. `reaches_blocks`: all blocks, by induction on their number.

Since one run speaks for all of them, **`ulmReduce_completes`** holds for every interleaving of the
processes, and **`ulmReduce_root_iff`** says when the root has the result.
-/

namespace Lampi

open MessagePassing Function Nat List

variable {α : Type} {count : ℕ}

/-! ### Combining contributions in rank order -/

/-- The contributions of the ranks `0` to `k`, combined object by object in rank order. -/
def prefixReduce (op : ULMOp α) (a : ℕ → List α) : ℕ → List α
  | 0 => a 0
  | k + 1 => op.call (prefixReduce op a k) (a (k + 1))

lemma length_prefixReduce (op : ULMOp α) {a : ℕ → List α} :
    ∀ k, (∀ p ≤ k, (a p).length = count) → (prefixReduce op a k).length = count := by
  intro k
  induction k with
  | zero => intro h; exact h 0 le_rfl
  | succ k ih =>
    intro h
    have hk := ih fun p hp => h p (hp.trans (le_succ k))
    rw [prefixReduce, ULMOp.call, length_zipWith, hk, h (k + 1) le_rfl, min_self]

lemma prefixReduce_take (op : ULMOp α) (a : ℕ → List α) (n k : ℕ) :
    prefixReduce op (fun p => (a p).take n) k = (prefixReduce op a k).take n := by
  induction k with
  | zero => rfl
  | succ k ih => rw [prefixReduce, prefixReduce, ih, ULMOp.call, ULMOp.call, take_zipWith]

lemma prefixReduce_drop (op : ULMOp α) (a : ℕ → List α) (n k : ℕ) :
    prefixReduce op (fun p => (a p).drop n) k = (prefixReduce op a k).drop n := by
  induction k with
  | zero => rfl
  | succ k ih => rw [prefixReduce, prefixReduce, ih, ULMOp.call, ULMOp.call, drop_zipWith]

/-! ### One block -/

section Block

variable (op : ULMOp α) (nproc root : ℕ) (tag : ℤ)

/-- The part of `ulm_reduce_linear` up to the last send. -/
def ulmReduceLinear.chain (self : ℕ) (rBuf : List α) : RankProc α (List α) := do
  let rBuf ←
    if self > 0 then do
      let buf ← Proc.recvFrom (self - 1) tag
      pure (op.call buf rBuf)
    else pure rBuf
  if self < nproc - 1 then
    Proc.sendTo (self + 1) tag rBuf
  if root ≠ nproc - 1 ∧ self = nproc - 1 then
    Proc.sendTo root tag rBuf
  return rBuf

def ulmReduceLinear.collect (self : ℕ) : RankProc α Unit := do
  if root ≠ nproc - 1 ∧ self = root then
    let _buf ← Proc.recvFrom (nproc - 1) tag

lemma ulmReduceLinear_eq (hcount : count ≠ 0) (self : ℕ) (sBuf : Option (List α)) (rBuf : List α) :
    ulmReduceLinear op nproc self root tag count sBuf rBuf =
      ulmReduceLinear.chain op nproc root tag self (sBuf.getD rBuf) >>= fun r =>
        ulmReduceLinear.collect nproc root tag self >>= fun _ => pure r := by
  unfold ulmReduceLinear ulmReduceLinear.chain ulmReduceLinear.collect
  -- the programs are the same in each case of the tests on the ranks
  split_ifs <;> first | rfl | (exfalso; tauto)

def single (src dst : ℕ) (m : List α) : Chan ℕ ℤ (List α) := update Chan.empty (src, dst, tag) [m]

lemma single_self (src dst : ℕ) (m : List α) : single tag src dst m (src, dst, tag) = [m] :=
  update_self _ _ _

lemma update_single (src dst : ℕ) (m : List α) :
    update (single tag src dst m) (src, dst, tag) [] = Chan.empty := by
  rw [single, update_idem]
  exact update_eq_self _ _

variable (a : ℕ → List α) {k : ℕ}

/-- The messages under way when the ranks below `k` have run their part of the chain. -/
def chainChan (k : ℕ) : Chan ℕ ℤ (List α) :=
  if k = 0 then Chan.empty
  else if k < nproc then single tag (k - 1) k (prefixReduce op a (k - 1))
  else if root ≠ nproc - 1 then single tag (nproc - 1) root (prefixReduce op a (nproc - 1))
  else Chan.empty

lemma eval_chain_sends (hk : k < nproc) : eval k
      (do
        if k < nproc - 1 then
          Proc.sendTo (k + 1) tag (prefixReduce op a k)
        if root ≠ nproc - 1 ∧ k = nproc - 1 then
          Proc.sendTo root tag (prefixReduce op a k)
        return prefixReduce op a k : RankProc α (List α))
      Chan.empty = some (prefixReduce op a k, chainChan op nproc root tag a (k + 1)) := by
  have hzero : k + 1 ≠ 0 := succ_ne_zero k
  rw [chainChan, if_neg hzero]
  by_cases hnext : k < nproc - 1
  · -- the message goes to the superior
    have hlast : ¬(root ≠ nproc - 1 ∧ k = nproc - 1) := by omega
    rw [if_pos (show k + 1 < nproc by omega), if_pos hnext, if_neg hlast]
    rfl
  · obtain rfl : k = nproc - 1 := by omega
    rw [if_neg (show ¬nproc - 1 + 1 < nproc by omega), if_neg hnext]
    by_cases hroot : root = nproc - 1
    · rw [if_neg (by simp [hroot]), if_neg (by simp [hroot])]
      rfl
    · -- the last rank sends to the root
      rw [if_pos ⟨hroot, rfl⟩, if_pos hroot]
      rfl

lemma eval_chain (hk : k < nproc) :
    eval k (ulmReduceLinear.chain op nproc root tag k (a k)) (chainChan op nproc root tag a k) =
      some (prefixReduce op a k, chainChan op nproc root tag a (k + 1)) := by
  rw [← eval_chain_sends op nproc root tag a hk]
  cases k with
  | zero => rfl
  | succ k =>
    have hchan : chainChan op nproc root tag a (k + 1) =
        single tag k (k + 1) (prefixReduce op a k) := by
      rw [chainChan, if_neg (succ_ne_zero k), if_pos hk, Nat.add_sub_cancel]
    rw [hchan, ← update_single tag k (k + 1) (prefixReduce op a k)]
    simp only [ulmReduceLinear.chain, succ_pos, gt_iff_lt, if_true, Nat.add_sub_cancel]
    rw [eval_recvFrom _ (single_self tag _ _ _)]
    rfl

variable {γ : Type}

lemma reaches_chain (K : ℕ → List α → RankProc α γ) {net : Net ℕ ℤ (List α) γ}
    (hprocs : ∀ p < nproc, net.procs p = ulmReduceLinear.chain op nproc root tag p (a p) >>= K p)
    (hchan : net.chan = Chan.empty) : ∀ k ≤ nproc, Reaches net
      { procs := fun p => if p < k then K p (prefixReduce op a p) else net.procs p
        chan := chainChan op nproc root tag a k } := by
  intro k
  induction k with
  | zero =>
    intro _
    have hstart : net = ⟨fun p => if p < 0 then K p (prefixReduce op a p) else net.procs p,
        chainChan op nproc root tag a 0⟩ := by
      obtain ⟨procs, chan⟩ := net
      obtain rfl : chan = Chan.empty := hchan
      simp [chainChan]
    rw [← hstart]
    exact Reaches.refl net
  | succ k ih =>
    intro hk
    refine (ih (le_of_succ_le hk)).trans ?_
    have hself : (if k < k then K k (prefixReduce op a k) else net.procs k) =
        ulmReduceLinear.chain op nproc root tag k (a k) >>= K k := by
      rw [if_neg (lt_irrefl k), hprocs k hk]
    have hrun := reaches_of_eval _ (K k)
      { procs := fun p => if p < k then K p (prefixReduce op a p) else net.procs p
        chan := chainChan op nproc root tag a k } hself (eval_chain op nproc root tag a hk)
    -- rank `k` joins those that have run
    have hjoin : update
        (fun p => if p < k then K p (prefixReduce op a p) else net.procs p) k
          (K k (prefixReduce op a k)) =
        fun p => if p < k + 1 then K p (prefixReduce op a p) else net.procs p := by
      funext p
      rcases lt_trichotomy p k with hlt | rfl | hgt
      · rw [update_of_ne hlt.ne, if_pos hlt, if_pos (by omega)]
      · rw [update_self, if_pos (by omega)]
      · rw [update_of_ne hgt.ne', if_neg (by omega), if_neg (by omega)]
    rwa [hjoin] at hrun

/-- **One block.**  Every rank goes on with the contributions up to its own, and no message is
left. -/
theorem reaches_linear (hcount : count ≠ 0) (hroot : root < nproc) (sBuf : ℕ → Option (List α))
    (rBuf : ℕ → List α) (K : ℕ → List α → RankProc α γ) {net : Net ℕ ℤ (List α) γ}
    (hprocs : ∀ p < nproc, net.procs p = ulmReduceLinear op nproc p root tag count (sBuf p)
      (rBuf p) >>= K p)
    (hchan : net.chan = Chan.empty) : Reaches net
      { procs := fun p => if p < nproc then
          K p (prefixReduce op (fun p => (sBuf p).getD (rBuf p)) p) else net.procs p
        chan := Chan.empty } := by
  set a : ℕ → List α := fun p => (sBuf p).getD (rBuf p) with ha
  have hsplit : ∀ p < nproc, net.procs p =
      ulmReduceLinear.chain op nproc root tag p (a p) >>= fun r =>
        ulmReduceLinear.collect nproc root tag p >>= fun _ => K p r := by
    intro p hp
    rw [hprocs p hp, ulmReduceLinear_eq op nproc root tag hcount p (sBuf p) (rBuf p), bind_assoc]
    simp only [bind_assoc, pure_bind, ha]
  have hchain := reaches_chain op nproc root tag a _ hsplit hchan nproc le_rfl
  have hlast : chainChan op nproc root tag a nproc =
      if root ≠ nproc - 1 then single tag (nproc - 1) root (prefixReduce op a (nproc - 1))
      else Chan.empty := by
    rw [chainChan, if_neg (by omega), if_neg (lt_irrefl nproc)]
  by_cases hend : root = nproc - 1
  · -- the root is at the end of the chain: nothing is left to do
    rw [hlast, if_neg (not_not.mpr hend)] at hchain
    have hcollect : ∀ p,
        (ulmReduceLinear.collect nproc root tag p : RankProc α Unit) = pure () := by
      intro p
      rw [ulmReduceLinear.collect, if_neg (by simp [hend])]
    simpa only [hcollect, pure_bind] using hchain
  · -- the root takes the result off the channel
    rw [hlast, if_pos hend] at hchain
    refine hchain.trans ?_
    have hcollect : ∀ p ≠ root,
        (ulmReduceLinear.collect nproc root tag p : RankProc α Unit) = pure () := by
      intro p hp
      rw [ulmReduceLinear.collect, if_neg (by simp [hp])]
    have heval : eval root (ulmReduceLinear.collect nproc root tag root)
        (single tag (nproc - 1) root (prefixReduce op a (nproc - 1))) = some ((), Chan.empty) := by
      rw [ulmReduceLinear.collect, if_pos ⟨hend, rfl⟩, eval_recvFrom _ (single_self tag _ _ _),
        update_single]
      rfl
    have hrun := reaches_of_eval _ (fun _ => K root (prefixReduce op a root))
      { procs := fun p => if p < nproc then
          ulmReduceLinear.collect nproc root tag p >>= fun _ => K p (prefixReduce op a p)
          else net.procs p
        chan := single tag (nproc - 1) root (prefixReduce op a (nproc - 1)) }
      (if_pos hroot) heval
    have hjoin : update (fun p => if p < nproc then
          ulmReduceLinear.collect nproc root tag p >>= fun _ => K p (prefixReduce op a p)
          else net.procs p) root (K root (prefixReduce op a root)) =
        fun p => if p < nproc then K p (prefixReduce op a p) else net.procs p := by
      funext p
      by_cases hp : p = root
      · subst hp
        rw [update_self, if_pos hroot]
      · rw [update_of_ne hp, hcollect p hp]
        rfl
    rwa [hjoin] at hrun

end Block

/-! ### All blocks -/

section Blocks

variable (op : ULMOp α) (nproc root : ℕ) {γ : Type}

lemma getD_map_take (s : Option (List α)) (r : List α) (n : ℕ) :
    (s.map (take n)).getD (r.take n) = (s.getD r).take n := by
  cases s <;> rfl

lemma getD_map_drop (s : Option (List α)) (r : List α) (n : ℕ) :
    (s.map (drop n)).getD (r.drop n) = (s.getD r).drop n := by
  cases s <;> rfl

private lemma ite_else_ite {β : Type} (c : Prop) [Decidable c] (x y z : β) :
    (if c then x else if c then y else z) = if c then x else z := by
  split_ifs <;> rfl

private lemma reaches_nothing {sBuf : ℕ → Option (List α)} {rBuf : ℕ → List α}
    {K : ℕ → List α → RankProc α γ} {net : Net ℕ ℤ (List α) γ}
    (hlen : ∀ p < nproc, (rBuf p).length = 0 ∧ ((sBuf p).getD (rBuf p)).length = 0)
    (hprocs : ∀ p < nproc, net.procs p = (pure (rBuf p) : RankProc α (List α)) >>= K p)
    (hchan : net.chan = Chan.empty) : Reaches net
      { procs := fun p => if p < nproc then
          K p (prefixReduce op (fun p => (sBuf p).getD (rBuf p)) p) else net.procs p
        chan := Chan.empty } := by
  have hsame : (fun p => if p < nproc then
      K p (prefixReduce op (fun p => (sBuf p).getD (rBuf p)) p) else net.procs p) = net.procs := by
    funext p
    split_ifs with hp
    · have hnil : (prefixReduce op (fun p => (sBuf p).getD (rBuf p)) p).length = 0 :=
        length_prefixReduce op p fun q hq => (hlen q (by omega)).2
      rw [hprocs p hp, length_eq_zero_iff.mp hnil, length_eq_zero_iff.mp (hlen p hp).1]
      rfl
    · rfl
  rw [hsame, ← hchan]
  exact Reaches.refl net

/-- The blocks follow one another; what they leave behind adds up to the reduction of the whole
buffers. -/
lemma reaches_blocks (hroot : root < nproc) {blockCount : ℕ} (hblock : 0 < blockCount) :
    ∀ (rounds : ℕ) (tag : ℤ) (count : ℕ) (sBuf : ℕ → Option (List α)) (rBuf : ℕ → List α)
      (K : ℕ → List α → RankProc α γ) (net : Net ℕ ℤ (List α) γ), count ≤ rounds →
      (∀ p < nproc, (rBuf p).length = count ∧ ((sBuf p).getD (rBuf p)).length = count) →
      (∀ p < nproc, net.procs p = ulmReduce.blocks (ulmReduceLinear op nproc p root) blockCount
        rounds tag count (sBuf p) (rBuf p) >>= K p) →
      net.chan = Chan.empty → Reaches net
        { procs := fun p => if p < nproc then
            K p (prefixReduce op (fun p => (sBuf p).getD (rBuf p)) p) else net.procs p
          chan := Chan.empty } := by
  intro rounds
  induction rounds with
  | zero =>
    intro tag count sBuf rBuf K net hcount hlen hprocs hchan
    obtain rfl : count = 0 := le_zero.mp hcount
    exact reaches_nothing op nproc hlen hprocs hchan
  | succ rounds ih =>
    intro tag count sBuf rBuf K net hcount hlen hprocs hchan
    by_cases hpos : 0 < count
    · set n := if blockCount < count then blockCount else count with hn
      have hn0 : n ≠ 0 := by rw [hn]; split_ifs <;> omega
      -- the first block, with the rest of the loop as continuation
      have hfirst := reaches_linear op nproc root tag hn0 hroot
        (fun p => (sBuf p).map (take n)) (fun p => (rBuf p).take n)
        (fun p front => ulmReduce.blocks (ulmReduceLinear op nproc p root) blockCount rounds
          (tag - 1) (count - n) ((sBuf p).map (drop n)) ((rBuf p).drop n) >>=
            fun rest => K p (front ++ rest))
        (by
          intro p hp
          rw [hprocs p hp, ulmReduce.blocks, if_pos hpos]
          simp only [bind_assoc, pure_bind, ← hn])
        hchan
      have hrest := ih (tag - 1) (count - n) (fun p => (sBuf p).map (drop n))
        (fun p => (rBuf p).drop n)
        (fun p rest => K p (prefixReduce op
          (fun p => ((sBuf p).map (take n)).getD ((rBuf p).take n)) p ++ rest))
      have hdone := hfirst.trans (hrest _ (by omega) (by
        intro p hp
        obtain ⟨hr, hs⟩ := hlen p hp
        simp only [getD_map_drop, length_drop, hr, hs, and_self]) (fun p hp => if_pos hp) rfl)
      have hwhole : ∀ p, prefixReduce op
            (fun p => ((sBuf p).map (take n)).getD ((rBuf p).take n)) p ++
          prefixReduce op (fun p => ((sBuf p).map (drop n)).getD ((rBuf p).drop n)) p =
          prefixReduce op (fun p => (sBuf p).getD (rBuf p)) p := by
        intro p
        simp only [getD_map_take, getD_map_drop]
        rw [prefixReduce_take, prefixReduce_drop, take_append_drop]
      simpa only [hwhole, ite_else_ite] using hdone
    · obtain rfl : count = 0 := by omega
      exact reaches_nothing op nproc hlen
        (fun p hp => (hprocs p hp).trans (by rw [ulmReduce.blocks, if_neg hpos])) hchan

end Blocks

/-! ### `ulm_reduce` -/

/-- The buffers of a process hold `count` objects. -/
structure ReduceArgs.Fits (args : ReduceArgs α) (count : ℕ) : Prop where
  sBuf : ∀ s, args.sBuf = some s → s.length = count
  rBuf : (args.rBuf.getD args.reduceBuffer).length = count

/-- What a process contributes: its send buffer, or what its receive buffer holds at the call. -/
def ReduceArgs.contribution (args : ReduceArgs α) : List α :=
  args.sBuf.getD (args.rBuf.getD args.reduceBuffer)

lemma ReduceArgs.Fits.length_contribution {args : ReduceArgs α} (h : args.Fits count) :
    args.contribution.length = count := by
  unfold contribution
  cases hs : args.sBuf with
  | none => exact h.rBuf
  | some s => exact h.sBuf s hs

lemma ulmReduce.blockCount_pos (type : ReduceType) : 0 < ulmReduce.blockCount type := by
  unfold blockCount
  split_ifs with h
  · exact Nat.one_pos
  · exact Nat.pos_of_ne_zero h

/-- **Every run of `ulm_reduce` with an operation that does not commute ends**, and leaves in the
receive buffer of each rank the contributions up to its own. -/
theorem ulmReduce_completes {op : ULMOp α} (hop : op.commute = false) {type : ReduceType}
    (htype : 0 < type.packedSize) {nproc root : ℕ} (hnproc : 2 ≤ nproc) (hroot : root < nproc)
    (baseTag : ℤ) {args : ℕ → ReduceArgs α} (hargs : ∀ p < nproc, (args p).Fits count)
    (hbuf : (args root).rBuf ≠ none) (commuting : ℕ → RankProc α (Except ReduceError (List α))) :
    Completes (ulmReduce.start op type nproc root baseTag count args commuting) fun p =>
      if p < nproc then .ok (prefixReduce op (fun p => (args p).contribution) p) else .ok [] := by
  have hrun := reaches_blocks op nproc root hroot (ulmReduce.blockCount_pos type) count baseTag
    count (fun p => (args p).sBuf) (fun p => (args p).rBuf.getD (args p).reduceBuffer)
    (fun _ result => pure (.ok result))
    (ulmReduce.start op type nproc root baseTag count args commuting) le_rfl
    (fun p hp => ⟨(hargs p hp).rBuf, (hargs p hp).length_contribution⟩)
    (by
      intro p hp
      have hnull : ¬((args p).rBuf = none ∧ p = root) := fun h => hbuf (h.2 ▸ h.1)
      simp only [ulmReduce.start, hp, if_true, ulmReduce, hnull, if_false, hop,
        Bool.false_eq_true, show nproc ≠ 1 by omega, htype.ne'])
    rfl
  refine hrun.completes fun p => ?_
  simp only [ulmReduce.start]
  split_ifs <;> rfl

/-- **When the root has the result**: just when it is the last rank, or when the contributions of
the ranks after it happen to change nothing. -/
theorem ulmReduce_root_iff {op : ULMOp α} (hop : op.commute = false) {type : ReduceType}
    (htype : 0 < type.packedSize) {nproc root : ℕ} (hnproc : 2 ≤ nproc) (hroot : root < nproc)
    (baseTag : ℤ) {count : ℕ} {args : ℕ → ReduceArgs α} (hargs : ∀ p < nproc, (args p).Fits count)
    (hbuf : (args root).rBuf ≠ none) (commuting : ℕ → RankProc α (Except ReduceError (List α))) :
    ∃ out, Completes (ulmReduce.start op type nproc root baseTag count args commuting) out ∧
      (out root = .ok (prefixReduce op (fun p => (args p).contribution) (nproc - 1)) ↔
        root = nproc - 1 ∨
          prefixReduce op (fun p => (args p).contribution) root =
            prefixReduce op (fun p => (args p).contribution) (nproc - 1)) := by
  refine ⟨_, ulmReduce_completes hop htype hnproc hroot baseTag hargs hbuf commuting, ?_⟩
  rw [if_pos hroot, Except.ok.injEq]
  constructor
  · exact .inr
  · rintro (rfl | h)
    · rfl
    · exact h

def concatOp : ULMOp (List ℕ) := ⟨false, fun x y => x ++ y⟩

/-- Rank `p` contributes the one word `[p]`. -/
def rankWords (p : ℕ) : ReduceArgs (List ℕ) := ⟨some [[p]], some [[]], []⟩

lemma rankWords_fits (p : ℕ) : (rankWords p).Fits 1 :=
  ⟨by rintro s ⟨⟩; rfl, rfl⟩

/-- Two ranks with root 0: the root is left with its own contribution. -/
theorem ulmReduce_root_zero_of_two :
    ∃ out, Completes (ulmReduce.start concatOp ⟨4⟩ 2 0 (-1) 1 rankWords
        fun _ => pure (.ok [])) out ∧
      out 0 = .ok [[0]] ∧
      prefixReduce concatOp (fun p => (rankWords p).contribution) 1 = [[0, 1]] :=
  ⟨_, ulmReduce_completes rfl (by decide) (by decide) (by decide) (-1)
    (fun p _ => rankWords_fits p) (by decide) _, rfl, rfl⟩

/-- Two ranks with root 1: the root has both contributions in rank order. -/
theorem ulmReduce_root_iff_of_two :
    ∃ out, Completes (ulmReduce.start concatOp ⟨4⟩ 2 1 (-1) 1 rankWords
        fun _ => pure (.ok [])) out ∧ out 1 = .ok [[0, 1]] := by
  obtain ⟨out, hout, hiff⟩ := ulmReduce_root_iff (rfl : concatOp.commute = false)
    (show 0 < (⟨4⟩ : ReduceType).packedSize by decide) (by decide : 2 ≤ 2) (by decide : 1 < 2) (-1)
    (fun p _ => rankWords_fits p) (by decide)
    fun _ => pure (.ok [])
  exact ⟨out, hout, hiff.mpr (.inl rfl)⟩

end Lampi
