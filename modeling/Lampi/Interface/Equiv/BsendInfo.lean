import Mathlib.Data.List.Nodup
import Lampi.Interface.BsendInfo

/-!
# Correctness of the buffered-send buffer

The allocation list, read as blocks, is packed into `[0, bufferLength)`.  `WellFormed` is the
invariant of the runs: packing, the byte count, and the identity of the listed structures.

1. `ulmBsendAlloc.scan_some` and `scan_none_iff`: the scan links the new structure in in front of a
   gap that is large enough, or every gap is too small.
2. `ulmBsendCleanAlloc.go_snd` and `go_fst`: cleaning filters the list and keeps the count.
3. `WellFormed.step`, `WellFormed.run`: every call keeps the invariant, so every run does.

**`run_attach_consistent`** collects what a caller of the buffer may rely on.
-/

namespace Lampi

open PackedBlocks List ULMBufferRange

variable (b : ULMBufferRange)

/-- The part of the buffer a structure stands for. -/
def ULMBufferRange.block : Block := ⟨b.offset, b.len⟩

@[simp] lemma ULMBufferRange.block_start : b.block.start = b.offset := rfl

@[simp] lemma ULMBufferRange.block_len : b.block.len = b.len := rfl

@[simp] lemma ULMBufferRange.block_stop : b.block.stop = b.offset + b.len := rfl

lemma ULMBufferRange.isFree_iff : b.isFree = true ↔ b.freeAtZeroRefCount ≠ 0 ∧ b.refCount = 0 := by
  simp [isFree]

namespace BsendData

def blocks (d : BsendData) : List Block := d.allocations.map block

/-- The invariant of the buffer. -/
structure WellFormed (d : BsendData) : Prop where
  packed : IsPacked 0 d.bufferLength d.blocks
  bytesInUse_eq : d.bytesInUse = sumLen d.blocks
  addr_nodup : (d.allocations.map addr).Nodup
  addr_lt : ∀ b ∈ d.allocations, b.addr < d.nextAddr

variable {d : BsendData} (h : d.WellFormed)

lemma wellFormed_attach (bufferLength : ℤ) : (attach bufferLength).WellFormed where
  packed := trivial
  bytesInUse_eq := rfl
  addr_nodup := nodup_nil
  addr_lt := by simp [attach]

/-! ### The scan for a gap -/

/-- Where the gap in front of the scan begins. -/
def ulmBsendAlloc.cursor : Option ULMBufferRange → ℤ
  | none => 0
  | some prev => prev.offset + prev.len

/-- Both tests inside the loop compare the gap in front of `next` with the size. -/
lemma ulmBsendAlloc.scan_cons (bufferLength size : ℤ) (result next : ULMBufferRange)
    (prev : Option ULMBufferRange) (rest : List ULMBufferRange) :
    scan bufferLength size result prev (next :: rest) =
      if size ≤ firstGap (cursor prev) bufferLength ((next :: rest).map block) then
        some ({ result with offset := cursor prev },
          { result with offset := cursor prev } :: next :: rest)
      else (scan bufferLength size result (some next) rest).map fun r => (r.1, next :: r.2) := by
  cases prev <;> simp [scan, cursor, firstGap]

variable {bufferLength size : ℤ}

/-- At the end of the list the gap that is left is tested; for an empty buffer the caller has
compared the whole buffer with the size. -/
lemma ulmBsendAlloc.scan_nil (result : ULMBufferRange) {prev : Option ULMBufferRange}
    (hempty : prev = none → size ≤ bufferLength) :
    scan bufferLength size result prev [] =
      if size ≤ firstGap (cursor prev) bufferLength [] then
        some ({ result with offset := cursor prev }, [{ result with offset := cursor prev }])
      else none := by
  cases prev with
  | none => simp [scan, cursor, firstGap, hempty rfl]
  | some p =>
    have hgap : firstGap (cursor (some p)) bufferLength [] = bufferLength - p.offset - p.len := by
      simp only [firstGap, cursor]; omega
    rw [hgap]
    rfl

lemma ulmBsendAlloc.scan_some {result r : ULMBufferRange} {l l' : List ULMBufferRange} :
    ∀ {prev : Option ULMBufferRange}, (prev = none → l = [] → size ≤ bufferLength) →
      scan bufferLength size result prev l = some (r, l') →
      ∃ l1 l2, l = l1 ++ l2 ∧ l' = l1 ++ r :: l2 ∧
        r = { result with offset := endFrom (cursor prev) (l1.map block) } ∧
        size ≤ firstGap (endFrom (cursor prev) (l1.map block)) bufferLength
          (l2.map block) := by
  induction l generalizing l' with
  | nil =>
    intro prev hempty h
    rw [scan_nil result fun hprev => hempty hprev rfl] at h
    split_ifs at h with hfit
    obtain ⟨rfl, rfl⟩ := h
    exact ⟨[], [], rfl, rfl, rfl, hfit⟩
  | cons next rest ih =>
    intro prev _ h
    rw [scan_cons] at h
    split_ifs at h with hfit
    · obtain ⟨rfl, rfl⟩ := h
      exact ⟨[], next :: rest, rfl, rfl, rfl, hfit⟩
    · -- the structure went in further down, behind `next`
      obtain ⟨⟨r', l''⟩, hrest, heq⟩ := Option.map_eq_some_iff.mp h
      simp only [Prod.mk.injEq] at heq
      obtain ⟨rfl, rfl⟩ := heq
      obtain ⟨l1, l2, rfl, rfl, hr, hfit'⟩ :=
        ih (fun hprev => absurd hprev (Option.some_ne_none next)) hrest
      exact ⟨next :: l1, l2, rfl, rfl, hr, hfit'⟩

lemma ulmBsendAlloc.scan_none_iff {result : ULMBufferRange} {l : List ULMBufferRange} :
    ∀ {prev : Option ULMBufferRange}, (prev = none → l = [] → size ≤ bufferLength) →
      (scan bufferLength size result prev l = none ↔
        ∀ g ∈ gaps (cursor prev) bufferLength (l.map block), g < size) := by
  induction l with
  | nil =>
    intro prev hempty
    rw [scan_nil result fun hprev => hempty hprev rfl]
    simp only [map_nil, gaps, forall_mem_singleton]
    split_ifs with hfit
    · simpa [firstGap] using hfit
    · simpa [firstGap] using hfit
  | cons next rest ih =>
    intro prev _
    rw [scan_cons]
    simp only [map_cons, gaps, forall_mem_cons, firstGap]
    split_ifs with hfit
    · simp only [false_iff, not_and]
      intro h
      exact absurd h (not_lt.mpr hfit)
    · rw [Option.map_eq_none_iff, ih fun hprev => absurd hprev (Option.some_ne_none next)]
      exact ⟨fun h => ⟨not_le.mp hfit, h⟩, fun h => h.2⟩

/-! ### `ulm_bsend_alloc` -/

section

include h

private lemma WellFormed.le_of_empty (htest : ¬ d.bufferLength - d.bytesInUse < size) :
    (none : Option ULMBufferRange) = none → d.allocations = [] → size ≤ d.bufferLength := by
  intro _ hnil
  have hbytes : d.bytesInUse = 0 := by simp [h.bytesInUse_eq, blocks, hnil]
  omega

/-- `ulm_bsend_alloc` fails with every gap too small, or links a new structure in behind some front
part of the list, in a gap that holds it. -/
lemma WellFormed.alloc_cases (size freeAtZero : ℤ) :
    (∃ nextAddr, d.nextAddr ≤ nextAddr ∧
      d.ulmBsendAlloc size freeAtZero = (none, { d with nextAddr }) ∧
      ∀ g ∈ gaps 0 d.bufferLength d.blocks, g < size) ∨
    ∃ r l1 l2, d.allocations = l1 ++ l2 ∧
      r = { ulmBsendAlloc.fresh d size freeAtZero with
        offset := endFrom 0 (l1.map block) } ∧
      size ≤ firstGap (endFrom 0 (l1.map block)) d.bufferLength
        (l2.map block) ∧
      d.ulmBsendAlloc size freeAtZero = (some r, { d with
        bytesInUse := d.bytesInUse + size
        allocations := l1 ++ r :: l2
        nextAddr := d.nextAddr + 1 }) := by
  by_cases htest : d.bufferLength - d.bytesInUse < size
  · -- the test on the total is no stronger than the one on each gap
    refine .inl ⟨d.nextAddr, le_rfl, by simp [ulmBsendAlloc, htest], fun g hg => ?_⟩
    have hle := h.packed.gap_le g hg
    have hbytes := h.bytesInUse_eq
    omega
  have hempty := h.le_of_empty htest
  cases hscan : ulmBsendAlloc.scan d.bufferLength size (ulmBsendAlloc.fresh d size freeAtZero) none
      d.allocations with
  | none =>
    refine .inl ⟨d.nextAddr + 1, by omega, by simp [ulmBsendAlloc, htest, hscan], ?_⟩
    exact (ulmBsendAlloc.scan_none_iff hempty).mp hscan
  | some res =>
    obtain ⟨r, l'⟩ := res
    obtain ⟨l1, l2, hl, rfl, hr, hfit⟩ := ulmBsendAlloc.scan_some hempty hscan
    exact .inr ⟨r, l1, l2, hl, hr, hfit, by simp [ulmBsendAlloc, htest, hscan]⟩

/-- **Completeness of the first fit.**  An allocation fails exactly when every gap is too small. -/
theorem WellFormed.alloc_eq_none_iff (size freeAtZero : ℤ) :
    (d.ulmBsendAlloc size freeAtZero).1 = none ↔
      ∀ g ∈ gaps 0 d.bufferLength d.blocks, g < size := by
  rcases h.alloc_cases size freeAtZero with
    ⟨_, -, heq, hgaps⟩ | ⟨r, l1, l2, hl, -, hfit, heq⟩
  · simpa [heq] using hgaps
  · -- the gap that was filled is one of those listed
    rw [heq]
    refine ⟨fun hr => absurd hr (Option.some_ne_none r), fun hgaps => ?_⟩
    have hmem := mem_gaps_append 0 d.bufferLength (l1.map block)
      (l2.map block)
    rw [← map_append, ← hl] at hmem
    exact absurd (hgaps _ hmem) (not_lt.mpr hfit)

lemma WellFormed.alloc (hsize : 0 ≤ size) (freeAtZero : ℤ) :
    (d.ulmBsendAlloc size freeAtZero).2.WellFormed := by
  rcases h.alloc_cases size freeAtZero with
    ⟨nextAddr, hle, heq, -⟩ | ⟨r, l1, l2, hl, hr, hfit, heq⟩
  · rw [heq]
    exact ⟨h.packed, h.bytesInUse_eq, h.addr_nodup, fun b hb => (h.addr_lt b hb).trans_le hle⟩
  · rw [heq]
    have hlen : r.block.len = size := by simp [hr, ulmBsendAlloc.fresh]
    have haddr : r.addr = d.nextAddr := by simp [hr, ulmBsendAlloc.fresh]
    have hpacked := h.packed
    have hbytes := h.bytesInUse_eq
    have hnodup := h.addr_nodup
    have hlt := h.addr_lt
    simp only [blocks, hl, map_append] at hpacked hbytes hnodup hlt
    refine ⟨?_, ?_, ?_, ?_⟩
    · simp only [blocks, map_append, map_cons]
      exact hpacked.insert (hlen.symm ▸ hsize) (by simp [hr]) (hlen.symm ▸ hfit)
    · simp only [blocks, map_append, map_cons, sumLen_append, sumLen_cons, hlen] at hbytes ⊢
      omega
    · rw [map_append, map_cons, nodup_middle, nodup_cons]
      refine ⟨fun hmem => ?_, hnodup⟩
      rw [← map_append] at hmem
      obtain ⟨b, hb, hbaddr⟩ := mem_map.mp hmem
      have := hlt b hb
      omega
    · intro b hb
      rcases mem_cons.mp (perm_middle.mem_iff.mp hb) with rfl | hb
      · simp [haddr]
      · exact (hlt b hb).trans (Nat.lt_succ_self _)

end

/-! ### `ulm_bsend_clean_alloc` -/

variable (wantToDetach : Bool)

@[simp] lemma ulmBsendCleanAlloc.mark_block (b : ULMBufferRange) :
    (mark wantToDetach b).block = b.block := by
  cases wantToDetach <;> rfl

@[simp] lemma ulmBsendCleanAlloc.mark_addr (b : ULMBufferRange) :
    (mark wantToDetach b).addr = b.addr := by
  cases wantToDetach <;> rfl

lemma ulmBsendCleanAlloc.go_snd (l : List ULMBufferRange) :
    ∀ bytesInUse, (go wantToDetach bytesInUse l).2 =
      (l.map (mark wantToDetach)).filter fun b => !b.isFree := by
  induction l with
  | nil => intro bytesInUse; rfl
  | cons next rest ih =>
    intro bytesInUse
    simp only [go, map_cons, filter_cons]
    by_cases hfree : (mark wantToDetach next).isFree
    · simp [hfree, ih]
    · simp [hfree, ih]

lemma ulmBsendCleanAlloc.go_fst (l : List ULMBufferRange) :
    ∀ bytesInUse, (go wantToDetach bytesInUse l).1 -
        sumLen ((go wantToDetach bytesInUse l).2.map block) =
      bytesInUse - sumLen (l.map block) := by
  induction l with
  | nil => intro bytesInUse; rfl
  | cons next rest ih =>
    intro bytesInUse
    have hlen : (mark wantToDetach next).len = next.len :=
      congrArg Block.len (mark_block wantToDetach next)
    simp only [go]
    by_cases hfree : (mark wantToDetach next).isFree
    · have h := ih (bytesInUse - next.len)
      simp only [hfree, hlen, if_true, map_cons, sumLen_cons, block_len] at h ⊢
      omega
    · have h := ih bytesInUse
      simp only [hfree, Bool.false_eq_true, if_false, map_cons, sumLen_cons, mark_block,
        block_len] at h ⊢
      omega

lemma ulmBsendCleanAlloc_allocations (d : BsendData) (wantToDetach : Bool) :
    (d.ulmBsendCleanAlloc wantToDetach).allocations =
      (d.allocations.map (ulmBsendCleanAlloc.mark wantToDetach)).filter
        fun b => !b.isFree := ulmBsendCleanAlloc.go_snd wantToDetach d.allocations d.bytesInUse

variable {β : Type*}

private lemma clean_map_sublist (d : BsendData) (wantToDetach : Bool) {f : ULMBufferRange → β}
    (hf : ∀ b, f (ulmBsendCleanAlloc.mark wantToDetach b) = f b) :
    ((d.ulmBsendCleanAlloc wantToDetach).allocations.map f).Sublist (d.allocations.map f) := by
  have hmap : (d.allocations.map (ulmBsendCleanAlloc.mark wantToDetach)).map f =
      d.allocations.map f := by
    simp [hf]
  rw [ulmBsendCleanAlloc_allocations, ← hmap]
  exact filter_sublist.map f

lemma WellFormed.clean (h : d.WellFormed) (wantToDetach : Bool) :
    (d.ulmBsendCleanAlloc wantToDetach).WellFormed := by
  have haddr := clean_map_sublist d wantToDetach (ulmBsendCleanAlloc.mark_addr wantToDetach)
  refine ⟨h.packed.sublist (clean_map_sublist d wantToDetach
    (ulmBsendCleanAlloc.mark_block wantToDetach)), ?_, h.addr_nodup.sublist haddr, fun b hb => ?_⟩
  · have hgo := ulmBsendCleanAlloc.go_fst wantToDetach d.allocations d.bytesInUse
    have hbytes := h.bytesInUse_eq
    simp only [blocks, ulmBsendCleanAlloc] at hbytes ⊢
    omega
  · obtain ⟨c, hc, hcaddr⟩ := mem_map.mp (haddr.subset (mem_map_of_mem hb))
    exact hcaddr ▸ h.addr_lt c hc

/-! ### Writes to the bookkeeping fields -/

/-- A write leaves the place and the identity of a structure alone. -/
structure IsBookkeeping (f : ULMBufferRange → ULMBufferRange) : Prop where
  block : ∀ b, (f b).block = b.block
  addr : ∀ b, (f b).addr = b.addr

variable {f : ULMBufferRange → ULMBufferRange}

lemma modify_map (d : BsendData) (addr : ℕ) {g : ULMBufferRange → β} (hg : ∀ b, g (f b) = g b) :
    (d.modify addr f).allocations.map g = d.allocations.map g := by
  simp only [modify, map_map]
  refine map_congr_left fun b _ => ?_
  simp only [Function.comp_apply]
  split_ifs
  · exact hg b
  · rfl

lemma WellFormed.modify (h : d.WellFormed) (addr : ℕ) (hf : IsBookkeeping f) :
    (d.modify addr f).WellFormed := by
  have hblocks : (d.modify addr f).blocks = d.blocks := modify_map d addr hf.block
  have haddrs := modify_map d addr hf.addr
  refine ⟨hblocks ▸ h.packed, hblocks ▸ h.bytesInUse_eq, haddrs ▸ h.addr_nodup, fun b hb => ?_⟩
  obtain ⟨c, hc, hcaddr⟩ := mem_map.mp (haddrs ▸ mem_map_of_mem hb)
  exact hcaddr ▸ h.addr_lt c hc

lemma isBookkeeping_increment (request : Option ℕ) : IsBookkeeping fun b =>
    { b with request, refCount := b.refCount + if b.refCount = -1 then 2 else 1 } :=
  ⟨fun _ => rfl, fun _ => rfl⟩

lemma isBookkeeping_decrement : IsBookkeeping fun b => { b with refCount := b.refCount - 1 } :=
  ⟨fun _ => rfl, fun _ => rfl⟩

lemma isBookkeeping_assign (request : Option ℕ) (refCount freeAtZeroRefCount : ℤ) :
    IsBookkeeping fun b => { b with request, refCount, freeAtZeroRefCount } :=
  ⟨fun _ => rfl, fun _ => rfl⟩

/-! ### Runs -/

variable {c : Call}

/-- The bytes of the buffer do not move under a structure, whatever is called. -/
lemma WellFormed.step (h : d.WellFormed) (hc : c.HasByteCount) : (d.step c).WellFormed := by
  cases c with
  | alloc size freeAtZero => exact h.alloc hc freeAtZero
  | find offset request => exact h
  | clean wantToDetach => exact h.clean wantToDetach
  | increment request offset =>
    simp only [BsendData.step, ulmBsendIncrementRefcount]
    split
    · exact h
    · exact h.modify _ (isBookkeeping_increment request)
  | decrement request offset =>
    simp only [BsendData.step, ulmBsendDecrementRefcount]
    split
    · exact h
    · split_ifs
      · exact (h.modify _ isBookkeeping_decrement).clean false
      · exact h.modify _ isBookkeeping_decrement
  | assign addr request refCount freeAtZeroRefCount =>
    exact h.modify addr (isBookkeeping_assign request refCount freeAtZeroRefCount)

lemma WellFormed.run (h : d.WellFormed) {calls : List Call}
    (hcalls : ∀ c ∈ calls, c.HasByteCount) : (d.run calls).WellFormed := by
  induction calls generalizing d with
  | nil => exact h
  | cons c cs ih =>
    obtain ⟨hc, hcs⟩ := forall_mem_cons.mp hcalls
    exact ih (h.step hc) hcs

/-! ### What is removed -/

/-- When a call may take the structure `b` out of the list.  A detaching `clean` releases what was
only initialised as well; a `decrement` drops the count of the structure it finds first. -/
def Released (d : BsendData) (b : ULMBufferRange) : Call → Prop
  | .clean true => b.refCount = 0 ∨ b.refCount = -1
  | .clean false => b.refCount = 0 ∧ b.freeAtZeroRefCount ≠ 0
  | .decrement request offset => b.freeAtZeroRefCount ≠ 0 ∧
      (b.refCount = 0 ∨ b.refCount = 1 ∧ d.ulmBsendFindAlloc offset request = some b)
  | _ => False

variable {b : ULMBufferRange}

/-- A structure missing after a cleaning pass was free when the pass reached it. -/
lemma isFree_of_cleaned {wantToDetach : Bool} (hb : b ∈ d.allocations)
    (hgone : b.addr ∉ (d.ulmBsendCleanAlloc wantToDetach).allocations.map addr) :
    (ulmBsendCleanAlloc.mark wantToDetach b).isFree := by
  by_contra hkept
  refine hgone (mem_map.mpr ⟨ulmBsendCleanAlloc.mark wantToDetach b, ?_, by simp⟩)
  rw [ulmBsendCleanAlloc_allocations, mem_filter]
  exact ⟨mem_map_of_mem hb, by simpa using hkept⟩

variable {a : ULMBufferRange}

lemma WellFormed.eq_of_addr_eq (h : d.WellFormed) (ha : a ∈ d.allocations)
    (hb : b ∈ d.allocations) (hab : a.addr = b.addr) : a = b :=
  inj_on_of_nodup_map h.addr_nodup ha hb hab

variable {request : Option ℕ}

private lemma mem_of_find {offset : ℤ}
    (h : d.ulmBsendFindAlloc offset request = some a) : a ∈ d.allocations := mem_of_find?_eq_some h

section

include h

lemma WellFormed.released_of_decrement {offset : ℤ} (hb : b ∈ d.allocations)
    (hgone : b.addr ∉ (d.ulmBsendDecrementRefcount request offset).2.allocations.map addr) :
    d.Released b (.decrement request offset) := by
  cases hfind : d.ulmBsendFindAlloc offset request with
  | none =>
    simp only [ulmBsendDecrementRefcount, hfind] at hgone
    exact absurd (mem_map_of_mem hb) hgone
  | some a =>
    simp only [ulmBsendDecrementRefcount, hfind] at hgone
    split_ifs at hgone with hzero
    · -- the pass ran over the list in which `a` has lost one reference
      set b' := if b.addr = a.addr then { b with refCount := b.refCount - 1 } else b with hb'
      have hmem :
          b' ∈ (d.modify a.addr fun b => { b with refCount := b.refCount - 1 }).allocations :=
        mem_map_of_mem hb
      have haddr : b'.addr = b.addr := by rw [hb']; split_ifs <;> rfl
      have hfree := isFree_of_cleaned hmem (haddr.symm ▸ hgone)
      rw [isFree_iff] at hfree
      by_cases hba : b.addr = a.addr
      · obtain rfl : b = a := h.eq_of_addr_eq hb (mem_of_find hfind) hba
        simp only [hb', if_true, ulmBsendCleanAlloc.mark, Bool.false_eq_true, if_false] at hfree
        exact ⟨hfree.1, .inr ⟨by omega, hfind⟩⟩
      · simp only [hb', hba, ulmBsendCleanAlloc.mark, Bool.false_eq_true, if_false] at hfree
        exact ⟨hfree.1, .inl hfree.2⟩
    · rw [modify_map d a.addr isBookkeeping_decrement.addr] at hgone
      exact absurd (mem_map_of_mem hb) hgone

/-- A structure leaves the list only in the calls that may release it. -/
lemma WellFormed.released_of_step (hb : b ∈ d.allocations)
    (hgone : b.addr ∉ (d.step c).allocations.map addr) : d.Released b c := by
  have hkept : b.addr ∈ d.allocations.map addr := mem_map_of_mem hb
  cases c with
  | alloc size freeAtZero =>
    rcases h.alloc_cases size freeAtZero with ⟨_, -, heq, -⟩ | ⟨r, l1, l2, hl, -, -, heq⟩
    · simp only [BsendData.step, heq] at hgone
      exact absurd hkept hgone
    · simp only [BsendData.step, heq] at hgone
      refine absurd (mem_map_of_mem (perm_middle.mem_iff.mpr ?_)) hgone
      exact mem_cons_of_mem _ (hl ▸ hb)
  | find offset request => exact absurd hkept hgone
  | clean wantToDetach =>
    have hfree := (isFree_iff _).mp (isFree_of_cleaned hb hgone)
    cases wantToDetach with
    | false => exact ⟨hfree.2, hfree.1⟩
    | true =>
      simp only [ulmBsendCleanAlloc.mark, if_true] at hfree
      split_ifs at hfree with hinit
      · exact .inr hinit
      · exact .inl hfree.2
  | increment request offset =>
    simp only [BsendData.step, ulmBsendIncrementRefcount] at hgone
    split at hgone
    · exact absurd hkept hgone
    · rw [modify_map d _ (isBookkeeping_increment request).addr] at hgone
      exact absurd hkept hgone
  | decrement request offset => exact h.released_of_decrement hb hgone
  | assign addr request refCount freeAtZeroRefCount =>
    simp only [BsendData.step] at hgone
    rw [modify_map d addr (isBookkeeping_assign request refCount freeAtZeroRefCount).addr] at hgone
    exact absurd hkept hgone

/-! ### The buffer as its callers see it -/

/-- What holds of the attached buffer between calls. -/
structure Consistent (d : BsendData) : Prop where
  /-- The list is sorted by offset. -/
  sorted : d.allocations.Pairwise fun a b => a.offset ≤ b.offset
  /-- No byte of the buffer belongs to two blocks. -/
  disjoint : d.allocations.Pairwise fun a b =>
    Disjoint (Set.Ico a.offset (a.offset + a.len)) (Set.Ico b.offset (b.offset + b.len))
  /-- Every block lies inside the buffer. -/
  inside : ∀ b ∈ d.allocations, 0 ≤ b.offset ∧ 0 ≤ b.len ∧ b.offset + b.len ≤ d.bufferLength
  /-- The byte count is the sum of the block lengths. -/
  bytesInUse_eq : d.bytesInUse = (d.allocations.map len).sum
  /-- The next call takes a block out of the list only if it may release it. -/
  released : ∀ c, ∀ b ∈ d.allocations, b.addr ∉ (d.step c).allocations.map addr → d.Released b c
  /-- A positive size is refused exactly when no gap is large enough. -/
  alloc_none : ∀ size freeAtZero, 0 < size →
    ((d.ulmBsendAlloc size freeAtZero).1 = none ↔ ¬ ∃ g ∈ gaps 0 d.bufferLength d.blocks, size ≤ g)

lemma WellFormed.pairwise_stop_le : d.allocations.Pairwise fun a b => a.offset + a.len ≤ b.offset :=
  pairwise_map.mp h.packed.pairwise

lemma WellFormed.inside :
    ∀ b ∈ d.allocations, 0 ≤ b.offset ∧ 0 ≤ b.len ∧ b.offset + b.len ≤ d.bufferLength :=
  fun b hb => h.packed.bounds b.block (mem_map_of_mem hb)

lemma WellFormed.consistent : d.Consistent where
  sorted := by
    refine h.pairwise_stop_le.imp_of_mem fun ha _ hab => ?_
    have hlen := (h.inside _ ha).2.1
    omega
  disjoint := h.pairwise_stop_le.imp fun hab => Block.disjoint_of_stop_le
    (a := block _) (b := block _) hab
  inside := h.inside
  bytesInUse_eq := by
    rw [h.bytesInUse_eq, sumLen, blocks, map_map]
    rfl
  released := fun _ _ hb hgone => h.released_of_step hb hgone
  alloc_none := by
    intro size freeAtZero _
    rw [h.alloc_eq_none_iff]
    push Not
    exact Iff.rfl

end

/-- **The attached buffer stays consistent** over every run of calls, for a buffer of any
length. -/
theorem run_attach_consistent (bufferLength : ℤ) (calls : List Call)
    (hcalls : ∀ c ∈ calls, c.HasByteCount) : ((attach bufferLength).run calls).Consistent :=
  ((wellFormed_attach bufferLength).run hcalls).consistent

/-- Two blocks are taken, the first is sent from and released. -/
theorem run_attach_consistent_release :
    let calls : List Call := [.alloc 4 1, .alloc 8 0, .increment (some 7) 0, .decrement (some 7) 0]
    ((attach 16).run calls).allocations.map offset = [4] ∧
      ((attach 16).run calls).Consistent :=
  ⟨by decide, run_attach_consistent 16 _ (by decide)⟩

end BsendData

end Lampi
