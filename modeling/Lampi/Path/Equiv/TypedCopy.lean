import Lampi.Mpi.Equiv.TypeStream

/-!
# The copiers copy parts of the packed stream

`copyElements_rule` is a rule for the loops of the copiers, with an invariant on what has been
copied: it is enough that the copy function keeps the invariant whenever it is called for the next
bytes of the stream (`NextBytes`).  From it follows what `non_contiguous_copy` and `packData` copy
(`nonContiguousCopy_rule`, `packData_positions`), as long as the numbers of elements fit into an
`int`.
-/

namespace Lampi

open RunList List CommittedType Nat

variable {t : CommittedType} {i k c n : ℕ} {elts : List Run} {σ : Type} {frag : CopyFrag}

lemma drop_eq_cons {α : Type*} {l rest : List α} {a : α} (h : l.drop i = a :: rest) :
    ∃ hi : i < l.length, l[i] = a ∧ l.drop (i + 1) = rest := by
  have hi : i < l.length := by
    by_contra hge
    rw [drop_eq_nil_iff.mpr (not_lt.mp hge)] at h
    cases h
  rw [drop_eq_getElem_cons hi] at h
  exact ⟨hi, cons.inj h⟩

/-! ### The starting entry -/

/-- Entry `i` of an element has byte `k` of the element. -/
def CommittedType.HasByte (t : CommittedType) (i k : ℕ) : Prop :=
  i < t.typeMap.length ∧ t.seqOffset i ≤ k ∧ k < t.seqOffset (i + 1)

/-- **The search finds the entry** in which the fragment begins, if no entry is empty. -/
theorem findStart_hasByte (hsizes : ∀ pair ∈ t.typeMap, 0 < pair.size) {initCnt : ℕ}
    (hk : k < t.packedSize) (hdrop : t.typeMap.drop i = elts) (hbefore : ∀ j < i, t.seqOffset j < k)
    (hi : i ≤ t.typeMap.length) :
    t.HasByte (t.findStart initCnt (initCnt * t.packedSize + k) i elts) k := by
  induction elts generalizing i with
  | nil =>
    have hend : i = t.typeMap.length := le_antisymm hi (drop_eq_nil_iff.mp hdrop)
    have hpos : 0 < t.typeMap.length := by
      by_contra hzero
      have hlength := seqOffset_length (t := t)
      rw [Nat.eq_zero_of_not_pos hzero, seqOffset_zero] at hlength
      omega
    show t.HasByte (t.typeMap.length - 1) k
    refine ⟨sub_lt hpos one_pos, (hbefore _ (by omega)).le, ?_⟩
    rwa [Nat.sub_add_cancel hpos, seqOffset_length]
  | cons elt elts ih =>
    obtain ⟨hlt, -, hrest⟩ := drop_eq_cons hdrop
    rw [findStart]
    split_ifs with heq hgt
    · -- the fragment begins with this entry
      have hsucc := seqOffset_succ hlt
      have hsize := hsizes _ (getElem_mem hlt)
      exact ⟨hlt, by omega, by omega⟩
    · -- the entry begins behind, the one before it does not
      have hpos : 0 < i := by
        by_contra hzero
        rw [Nat.eq_zero_of_not_pos hzero, seqOffset_zero] at hgt
        omega
      refine ⟨by omega, (hbefore _ (by omega)).le, ?_⟩
      rw [Nat.sub_add_cancel hpos]
      omega
    · apply ih hrest
      · intro j hj
        rcases Nat.lt_succ_iff_lt_or_eq.mp hj with hj | rfl
        · exact hbefore j hj
        · omega
      · exact hlt

/-- The call is for the next bytes, when `n` of the `fragLen` bytes from `off` on have been copied.
The elements end at `ends`. -/
structure CommittedType.NextBytes (t : CommittedType) (off fragLen ends n : ℕ) (call : CopyCall) :
    Prop where
  src : call.src = n
  positions : call.positions = (range' (off + n) call.length).map t.positionAt
  fits : n + call.length ≤ fragLen
  first : call.firstCall = true ↔ n = 0
  last : n + call.length = fragLen → call.lastCall = true
  final : call.lastCall = true → n + call.length = fragLen ∨ ends ≤ off + (n + call.length)

/-- The copy function copies all it is called for, and keeps the invariant on what is copied. -/
def CommittedType.Copies {σ : Type} (t : CommittedType) (copy : σ → CopyCall → ℕ × σ)
    (off fragLen ends : ℕ) (I : ℕ → σ → Prop) : Prop :=
  ∀ n s call, I n s → t.NextBytes off fragLen ends n call →
    (copy s call).1 = call.length ∧ I (n + call.length) (copy s call).2

section Rule

variable {σ : Type} {copy : σ → CopyCall → ℕ × σ} {off fragLen ends : ℕ} {I : ℕ → σ → Prop}
  {lenCopied rounds : ℕ} {last : Bool} {start : ℤ}

lemma nextBytes_entry (hlt : i < t.typeMap.length) (hrest : elts = t.typeMap.drop (i + 1))
    (hat : off + lenCopied = c * t.packedSize + t.seqOffset i) (hpos : 0 < lenCopied)
    (hle : lenCopied ≤ fragLen) (hlast : last = true → ends = (c + 1) * t.packedSize) :
    t.NextBytes off fragLen ends lenCopied
      ⟨c * t.extent + t.typeMap[i].offset, lenCopied,
        min t.typeMap[i].size (fragLen - lenCopied), false,
        decide (fragLen - lenCopied - min t.typeMap[i].size (fragLen - lenCopied) = 0) ||
          (elts.isEmpty && last)⟩ where
  src := rfl
  positions := by
    have hpart := entry_positions (c := c) (o := 0)
      (l := min t.typeMap[i].size (fragLen - lenCopied)) hlt (by omega)
    rw [add_zero, ← hat, cast_zero, add_zero] at hpart
    exact hpart
  fits := by dsimp only; omega
  first := ⟨Bool.noConfusion, fun h => absurd h hpos.ne'⟩
  last := by
    intro hend
    dsimp only at hend
    rw [decide_eq_true (by omega), Bool.true_or]
  final := by
    intro hcall
    dsimp only at hcall ⊢
    rw [Bool.or_eq_true, decide_eq_true_eq, Bool.and_eq_true, List.isEmpty_iff] at hcall
    rcases hcall with hend | ⟨hempty, htrue⟩
    · exact .inl (by omega)
    · -- the last entry of the last element
      have hlength : t.typeMap.length = i + 1 :=
        le_antisymm (drop_eq_nil_iff.mp (hrest ▸ hempty)) hlt
      have hsucc := seqOffset_succ hlt
      rw [← hlength, seqOffset_length] at hsucc
      rw [hlast htrue, succ_mul]
      omega

/-- What each call keeps, the loops keep. -/
lemma copyEntries_keeps {Q : σ → Prop} (hkeeps : ∀ s call, Q s → Q (copy s call).2) {s : σ}
    (hs : Q s) : Q (copyEntries copy fragLen start last elts lenCopied s).1.2 := by
  induction elts generalizing lenCopied s with
  | nil => exact hs
  | cons elt elts ih =>
    simp only [copyEntries]
    split_ifs
    · exact hs
    · exact ih (hkeeps _ _ hs)
    · exact hs
    · exact ih (hkeeps _ _ hs)

lemma copyElements_keeps {Q : σ → Prop} (hkeeps : ∀ s call, Q s → Q (copy s call).2) {s : σ}
    (hs : Q s) : Q (copyElements copy fragLen t rounds start elts lenCopied s).2 := by
  induction rounds generalizing start elts lenCopied s with
  | zero => exact hs
  | succ rounds ih =>
    simp only [copyElements]
    split_ifs
    · exact copyEntries_keeps hkeeps hs
    · exact ih (copyEntries_keeps hkeeps hs)

variable (hcopies : t.Copies copy off fragLen ends I) (hsizes : ∀ pair ∈ t.typeMap, 0 < pair.size)
  (hfrag : 0 < fragLen) {s : σ} (hi : i ≤ t.typeMap.length)
  (hbehind : off < c * t.packedSize + t.seqOffset i)
  (hcopied : lenCopied = min fragLen (c * t.packedSize + t.seqOffset i - off)) (hI : I lenCopied s)

include hcopies hsizes hfrag hi hbehind hcopied hI

/-- **The entries of an element** are copied up to the end of the part or of the element; only at
the end of the part does the function return. -/
theorem copyEntries_rule (hdrop : t.typeMap.drop i = elts)
    (hlast : last = true → ends = (c + 1) * t.packedSize) :
    let r := copyEntries copy fragLen (c * t.extent) last elts lenCopied s
    r.1.1 = min fragLen ((c + 1) * t.packedSize - off) ∧ I r.1.1 r.1.2 ∧
      (r.2 = true → r.1.1 = fragLen) := by
  induction elts generalizing i lenCopied s with
  | nil =>
    have hend : i = t.typeMap.length := le_antisymm hi (drop_eq_nil_iff.mp hdrop)
    rw [hend, seqOffset_length, ← succ_mul] at hcopied
    exact ⟨hcopied, hI, Bool.noConfusion⟩
  | cons elt elts ih =>
    obtain ⟨hlt, helt, hrest⟩ := drop_eq_cons hdrop
    have hsize : 0 < elt.size := hsizes _ (helt ▸ getElem_mem hlt)
    have hsucc := seqOffset_succ hlt
    rw [helt] at hsucc
    have hwithin := seqOffset_le_packedSize (t := t) (i + 1)
    have hmul : (c + 1) * t.packedSize = c * t.packedSize + t.packedSize := succ_mul _ _
    have hlen : (if fragLen - lenCopied ≥ elt.size then elt.size else fragLen - lenCopied) =
        min elt.size (fragLen - lenCopied) := by
      split_ifs <;> omega
    simp only [copyEntries, hlen]
    by_cases hzero : min elt.size (fragLen - lenCopied) = 0
    · rw [if_pos hzero]
      have hend : lenCopied = fragLen := by omega
      refine ⟨?_, hI, fun _ => hend⟩
      show lenCopied = _
      omega
    · rw [if_neg hzero]
      obtain ⟨hall, hI'⟩ := hcopies lenCopied s _ hI
        (helt ▸ nextBytes_entry hlt hrest.symm (by omega) (by omega) (by omega) hlast)
      rw [hall]
      apply ih (i := i + 1) hlt (by omega) _ hI' hrest
      show lenCopied + min elt.size (fragLen - lenCopied) = _
      omega

/-- **The elements**: with `rounds` of them to go, the first from entry `i` on, the bytes are copied
up to the end of the part or of the elements. -/
theorem copyElements_rule (hends : ends = if rounds = 0 then c * t.packedSize + t.seqOffset i
      else (c + rounds) * t.packedSize) :
    let r := copyElements copy fragLen t rounds (c * t.extent) (t.typeMap.drop i) lenCopied s
    r.1 = min fragLen (ends - off) ∧ I r.1 r.2 := by
  induction rounds generalizing c i lenCopied s with
  | zero =>
    exact ⟨hends ▸ hcopied, hI⟩
  | succ rounds ih =>
    rw [if_neg (succ_ne_zero _)] at hends
    have hlast : (rounds == 0) = true → ends = (c + 1) * t.packedSize := by
      intro hzero
      rw [hends, eq_of_beq hzero]
    obtain ⟨hlen, hI', hreturns⟩ :=
      copyEntries_rule hcopies hsizes hfrag hi hbehind hcopied hI rfl hlast
    have hwithin := seqOffset_le_packedSize (t := t) i
    have hmul : (c + 1) * t.packedSize = c * t.packedSize + t.packedSize := succ_mul _ _
    have hmore : ends = (c + 1) * t.packedSize + rounds * t.packedSize := by
      rw [hends, ← add_mul, add_assoc, add_comm 1]
    simp only [copyElements]
    split_ifs with hdone
    · refine ⟨?_, hI'⟩
      have hfull := hreturns hdone
      omega
    · have hstart : (c : ℤ) * t.extent + t.extent = ((c + 1 : ℕ) : ℤ) * t.extent := by
        push_cast
        ring
      rw [hstart]
      have hround := ih (c := c + 1) (i := 0) (zero_le _)
        (by rw [seqOffset_zero]; omega)
        (by rw [seqOffset_zero, add_zero]; exact hlen) hI' ?_
      · exact hround
      · split_ifs with hzero
        · rw [hmore, hzero, zero_mul, seqOffset_zero]
        · rw [hmore, ← add_mul]

end Rule

/-! ### `non_contiguous_copy` -/

/-- **The first piece**: the part begins with byte `k` of an element, in entry `i`. -/
theorem first_positions {l : ℕ} (hbyte : t.HasByte i k) (hl : k + l ≤ t.seqOffset (i + 1)) :
    Run.positions ⟨l, c * t.extent + (t.typeMap.getD i ⟨0, 0⟩).offset - c * t.packedSize -
        t.seqOffset i + (c * t.packedSize + k : ℕ)⟩ =
      (range' (c * t.packedSize + k) l).map t.positionAt := by
  obtain ⟨hlt, hfrom, hto⟩ := hbyte
  have hsucc := seqOffset_succ hlt
  have hpart := entry_positions (c := c) (o := k - t.seqOffset i) (l := l) hlt
    (by omega)
  have hindex : c * t.packedSize + t.seqOffset i + (k - t.seqOffset i) = c * t.packedSize + k := by
    omega
  have hdest : (c : ℤ) * t.extent + t.typeMap[i].offset - c * t.packedSize - t.seqOffset i +
      (c * t.packedSize + k : ℕ) =
      c * t.extent + t.typeMap[i].offset + (k - t.seqOffset i : ℕ) := by
    push_cast [hfrom]
    ring
  rw [getD_eq_getElem?_getD, getElem?_eq_getElem hlt, Option.getD_some, hdest, hpart, hindex]

lemma first_size (hbyte : t.HasByte i k) :
    sizeSub ((t.typeMap.getD i ⟨0, 0⟩).size + c * t.packedSize + t.seqOffset i)
      (c * t.packedSize + k) = t.seqOffset (i + 1) - k := by
  obtain ⟨hlt, hfrom, hto⟩ := hbyte
  have hsucc := seqOffset_succ hlt
  rw [getD_eq_getElem?_getD, getElem?_eq_getElem hlt, Option.getD_some, sizeSub_of_le (by omega)]
  omega

lemma offset_eq (t : CommittedType) (off : ℕ) :
    off / t.packedSize * t.packedSize + off % t.packedSize = off := by
  rw [mul_comm]
  exact div_add_mod _ _

/-- The entry in which a part of the stream begins. -/
def CommittedType.startEntry (t : CommittedType) (off : ℕ) : ℕ :=
  t.findStart (off / t.packedSize) off 0 t.typeMap

variable (hsizes : ∀ pair ∈ t.typeMap, 0 < pair.size) (hpacked : 0 < t.packedSize)

include hsizes hpacked in
lemma startEntry_hasByte (off : ℕ) : t.HasByte (t.startEntry off) (off % t.packedSize) := by
  have hbyte : t.HasByte (t.findStart (off / t.packedSize)
      (off / t.packedSize * t.packedSize + off % t.packedSize) 0 t.typeMap) (off % t.packedSize) :=
    findStart_hasByte hsizes (mod_lt off hpacked) drop_zero
      (fun j hj => absurd hj (not_lt_zero j)) (zero_le _)
  rwa [offset_eq] at hbyte

/-- Where the copy of a fragment ends at the latest: with the elements of the message, or if it
begins behind them, with the entry in which it begins. -/
def CommittedType.copyEnd (t : CommittedType) (frag : CopyFrag) : ℕ :=
  if frag.msgLength / t.packedSize - frag.seqOffset / t.packedSize = 0 then
    frag.seqOffset / t.packedSize * t.packedSize + t.seqOffset (t.startEntry frag.seqOffset + 1)
  else (frag.msgLength / t.packedSize) * t.packedSize

lemma firstEntry_le_copyEnd (frag : CopyFrag) :
    frag.seqOffset / t.packedSize * t.packedSize + t.seqOffset (t.startEntry frag.seqOffset + 1) ≤
      t.copyEnd frag := by
  rw [copyEnd]
  split_ifs with hzero
  · exact le_rfl
  · have hwithin := seqOffset_le_packedSize (t := t)
      (t.startEntry frag.seqOffset + 1)
    calc frag.seqOffset / t.packedSize * t.packedSize +
          t.seqOffset (t.startEntry frag.seqOffset + 1)
        ≤ (frag.seqOffset / t.packedSize + 1) * t.packedSize := by
          rw [succ_mul]
          omega
      _ ≤ frag.msgLength / t.packedSize * t.packedSize := mul_le_mul_right _ (by omega)

include hsizes hpacked in
lemma nextBytes_first (off fragLen ends : ℕ) :
    let c := off / t.packedSize
    let l := min fragLen (c * t.packedSize + t.seqOffset (t.startEntry off + 1) - off)
    t.NextBytes off fragLen ends 0
      ⟨c * t.extent + (t.typeMap.getD (t.startEntry off) ⟨0, 0⟩).offset - c * t.packedSize -
        t.seqOffset (t.startEntry off) + off, 0, l, true, decide (fragLen - l = 0)⟩ := by
  intro c l
  have hbyte := startEntry_hasByte hsizes hpacked off
  have hoff : c * t.packedSize + off % t.packedSize = off := offset_eq t off
  have hpiece := first_positions (c := c) (l := l) hbyte (by have := hbyte.2.2; omega)
  rw [hoff] at hpiece
  constructor
  · rfl
  · exact hpiece
  · show 0 + min _ _ ≤ fragLen
    omega
  · simp only
  · intro hfull
    exact decide_eq_true (by dsimp only at hfull; omega)
  · intro hcall
    have hfull := of_decide_eq_true hcall
    left
    show 0 + min _ _ = fragLen
    omega

/-- The length that is copied of a fragment. -/
def CommittedType.copiedLength (t : CommittedType) (frag : CopyFrag) : ℕ :=
  min frag.length (t.copyEnd frag - frag.seqOffset)

include hsizes hpacked in
/-- **The rule for `non_contiguous_copy`**: the bytes of the fragment are copied, up to the end of
the elements. -/
theorem nonContiguousCopy_rule {copy : σ → CopyCall → ℕ × σ} {I : ℕ → σ → Prop} {s : σ}
    (hwithin : frag.seqOffset ≤ frag.msgLength) (hcnt : frag.msgLength / t.packedSize < 2 ^ 31)
    (hcopies : t.Copies copy frag.seqOffset frag.length (t.copyEnd frag) I) (hI : I 0 s) :
    let r := nonContiguousCopy copy t frag s
    r.1 = t.copiedLength frag ∧ I r.1 r.2 := by
  unfold copiedLength
  obtain ⟨off, fragLen, msgLength⟩ := frag
  have hbyte := startEntry_hasByte hsizes hpacked off
  have hsize := first_size (c := off / t.packedSize) hbyte
  have hoff := offset_eq t off
  have hends := firstEntry_le_copyEnd (t := t) ⟨off, fragLen, msgLength⟩
  rw [hoff] at hsize
  dsimp only at hcopies hends hwithin hcnt ⊢
  have hinit : off / t.packedSize < 2 ^ 31 := (Nat.div_le_div_right hwithin).trans_lt hcnt
  obtain ⟨hlt, -, hto⟩ := hbyte
  have hlen : (if fragLen = 0 then 0 else
      min (t.seqOffset (t.startEntry off + 1) - off % t.packedSize) fragLen) = min fragLen
        (off / t.packedSize * t.packedSize + t.seqOffset (t.startEntry off + 1) - off) := by
    split_ifs <;> omega
  have hfind : t.findStart (off / t.packedSize) off 0 t.typeMap = t.startEntry off := rfl
  obtain ⟨hall, hI'⟩ := hcopies 0 s _ hI (nextBytes_first hsizes hpacked off fragLen _)
  rw [zero_add] at hI'
  simp only [nonContiguousCopy, intT_natCast hinit, intT_natCast hcnt, sizeT_natCast hinit, hfind,
    hsize, hlen, hall, Int.toNat_sub]
  split_ifs with hmore
  · have hbehind :
        off < off / t.packedSize * t.packedSize + t.seqOffset (t.startEntry off + 1) := by
      omega
    apply copyElements_rule hcopies hsizes (by omega) hlt hbehind rfl hI'
    rw [copyEnd]
    split_ifs with hrounds
    · rfl
    · rw [add_sub_of_le (by dsimp only at hrounds; omega)]
  · refine ⟨?_, hI'⟩
    omega

/-- What each call keeps, `non_contiguous_copy` keeps; there is at least one call. -/
lemma nonContiguousCopy_keeps {copy : σ → CopyCall → ℕ × σ} {P Q : σ → Prop}
    (hfirst : ∀ s call, P s → Q (copy s call).2) (hkeeps : ∀ s call, Q s → Q (copy s call).2)
    {s : σ} (hs : P s) : Q (nonContiguousCopy copy t frag s).2 := by
  simp only [nonContiguousCopy]
  split_ifs
  · exact copyElements_keeps hkeeps (hfirst _ _ hs)
  · exact hfirst _ _ hs
  · exact copyElements_keeps hkeeps (hfirst _ _ hs)
  · exact hfirst _ _ hs

end Lampi
