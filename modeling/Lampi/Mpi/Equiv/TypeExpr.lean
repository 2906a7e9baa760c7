import Lampi.Mpi.Equiv.Datatype
import Lampi.Mpi.Equiv.TypePack
import Lampi.Mpi.TypeExpr

/-!
# Empty entries of type maps

`MPI_Type_struct` leaves out pairs without bytes, and the vectors only copy the pairs of the old
type.  `MPI_Type_hindexed` of a basic type makes a pair of every block, and it is empty if the block
is, or if the old type is a marker.  These are the only empty pairs there are:
**`TypeExpr.noEmptyEntry_iff`**.
-/

namespace Lampi

open RunList List

/-! ### The constructors -/

variable {t oldtype : Datatype} {count blocklen stride : ℤ} {blocklengths displacements : ℕ → ℤ}
  {new : Except TypeError Datatype}

/-- What a constructor returns after the checks of the count. -/
lemma of_checks {P : Datatype → Prop} (hempty : P .empty)
    (h : (if count < 0 then .error .intern else if count = 0 then .ok Datatype.empty else new) =
      .ok t)
    (hnew : new = .ok t → P t) : P t := by
  split_ifs at h
  · cases h
    exact hempty
  · exact hnew h

lemma wellFormed_empty : Datatype.empty.WellFormed := fun _ => rfl

lemma wellFormed_of_not_contiguous (h : t.contiguous = false) : t.WellFormed :=
  fun hcontiguous => absurd (h.symm.trans hcontiguous) Bool.false_ne_true

/-- **The types that the constructors return can be committed.** -/
theorem typeHvector_wellFormed (h : typeHvector count blocklen stride oldtype = .ok t) :
    t.WellFormed := by
  refine of_checks wellFormed_empty h fun hnew => wellFormed_of_not_contiguous ?_
  cases hnew
  rfl

lemma typeVector_wellFormed (h : typeVector count blocklen stride oldtype = .ok t) :
    t.WellFormed := by
  refine of_checks wellFormed_empty h fun hnew => wellFormed_of_not_contiguous ?_
  cases hnew
  rfl

lemma typeContiguous_wellFormed (h : typeContiguous count oldtype = .ok t) : t.WellFormed :=
  of_checks wellFormed_empty h typeVector_wellFormed

lemma typeStruct_wellFormed {types : ℕ → Datatype}
    (h : typeStruct count blocklengths displacements types = .ok t) : t.WellFormed := by
  refine of_checks wellFormed_empty h fun hnew => wellFormed_of_not_contiguous ?_
  obtain rfl := Except.ok.inj hnew
  rfl

lemma typeIndexed_wellFormed (h : typeIndexed count blocklengths displacements oldtype = .ok t) :
    t.WellFormed := of_checks wellFormed_empty h typeStruct_wellFormed

lemma typeHindexed_wellFormed {isbasic : Bool}
    (h : typeHindexed count blocklengths displacements isbasic oldtype = .ok t) : t.WellFormed := by
  refine of_checks wellFormed_empty h fun hnew => ?_
  split_ifs at hnew
  · cases hnew
    exact wellFormed_of_not_contiguous rfl
  · exact typeStruct_wellFormed hnew

/-- The filling pass behind the end of its array: at most the last entry still grows. -/
lemma fillPush_full {keep : Run → Bool} {s : FillPass} (new : Run)
    (hfull : s.typeMap.length ≤ s.typemapI) (hpos : ∀ pair ∈ s.typeMap, 0 < pair.size) :
    (fillPush keep s new).typeMap.length ≤ (fillPush keep s new).typemapI ∧
      ∀ pair ∈ (fillPush keep s new).typeMap, 0 < pair.size := by
  unfold fillPush
  dsimp only
  split_ifs
  · rw [length_set]
    refine ⟨hfull, fun pair hpair => ?_⟩
    rcases Nat.lt_or_ge (s.typemapI - 1) s.typeMap.length with hlast | hbehind
    · rcases mem_or_eq_of_mem_set hpair with hold | rfl
      · exact hpos pair hold
      · rw [getD_eq_getElem?_getD, getElem?_eq_getElem hlast, Option.getD_some]
        exact Nat.add_pos_left (hpos _ (getElem_mem hlast)) _
    · rw [set_eq_of_length_le hbehind] at hpair
      exact hpos pair hpair
  · rw [set_eq_of_length_le hfull]
    exact ⟨Nat.le_succ_of_le hfull, hpos⟩
  · exact ⟨hfull, hpos⟩

/-- **The passes write no empty pair**, if they get none to keep.  An array too short for the pairs
is full of the first ones. -/
theorem forall_pos_passes {keep : Run → Bool} {placed : List Run}
    (hplaced : ∀ pair ∈ placed, keep pair = true → 0 < pair.size) :
    ∀ pair ∈ (placed.foldl (fillPush keep)
      (FillPass.init (placed.foldl (countPush keep) CountPass.init).numPairs)).typeMap,
      0 < pair.size := by
  have hle : (placed.foldl (countPush keep) CountPass.init).numPairs.toNat ≤
      (placed.foldl (push keep) []).length := by
    rw [CountPass.numPairs, typemapI_countPush]
    unfold intT Int.bmod
    dsimp only
    split_ifs <;> omega
  generalize (placed.foldl (countPush keep) CountPass.init).numPairs = numPairs at hle ⊢
  obtain ⟨first, rest, rfl, hlength⟩ := exists_length_foldl_push hle
  have hfilled : Filled numPairs.toNat (first.foldl (push keep) [])
      (first.foldl (fillPush keep) (FillPass.init numPairs)) :=
    Fills.foldl fillPush_filled first hlength.le (filled_init _)
  rw [foldl_append]
  refine (foldlRecOn rest (fillPush keep) (motive := fun s =>
    s.typeMap.length ≤ s.typemapI ∧ ∀ pair ∈ s.typeMap, 0 < pair.size) ⟨?_, ?_⟩ ?_).2
  · rw [hfilled.2.1, hfilled.1, hlength]
  · rw [← hlength] at hfilled
    rw [hfilled.array_eq]
    exact forall_pos_foldl_push (fun pair hpair => hplaced pair (mem_append_left _ hpair))
      (forall_mem_nil _)
  · exact fun s hs new _ => fillPush_full new hs.1 hs.2

def Datatype.NoEmptyEntry (t : Datatype) : Prop := ∀ pair ∈ t.typeMap, 0 < pair.size

namespace Datatype.NoEmptyEntry

lemma empty : Datatype.empty.NoEmptyEntry := nofun

lemma pairsAt (h : oldtype.NoEmptyEntry) (displacement : ℤ) :
    ∀ pair ∈ oldtype.pairsAt displacement, 0 < pair.size := by
  intro pair hpair
  obtain ⟨old, hold, rfl⟩ := mem_map.mp hpair
  exact h old hold

lemma pairsOfBlocks (h : oldtype.NoEmptyEntry) (start distance : ℤ) (blocklen count : ℕ) :
    ∀ pair ∈ oldtype.pairsOfBlocks start distance blocklen count, 0 < pair.size := by
  intro pair hpair
  obtain ⟨i, -, hblock⟩ := mem_flatMap.mp hpair
  obtain ⟨j, -, helement⟩ := mem_flatMap.mp hblock
  exact h.pairsAt _ pair helement

lemma typeHvector (h : typeHvector count blocklen stride oldtype = .ok t)
    (hold : oldtype.NoEmptyEntry) : t.NoEmptyEntry := by
  refine of_checks empty h fun hnew => ?_
  cases hnew
  simp only [Datatype.NoEmptyEntry, hvectorLoop, blockLoop_eq, countPair_eq, fillPair_eq]
  exact forall_pos_passes fun pair hpair _ => hold.pairsOfBlocks _ _ _ _ pair hpair

lemma typeVector (h : typeVector count blocklen stride oldtype = .ok t)
    (hold : oldtype.NoEmptyEntry) : t.NoEmptyEntry := by
  refine of_checks empty h fun hnew => ?_
  cases hnew
  simp only [Datatype.NoEmptyEntry, vectorLoop, blockLoop_eq, countPair_eq, fillPair_eq]
  exact forall_pos_passes fun pair hpair _ => hold.pairsOfBlocks _ _ _ _ pair hpair

lemma typeContiguous (h : typeContiguous count oldtype = .ok t) (hold : oldtype.NoEmptyEntry) :
    t.NoEmptyEntry := of_checks empty h fun hnew => typeVector hnew hold

/-- `MPI_Type_struct` leaves out what is empty, whatever the old types are. -/
lemma typeStruct {types : ℕ → Datatype}
    (h : typeStruct count blocklengths displacements types = .ok t) : t.NoEmptyEntry := by
  refine of_checks empty h fun hnew => ?_
  obtain rfl := Except.ok.inj hnew
  simp only [Datatype.NoEmptyEntry, structLoop_eq, structCountPair_eq, structFillPair_eq]
  split_ifs
  · exact forall_pos_passes fun pair _ hkeep => of_decide_eq_true hkeep
  · nofun

lemma typeIndexed (h : typeIndexed count blocklengths displacements oldtype = .ok t) :
    t.NoEmptyEntry := of_checks empty h typeStruct

lemma typeHindexed (h : typeHindexed count blocklengths displacements false oldtype = .ok t) :
    t.NoEmptyEntry := of_checks empty h fun hnew => typeStruct hnew

/-- **`MPI_Type_hindexed` of a basic type** makes a pair of every block. -/
theorem createFromBasicType_iff {n : ℕ} :
    (createFromBasicType n blocklengths displacements oldtype).NoEmptyEntry ↔
      ∀ i < n, 0 < sizeT (blocklengths i * oldtype.extent) := by
  show (∀ pair : Run, pair ∈ (range (n : ℤ).toNat).map (fun i =>
    (⟨sizeT (blocklengths i * oldtype.extent), displacements i⟩ : Run)) → 0 < pair.size) ↔ _
  rw [forall_mem_map, Int.toNat_natCast]
  simp only [mem_range]

end Datatype.NoEmptyEntry

lemma sizeT_block (blocklength extent : Count) :
    sizeT ((blocklength.val : ℤ) * extent.val) = blocklength.val * extent.val := by
  have hlt : blocklength.val * extent.val < 2 ^ 64 :=
    (Nat.mul_lt_mul'' blocklength.isLt extent.isLt).trans (by decide)
  unfold sizeT
  omega

lemma sizeT_block_pos (blocklength : Count) (b : BasicType) :
    0 < sizeT ((blocklength.val : ℤ) * b.datatype.extent) ↔
      0 < blocklength.val ∧ 0 < b.datatype.extent := by
  cases b with
  | data extent opIndex hextent =>
    show 0 < sizeT ((blocklength.val : ℤ) * extent.val) ↔ _
    rw [sizeT_block, Nat.mul_pos_iff_of_pos_right hextent]
    exact (and_iff_left hextent).symm
  | lb | ub =>
    show 0 < sizeT (blocklength.val * 0) ↔ 0 < blocklength.val ∧ 0 < 0
    rw [Int.mul_zero]
    exact iff_of_false (by decide) fun h => absurd h.2 (lt_irrefl 0)

lemma typeCommit_typeMap (t : Datatype) (h : t.WellFormed) :
    (typeCommit t h).typeMap = t.typeMap := by
  unfold typeCommit
  split_ifs
  · rfl
  · dsimp only
    split_ifs <;> rfl

/-! ### Nestings of constructors -/

lemma exists_ok_of_checks (hcount : 0 ≤ count) (hnew : ∃ t, new = .ok t) : ∃ t,
      (if count < 0 then .error .intern else if count = 0 then .ok Datatype.empty else new) =
        .ok t := by
  rw [if_neg (not_lt.mpr hcount)]
  split_ifs
  · exact ⟨_, rfl⟩
  · exact hnew

lemma typeStruct_ok (hcount : 0 ≤ count) (blocklengths displacements : ℕ → ℤ)
    (types : ℕ → Datatype) : ∃ t, typeStruct count blocklengths displacements types = .ok t :=
  exists_ok_of_checks hcount ⟨_, rfl⟩

namespace TypeExpr

lemma mapM_ok {ε α : Type} {f : ℕ → Except ε α} (l : List ℕ)
    (hf : ∀ i, ∃ a, f i = .ok a) : ∃ as, l.mapM f = .ok as := by
  induction l with
  | nil => exact ⟨[], rfl⟩
  | cons i l ih =>
    obtain ⟨a, ha⟩ := hf i
    obtain ⟨as, has⟩ := ih
    refine ⟨a :: as, ?_⟩
    rw [mapM_cons, ha, has]
    rfl

private lemma eval_ok_of_bind {e old : TypeExpr} {f : Datatype → Except TypeError Datatype}
    (heval : e.eval = old.eval >>= f) (hold : ∃ t, old.eval = .ok t ∧ t.WellFormed)
    (hf : ∀ oldtype, ∃ t, f oldtype = .ok t)
    (hwellFormed : ∀ {oldtype t}, f oldtype = .ok t → t.WellFormed) :
    ∃ t, e.eval = .ok t ∧ t.WellFormed := by
  obtain ⟨oldtype, hold, -⟩ := hold
  obtain ⟨t, ht⟩ := hf oldtype
  refine ⟨t, ?_, hwellFormed ht⟩
  rw [heval, hold]
  exact ht

/-- **Every nesting of constructors builds a type that can be committed.** -/
theorem eval_ok (e : TypeExpr) : ∃ t, e.eval = .ok t ∧ t.WellFormed := by
  induction e with
  | basic b =>
    refine ⟨b.datatype, rfl, fun _ => ?_⟩
    cases b with
    | data extent opIndex hextent =>
      show positions [⟨extent.val, 0⟩] = _
      rw [positions_cons, positions_nil, append_nil, Run.positions]
      simp only [Int.zero_add]
      rfl
    | lb => rfl
    | ub => rfl
  | contiguous count old ih =>
    refine eval_ok_of_bind rfl ih (fun _ => ?_) typeContiguous_wellFormed
    exact exists_ok_of_checks (Int.natCast_nonneg _)
      (exists_ok_of_checks (Int.natCast_nonneg _) ⟨_, rfl⟩)
  | vector count blocklen stride old ih =>
    refine eval_ok_of_bind rfl ih (fun _ => ?_) typeVector_wellFormed
    exact exists_ok_of_checks (Int.natCast_nonneg _) ⟨_, rfl⟩
  | hvector count blocklength stride old ih =>
    refine eval_ok_of_bind rfl ih (fun _ => ?_) typeHvector_wellFormed
    exact exists_ok_of_checks (Int.natCast_nonneg _) ⟨_, rfl⟩
  | indexed count blocklengths disps old ih =>
    refine eval_ok_of_bind rfl ih (fun _ => ?_) typeIndexed_wellFormed
    exact exists_ok_of_checks (Int.natCast_nonneg _) (typeStruct_ok (Int.natCast_nonneg _) _ _ _)
  | hindexed count blocklengths disps old ih =>
    refine eval_ok_of_bind rfl ih (fun _ => ?_) typeHindexed_wellFormed
    apply exists_ok_of_checks (Int.natCast_nonneg _)
    split_ifs
    · exact ⟨_, rfl⟩
    · exact typeStruct_ok (Int.natCast_nonneg _) _ _ _
  | struct count blocklengths displacements types ih =>
    obtain ⟨olds, holds⟩ := mapM_ok (range count.val) fun i =>
      (ih i).imp fun _ h => h.1
    obtain ⟨t, ht⟩ := typeStruct_ok (Int.natCast_nonneg count.val)
      (fun i => (blocklengths i).val) displacements fun i => olds.getD i Datatype.empty
    refine ⟨t, ?_, typeStruct_wellFormed ht⟩
    rw [eval, holds]
    exact ht

variable {e : TypeExpr}

lemma noEmptyEntry_of_eval (h : e.eval = .ok t) : e.NoEmptyEntry ↔ t.NoEmptyEntry := by
  obtain ⟨t', h', hwellFormed⟩ := e.eval_ok
  obtain rfl : t' = t := Except.ok.inj (h'.symm.trans h)
  constructor
  · rintro ⟨t, htw, ht, hpairs⟩
    obtain rfl : t' = t := Except.ok.inj (h'.symm.trans ht)
    rwa [typeCommit_typeMap] at hpairs
  · intro hpairs
    refine ⟨t', hwellFormed, h, ?_⟩
    rwa [typeCommit_typeMap]

lemma Everywhere.self {P : TypeExpr → Prop} (h : e.Everywhere P) : P e := by
  cases e with
  | basic b => exact h
  | _ => exact h.1

/-- **An `hindexed` type of a basic type.** -/
theorem noEmptyEntry_hindexed_basic (count : Count) (blocklengths : ℕ → Count) (disps : ℕ → ℤ)
    (b : BasicType) : (hindexed count blocklengths disps (.basic b)).NoEmptyEntry ↔
      (hindexed count blocklengths disps (.basic b)).BlocksFilled := by
  have heval : (hindexed count blocklengths disps (.basic b)).eval =
      typeHindexed count.val (fun i => (blocklengths i).val) disps true b.datatype := rfl
  have hnonneg : ¬(count.val : ℤ) < 0 := not_lt.mpr (Int.natCast_nonneg _)
  rcases Nat.eq_zero_or_pos count.val with hzero | hpos
  · have hempty : (hindexed count blocklengths disps (.basic b)).eval = .ok Datatype.empty := by
      rw [heval, hzero]
      rfl
    rw [noEmptyEntry_of_eval hempty]
    refine iff_of_true .empty fun i hi => ?_
    rw [hzero] at hi
    exact absurd hi (Nat.not_lt_zero i)
  · have hbasic : (hindexed count blocklengths disps (.basic b)).eval =
        .ok (createFromBasicType count.val (fun i => (blocklengths i).val) disps b.datatype) := by
      rw [heval, typeHindexed, if_neg hnonneg, if_neg (by omega)]
      rfl
    rw [noEmptyEntry_of_eval hbasic, Datatype.NoEmptyEntry.createFromBasicType_iff]
    simp only [sizeT_block_pos]
    rfl

/-- **The other constructors** keep empty entries out. -/
theorem noEmptyEntry_of_eval_bind {old : TypeExpr} {f : Datatype → Except TypeError Datatype}
    (heval : e.eval = old.eval >>= f) (hold : old.NoEmptyEntry)
    (hf : ∀ oldtype t, oldtype.NoEmptyEntry → f oldtype = .ok t → t.NoEmptyEntry) :
    e.NoEmptyEntry := by
  obtain ⟨oldtype, holdtype, -⟩ := old.eval_ok
  obtain ⟨t, ht, -⟩ := e.eval_ok
  rw [noEmptyEntry_of_eval ht]
  apply hf oldtype t ((noEmptyEntry_of_eval holdtype).mp hold)
  rw [heval, holdtype] at ht
  exact ht

/-- So there is nothing to ask of them. -/
lemma everywhere_iff_of_eval_bind {old : TypeExpr} {f : Datatype → Except TypeError Datatype}
    (ih : old.Everywhere NoEmptyEntry ↔ old.Everywhere BlocksFilled)
    (heval : e.eval = old.eval >>= f)
    (hf : ∀ oldtype t, oldtype.NoEmptyEntry → f oldtype = .ok t → t.NoEmptyEntry) :
    e.NoEmptyEntry ∧ old.Everywhere NoEmptyEntry ↔ True ∧ old.Everywhere BlocksFilled := by
  rw [ih, true_and, and_iff_right_iff_imp]
  exact fun h => noEmptyEntry_of_eval_bind heval (ih.mpr h).self hf

/-- **No type has an empty entry**, and no type it has been built from, just if all blocks of
`hindexed` types of basic types have bytes. -/
theorem noEmptyEntry_iff (e : TypeExpr) :
    e.Everywhere NoEmptyEntry ↔ e.Everywhere BlocksFilled := by
  induction e with
  | basic b =>
    refine iff_of_true ((noEmptyEntry_of_eval rfl).mpr ?_) trivial
    cases b with
    | data extent opIndex hextent =>
      intro pair hpair
      rw [mem_singleton.mp hpair]
      exact hextent
    | lb => nofun
    | ub => nofun
  | contiguous count old ih =>
    exact everywhere_iff_of_eval_bind ih rfl fun _ _ hold ht => .typeContiguous ht hold
  | vector count blocklen stride old ih =>
    exact everywhere_iff_of_eval_bind ih rfl fun _ _ hold ht => .typeVector ht hold
  | hvector count blocklength stride old ih =>
    exact everywhere_iff_of_eval_bind ih rfl fun _ _ hold ht => .typeHvector ht hold
  | indexed count blocklengths disps old ih =>
    exact everywhere_iff_of_eval_bind ih rfl fun _ _ _ ht => .typeIndexed ht
  | hindexed count blocklengths disps old ih =>
    suffices hnode : old.NoEmptyEntry → ((hindexed count blocklengths disps old).NoEmptyEntry ↔
        (hindexed count blocklengths disps old).BlocksFilled) by
      exact ⟨fun h => ⟨(hnode h.2.self).mp h.1, ih.mp h.2⟩, fun h =>
        ⟨(hnode (ih.mpr h.2).self).mpr h.1, ih.mpr h.2⟩⟩
    intro hold
    cases old with
    | basic b => exact noEmptyEntry_hindexed_basic count blocklengths disps b
    | _ =>
      refine iff_of_true (noEmptyEntry_of_eval_bind rfl hold fun _ _ _ ht => ?_) trivial
      exact .typeHindexed ht
  | struct count blocklengths displacements types ih =>
    refine ⟨fun h => ⟨trivial, fun i hi => (ih i).mp (h.2 i hi)⟩, fun h => ⟨?_, fun i hi =>
      (ih i).mpr (h.2 i hi)⟩⟩
    obtain ⟨t, ht, -⟩ := (struct count blocklengths displacements types).eval_ok
    rw [noEmptyEntry_of_eval ht]
    obtain ⟨olds, holds⟩ := mapM_ok (range count.val) fun i =>
      (types i).eval_ok.imp fun _ h => h.1
    rw [eval, holds] at ht
    have hstruct : typeStruct count.val (fun i => (blocklengths i).val) displacements
      (fun i => olds.getD i Datatype.empty) = .ok t := ht
    exact .typeStruct hstruct

/-- An array of pairs of integers that are apart. -/
theorem noEmptyEntry_iff_pairs :
    (contiguous 2 (hindexed 2 (fun _ => 1) (fun i => 8 * i)
      (.basic (.data 4 0 (by decide))))).Everywhere NoEmptyEntry := by
  apply (noEmptyEntry_iff _).mpr
  exact ⟨trivial, fun _ _ => ⟨Nat.one_pos, Nat.succ_pos 3⟩, trivial⟩

/-- A block of one integer and a block of none. -/
theorem hindexed_emptyBlock :
    (hindexed 2 (fun i => if i = 0 then 1 else 0) (fun i => 8 * i)
        (.basic (.data 4 0 (by decide)))).eval.toOption.map Datatype.typeMap =
        some [⟨4, 0⟩, ⟨0, 8⟩] ∧
      ¬(hindexed 2 (fun i => if i = 0 then 1 else 0) (fun i => 8 * i)
        (.basic (.data 4 0 (by decide)))).NoEmptyEntry := by
  refine ⟨by decide, fun h => ?_⟩
  have hblocks := (noEmptyEntry_hindexed_basic _ _ _ _).mp h 1 (by decide)
  exact absurd hblocks.1 (by decide)

/-- **`type_pack` moves just the bytes of the map**, for the types with bytes that the constructors
build. -/
theorem packsBytes_iff (e : TypeExpr) : ∃ (t : Datatype) (h : t.WellFormed),
    e.eval = .ok t ∧ ((typeCommit t h).PacksBytes ↔ (typeCommit t h).packedSize ≠ 0) := by
  obtain ⟨t, he, h⟩ := e.eval_ok
  exact ⟨t, h, he, CommittedType.packsBytes_iff_ne_zero _⟩

/-- A marker of the lower bound at 0 and one of the upper bound at 16: 16 bytes are moved. -/
theorem markers_packed : ∃ (t : Datatype) (h : t.WellFormed),
    (struct 2 (fun _ => 1) (fun i => 16 * i) fun i =>
      .basic (if i = 0 then .lb else .ub)).eval = .ok t ∧ (typeCommit t h).packedSize = 0 ∧
    (typePack (typeCommit t h) 16 0 1 .init).map (·.1.offset) = some 16 :=
  ⟨⟨[], 0, 16, 0, false⟩, nofun, by decide, rfl, by decide⟩

end TypeExpr

end Lampi
