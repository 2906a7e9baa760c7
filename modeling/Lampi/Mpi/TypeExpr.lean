import Lampi.Mpi.TypePack

/-!
# Types built by the constructors

A program builds types from the basic ones, with counts and block lengths that are not negative.
`TypeExpr` is what it has called, `TypeExpr.eval` the type it has got.
-/

namespace Lampi

open RunList

/-- An `int` that is not negative. -/
abbrev Count := Fin (2 ^ 31)

/-- The basic types: some bytes, or the markers `MPI_LB` and `MPI_UB`. -/
inductive BasicType
  | data (extent : Count) (opIndex : ℤ) (hextent : 0 < extent.val)
  | lb
  | ub

/-- What the initialisation puts into `ulm_type`. -/
def BasicType.datatype : BasicType → Datatype
  | .data extent opIndex _ => ⟨[⟨extent, 0⟩], 0, extent, opIndex, true⟩
  | .lb => ⟨[], 0, 0, -1, true⟩
  | .ub => ⟨[], 0, 0, -2, true⟩

/-- A nesting of constructors. -/
inductive TypeExpr
  | basic (b : BasicType)
  | contiguous (count : Count) (old : TypeExpr)
  | vector (count blocklen : Count) (stride : ℤ) (old : TypeExpr)
  | hvector (count blocklength : Count) (stride : ℤ) (old : TypeExpr)
  | indexed (count : Count) (blocklengths : ℕ → Count) (disps : ℕ → ℤ) (old : TypeExpr)
  | hindexed (count : Count) (blocklengths : ℕ → Count) (disps : ℕ → ℤ) (old : TypeExpr)
  | struct (count : Count) (blocklengths : ℕ → Count) (displacements : ℕ → ℤ)
      (types : ℕ → TypeExpr)

namespace TypeExpr

/-- `isbasic`. -/
def isbasic : TypeExpr → Bool
  | .basic _ => true
  | _ => false

/-- The type that has been built. -/
def eval : TypeExpr → Except TypeError Datatype
  | .basic b => .ok b.datatype
  | .contiguous count old => do
    let oldtype ← old.eval
    typeContiguous count.val oldtype
  | .vector count blocklen stride old => do
    let oldtype ← old.eval
    typeVector count.val blocklen.val stride oldtype
  | .hvector count blocklength stride old => do
    let oldtype ← old.eval
    typeHvector count.val blocklength.val stride oldtype
  | .indexed count blocklengths disps old => do
    let oldtype ← old.eval
    typeIndexed count.val (fun i => (blocklengths i).val) disps oldtype
  | .hindexed count blocklengths disps old => do
    let oldtype ← old.eval
    typeHindexed count.val (fun i => (blocklengths i).val) disps old.isbasic oldtype
  | .struct count blocklengths displacements types => do
    let types ← (List.range count.val).mapM fun i => (types i).eval
    typeStruct count.val (fun i => (blocklengths i).val) displacements
      fun i => types.getD i Datatype.empty

/-- Something holds for a type and for all types it has been built from. -/
def Everywhere (P : TypeExpr → Prop) : TypeExpr → Prop
  | .basic b => P (.basic b)
  | .contiguous count old => P (.contiguous count old) ∧ old.Everywhere P
  | .vector count blocklen stride old => P (.vector count blocklen stride old) ∧ old.Everywhere P
  | .hvector count blocklength stride old =>
    P (.hvector count blocklength stride old) ∧ old.Everywhere P
  | .indexed count blocklengths disps old =>
    P (.indexed count blocklengths disps old) ∧ old.Everywhere P
  | .hindexed count blocklengths disps old =>
    P (.hindexed count blocklengths disps old) ∧ old.Everywhere P
  | .struct count blocklengths displacements types =>
    P (.struct count blocklengths displacements types) ∧ ∀ i < count.val, (types i).Everywhere P

/-- The type can be committed, and then no entry of its map is empty. -/
def NoEmptyEntry (e : TypeExpr) : Prop :=
  ∃ (t : Datatype) (h : t.WellFormed), e.eval = .ok t ∧
    ∀ pair ∈ (typeCommit t h).typeMap, 0 < pair.size

/-- If this is an `hindexed` type of a basic type, then all its blocks have bytes. -/
def BlocksFilled : TypeExpr → Prop
  | .hindexed count blocklengths _ (.basic b) =>
    ∀ i < count.val, 0 < (blocklengths i).val ∧ 0 < b.datatype.extent
  | _ => True

end TypeExpr

end Lampi
