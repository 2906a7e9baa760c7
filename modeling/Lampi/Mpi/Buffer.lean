import Mathlib.Data.Int.Notation
import Mathlib.Data.List.Basic

/-!
# Buffers of a process

A buffer is addressed relative to where it begins, and addresses have 64 bits.  `Buffer.write` puts
bytes at positions one after the other, so that the last byte counts where a position occurs more
than once.  Bytes that have been read at the same positions of another buffer are copied whatever
the order is (**`Buffer.write_read`**, `Buffer.copy_append`).
-/

namespace Lampi

open Function List

/-- The bytes of a process, by the address relative to the buffer. -/
abbrev Buffer := BitVec 64 → UInt8

namespace Buffer

def read (buf : Buffer) (positions : List ℤ) : List UInt8 :=
  positions.map fun pos => buf (BitVec.ofInt 64 pos)

def write (buf : Buffer) (positions : List ℤ) (bytes : List UInt8) : Buffer :=
  (positions.zip bytes).foldl (fun buf w => update buf (BitVec.ofInt 64 w.1) w.2) buf

/-! ### Copies -/

/-- A buffer with the bytes of another one at these positions. -/
def copy (dst src : Buffer) (positions : List ℤ) : Buffer := fun addr =>
  if addr ∈ positions.map (BitVec.ofInt 64) then src addr else dst addr

variable (dst src : Buffer) {ps qs : List ℤ}

lemma copy_nil : dst.copy src [] = dst := rfl

variable (positions : List ℤ)

lemma copy_self : src.copy src positions = src := by
  funext addr
  exact ite_self _

lemma copy_append (ps qs : List ℤ) : (dst.copy src ps).copy src qs = dst.copy src (ps ++ qs) := by
  funext addr
  simp only [copy, map_append, mem_append]
  by_cases hq : addr ∈ qs.map (BitVec.ofInt 64)
  · rw [if_pos hq, if_pos (.inr hq)]
  · rw [if_neg hq]
    exact if_congr (by simp only [hq, or_false]) rfl rfl

lemma copy_apply {positions : List ℤ} {pos : ℤ} (hpos : pos ∈ positions) :
    dst.copy src positions (BitVec.ofInt 64 pos) = src (BitVec.ofInt 64 pos) :=
  if_pos (mem_map_of_mem hpos)

lemma read_copy : (dst.copy src positions).read positions = src.read positions :=
  map_congr_left fun _ hpos => copy_apply dst src hpos

/-- **To read bytes and to write them elsewhere is to copy them**, even if a byte occurs more than
once. -/
theorem write_read : dst.write positions (src.read positions) = dst.copy src positions := by
  induction positions generalizing dst with
  | nil => rfl
  | cons pos positions ih =>
    have hone : update dst (BitVec.ofInt 64 pos) (src (BitVec.ofInt 64 pos)) =
        dst.copy src [pos] := by
      funext addr
      simp only [copy, map_cons, map_nil, mem_singleton]
      by_cases h : addr = BitVec.ofInt 64 pos
      · rw [if_pos h, h, update_self]
      · rw [if_neg h, update_of_ne h]
    show write (update dst (BitVec.ofInt 64 pos) (src (BitVec.ofInt 64 pos))) positions
      (src.read positions) = _
    rw [ih, hone, copy_append]
    rfl

/-- Nothing has been written but at these positions. -/
def SameOutside (buf buf' : Buffer) : Prop :=
  ∀ addr ∉ positions.map (BitVec.ofInt 64), buf' addr = buf addr

namespace SameOutside

variable {ps qs : List ℤ} {buf buf' buf'' : Buffer}

lemma refl (ps : List ℤ) (buf : Buffer) : SameOutside ps buf buf := fun _ _ => rfl

variable (h : SameOutside ps buf buf')

include h

lemma mono (hsub : ps ⊆ qs) : SameOutside qs buf buf' := by
  intro addr haddr
  apply h addr
  intro hmem
  exact haddr (map_subset _ hsub hmem)

lemma trans (h' : SameOutside ps buf' buf'') : SameOutside ps buf buf'' := by
  intro addr haddr
  rw [h' addr haddr, h addr haddr]

lemma append (h' : SameOutside qs buf' buf'') : SameOutside (ps ++ qs) buf buf'' :=
  (h.mono (subset_append_left ps qs)).trans (h'.mono (subset_append_right ps qs))

end SameOutside

lemma sameOutside_write (buf : Buffer) (positions : List ℤ) (bytes : List UInt8) :
    SameOutside positions buf (buf.write positions bytes) := by
  induction positions generalizing buf bytes with
  | nil => exact .refl _ _
  | cons pos positions ih =>
    cases bytes with
    | nil => exact .refl _ _
    | cons b bytes =>
      have hone : SameOutside [pos] buf (update buf (BitVec.ofInt 64 pos) b) := by
        intro addr haddr
        apply update_of_ne
        rwa [map_singleton, mem_singleton] at haddr
      exact hone.append (ih _ bytes)

/-! ### What is written -/

/-- The bytes with the numbers in `ks` have been written where they belong, and nothing else.  Where
an address gets more than one byte it has one of them. -/
def Placed (place : ℕ → ℤ) (byte : ℕ → UInt8) (ks : List ℕ) (buf buf' : Buffer) : Prop :=
  ∀ addr, (∃ k ∈ ks, BitVec.ofInt 64 (place k) = addr ∧ buf' addr = byte k) ∨
    (∀ k ∈ ks, BitVec.ofInt 64 (place k) ≠ addr) ∧ buf' addr = buf addr

namespace Placed

variable {place : ℕ → ℤ} {byte : ℕ → UInt8} {ks ks' : List ℕ} {buf buf' : Buffer}

lemma nil (buf : Buffer) : Placed place byte [] buf buf :=
  fun _ => .inr ⟨nofun, rfl⟩

variable (h : Placed place byte ks buf buf')

include h

lemma congr (hks : ∀ k, k ∈ ks ↔ k ∈ ks') : Placed place byte ks' buf buf' := by
  intro addr
  rcases h addr with ⟨k, hk, hplace⟩ | ⟨hnone, hsame⟩
  · exact .inl ⟨k, (hks k).mp hk, hplace⟩
  · exact .inr ⟨fun k hk => hnone k ((hks k).mpr hk), hsame⟩

lemma update (k : ℕ) : Placed place byte (ks ++ [k]) buf
      (update buf' (BitVec.ofInt 64 (place k)) (byte k)) := by
  intro addr
  by_cases haddr : BitVec.ofInt 64 (place k) = addr
  · left
    refine ⟨k, mem_append_right _ mem_cons_self, haddr, ?_⟩
    rw [haddr, update_self]
  · rw [update_of_ne (Ne.symm haddr)]
    rcases h addr with ⟨j, hj, hplace⟩ | ⟨hnone, hsame⟩
    · exact .inl ⟨j, mem_append_left _ hj, hplace⟩
    · refine .inr ⟨fun j hj => ?_, hsame⟩
      rcases mem_append.mp hj with hj | hj
      · exact hnone j hj
      · rwa [mem_singleton.mp hj]

lemma write (more : List ℕ) {bytes : List UInt8} (hbytes : more.map byte <+: bytes) :
    Placed place byte (ks ++ more) buf (buf'.write (more.map place) bytes) := by
  induction more generalizing ks buf' bytes with
  | nil => rwa [append_nil]
  | cons k more ih =>
    obtain ⟨rest, rfl⟩ := hbytes
    have hnext := ih (h.update k) (prefix_append (more.map byte) rest)
    rwa [append_assoc] at hnext

end Placed

end Buffer

end Lampi
