import Mathlib.Data.List.Nodup

/-!
# Matching in order

Receivers are posted and messages of several sources are offered, one after the other.  A message
goes to the earliest receiver posted that is compatible with it; a new receiver takes the earliest
compatible message of the first source that has one.  What finds no partner waits.

The type `ρ` is that of the receivers, `ι` that of the sources, `μ` that of the messages of a
source.
-/

namespace OrderedMatching

open List

variable {ρ ι μ : Type*}

/-- The receivers and messages that wait, in order, and the pairs made so far. -/
structure Matcher (ρ ι μ : Type*) where
  posted : List ρ
  eligible : ι → List μ
  pairs : List (ρ × ι × μ)

namespace Matcher

def empty : Matcher ρ ι μ := ⟨[], fun _ => [], []⟩

section Operations

variable (compatible : ρ → ι → μ → Bool)

/-- The first source with a message that is compatible with the receiver, and the first such
message. -/
def choose (m : Matcher ρ ι μ) (r : ρ) : List ι → Option (ι × μ)
  | [] => none
  | i :: is =>
    match (m.eligible i).find? (compatible r i) with
    | some x => some (i, x)
    | none => m.choose r is

variable [DecidableEq ρ] [DecidableEq ι] [DecidableEq μ] {m : Matcher ρ ι μ} {r : ρ}

variable (m)

def pairOffered (r : ρ) (i : ι) (x : μ) : Matcher ρ ι μ :=
  { m with posted := m.posted.erase r, pairs := m.pairs ++ [(r, i, x)] }

def await (i : ι) (x : μ) : Matcher ρ ι μ :=
  { m with eligible := Function.update m.eligible i (m.eligible i ++ [x]) }

/-- A receiver that finds this message. -/
def pairPosted (r : ρ) (i : ι) (x : μ) : Matcher ρ ι μ :=
  { m with
    eligible := Function.update m.eligible i ((m.eligible i).erase x)
    pairs := m.pairs ++ [(r, i, x)] }

def offer (i : ι) (x : μ) : Matcher ρ ι μ :=
  match m.posted.find? (compatible · i x) with
  | some r => m.pairOffered r i x
  | none => m.await i x

/-- A receiver is posted, for these sources. -/
def post (r : ρ) (sources : List ι) : Matcher ρ ι μ :=
  match m.choose compatible r sources with
  | some (i, x) => m.pairPosted r i x
  | none => { m with posted := m.posted ++ [r] }

variable {m}

omit [DecidableEq ρ] in
lemma post_of_forall {is : List ι} (h : ∀ i ∈ is, (m.eligible i).find? (compatible r i) = none) :
    m.post compatible r is = { m with posted := m.posted ++ [r] } := by
  have hnone : m.choose compatible r is = none := by
    induction is with
    | nil => rfl
    | cons i is ih =>
      obtain ⟨hi, his⟩ := forall_mem_cons.mp h
      rw [choose, hi]
      exact ih his
  rw [post, hnone]

omit [DecidableEq ρ] in
lemma post_append_cons {before : List ι} {i : ι} {x : μ}
    (hbefore : ∀ i ∈ before, (m.eligible i).find? (compatible r i) = none)
    (h : (m.eligible i).find? (compatible r i) = some x) (after : List ι) :
    m.post compatible r (before ++ i :: after) = m.pairPosted r i x := by
  have hsome : m.choose compatible r (before ++ i :: after) = some (i, x) := by
    induction before with
    | nil => rw [nil_append, choose, h]
    | cons j before ih =>
      obtain ⟨hj, hbefore⟩ := forall_mem_cons.mp hbefore
      rw [cons_append, choose, hj]
      exact ih hbefore
  rw [post, hsome]

end Operations

/-! ### At most one partner -/

/-- Nobody has two partners, or waits and has a partner. -/
structure Proper (m : Matcher ρ ι μ) : Prop where
  posted : ∀ r ∈ m.posted, ∀ p ∈ m.pairs, p.1 ≠ r
  eligible : ∀ i, ∀ x ∈ m.eligible i, ∀ p ∈ m.pairs, p.2 ≠ (i, x)
  receiver : ∀ p ∈ m.pairs, ∀ q ∈ m.pairs, p.1 = q.1 → p = q
  message : ∀ p ∈ m.pairs, ∀ q ∈ m.pairs, p.2 = q.2 → p = q

lemma empty_proper : (empty : Matcher ρ ι μ).Proper := by
  constructor <;> simp [empty]

namespace Proper

variable [DecidableEq ρ] [DecidableEq ι] [DecidableEq μ] {m : Matcher ρ ι μ} {r : ρ} {i : ι} {x : μ}

omit [DecidableEq ρ] [DecidableEq ι] [DecidableEq μ] in
private lemma unique_append (h : m.Proper) (hr : ∀ p ∈ m.pairs, p.1 ≠ r)
    (hx : ∀ p ∈ m.pairs, p.2 ≠ (i, x)) :
    (∀ p ∈ m.pairs ++ [(r, i, x)], ∀ q ∈ m.pairs ++ [(r, i, x)], p.1 = q.1 → p = q) ∧
      ∀ p ∈ m.pairs ++ [(r, i, x)], ∀ q ∈ m.pairs ++ [(r, i, x)], p.2 = q.2 → p = q := by
  simp only [mem_append, mem_singleton]
  constructor
  · rintro p (hp | rfl) q (hq | rfl) heq
    · exact h.receiver p hp q hq heq
    · exact absurd heq (hr p hp)
    · exact absurd heq.symm (hr q hq)
    · rfl
  · rintro p (hp | rfl) q (hq | rfl) heq
    · exact h.message p hp q hq heq
    · exact absurd heq (hx p hp)
    · exact absurd heq.symm (hx q hq)
    · rfl

omit [DecidableEq ι] [DecidableEq μ] in
lemma pairOffered (h : m.Proper) (hr : r ∈ m.posted) (hnodup : m.posted.Nodup)
    (hx : ∀ p ∈ m.pairs, p.2 ≠ (i, x)) (hwait : x ∉ m.eligible i) :
    (m.pairOffered r i x).Proper := by
  obtain ⟨hreceiver, hmessage⟩ := h.unique_append (h.posted r hr) hx
  refine ⟨fun r' hr' => ?_, fun j y hy => ?_, hreceiver, hmessage⟩
  · obtain ⟨hne, hr'⟩ := hnodup.mem_erase_iff.mp hr'
    exact forall_mem_append.mpr ⟨h.posted r' hr', by simpa using Ne.symm hne⟩
  · refine forall_mem_append.mpr ⟨h.eligible j y hy, ?_⟩
    rw [forall_mem_singleton]
    rintro heq
    cases heq
    exact hwait hy

omit [DecidableEq ρ] [DecidableEq μ] in
lemma await (h : m.Proper) (hx : ∀ p ∈ m.pairs, p.2 ≠ (i, x)) : (m.await i x).Proper := by
  refine ⟨h.posted, fun j y hy => ?_, h.receiver, h.message⟩
  by_cases hj : j = i
  · subst hj
    simp only [await, Function.update_self, mem_append, mem_singleton] at hy
    obtain hy | rfl := hy
    · exact h.eligible j y hy
    · exact hx
  · simp only [Matcher.await, Function.update_of_ne hj] at hy
    exact h.eligible j y hy

omit [DecidableEq ρ] in
lemma pairPosted (h : m.Proper) (hr : ∀ p ∈ m.pairs, p.1 ≠ r) (hposted : r ∉ m.posted)
    (hx : x ∈ m.eligible i) (hnodup : (m.eligible i).Nodup) : (m.pairPosted r i x).Proper := by
  obtain ⟨hreceiver, hmessage⟩ := h.unique_append hr (h.eligible i x hx)
  refine ⟨fun r' hr' => ?_, fun j y hy => ?_, hreceiver, hmessage⟩
  · refine forall_mem_append.mpr ⟨h.posted r' hr', ?_⟩
    rw [forall_mem_singleton]
    rintro rfl
    exact hposted hr'
  · by_cases hj : j = i
    · subst hj
      simp only [pairPosted, Function.update_self] at hy
      obtain ⟨hne, hy⟩ := hnodup.mem_erase_iff.mp hy
      refine forall_mem_append.mpr ⟨h.eligible j y hy, ?_⟩
      simpa using Ne.symm hne
    · simp only [Matcher.pairPosted, Function.update_of_ne hj] at hy
      refine forall_mem_append.mpr ⟨h.eligible j y hy, ?_⟩
      simpa using fun heq => absurd heq.symm hj

omit [DecidableEq ρ] [DecidableEq ι] [DecidableEq μ] in
lemma post (h : m.Proper) (hr : ∀ p ∈ m.pairs, p.1 ≠ r) :
    ({ m with posted := m.posted ++ [r] } : Matcher ρ ι μ).Proper := by
  refine ⟨?_, h.eligible, h.receiver, h.message⟩
  exact forall_mem_append.mpr ⟨h.posted, by simpa using fun p q x hp => hr (p, q, x) hp⟩

end Proper

end Matcher

/-! ### The first of an ordered list -/

lemma find?_eq_some_of_least {α : Type*} {R : α → α → Prop} [Std.Asymm R] {l : List α}
    (hl : l.Pairwise R) {p : α → Bool} {a : α} (ha : a ∈ l) (hp : p a = true)
    (hleast : ∀ b ∈ l, p b = true → ¬R b a) : l.find? p = some a := by
  induction l with
  | nil => cases ha
  | cons b l ih =>
    obtain ⟨hb, hl⟩ := pairwise_cons.mp hl
    rw [find?_cons]
    rcases mem_cons.mp ha with rfl | ha
    · rw [hp]
    · have hpb : p b = false := by
        rw [← Bool.not_eq_true]
        exact fun hpb => hleast b mem_cons_self hpb (hb a ha)
      rw [hpb]
      exact ih hl ha fun c hc => hleast c (mem_cons_of_mem _ hc)

end OrderedMatching
