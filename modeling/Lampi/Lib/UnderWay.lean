import Mathlib.Data.Nat.Notation
import Mathlib.Logic.Function.Basic

/-!
# Messages under way between nodes

A number of nodes exchange messages with one tag, at most one from any node to any other.
`UnderWay n proc tag msg W chan` says that the queues hold just the messages from `u` to `x` with
`W u x`, where `proc` tells which process a node is and `msg` what the nodes have to say.  A message
is put into the queues (`UnderWay.put`) or taken out of them (`UnderWay.take`).
-/

namespace MessagePassing

open Function

variable {P T M : Type}

/-- The messages under way are those from `u` to `x` with `W u x`. -/
structure UnderWay (n : ℕ) (proc : ℕ → P) (tag : T) (msg : ℕ → ℕ → M) (W : ℕ → ℕ → Prop)
    (chan : P × P × T → List M) : Prop where
  sent : ∀ u < n, ∀ x < n, W u x → chan (proc u, proc x, tag) = [msg u x]
  rest : ∀ key, (∀ u < n, ∀ x < n, W u x → key ≠ (proc u, proc x, tag)) → chan key = []

variable {n : ℕ} {proc : ℕ → P} {tag : T} {msg : ℕ → ℕ → M} {W W' : ℕ → ℕ → Prop}
  {chan : P × P × T → List M} {u x : ℕ}

lemma underWay_none (hW : ∀ u < n, ∀ x < n, ¬W u x) : UnderWay n proc tag msg W fun _ => [] :=
  ⟨fun u hu x hx hw => absurd hw (hW u hu x hx), fun _ _ => rfl⟩

lemma UnderWay.eq_nil (h : UnderWay n proc tag msg W chan) (hW : ∀ u < n, ∀ x < n, ¬W u x) :
    chan = fun _ => [] := by
  funext key
  exact h.rest key fun u hu x hx hw => absurd hw (hW u hu x hx)

lemma UnderWay.congr (h : UnderWay n proc tag msg W chan) (hW : ∀ u < n, ∀ x < n, W u x ↔ W' u x)
    : UnderWay n proc tag msg W' chan :=
  ⟨fun u hu x hx hw => h.sent u hu x hx ((hW u hu x hx).mpr hw),
    fun key hkey => h.rest key fun u hu x hx hw => hkey u hu x hx ((hW u hu x hx).mp hw)⟩

variable (hproc : ∀ x < n, ∀ y < n, proc x = proc y → x = y) (h : UnderWay n proc tag msg W chan)
  (hu : u < n) (hx : x < n)

include hproc hu hx

private lemma key_inj {u' x' : ℕ} (hu' : u' < n) (hx' : x' < n)
    (heq : (proc u, proc x, tag) = (proc u', proc x', tag)) : u = u' ∧ x = x' := by
  rw [Prod.mk.injEq, Prod.mk.injEq] at heq
  exact ⟨hproc u hu u' hu' heq.1, hproc x hx x' hx' heq.2.1⟩

variable [DecidableEq P] [DecidableEq T]

include h

lemma UnderWay.take : UnderWay n proc tag msg (fun u' x' => W u' x' ∧ ¬(u' = u ∧ x' = x))
      (update chan (proc u, proc x, tag) []) := by
  constructor
  · intro u' hu' x' hx' hw
    have hne : (proc u', proc x', tag) ≠ (proc u, proc x, tag) := fun heq =>
      hw.2 (key_inj hproc hu' hx' hu hx heq)
    rw [update_of_ne hne]
    exact h.sent u' hu' x' hx' hw.1
  · intro key hkey
    by_cases heq : key = (proc u, proc x, tag)
    · rw [heq, update_self]
    · rw [update_of_ne heq]
      apply h.rest
      rintro u' hu' x' hx' hw rfl
      exact hkey u' hu' x' hx' ⟨hw, fun hsame => heq (by rw [hsame.1, hsame.2])⟩ rfl

lemma UnderWay.put (hw : ¬W u x) :
    UnderWay n proc tag msg (fun u' x' => W u' x' ∨ (u' = u ∧ x' = x))
      (update chan (proc u, proc x, tag) (chan (proc u, proc x, tag) ++ [msg u x])) := by
  have hempty : chan (proc u, proc x, tag) = [] := by
    apply h.rest
    intro u' hu' x' hx' hw' heq
    obtain ⟨rfl, rfl⟩ := key_inj hproc hu hx hu' hx' heq
    exact hw hw'
  rw [hempty, List.nil_append]
  constructor
  · intro u' hu' x' hx' hw'
    by_cases heq : (proc u', proc x', tag) = (proc u, proc x, tag)
    · obtain ⟨rfl, rfl⟩ := key_inj hproc hu' hx' hu hx heq
      rw [update_self]
    · rw [update_of_ne heq]
      rcases hw' with hw' | ⟨rfl, rfl⟩
      · exact h.sent u' hu' x' hx' hw'
      · exact absurd rfl heq
  · intro key hkey
    have hne : key ≠ (proc u, proc x, tag) := hkey u hu x hx (.inr ⟨rfl, rfl⟩)
    rw [update_of_ne hne]
    exact h.rest key fun u' hu' x' hx' hw' => hkey u' hu' x' hx' (.inl hw')

end MessagePassing
