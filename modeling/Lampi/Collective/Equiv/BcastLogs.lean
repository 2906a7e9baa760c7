import Lampi.Collective.Equiv.BcastFanOut

/-!
# The messages of a fan-out

`FanOutLogs` says of the logs of all processes what a fan-out should do, for every tag that it is
done with: each node but the root receives one message, from a node that has received before or is
the root, and the messages that are sent and received are the same.  **`fanOutLogs_of_nodes`**: that
is so if every node has the log that `logFanOut` leaves.
-/

namespace Lampi

open List FanOut

/-- The event is that a message with this tag is received. -/
def BcastEvent.receives (tag : ℤ) : BcastEvent → Bool
  | .sent _ _ => false
  | .received _ tag' => tag' == tag

/-- The messages of fan-outs from `root` to `nodes`. -/
structure FanOutLogs (root : ℕ) (nodes : List ℕ) (tags : List ℤ) (logs : ℕ → List BcastEvent) :
    Prop where
  /-- Every node but the root receives exactly once. -/
  once : ∀ p ∈ nodes, p ≠ root → ∀ tag ∈ tags, (logs p).countP (BcastEvent.receives tag) = 1
  /-- Nobody else receives anything. -/
  only : ∀ p src tag, .received src tag ∈ logs p → p ∈ nodes ∧ p ≠ root ∧ tag ∈ tags
  /-- A node that sends is the root, or it has received before. -/
  informed : ∀ p dst tag, .sent dst tag ∈ logs p →
    p = root ∨ ∃ src, [.received src tag, .sent dst tag].Sublist (logs p)
  /-- Each message is sent at most once, and it is received as often as it is sent. -/
  matched : ∀ p q tag, (logs p).count (.sent q tag) ≤ 1 ∧
    (logs p).count (.sent q tag) = (logs q).count (.received p tag)

/-! ### The log of a node -/

variable {e : BcastEvent}

section Log

variable {n x : ℕ} {proc : ℕ → ℕ} {tag tag' : ℤ}

lemma mem_sentTo {children : List ℕ} :
    e ∈ sentTo proc tag children ↔ ∃ c ∈ children, e = .sent (proc c) tag := by
  rw [sentTo, mem_map]
  exact exists_congr fun c => and_congr_right' eq_comm

lemma sent_mem_fanOutLog {dst : ℕ} :
    .sent dst tag' ∈ fanOutLog n proc tag x ↔ tag' = tag ∧ ∃ c ∈ children n x, dst = proc c := by
  have hnot : (.sent dst tag' : BcastEvent) ∉
      (if 0 < x then [.received (proc (parent x)) tag] else []) := by
    split_ifs <;> simp
  rw [fanOutLog, mem_append, mem_sentTo, or_iff_right hnot]
  simp only [BcastEvent.sent.injEq]
  constructor
  · rintro ⟨c, hc, rfl, rfl⟩
    exact ⟨rfl, c, hc, rfl⟩
  · rintro ⟨rfl, c, hc, rfl⟩
    exact ⟨c, hc, rfl, rfl⟩

lemma received_mem_fanOutLog {src : ℕ} :
    .received src tag' ∈ fanOutLog n proc tag x ↔ tag' = tag ∧ 0 < x ∧ src = proc (parent x) := by
  have hnot : (.received src tag' : BcastEvent) ∉ sentTo proc tag (children n x) := by
    rw [mem_sentTo]
    rintro ⟨c, -, heq⟩
    cases heq
  rw [fanOutLog, mem_append, or_iff_left hnot]
  split_ifs with hx
  · rw [mem_singleton, BcastEvent.received.injEq]
    exact ⟨fun h => ⟨h.2, hx, h.1⟩, fun h => ⟨h.2.2, h.1⟩⟩
  · exact ⟨fun h => absurd h not_mem_nil, fun h => absurd h.2.1 hx⟩

lemma countP_receives (hx : 0 < x) :
    (fanOutLog n proc tag x).countP (BcastEvent.receives tag) = 1 := by
  have hsent : (sentTo proc tag (children n x)).countP (BcastEvent.receives tag) = 0 := by
    rw [countP_eq_zero]
    intro e he
    obtain ⟨c, -, rfl⟩ := mem_sentTo.mp he
    exact Bool.false_ne_true
  rw [fanOutLog, if_pos hx, countP_append, hsent, Nat.add_zero]
  exact countP_cons_of_pos (beq_iff_eq.mpr rfl)

lemma nodup_fanOutLog (hproc : ∀ x < n, ∀ y < n, proc x = proc y → x = y) :
    (fanOutLog n proc tag x).Nodup := by
  have hsent : (sentTo proc tag (children n x)).Nodup := by
    refine nodup_children.map_on fun c hc c' hc' heq => ?_
    exact hproc c (mem_children.mp hc).1 c' (mem_children.mp hc').1
      (BcastEvent.sent.inj heq).1
  rw [fanOutLog, nodup_append]
  refine ⟨by split_ifs <;> simp, hsent, fun a ha b hb heq => ?_⟩
  obtain ⟨c, -, rfl⟩ := mem_sentTo.mp hb
  split_ifs at ha
  · rw [mem_singleton] at ha
    rw [ha] at heq
    cases heq
  · cases ha

end Log

/-! ### Several fan-outs -/

section Tags

variable {tags : List ℤ} {tag : ℤ} {f : ℤ → List BcastEvent} {P : BcastEvent → Bool}

lemma countP_flatMap_tags (hnodup : tags.Nodup) (hother : ∀ tag' ≠ tag, (f tag').countP P = 0) :
    (tags.flatMap f).countP P = if tag ∈ tags then (f tag).countP P else 0 := by
  induction tags with
  | nil => rfl
  | cons t tags ih =>
    obtain ⟨ht, hnodup⟩ := nodup_cons.mp hnodup
    rw [flatMap_cons, countP_append, ih hnodup]
    by_cases heq : tag = t
    · subst heq
      rw [if_neg ht, Nat.add_zero, if_pos mem_cons_self]
    · rw [hother t (Ne.symm heq), Nat.zero_add]
      exact if_congr (by rw [mem_cons, or_iff_right heq]) rfl rfl

lemma sublist_flatMap (htag : tag ∈ tags) : (f tag).Sublist (tags.flatMap f) := by
  obtain ⟨front, back, rfl⟩ := append_of_mem htag
  rw [flatMap_append, flatMap_cons]
  exact (sublist_append_left _ _).trans (sublist_append_right _ _)

end Tags

section Nodes

variable {n : ℕ} {proc : ℕ → ℕ} {tags : List ℤ} {logs : ℕ → List BcastEvent}

private lemma count_of_tag {tag : ℤ} (htags : tags.Nodup) {x : ℕ}
    (he : ∀ tag', e ∈ fanOutLog n proc tag' x → tag' = tag) :
    (tags.flatMap fun tag => fanOutLog n proc tag x).count e =
      if tag ∈ tags then (fanOutLog n proc tag x).count e else 0 :=
  countP_flatMap_tags htags fun tag' hne =>
    count_eq_zero.mpr fun hmem => hne (he tag' hmem)

/-- **The logs of the nodes.** -/
theorem fanOutLogs_of_nodes (hproc : ∀ x < n, ∀ y < n, proc x = proc y → x = y) (htags : tags.Nodup)
    (hlogs : ∀ x < n, logs (proc x) = tags.flatMap fun tag => fanOutLog n proc tag x)
    (hother : ∀ p, (∀ x < n, proc x ≠ p) → logs p = []) :
    FanOutLogs (proc 0) ((range n).map proc) tags logs := by
  -- a process with a log is a node
  have hnode : ∀ p e, e ∈ logs p → ∃ x < n, proc x = p := by
    intro p e he
    by_contra hnone
    rw [hother p fun x hx heq => hnone ⟨x, hx, heq⟩] at he
    cases he
  have hmem : ∀ x < n, ∀ e, e ∈ logs (proc x) ↔ ∃ tag ∈ tags, e ∈ fanOutLog n proc tag x := by
    intro x hx e
    rw [hlogs x hx, mem_flatMap]
  have hcount : ∀ x < n, ∀ e tag, (∀ tag', e ∈ fanOutLog n proc tag' x → tag' = tag) →
      (logs (proc x)).count e = if tag ∈ tags ∧ e ∈ fanOutLog n proc tag x then 1 else 0 := by
    intro x hx e tag he
    rw [hlogs x hx, count_of_tag htags he, Nodup.count (nodup_fanOutLog hproc), ite_and]
  have hsentTag : ∀ x dst tag tag', .sent dst tag ∈ fanOutLog n proc tag' x → tag' = tag :=
    fun _ _ _ _ h => (sent_mem_fanOutLog.mp h).1.symm
  have hreceivedTag : ∀ x src tag tag', .received src tag ∈ fanOutLog n proc tag' x → tag' = tag :=
    fun _ _ _ _ h => (received_mem_fanOutLog.mp h).1.symm
  constructor
  case once =>
    intro p hp hne tag htag
    obtain ⟨x, hx, rfl⟩ := mem_map.mp hp
    rw [mem_range] at hx
    have hpos : 0 < x := Nat.pos_of_ne_zero fun hzero => hne (by rw [hzero])
    have hother : ∀ tag' ≠ tag, (fanOutLog n proc tag' x).countP (BcastEvent.receives tag) = 0 := by
      intro tag' hne'
      rw [countP_eq_zero]
      rintro (⟨dst, t⟩ | ⟨src, t⟩) he
      · exact Bool.false_ne_true
      · rw [← (received_mem_fanOutLog.mp he).1] at hne'
        exact fun h => hne' (beq_iff_eq.mp h)
    rw [hlogs x hx, countP_flatMap_tags htags hother, if_pos htag, countP_receives hpos]
  case only =>
    intro p src tag he
    obtain ⟨x, hx, rfl⟩ := hnode p _ he
    obtain ⟨tag', htag, he⟩ := (hmem x hx _).mp he
    obtain ⟨rfl, hpos, -⟩ := received_mem_fanOutLog.mp he
    refine ⟨mem_map_of_mem (mem_range.mpr hx), fun heq => ?_, htag⟩
    exact hpos.ne' (hproc x hx 0 (hpos.trans hx) heq)
  case informed =>
    intro p dst tag he
    obtain ⟨x, hx, rfl⟩ := hnode p _ he
    obtain ⟨tag', htag, he⟩ := (hmem x hx _).mp he
    obtain ⟨rfl, c, hc, rfl⟩ := sent_mem_fanOutLog.mp he
    rcases Nat.eq_zero_or_pos x with rfl | hpos
    · exact .inl rfl
    · refine .inr ⟨proc (parent x), ?_⟩
      rw [hlogs x hx]
      refine Sublist.trans ?_ (sublist_flatMap htag)
      rw [fanOutLog, if_pos hpos]
      exact (singleton_sublist.mpr (mem_sentTo.mpr ⟨c, hc, rfl⟩)).cons_cons _
  case matched =>
    intro p q tag
    by_cases hp : ∃ x < n, proc x = p
    swap
    · -- nobody sends, and nobody receives from there
      have hsent : (logs p).count (.sent q tag) = 0 := by
        rw [hother p fun x hx heq => hp ⟨x, hx, heq⟩]
        rfl
      refine ⟨by omega, hsent.trans (Eq.symm (count_eq_zero.mpr fun he => hp ?_))⟩
      obtain ⟨y, hy, rfl⟩ := hnode q _ he
      obtain ⟨tag', -, he⟩ := (hmem y hy _).mp he
      obtain ⟨-, hpos, rfl⟩ := received_mem_fanOutLog.mp he
      exact ⟨_, (parent_lt hpos).trans hy, rfl⟩
    obtain ⟨x, hx, rfl⟩ := hp
    rw [hcount x hx _ tag (hsentTag x q tag)]
    refine ⟨by split_ifs <;> omega, ?_⟩
    by_cases hq : ∃ y < n, proc y = q
    · obtain ⟨y, hy, rfl⟩ := hq
      rw [hcount y hy _ tag (hreceivedTag y _ tag)]
      refine if_congr (and_congr_right' ?_) rfl rfl
      rw [sent_mem_fanOutLog, received_mem_fanOutLog]
      refine and_congr_right' ⟨?_, ?_⟩
      · rintro ⟨c, hc, heq⟩
        obtain ⟨hcn, hpos, rfl⟩ := mem_children.mp hc
        obtain rfl := hproc y hy c hcn heq
        exact ⟨hpos, rfl⟩
      · rintro ⟨hpos, heq⟩
        have hparent := hproc x hx _ ((parent_lt hpos).trans hy) heq
        exact ⟨y, mem_children.mpr ⟨hy, hpos, hparent.symm⟩, rfl⟩
    · rw [hother q fun y hy heq => hq ⟨y, hy, heq⟩, count_nil, if_neg]
      rintro ⟨-, he⟩
      obtain ⟨-, c, hc, rfl⟩ := sent_mem_fanOutLog.mp he
      exact hq ⟨c, (mem_children.mp hc).1, rfl⟩

end Nodes

end Lampi
