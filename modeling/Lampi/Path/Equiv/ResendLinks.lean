import Lampi.Path.ResendLinks
import Lampi.Lib.LinkedList
import Lampi.Path.Equiv.SendFrag

/-!
# What `resend` leaves of the lists

`resend` takes a delivered fragment off `FragsToAck` and hands it to `freeResources`, which goes by
`WhichQueue` and takes it off once more.  The second time only the length changes.

* **`resend_truthful_iff`**: the length is the number of fragments on the list afterwards just if no
  delivered fragment has to be taken off while others are on the list.
* `Represents.resend`: in that case the links follow the contents of the lists, as `Sender.resend`
  has them.

`Lists` describes the links of all lists at once, and `Walk` where the loop is.
-/

namespace Lampi

open Function LinkedList List LinkedMessage Option

namespace LinkedMessage

variable {s s' : LinkedMessage} {l : FragQueue → List ℕ} {d e : ℕ} {q : FragQueue} {q' : FragQueue}
  {l₁ l₂ : List ℕ} {rounds : ℕ}

/-! ### The lists -/

/-- The ends and the elements of a list. -/
def nodes (l : FragQueue → List ℕ) (q : FragQueue) : List LinkAddr :=
  .head q :: (l q).map .desc ++ [.tail q]

/-- The links are those of the lists `l`, and no descriptor is on a list twice, or on two lists. -/
structure Lists (s : LinkedMessage) (l : FragQueue → List ℕ) : Prop where
  isList : ∀ q, IsList s.next s.prev (.head q) (.tail q) ((l q).map .desc)
  nodup : ∀ q, (l q).Nodup
  disjoint : ∀ {q q' d}, d ∈ l q → d ∈ l q' → q = q'

lemma desc_mem_nodes : .desc d ∈ nodes l q ↔ d ∈ l q := by
  simp [nodes]

lemma Lists.eq_of_mem_nodes (h : s.Lists l) {x : LinkAddr} (hx : x ∈ nodes l q)
    (hx' : x ∈ nodes l q') : q = q' := by
  cases x with
  | null => simp [nodes] at hx
  | head => simp [nodes] at hx hx'; exact hx.symm.trans hx'
  | tail => simp [nodes] at hx hx'; exact hx.symm.trans hx'
  | desc d => exact h.disjoint (desc_mem_nodes.mp hx) (desc_mem_nodes.mp hx')

lemma Lists.nodup_nodes (h : s.Lists l) (q : FragQueue) : (nodes l q).Nodup := by
  have hinj : Injective LinkAddr.desc := fun a b hab => LinkAddr.desc.inj hab
  simp [nodes, nodup_append, (h.nodup q).map hinj]

lemma Lists.congr (h : s.Lists l) (hnext : s'.next = s.next) (hprev : s'.prev = s.prev) :
    s'.Lists l := by
  refine ⟨fun q => ?_, h.nodup, h.disjoint⟩
  rw [hnext, hprev]
  exact h.isList q

/-- The last node of the first part of a list. -/
def last (q : FragQueue) (l₁ : List ℕ) : LinkAddr :=
  (LinkAddr.head q :: l₁.map LinkAddr.desc).getLast (by simp)

/-- The first node of the second part of a list. -/
def first (q : FragQueue) (l₂ : List ℕ) : LinkAddr :=
  (l₂.map LinkAddr.desc ++ [LinkAddr.tail q]).head (by simp)

lemma last_concat (q : FragQueue) (l₁ : List ℕ) (d : ℕ) : last q (l₁ ++ [d]) = .desc d := by
  simp [last]

lemma Lists.cut (h : s.Lists l) (hl : l q = l₁ ++ l₂) :
    s.next (last q l₁) = first q l₂ ∧ s.prev (first q l₂) = last q l₁ := by
  have hlist := h.isList q
  rw [hl, map_append] at hlist
  exact hlist.linked_append

/-! ### Taking out and appending -/

/-- The message after `RemoveLinkNoLock` has taken out a descriptor. -/
def unlinked (s : LinkedMessage) (q : FragQueue) (d : ℕ) : LinkedMessage :=
  { s with
    next := update s.next (s.prev (.desc d)) (s.next (.desc d))
    prev := update s.prev (s.next (.desc d)) (s.prev (.desc d))
    length := update s.length q (s.length q - 1) }

section Element

variable {l₁ l₂ : List ℕ}

lemma removeLinkNoLock_zero (hlen : s.length q = 0) (link : LinkAddr) :
    s.removeLinkNoLock q link = some (none, s) := if_pos hlen

lemma removeLinkNoLock_eq (hprev : s.prev (.desc d) ≠ .null) (hnext : s.next (.desc d) ≠ .null)
    (hlen : s.length q ≠ 0) :
    s.removeLinkNoLock q (.desc d) = some (some (s.prev (.desc d)), s.unlinked q d) := by
  rw [removeLinkNoLock, if_neg hlen]
  exact if_neg (not_or.mpr ⟨hprev, hnext⟩)

variable (h : s.Lists l)

include h

lemma Lists.frame (hq : q' ≠ q) {next prev : LinkAddr → LinkAddr}
    (hlinks : ∀ x, x ∉ nodes l q → x ∈ nodes l q' → next x = s.next x ∧ prev x = s.prev x) :
    IsList next prev (.head q') (.tail q') ((l q').map .desc) := by
  refine (h.isList q').congr fun x hx => hlinks x (fun hin => ?_) hx
  exact hq (h.eq_of_mem_nodes hx hin)

lemma Lists.appendNoLock (hd : ∀ q, d ∉ l q) (q : FragQueue) :
    (s.appendNoLock q (.desc d)).Lists (update l q (l q ++ [d])) := by
  have hnew : .desc d ∉ nodes l q := fun hin => hd q (desc_mem_nodes.mp hin)
  have hlast : s.prev (.tail q) ∈ nodes l q := by
    rw [show s.prev (.tail q) = last q (l q) from (h.cut (append_nil _).symm).2]
    exact mem_append_left _ (getLast_mem _)
  have hmem : ∀ {q' e}, e ∈ update l q (l q ++ [d]) q' → e ∈ l q' ∨ e = d ∧ q' = q := by
    intro q' e he
    by_cases hq : q' = q
    · subst hq
      rw [update_self, mem_append, mem_singleton] at he
      exact he.imp_right fun heq => ⟨heq, rfl⟩
    · rw [update_of_ne hq] at he
      exact .inl he
  refine ⟨fun q' => ?_, fun q' => ?_, fun {q1 q2 e} he he' => ?_⟩
  · by_cases hq : q' = q
    · subst hq
      rw [update_self, map_append]
      exact (h.isList q').append (h.nodup_nodes q') hnew
    · rw [update_of_ne hq]
      refine h.frame hq fun x hx hx' => ?_
      have hxd : x ≠ .desc d := fun heq => hd q' (desc_mem_nodes.mp (heq ▸ hx'))
      have hxtail : x ≠ .tail q := fun heq => hx (heq ▸ mem_append_right _ (by simp))
      have hxlast : x ≠ s.prev (.tail q) := fun heq => hx (heq ▸ hlast)
      constructor
      · show update (update _ _ _) _ _ _ = _
        rw [update_of_ne hxd, update_of_ne hxlast]
      · show update (update _ _ _) _ _ _ = _
        rw [update_of_ne hxtail, update_of_ne hxd]
  · refine (forall_update_iff l fun _ m => m.Nodup).mpr ⟨?_, fun q' _ => h.nodup q'⟩ q'
    rw [← concat_eq_append, nodup_concat]
    exact ⟨hd q, h.nodup q⟩
  · rcases hmem he with hin | ⟨rfl, rfl⟩
    · rcases hmem he' with hin' | ⟨rfl, rfl⟩
      · exact h.disjoint hin hin'
      · exact absurd hin (hd _)
    · rcases hmem he' with hin' | ⟨-, rfl⟩
      · exact absurd hin' (hd _)
      · rfl

variable (hl : l q = l₁ ++ d :: l₂)

include hl

lemma Lists.notMem : d ∉ l₁ ++ l₂ := (nodup_cons.mp (nodup_middle.mp (hl ▸ h.nodup q))).1

lemma Lists.neighbours :
    s.next (.desc d) ∈ l₂.map .desc ++ [.tail q] ∧ s.prev (.desc d) ∈ .head q :: l₁.map .desc := by
  have hlist := h.isList q
  rw [hl, map_append, map_cons] at hlist
  exact hlist.neighbours_mem

lemma Lists.neighbours_nodes : s.next (.desc d) ∈ nodes l q ∧ s.prev (.desc d) ∈ nodes l q := by
  obtain ⟨hnext, hprev⟩ := h.neighbours hl
  rw [nodes, hl]
  constructor
  · rcases mem_append.mp hnext with hnext | hnext
    · simp only [map_append, map_cons, mem_append, mem_cons]
      exact .inl (.inr (.inr (.inr hnext)))
    · exact mem_append_right _ hnext
  · simp only [map_append, map_cons, mem_append, mem_cons] at hprev ⊢
    exact .inl (hprev.imp_right .inl)

lemma Lists.ne_neighbours : s.next (.desc d) ≠ .desc d ∧ s.prev (.desc d) ≠ .desc d := by
  obtain ⟨hnext, hprev⟩ := h.neighbours hl
  obtain ⟨hd₁, hd₂⟩ := not_or.mp (mem_append.not.mp (h.notMem hl))
  constructor
  · intro heq
    rw [heq] at hnext
    simp [hd₂] at hnext
  · intro heq
    rw [heq] at hprev
    simp [hd₁] at hprev

lemma Lists.ne_null : s.prev (.desc d) ≠ .null ∧ s.next (.desc d) ≠ .null := by
  obtain ⟨hnext, hprev⟩ := h.neighbours hl
  constructor
  · intro hnull
    rw [hnull] at hprev
    simp at hprev
  · intro hnull
    rw [hnull] at hnext
    simp at hnext

lemma Lists.removeLinkNoLock (hlen : s.length q ≠ 0) :
    s.removeLinkNoLock q (.desc d) = some (some (s.prev (.desc d)), s.unlinked q d) :=
  removeLinkNoLock_eq (h.ne_null hl).1 (h.ne_null hl).2 hlen

lemma Lists.unlinked : (s.unlinked q d).Lists (update l q (l₁ ++ l₂)) := by
  obtain ⟨hnext, hprev⟩ := h.neighbours_nodes hl
  have hsub : ∀ q', (update l q (l₁ ++ l₂) q').Sublist (l q') := by
    refine (forall_update_iff l fun q' m => m.Sublist (l q')).mpr ⟨?_, fun _ _ => Sublist.refl _⟩
    rw [hl]
    exact (Sublist.refl l₁).append (sublist_cons_self d l₂)
  refine ⟨fun q' => ?_, fun q' => (h.nodup q').sublist (hsub q'), fun hd hd' =>
    h.disjoint ((hsub _).subset hd) ((hsub _).subset hd')⟩
  by_cases hq : q' = q
  · subst hq
    have hlist := h.isList q'
    have hnodup := h.nodup_nodes q'
    rw [nodes] at hnodup
    rw [hl, map_append, map_cons] at hlist hnodup
    rw [update_self, map_append]
    exact hlist.unlink hnodup
  · rw [update_of_ne hq]
    refine h.frame hq fun x hx _ => ⟨update_of_ne ?_ _ _, update_of_ne ?_ _ _⟩
    · exact fun heq => hx (heq ▸ hprev)
    · exact fun heq => hx (heq ▸ hnext)

lemma Lists.notMem_unlinked : ∀ q', d ∉ update l q (l₁ ++ l₂) q' := by
  refine (forall_update_iff l fun _ m => d ∉ m).mpr ⟨h.notMem hl, fun q' hq hin => ?_⟩
  exact hq (h.disjoint hin (hl ▸ mem_append_right _ mem_cons_self))

lemma Lists.links_unlinked :
    (s.unlinked q d).next (.desc d) = s.next (.desc d) ∧
      (s.unlinked q d).prev (.desc d) = s.prev (.desc d) := by
  obtain ⟨hnext, hprev⟩ := h.ne_neighbours hl
  exact ⟨update_of_ne hprev.symm _ _, update_of_ne hnext.symm _ _⟩

lemma Lists.unlinked_unlinked :
    (s.unlinked q d).unlinked q d =
      { s.unlinked q d with length := update s.length q (s.length q - 2) } := by
  obtain ⟨hnext, hprev⟩ := h.links_unlinked hl
  rw [LinkedMessage.unlinked, hnext, hprev]
  simp only [LinkedMessage.unlinked, update_idem, update_self, Int.sub_sub, Int.reduceAdd]

/-- **Taking out a descriptor once more** only changes the length, unless that is 0. -/
theorem Lists.removeAgain :
    ((s.unlinked q d).removeLinkNoLock q (.desc d)).map Prod.snd =
      some { s.unlinked q d with
        length := update s.length q (if s.length q = 1 then 0 else s.length q - 2) } := by
  have hlength : (s.unlinked q d).length q = s.length q - 1 := update_self ..
  by_cases hone : s.length q = 1
  · rw [removeLinkNoLock_zero (by omega), if_pos hone]
    simp only [LinkedMessage.unlinked, hone, Option.map_some, Int.sub_self]
  · obtain ⟨hnext, hprev⟩ := h.links_unlinked hl
    rw [removeLinkNoLock_eq (hprev ▸ (h.ne_null hl).1) (hnext ▸ (h.ne_null hl).2) (by omega),
      Option.map_some, if_neg hone, h.unlinked_unlinked hl]

end Element

/-! ### The body of the loop -/

/-- The message after a delivered descriptor has been freed: taken out of `FragsToAck` twice, unless
the length was down to 0. -/
def released (s : LinkedMessage) (d : ℕ) : LinkedMessage :=
  let t := (s.unlinked .fragsToAck d).appendNoLock .freeList (.desc d)
  { t with
    length := update t.length .fragsToAck
      (if s.length .fragsToAck = 1 then 0 else s.length .fragsToAck - 2)
    frags := update s.frags d { s.frags d with
      whichQueue := .freeList, fragSeq := 0, parentSendDesc := none }
    numAcked := s.numAcked + 1 }

/-- The message after a descriptor has been put back on `FragsToSend`. -/
def requeued (s : LinkedMessage) (d : ℕ) : LinkedMessage :=
  { (s.unlinked .fragsToAck d).appendNoLock .fragsToSend (.desc d) with
    frags :=
      update s.frags d { s.frags d with whichQueue := .fragsToSend, sendDidComplete := false }
    numSent := s.numSent - 1 }

/-- The fragment waits for its acknowledgement: it was sent, and its descriptor says so. -/
def Waits (s : LinkedMessage) (d : ℕ) : Prop :=
  (s.frags d).whichQueue = .fragsToAck ∧ (s.frags d).parentSendDesc = some s.self ∧
    (s.frags d).sendDidComplete = true

/-- The lists after a descriptor has gone from `FragsToAck`, of which `ack` is left, to list `q`. -/
def moved (l : FragQueue → List ℕ) (ack : List ℕ) (q : FragQueue) (d : ℕ) : FragQueue → List ℕ :=
  update (update l .fragsToAck ack) q (l q ++ [d])

section Body

variable {clock : ResendClock} {l₁ l₂ : List ℕ}

/-- The message that `udpSendFragDesc::freeResources` takes the descriptor out of again. -/
def acked (s : LinkedMessage) (d : ℕ) : LinkedMessage :=
  { s with
    numAcked := s.numAcked + 1
    frags := update s.frags d { s.frags d with whichQueue := .freeList } }

/-- A delivered descriptor is handed on with `WhichQueue` as it was, and taken out once more. -/
lemma Waits.freeDelivered (h : s.Waits d) :
    s.freeDelivered d = (((s.acked d).removeLinkNoLock .fragsToAck (.desc d)).map Prod.snd).map
      fun t => { t.appendNoLock .freeList (.desc d) with
        frags := update t.frags d { t.frags d with fragSeq := 0, parentSendDesc := none } } := by
  obtain ⟨hqueue, hparent, hcomplete⟩ := h
  unfold LinkedMessage.freeDelivered LinkedMessage.freeResourcesUdp
  rw [if_pos hcomplete, if_pos hparent, hqueue]
  rw [Option.map_map]
  refine congrArg (Option.map · _) (funext fun t => ?_)
  simp only [comp_apply, setFrag, appendNoLock, update_idem, update_self]

section

variable (h : s.Lists l) (hl : l .fragsToAck = l₁ ++ d :: l₂)

include h hl

lemma Lists.released : (s.released d).Lists (moved l (l₁ ++ l₂) .freeList d) := by
  have happended := (h.unlinked hl).appendNoLock (h.notMem_unlinked hl) .freeList
  exact happended.congr rfl rfl

lemma Lists.requeued : (s.requeued d).Lists (moved l (l₁ ++ l₂) .fragsToSend d) := by
  have happended := (h.unlinked hl).appendNoLock (h.notMem_unlinked hl) .fragsToSend
  exact happended.congr rfl rfl

lemma Lists.resendFrag_delivered (hwaits : s.Waits d) (hcovers : s.covers d = true)
    (hlen : s.length .fragsToAck ≠ 0) :
    s.resendFrag clock d = some (s.prev (.desc d), s.released d) := by
  have hwaits' : (s.unlinked .fragsToAck d).Waits d := hwaits
  have hframe : (s.acked d).Lists l := h.congr rfl rfl
  rw [resendFrag, if_pos hcovers, h.removeLinkNoLock hl hlen, Option.bind_some]
  simp only
  rw [hwaits'.freeDelivered]
  refine (congrArg (Option.map _) (congrArg (Option.map _) (hframe.removeAgain hl))).trans ?_
  refine congrArg some (Prod.ext rfl ?_)
  simp only [LinkedMessage.released, acked, LinkedMessage.appendNoLock, LinkedMessage.unlinked,
    update_idem, update_self, mk.injEq, true_and, and_true]
  funext q
  cases q <;> rfl

lemma Lists.resendFrag_timedOut (hcovers : s.covers d = false)
    (htimedOut : clock.timedOut d = true) (hlen : s.length .fragsToAck ≠ 0) :
    s.resendFrag clock d = some (s.prev (.desc d), s.requeued d) := by
  have hframe : (s.setFrag d fun frag => { frag with whichQueue := .fragsToSend }).Lists l :=
    h.congr rfl rfl
  rw [resendFrag, if_neg (Bool.eq_false_iff.mp hcovers), if_pos htimedOut]
  simp only
  rw [hframe.removeLinkNoLock hl hlen, Option.bind_some, Option.map_some]
  refine congrArg some (Prod.ext rfl ?_)
  simp only [LinkedMessage.requeued, setFrag, LinkedMessage.appendNoLock, LinkedMessage.unlinked,
    update_idem, update_self]

end

lemma resendFrag_waits (clock : ResendClock) (hcovers : s.covers d = false)
    (htimedOut : clock.timedOut d = false) :
    ∃ earliest, s.resendFrag clock d =
      some (.desc d, { s with earliestTimeToResend := some earliest }) := by
  rw [resendFrag, if_neg (Bool.eq_false_iff.mp hcovers),
    if_neg (Bool.eq_false_iff.mp htimedOut)]
  exact ⟨_, rfl⟩

/-- With the length down to 0, a delivered descriptor is put on the free list without having been
taken out, which leads the loop to the end of that list. -/
lemma resendFrag_delivered_zero (clock : ResendClock) (hwaits : s.Waits d)
    (hcovers : s.covers d = true) (hlen : s.length .fragsToAck = 0) :
    ∃ s', s.resendFrag clock d = some (.desc d, s') ∧ s'.next (.desc d) = .tail .freeList := by
  have hlen' : (s.acked d).length .fragsToAck = 0 := hlen
  rw [resendFrag, if_pos hcovers, removeLinkNoLock_zero hlen, bind_some]
  simp only
  rw [hwaits.freeDelivered, removeLinkNoLock_zero hlen']
  exact ⟨_, rfl, update_self ..⟩

/-- With the length down to 0, a descriptor that has timed out leads the loop to `NULL`. -/
lemma resendFrag_timedOut_zero (hcovers : s.covers d = false) (htimedOut : clock.timedOut d = true)
    (hlen : s.length .fragsToAck = 0) : s.resendFrag clock d = none := by
  rw [resendFrag, if_neg (Bool.eq_false_iff.mp hcovers), if_pos htimedOut]
  have hlen' : (s.setFrag d fun frag => { frag with whichQueue := .fragsToSend }).length
      .fragsToAck = 0 := hlen
  simp only
  rw [removeLinkNoLock_zero hlen']
  rfl

end Body

/-! ### The loop -/

/-- The length of `FragsToAck` is the number of fragments on it, so that a message with fragments
there is retransmitted in time. -/
def Truthful (s : LinkedMessage) : Prop :=
  ∃ l : List ℕ, IsList s.next s.prev (.head .fragsToAck) (.tail .fragsToAck) (l.map .desc) ∧
    s.length .fragsToAck = l.length ∧ (l ≠ [] → ∃ now, s.retransmitP now = true)

/-- Where the loop is: the fragments in `kept` have been looked at and stay, those in `rest` come
next.  The length is short by `missing`. -/
structure Walk (covered : ℕ → Prop) (s : LinkedMessage) (l : FragQueue → List ℕ)
    (kept rest : List ℕ)
    (missing : ℕ) : Prop where
  lists : s.Lists l
  ack : l .fragsToAck = kept ++ rest
  length : s.length .fragsToAck + missing = (kept ++ rest).length
  waits : ∀ d ∈ rest, s.Waits d ∧ (s.covers d = true ↔ covered d)
  earliest : kept ≠ [] → s.earliestTimeToResend ≠ none

/-- A fragment that was delivered is the last one, and there is none before it that stays. -/
def Alone (covered timedOut : ℕ → Prop) (kept rest : List ℕ) : Prop :=
  ∀ l₁ d l₂, rest = l₁ ++ d :: l₂ → covered d → kept = [] ∧ l₂ = [] ∧ ∀ e ∈ l₁, timedOut e

section Loop

variable {covered timedOut : ℕ → Prop} {kept rest : List ℕ} {missing : ℕ}

lemma alone_nil : Alone covered timedOut kept [] := by
  intro l₁ d l₂ heq
  simp at heq

lemma alone_delivered (hd : covered d) :
    Alone covered timedOut kept (d :: rest) ↔ kept = [] ∧ rest = [] := by
  constructor
  · intro h
    obtain ⟨hkept, hrest, -⟩ := h [] d rest rfl hd
    exact ⟨hkept, hrest⟩
  · rintro ⟨rfl, rfl⟩ l₁ e l₂ heq -
    cases l₁ with
    | nil => exact ⟨rfl, ((cons.inj heq).2).symm, nofun⟩
    | cons d' l₁ => simp at heq

lemma alone_cons (hd : ¬covered d) : Alone covered timedOut kept (d :: rest) ↔
    ∀ l₁ e l₂, rest = l₁ ++ e :: l₂ → covered e →
      kept = [] ∧ l₂ = [] ∧ ∀ e' ∈ d :: l₁, timedOut e' := by
  constructor
  · intro h l₁ e l₂ heq he
    exact h (d :: l₁) e l₂ (by rw [heq]; rfl) he
  · intro h l₁ e l₂ heq he
    cases l₁ with
    | nil => exact absurd ((cons.inj heq).1 ▸ he) hd
    | cons d' l₁ =>
      obtain ⟨rfl, hrest⟩ := cons.inj heq
      exact h l₁ e l₂ hrest he

lemma alone_timedOut (hd : ¬covered d) (htimedOut : timedOut d) :
    Alone covered timedOut kept (d :: rest) ↔ Alone covered timedOut kept rest := by
  rw [alone_cons hd]
  simp only [Alone, forall_mem_cons, htimedOut, true_and]

lemma alone_waits (hd : ¬covered d) (htimedOut : ¬timedOut d) :
    Alone covered timedOut kept (d :: rest) ↔ Alone covered timedOut (kept ++ [d]) rest := by
  rw [alone_cons hd]
  simp [Alone, htimedOut]

variable {clock : ResendClock}

section

variable (h : Walk covered s l kept (d :: rest) missing)

include h

/-- The fragments that come next are not touched by what happens to another one. -/
lemma Walk.waits_of_eq (hself : s'.self = s.self) (hinfo : s'.ackInfo = s.ackInfo)
    (hfrags : ∀ e, e ≠ d → s'.frags e = s.frags e) :
    ∀ e ∈ rest, s'.Waits e ∧ (s'.covers e = true ↔ covered e) := by
  intro e he
  have hne : e ≠ d := fun heq => h.lists.notMem h.ack (mem_append_right _ (heq ▸ he))
  have hold := h.waits e (mem_cons_of_mem d he)
  rw [Waits, covers, hself, hinfo, hfrags e hne]
  exact hold

lemma Walk.released : Walk covered (s.released d) (moved l (kept ++ rest) .freeList d) kept rest
      (if s.length .fragsToAck = 1 then missing else missing + 1) := by
  refine ⟨h.lists.released h.ack, rfl, ?_, h.waits_of_eq rfl rfl fun e he => update_of_ne he _ _,
    h.earliest⟩
  have hlength := h.length
  have hreleased : (s.released d).length .fragsToAck =
      if s.length .fragsToAck = 1 then 0 else s.length .fragsToAck - 2 := by
    simp only [LinkedMessage.released, update_self]
  simp only [length_append, length_cons] at hlength ⊢
  split_ifs <;> push_cast at hlength ⊢ <;> omega

lemma Walk.requeued :
    Walk covered (s.requeued d) (moved l (kept ++ rest) .fragsToSend d) kept rest missing := by
  refine ⟨h.lists.requeued h.ack, rfl, ?_, h.waits_of_eq rfl rfl fun e he => update_of_ne he _ _,
    h.earliest⟩
  have hlength := h.length
  have hrequeued : (s.requeued d).length .fragsToAck = s.length .fragsToAck - 1 := rfl
  simp only [length_append, length_cons] at hlength ⊢
  omega

lemma Walk.keep (earliest : ℕ) :
    Walk covered { s with earliestTimeToResend := some earliest } l (kept ++ [d]) rest missing := by
  refine ⟨h.lists.congr rfl rfl, ?_, ?_, h.waits_of_eq rfl rfl fun _ _ => rfl, fun _ => nofun⟩
  · rw [h.ack, append_assoc, singleton_append]
  · rw [append_assoc, singleton_append]
    exact h.length

lemma Walk.next_eq {l' : FragQueue → List ℕ} {missing' : ℕ}
    (h' : Walk covered s' l' kept rest missing') :
    s'.next (s.prev (.desc d)) = first .fragsToAck rest := by
  rw [show s.prev (.desc d) = last .fragsToAck kept from (h.lists.cut h.ack).2]
  exact (h'.lists.cut h'.ack).1

lemma Walk.next_keep : s.next (.desc d) = first .fragsToAck rest := by
  have hcut : l .fragsToAck = (kept ++ [d]) ++ rest := by
    rw [h.ack, append_assoc, singleton_append]
  rw [← last_concat .fragsToAck kept d]
  exact (h.lists.cut hcut).1

end

/-- At its end the loop has left the length right if nothing is missing. -/
lemma Walk.truthful_iff_end (h : Walk covered s l kept [] missing) : s.Truthful ↔ missing = 0 := by
  have hlist := h.lists.isList .fragsToAck
  have hlength := h.length
  rw [h.ack, append_nil] at hlist
  rw [append_nil] at hlength
  have htail : ∀ m : List ℕ, LinkAddr.tail .fragsToAck ∉ m.map LinkAddr.desc := by
    intro m hin
    simp at hin
  constructor
  · rintro ⟨m, hm, hmlength, -⟩
    have heq := congrArg List.length (hm.unique hlist (htail m) (htail kept))
    rw [length_map, length_map] at heq
    omega
  · rintro rfl
    refine ⟨kept, hlist, by omega, fun hne => ?_⟩
    obtain ⟨earliest, hearliest⟩ := ne_none_iff_exists'.mp (h.earliest hne)
    have hpos := length_pos_of_ne_nil hne
    refine ⟨earliest, ?_⟩
    have hnonzero : s.length .fragsToAck ≠ 0 := by omega
    simp [retransmitP, hearliest, hnonzero]

/-- **What the loop leaves of the list**, from any point on: the length stays wrong once it is, and
goes wrong at a delivered fragment that is not alone. -/
theorem Walk.truthful_iff (clock : ResendClock) (h : Walk covered s l kept rest missing)
    (hrounds : rest.length < rounds) :
    (∃ s', resendLoop clock rounds (first .fragsToAck rest) s = some s' ∧ s'.Truthful) ↔
      missing = 0 ∧ Alone covered (fun d => clock.timedOut d = true) kept rest := by
  induction rest generalizing s l kept missing rounds with
  | nil =>
    obtain ⟨rounds, rfl⟩ := Nat.exists_eq_add_one_of_ne_zero (Nat.ne_zero_of_lt hrounds)
    rw [← h.truthful_iff_end]
    constructor
    · rintro ⟨t, ht, htruthful⟩
      obtain rfl : s = t := some.inj ht
      exact ⟨htruthful, alone_nil⟩
    · exact fun htruthful => ⟨s, rfl, htruthful.1⟩
  | cons d rest ih =>
    obtain ⟨rounds, rfl⟩ := Nat.exists_eq_add_one_of_ne_zero (Nat.ne_zero_of_lt hrounds)
    have hrounds' : rest.length < rounds := by simpa using hrounds
    obtain ⟨hwaits, hcovered⟩ := h.waits d mem_cons_self
    have hlength := h.length
    simp only [length_append, length_cons] at hlength
    show (∃ s', ((s.resendFrag clock d).bind fun x =>
      resendLoop clock rounds (x.2.next x.1) x.2) = some s' ∧ s'.Truthful) ↔ _
    by_cases hd : covered d
    · have hcovers := hcovered.mpr hd
      rw [alone_delivered hd]
      by_cases hzero : s.length .fragsToAck = 0
      · -- the loop leaves the list
        obtain ⟨t, ht, hnext⟩ := resendFrag_delivered_zero clock hwaits hcovers hzero
        rw [ht, bind_some, hnext]
        have hcrash : resendLoop clock rounds (.tail .freeList) t = none := by
          cases rounds <;> rfl
        rw [hcrash]
        refine ⟨fun hex => absurd hex.choose_spec.1 nofun, fun hmissing => ?_⟩
        omega
      · have hwalk := h.released
        rw [h.lists.resendFrag_delivered h.ack hwaits hcovers hzero, bind_some,
          h.next_eq hwalk, ih hwalk hrounds']
        by_cases hone : s.length .fragsToAck = 1
        · rw [if_pos hone]
          refine and_congr_right fun hmissing => ⟨fun _ => ?_, fun hempty => hempty.2 ▸ alone_nil⟩
          exact ⟨eq_nil_of_length_eq_zero (by omega), eq_nil_of_length_eq_zero (by omega)⟩
        · rw [if_neg hone]
          refine ⟨fun hmissing => absurd hmissing.1 (Nat.succ_ne_zero _), ?_⟩
          rintro ⟨rfl, rfl, rfl⟩
          simp at hlength
          exact absurd hlength hone
    · have hcovers : s.covers d = false := by rwa [← hcovered, Bool.not_eq_true] at hd
      by_cases htimedOut : clock.timedOut d = true
      · rw [alone_timedOut hd htimedOut]
        by_cases hzero : s.length .fragsToAck = 0
        · rw [resendFrag_timedOut_zero hcovers htimedOut hzero]
          refine ⟨fun hex => absurd hex.choose_spec.1 nofun, fun hmissing => ?_⟩
          omega
        · have hwalk := h.requeued
          rw [h.lists.resendFrag_timedOut h.ack hcovers htimedOut hzero, bind_some,
            h.next_eq hwalk, ih hwalk hrounds']
      · rw [alone_waits hd htimedOut]
        obtain ⟨earliest, hresend⟩ := resendFrag_waits clock hcovers
          (Bool.eq_false_iff.mpr htimedOut)
        rw [hresend, bind_some]
        rw [h.next_keep, ih (h.keep earliest) hrounds']

lemma Lists.walk (hlists : s.Lists l) (hlength : s.length .fragsToAck = (l .fragsToAck).length)
    (hwaits : ∀ d ∈ l .fragsToAck, s.Waits d) :
    Walk (fun d => s.covers d = true) { s with earliestTimeToResend := none } l []
        (l .fragsToAck) 0 ∧ s.next (.head .fragsToAck) = first .fragsToAck (l .fragsToAck) := by
  refine ⟨⟨hlists.congr rfl rfl, rfl, ?_, fun d hd => ⟨hwaits d hd, Iff.rfl⟩, fun hne =>
    absurd rfl hne⟩, (hlists.cut (nil_append _).symm).1⟩
  rw [Int.natCast_zero, Int.add_zero]
  exact hlength

/-- **`resend` leaves the length of `FragsToAck` right just if no delivered fragment has to be taken
off while others are on the list**: it is the last one, and all before it have timed out. -/
theorem resend_truthful_iff (hlists : s.Lists l)
    (hlength : s.length .fragsToAck = (l .fragsToAck).length)
    (hwaits : ∀ d ∈ l .fragsToAck, s.Waits d) {rounds : ℕ}
    (hrounds : (l .fragsToAck).length < rounds) :
    (∃ s', s.resend clock rounds = some s' ∧ s'.Truthful) ↔
      ∀ l₁ d l₂, l .fragsToAck = l₁ ++ d :: l₂ → s.covers d = true →
        l₂ = [] ∧ ∀ e ∈ l₁, clock.timedOut e = true := by
  obtain ⟨hwalk, hfirst⟩ := hlists.walk hlength hwaits
  have hiff := hwalk.truthful_iff clock hrounds
  rw [← hfirst] at hiff
  refine hiff.trans ⟨fun h l₁ d l₂ heq hd => (h.2 l₁ d l₂ heq hd).2, fun h => ⟨rfl, ?_⟩⟩
  exact fun l₁ d l₂ heq hd => ⟨rfl, h l₁ d l₂ heq hd⟩

end Loop

/-! ### The lists by their contents -/

/-- The message is the one at `s.self` in the sender, whose lists are known by their contents. -/
structure Represents (s : LinkedMessage) (t : Sender) (l : FragQueue → List ℕ) : Prop where
  lists : s.Lists l
  length : ∀ q, s.length q = (l q).length
  frags : s.frags = t.frags
  ackInfo : s.ackInfo = t.ackInfo
  fragsToAck : l .fragsToAck = (t.messages s.self).fragsToAck
  fragsToSend : l .fragsToSend = (t.messages s.self).fragsToSend
  numSent : s.numSent = (t.messages s.self).numSent
  numAcked : s.numAcked = (t.messages s.self).numAcked

section Contents

variable {t t' : Sender} {clock : ResendClock} {l₁ l₂ : List ℕ} {covered : ℕ → Prop}
  {kept rest : List ℕ}

lemma resendFrag_requeues (m : ℕ) {timedOut : ℕ → Bool}
    (hcovers : ¬(t.ackInfo (t.frags d).globalDestProc).deliveredLargestInorderSeq ≥
      (t.frags d).fragSeq) (htimedOut : timedOut d = true) :
    ∃ t', t.resendFrag .udp m timedOut d = some t' ∧
      t'.frags = update t.frags d { t.frags d with
        whichQueue := .fragsToSend, sendDidComplete := false } ∧
      t'.ackInfo = t.ackInfo ∧ t'.messages m = { t.messages m with
        fragsToAck := (t.messages m).fragsToAck.erase d
        fragsToSend := (t.messages m).fragsToSend ++ [d]
        numSent := (t.messages m).numSent - 1 } := by
  refine ⟨_, (if_neg hcovers).trans (if_pos htimedOut), rfl, rfl, ?_⟩
  rw [Sender.setMessage_messages_self, Sender.requeue, Sender.setMessage_messages_self]
  rfl

lemma resendFrag_releases {m : ℕ} (timedOut : ℕ → Bool)
    (hcovers : (t.ackInfo (t.frags d).globalDestProc).deliveredLargestInorderSeq ≥
      (t.frags d).fragSeq) (hqueue : (t.frags d).whichQueue = .fragsToAck)
    (hparent : (t.frags d).parentSendDesc = some m)
    (hcomplete : (t.frags d).sendDidComplete = true) :
    ∃ t', t.resendFrag .udp m timedOut d = some t' ∧
      t'.frags = update t.frags d { t.frags d with
        whichQueue := .freeList, fragSeq := 0, parentSendDesc := none } ∧
      t'.ackInfo = t.ackInfo ∧ t'.messages m = { t.messages m with
        fragsToAck := ((t.messages m).fragsToAck.erase d).erase d
        numAcked := (t.messages m).numAcked + 1 } := by
  simp only [Sender.resendFrag, if_pos hcovers, Sender.freeDelivered, Sender.setMessage_frags,
    hcomplete, if_true, hparent, Sender.freeResources, Sender.freeResourcesUdp, Sender.takeOff,
      hqueue, map_some]
  refine ⟨_, rfl, ?_, rfl, ?_⟩
  · simp only [Sender.setFrag, Sender.setMessage_frags, update_idem, update_self, hcomplete]
  · simp only [Sender.setFrag_messages, Sender.setMessage_messages_self]

variable (h : Represents s t l)

include h

lemma Represents.covers_iff :
    s.covers d = true ↔
      (t.ackInfo (t.frags d).globalDestProc).deliveredLargestInorderSeq ≥ (t.frags d).fragSeq := by
  rw [covers, h.frags, h.ackInfo, decide_eq_true_iff]

lemma Represents.erase_eq (hl : l .fragsToAck = l₁ ++ d :: l₂) :
    (t.messages s.self).fragsToAck.erase d = l₁ ++ l₂ := by
  have hd₁ : d ∉ l₁ := fun hin => h.lists.notMem hl (mem_append_left _ hin)
  rw [← h.fragsToAck, hl, erase_append_right _ hd₁, erase_cons_head]

lemma Represents.requeued (hl : l .fragsToAck = l₁ ++ d :: l₂) (hcovers : s.covers d = false)
    (htimedOut : clock.timedOut d = true) :
    ∃ t', t.resendFrag .udp s.self clock.timedOut d = some t' ∧
      Represents (s.requeued d) t' (moved l (l₁ ++ l₂) .fragsToSend d) := by
  have hnot := (not_congr h.covers_iff).mp (Bool.eq_false_iff.mp hcovers)
  have hlength := h.length .fragsToAck
  rw [hl, length_append, length_cons] at hlength
  obtain ⟨t', ht', hfrags, hinfo, hmessage⟩ := resendFrag_requeues s.self hnot htimedOut
  have hself : (s.requeued d).self = s.self := rfl
  refine ⟨t', ht', h.lists.requeued hl, fun q => ?_, ?_, ?_, ?_, ?_, ?_, ?_⟩
  · cases q with
    | freeList => exact h.length .freeList
    | fragsToSend =>
      show s.length .fragsToSend + 1 = ((l .fragsToSend ++ [d]).length : ℤ)
      rw [h.length, length_append]
      rfl
    | fragsToAck =>
      show s.length .fragsToAck - 1 = ((l₁ ++ l₂).length : ℤ)
      rw [length_append]
      omega
  · rw [hfrags, ← h.frags]
    rfl
  · rw [hinfo]
    exact h.ackInfo
  · rw [hself, hmessage]
    exact (h.erase_eq hl).symm
  · rw [hself, hmessage]
    exact congrArg (· ++ [d]) h.fragsToSend
  · rw [hself, hmessage]
    exact congrArg (· - 1) h.numSent
  · rw [hself, hmessage]
    exact h.numAcked

lemma Represents.released (clock : ResendClock) (hl : l .fragsToAck = [d]) (hwaits : s.Waits d)
    (hcovers : s.covers d = true) :
    ∃ t', t.resendFrag .udp s.self clock.timedOut d = some t' ∧
      Represents (s.released d) t' (moved l [] .freeList d) := by
  obtain ⟨hqueue, hparent, hcomplete⟩ := hwaits
  rw [h.frags] at hqueue hparent hcomplete
  have hlength : s.length .fragsToAck = 1 := by
    rw [h.length, hl]
    rfl
  obtain ⟨t', ht', hfrags, hinfo, hmessage⟩ := resendFrag_releases clock.timedOut
    (h.covers_iff.mp hcovers) hqueue hparent hcomplete
  have hself : (s.released d).self = s.self := rfl
  have hlists : (s.released d).Lists (moved l ([] ++ []) .freeList d) := h.lists.released hl
  refine ⟨t', ht', hlists, fun q => ?_, ?_, ?_, ?_, ?_, ?_, ?_⟩
  · cases q with
    | freeList =>
      show s.length .freeList + 1 = ((l .freeList ++ [d]).length : ℤ)
      rw [h.length, length_append]
      rfl
    | fragsToSend => exact h.length .fragsToSend
    | fragsToAck =>
      show (if s.length .fragsToAck = 1 then 0 else s.length .fragsToAck - 2) = 0
      rw [if_pos hlength]
  · rw [hfrags, ← h.frags]
    rfl
  · rw [hinfo]
    exact h.ackInfo
  · show [] = (t'.messages s.self).fragsToAck
    rw [hmessage, ← h.fragsToAck, hl]
    simp
  · rw [hself, hmessage]
    exact h.fragsToSend
  · rw [hself, hmessage]
    exact h.numSent
  · rw [hself, hmessage]
    exact congrArg (· + 1) h.numAcked

lemma Represents.keep (hcovers : s.covers d = false) (htimedOut : clock.timedOut d = false)
    (earliest : ℕ) :
    t.resendFrag .udp s.self clock.timedOut d = some t ∧
      Represents { s with earliestTimeToResend := some earliest } t l := by
  have hnot := (not_congr h.covers_iff).mp (Bool.eq_false_iff.mp hcovers)
  refine ⟨(if_neg hnot).trans (if_neg (Bool.eq_false_iff.mp htimedOut)), h.lists.congr rfl rfl,
    h.length, h.frags, h.ackInfo, h.fragsToAck, h.fragsToSend, h.numSent, h.numAcked⟩

/-- The loop does to the links what `Sender.resend` does to the contents, as long as delivered
fragments are alone. -/
lemma Represents.resendLoop (hwalk : Walk covered s l kept rest 0)
    (halone : Alone covered (fun d => clock.timedOut d = true) kept rest)
    (hrounds : rest.length < rounds) :
    ∃ s' t' l', resendLoop clock rounds (first .fragsToAck rest) s = some s' ∧
      rest.foldlM (Sender.resendFrag .udp s.self clock.timedOut) t = some t' ∧
      Represents s' t' l' := by
  induction rest generalizing s t l kept rounds with
  | nil =>
    obtain ⟨rounds, rfl⟩ := Nat.exists_eq_add_one_of_ne_zero (Nat.ne_zero_of_lt hrounds)
    exact ⟨s, t, l, rfl, rfl, h⟩
  | cons d rest ih =>
    obtain ⟨rounds, rfl⟩ := Nat.exists_eq_add_one_of_ne_zero (Nat.ne_zero_of_lt hrounds)
    have hrounds' : rest.length < rounds := by simpa using hrounds
    obtain ⟨hwaits, hcovered⟩ := hwalk.waits d mem_cons_self
    have hlen : s.length .fragsToAck ≠ 0 := by
      rw [h.length, hwalk.ack]
      simp
      omega
    show ∃ s' t' l', ((s.resendFrag clock d).bind fun x =>
      resendLoop clock rounds (x.2.next x.1) x.2) = some s' ∧ _ ∧ _
    rw [foldlM_cons]
    by_cases hd : covered d
    · obtain ⟨rfl, rfl⟩ := (alone_delivered hd).mp halone
      have hcovers := hcovered.mpr hd
      obtain ⟨t', ht', h'⟩ := h.released clock hwalk.ack hwaits hcovers
      have hwalk' : Walk covered (s.released d) (moved l [] .freeList d) [] [] 0 := by
        have hreleased := hwalk.released
        rwa [if_pos (by rw [h.length, hwalk.ack]; rfl)] at hreleased
      obtain ⟨s'', t'', l'', hs'', ht'', h''⟩ := ih h' hwalk' alone_nil hrounds'
      rw [hwalk.lists.resendFrag_delivered hwalk.ack hwaits hcovers hlen, bind_some,
        hwalk.next_eq hwalk', ht', bind_eq_bind, bind_some]
      exact ⟨s'', t'', l'', hs'', ht'', h''⟩
    · have hcovers : s.covers d = false := by rwa [← hcovered, Bool.not_eq_true] at hd
      by_cases htimedOut : clock.timedOut d = true
      · obtain ⟨t', ht', h'⟩ := h.requeued hwalk.ack hcovers htimedOut
        obtain ⟨s'', t'', l'', hs'', ht'', h''⟩ := ih h' hwalk.requeued
          ((alone_timedOut hd htimedOut).mp halone) hrounds'
        rw [hwalk.lists.resendFrag_timedOut hwalk.ack hcovers htimedOut hlen, bind_some,
          hwalk.next_eq hwalk.requeued, ht', bind_eq_bind, bind_some]
        exact ⟨s'', t'', l'', hs'', ht'', h''⟩
      · have htimedOut' := Bool.eq_false_iff.mpr htimedOut
        obtain ⟨earliest, hresend⟩ := resendFrag_waits clock hcovers htimedOut'
        obtain ⟨ht', h'⟩ := h.keep hcovers htimedOut' earliest
        obtain ⟨s'', t'', l'', hs'', ht'', h''⟩ := ih h' (hwalk.keep earliest)
          ((alone_waits hd htimedOut).mp halone) hrounds'
        rw [hresend, bind_some, ht', bind_eq_bind, bind_some]
        refine ⟨s'', t'', l'', ?_, ht'', h''⟩
        rw [← hs'', hwalk.next_keep]

/-- **`resend` does to the lists of the message what `Sender.resend` does to their contents**, as
long as no delivered fragment has to be taken off while others are on the list. -/
theorem Represents.resend (hinv : t.Inv .udp)
    (hcomplete : ∀ d ∈ l .fragsToAck, (t.frags d).sendDidComplete = true)
    (halone : ∀ l₁ d l₂, l .fragsToAck = l₁ ++ d :: l₂ → s.covers d = true →
      l₂ = [] ∧ ∀ e ∈ l₁, clock.timedOut e = true) (hrounds : (l .fragsToAck).length < rounds) :
    ∃ s' t' l', s.resend clock rounds = some s' ∧
      t.resend .udp s.self clock.timedOut = some t' ∧ Represents s' t' l' := by
  have hwaits : ∀ d ∈ l .fragsToAck, s.Waits d := by
    intro d hd
    obtain ⟨hparent, hqueue⟩ := hinv.toAck s.self d (h.fragsToAck ▸ hd)
    rw [Waits, h.frags]
    exact ⟨hqueue, hparent, hcomplete d hd⟩
  obtain ⟨hwalk, hfirst⟩ := h.lists.walk (h.length _) hwaits
  have h' : Represents { s with earliestTimeToResend := none } t l :=
    ⟨h.lists.congr rfl rfl, h.length,
    h.frags, h.ackInfo, h.fragsToAck, h.fragsToSend, h.numSent, h.numAcked⟩
  obtain ⟨s', t', l', hs', ht', hresult⟩ := h'.resendLoop hwalk
    (fun l₁ d l₂ heq hd => ⟨rfl, halone l₁ d l₂ heq hd⟩) hrounds
  rw [← hfirst] at hs'
  rw [h.fragsToAck] at ht'
  exact ⟨s', t', l', hs', ht', hresult⟩

end Contents

/-! ### A message with two fragments -/

/-- Fragments 0 and 1 of a message to process 1 were sent, and process 1 has acknowledged everything
up to `delivered`. -/
def twoSent (delivered : ℕ) : LinkedMessage where
  self := 0
  next := fun
    | .head .fragsToAck => .desc 0
    | .desc 0 => .desc 1
    | .desc 1 => .tail .fragsToAck
    | .head q => .tail q
    | _ => .null
  prev := fun
    | .tail .fragsToAck => .desc 1
    | .desc 1 => .desc 0
    | .desc 0 => .head .fragsToAck
    | .tail q => .head q
    | _ => .null
  length := fun
    | .fragsToAck => 2
    | _ => 0
  frags := fun d =>
    { parentSendDesc := some 0, globalDestProc := 1, header := ⟨d + 1, 0, 8 * d, 8, .pt2pt, d⟩
      fragSeq := d + 1, whichQueue := .fragsToAck, sendDidComplete := true, didRecvAck := false
      gmSends := 0 }
  ackInfo := fun _ => ⟨delivered, delivered⟩
  numSent := 2
  numAcked := 0
  earliestTimeToResend := some 0

def twoSentLists : FragQueue → List ℕ
  | .fragsToAck => [0, 1]
  | _ => []

lemma lists_twoSent (delivered : ℕ) : (twoSent delivered).Lists twoSentLists where
  isList q := by
    cases q <;> simp [IsList, twoSentLists, twoSent, LinkedRing.Linked]
  nodup q := by cases q <;> decide
  disjoint {q q' d} hd hd' := by
    cases q <;> cases q' <;> simp_all [twoSentLists]

/-- The first fragment is the later one, and only the other one was delivered. -/
def lastDelivered : LinkedMessage :=
  { twoSent 1 with frags := fun d => { (twoSent 1).frags d with fragSeq := 2 - d } }

def longAgo : ResendClock := ⟨10, fun _ => 50, fun _ => 0, fun _ => 1⟩

/-- The delivered fragment is taken off when it is the only one on the list. -/
theorem resend_truthful_iff_lastDelivered :
    lastDelivered.covers 1 = true ∧
      ∃ s', lastDelivered.resend longAgo 3 = some s' ∧ s'.Truthful := by
  have hwaits : ∀ d ∈ twoSentLists .fragsToAck, lastDelivered.Waits d := fun _ _ => ⟨rfl, rfl, rfl⟩
  have hlists : lastDelivered.Lists twoSentLists := (lists_twoSent 1).congr rfl rfl
  refine ⟨by decide, (resend_truthful_iff hlists rfl hwaits (show 2 < 3 by decide)).mpr ?_⟩
  intro l₁ d l₂ heq hcovers
  match l₁ with
  | [] =>
    obtain ⟨rfl, -⟩ := cons.inj heq
    exact absurd hcovers (by decide)
  | [e] =>
    obtain ⟨rfl, hlast⟩ := cons.inj heq
    exact ⟨(cons.inj hlast).2.symm, fun _ _ => rfl⟩
  | _ :: _ :: _ => simp [twoSentLists] at heq

def notYet : ResendClock := ⟨10, fun _ => 5, fun _ => 0, fun _ => 1⟩

/-- The first of two fragments was delivered.  The second one is still linked on `FragsToAck`, but
the length is 0, and the message is never retransmitted. -/
theorem resend_twoSent_delivered :
    ∃ s', (twoSent 1).resend notYet 3 = some s' ∧
      IsList s'.next s'.prev (.head .fragsToAck) (.tail .fragsToAck) [.desc 1] ∧
      s'.length .fragsToAck = 0 ∧ ∀ now, s'.retransmitP now = false := by
  obtain ⟨s', hs'⟩ : ∃ s', (twoSent 1).resend notYet 3 = some s' := isSome_iff_exists.mp (by decide)
  have hview : ((twoSent 1).resend notYet 3).map (fun s =>
      ((s.next (.head .fragsToAck), s.prev (.desc 1)),
        (s.next (.desc 1), s.prev (.tail .fragsToAck)),
        s.length .fragsToAck)) =
      some ((.desc 1, .head .fragsToAck), (.tail .fragsToAck, .desc 1), 0) := by decide
  rw [hs'] at hview
  simp only [map_some, some.injEq, Prod.mk.injEq] at hview
  obtain ⟨⟨hfirst, hfirst'⟩, ⟨hlast, hlast'⟩, hlength⟩ := hview
  refine ⟨s', hs', ?_, hlength, fun now => ?_⟩
  · simp [IsList, LinkedRing.Linked, hfirst, hfirst', hlast, hlast']
  · unfold retransmitP
    cases s'.earliestTimeToResend with
    | none => rfl
    | some earliest => simp [hlength]

end LinkedMessage

end Lampi
