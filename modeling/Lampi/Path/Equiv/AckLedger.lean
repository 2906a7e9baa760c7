import Lampi.Path.Equiv.GmSender
import Lampi.Path.Equiv.Reliability

/-!
# Each fragment is acknowledged at most once

`Ledger.Agrees` says what the ledger of a run knows about a message: `NumAcked` has counted
different fragments, and a descriptor on a list says whether its fragment was counted.  An operation
that counts nothing keeps it (`Ledger.Inv.move`), and so does one that counts a fragment whose
descriptor did not say that it was counted (`Ledger.Inv.credit`).

The code does not always look: `resend` counts a covered fragment although its acknowledgement was
counted before, if GM had not reported the send then (`run_countTwiceRun`).  `CountsOnce` is the
condition on events under which that does not happen, and `run_acked_at_most_once` is about such
runs.
-/

namespace Lampi

open List Sender Option

variable {m' seqOffset length : ℕ}

namespace Sender

variable {path : Path} {s s' : Sender} {d e m : ℕ}

/-- An acknowledgement of the fragment in the descriptor has been noted. -/
def Noted (s : Sender) (d : ℕ) : Prop := (s.frags d).didRecvAck = true ∧ (s.frags d).fragSeq ≠ 0

/-- Without acknowledgements: a descriptor of message `m` is on a list, sent once if it is on
`FragsToAck`, or the first one of a synchronous send; or else it is free. -/
def Quiet (s : Sender) (d m : ℕ) : Prop :=
  (s.Linked d m ∧ (s.FirstOfSync d m ∨ (s.frags d).fragSeq = 0 ∧
    (s.frags d).gmSends = if (s.frags d).whichQueue = .fragsToAck then 1 else 0)) ∨
  (s.frags d).whichQueue = .freeList ∧ (s.frags d).gmSends = 0

lemma Touches.quiet (h : s.Touches s' d m) (he : e ≠ d) (hquiet : s.Quiet e m') :
    s'.Quiet e m' := by
  unfold Quiet FirstOfSync
  rw [h.frags e he, h.linked_iff he, h.sync_eq]
  exact hquiet

/-- Without acknowledgements only the first fragment of a synchronous send gets a number. -/
lemma Loads.quiet (h : Loads path s s' d m seqOffset length) (hdoAck : path.doAck = false) :
    s'.Quiet d m := by
  refine .inl ⟨.inl ?_, ?_⟩
  · rw [h.message]
    exact mem_append_right _ mem_cons_self
  · rw [FirstOfSync, h.message, h.frag]
    by_cases hfirst : (s.messages m).synchronous = true ∧ seqOffset = 0
    · exact .inl hfirst
    · refine .inr ⟨?_, rfl⟩
      show (s.initFragSeq path (s.messages m) seqOffset).1 = 0
      unfold initFragSeq
      cases hsync : (s.messages m).synchronous with
      | false => rw [hdoAck]; rfl
      | true =>
        have hne : seqOffset ≠ 0 := fun h0 => hfirst ⟨hsync, h0⟩
        rw [hdoAck, decide_eq_true hne]
        rfl

end Sender

/-! ### The ledger -/

namespace Ledger

open Function

variable {path : Path} {doAck doChecksum : Bool} {s s' : Sender} {L : Ledger} {d m : ℕ}

/-- One more step of `NumAcked`. -/
def credit (L : Ledger) (m : ℕ) (f : ℕ × ℕ) : Ledger :=
  { L with acked := update L.acked m (L.acked m ++ [f]) }

lemma credit_acked_self (L : Ledger) (m : ℕ) (f : ℕ × ℕ) :
    (L.credit m f).acked m = L.acked m ++ [f] := update_self ..

lemma credit_acked_ne (L : Ledger) (f : ℕ × ℕ) (h : m' ≠ m) :
    (L.credit m f).acked m' = L.acked m' := update_of_ne h ..

lemma tally_of_eq (h : ∀ m, (s'.messages m).numAcked = (s.messages m).numAcked) :
    L.tally d s s' = L := by
  show Ledger.mk L.frags _ = Ledger.mk L.frags L.acked
  congr
  funext m
  rw [h m, Int.sub_self]
  exact append_nil _

lemma tally_of_succ (h : (s'.messages m).numAcked = (s.messages m).numAcked + 1)
    (hothers : ∀ m', m' ≠ m → s'.messages m' = s.messages m') :
    L.tally d s s' = L.credit m (s.fragIn d) := by
  show Ledger.mk L.frags _ = Ledger.mk L.frags _
  congr
  funext m'
  by_cases hm : m' = m
  · subst hm
    rw [update_self, h, add_sub_cancel_left]
    rfl
  · rw [update_of_ne hm, hothers m' hm, Int.sub_self]
    exact append_nil _

lemma tally_of_touches (ht : s.Touches s' d m)
    (hacked : (s'.messages m).numAcked = (s.messages m).numAcked) : L.tally d s s' = L := by
  apply tally_of_eq
  intro m'
  by_cases hm : m' = m
  · rw [hm, hacked]
  · rw [ht.messages m' hm]

lemma tally_of_messages (h : s'.messages = s.messages) : L.tally d s s' = L :=
  tally_of_eq fun m => by rw [h]

/-- What the ledger says about message `m`: a descriptor on a list has one of its fragments, and
says so if `NumAcked` has counted it; each fragment is counted at most once. -/
structure Agrees (s : Sender) (m : ℕ) (frags acked : List (ℕ × ℕ)) : Prop where
  linked : ∀ d, s.Linked d m → s.fragIn d ∈ frags ∧ (s.fragIn d ∈ acked → s.Noted d)
  counted : (s.messages m).numAcked = acked.length
  nodup : acked.Nodup
  subset : acked ⊆ frags
  nodupFrags : frags.Nodup
  loaded : ∀ f ∈ frags, f.2 ≤ (s.carried f.1).length

lemma Agrees.frame {frags acked : List (ℕ × ℕ)} (h : Agrees s m frags acked)
    (hmessage : s'.messages m = s.messages m)
    (hframe : ∀ e, s.Linked e m → s'.frags e = s.frags e ∧ s'.carried e = s.carried e)
    (hcarried : ∀ e, (s.carried e).length ≤ (s'.carried e).length) : Agrees s' m frags acked where
  linked e hin := by
    rw [Linked, hmessage] at hin
    obtain ⟨hfrag, hsame⟩ := hframe e hin
    rw [fragIn, hsame, Noted, hfrag]
    exact h.linked e hin
  counted := by
    rw [hmessage]
    exact h.counted
  nodup := h.nodup
  subset := h.subset
  nodupFrags := h.nodupFrags
  loaded f hf := (h.loaded f hf).trans (hcarried f.1)

/-- The ledger agrees with every message, and the path without acknowledgements is quiet. -/
structure Inv (path : Path) (s : Sender) (L : Ledger) : Prop where
  agrees : ∀ m, Agrees s m (L.frags m) (L.acked m)
  quiet : path.doAck = false → ∀ d m, (s.frags d).parentSendDesc = some m → s.Quiet d m

/-- Descriptor `d` is quiet if the path is. -/
def StaysQuiet (path : Path) (s : Sender) (d : ℕ) : Prop :=
  path.doAck = false → ∀ m, (s.frags d).parentSendDesc = some m → s.Quiet d m

lemma staysQuiet (hd : (s.frags d).parentSendDesc = some m)
    (hquiet : path.doAck = false → s.Quiet d m) : StaysQuiet path s d := by
  intro hdoAck m' hm'
  obtain rfl : m = m' := some.inj (hd.symm.trans hm')
  exact hquiet hdoAck

namespace Inv

section Touches

variable (h : Inv path s L) (ht : s.Touches s' d m)

include h ht

lemma linked_of_ne {e : ℕ} (he : e ≠ d) (hin : s'.Linked e m) :
    s'.fragIn e ∈ L.frags m ∧ (s'.fragIn e ∈ L.acked m → s'.Noted e) := by
  rw [ht.fragIn_eq, Noted, ht.frags e he]
  exact (h.agrees m).linked e ((ht.linked_iff he m).mp hin)

lemma agrees_of_ne (honly : s.OnlyIn d m) (hm : m' ≠ m) :
    Agrees s' m' (L.frags m') (L.acked m') := by
  refine (h.agrees m').frame (ht.messages m' hm) (fun e hin => ⟨ht.frags e fun he => ?_, ?_⟩) ?_
  · rw [he] at hin
    exact hin.elim (honly m' hm).1 (honly m' hm).2
  · rw [ht.carried]
  · rw [ht.carried]
    exact fun _ => le_rfl

lemma loaded_of_touches : ∀ f ∈ L.frags m, f.2 ≤ (s'.carried f.1).length := by
  rw [ht.carried]
  exact (h.agrees m).loaded

lemma quiet_of_touches (hquiet : StaysQuiet path s' d) (hdoAck : path.doAck = false) (e m' : ℕ)
    (he : (s'.frags e).parentSendDesc = some m') : s'.Quiet e m' := by
  by_cases hed : e = d
  · subst hed
    exact hquiet hdoAck m' he
  · rw [ht.frags e hed] at he
    exact ht.quiet hed (h.quiet hdoAck e m' he)

/-- **An operation that counts nothing.** -/
theorem move (honly : s.OnlyIn d m) (hacked : (s'.messages m).numAcked = (s.messages m).numAcked)
    (hlinked : s'.Linked d m → s.Linked d m ∧ (s.Noted d → s'.Noted d))
    (hquiet : StaysQuiet path s' d) : Inv path s' L := by
  refine ⟨fun m' => ?_, h.quiet_of_touches ht hquiet⟩
  by_cases hm : m' = m
  · subst hm
    have hagrees := h.agrees m'
    refine ⟨fun e hin => ?_, hacked.trans hagrees.counted, hagrees.nodup, hagrees.subset,
      hagrees.nodupFrags, h.loaded_of_touches ht⟩
    by_cases he : e = d
    · subst he
      obtain ⟨hwas, hnoted⟩ := hlinked hin
      obtain ⟨hfrag, hcounted⟩ := hagrees.linked e hwas
      rw [ht.fragIn_eq]
      exact ⟨hfrag, fun hmem => hnoted (hcounted hmem)⟩
    · exact h.linked_of_ne ht he hin
  · exact h.agrees_of_ne ht honly hm

/-- **An operation that counts the fragment in `d`.** -/
theorem credit (honly : s.OnlyIn d m)
    (hacked : (s'.messages m).numAcked = (s.messages m).numAcked + 1) (hin : s.Linked d m)
    (hnew : ¬s.Noted d) (hnoted : s'.Linked d m → s'.Noted d) (hquiet : StaysQuiet path s' d) :
    Inv path s' (L.tally d s s') := by
  rw [tally_of_succ hacked ht.messages]
  refine ⟨fun m' => ?_, h.quiet_of_touches ht hquiet⟩
  by_cases hm : m' = m
  · subst hm
    have hagrees := h.agrees m'
    obtain ⟨hfrag, hcounted⟩ := hagrees.linked d hin
    rw [credit_acked_self]
    refine ⟨fun e he => ?_, ?_, ?_, ?_, hagrees.nodupFrags, h.loaded_of_touches ht⟩
    · by_cases hed : e = d
      · subst hed
        rw [ht.fragIn_eq]
        exact ⟨hfrag, fun _ => hnoted he⟩
      · obtain ⟨hfrag', hcounted'⟩ := h.linked_of_ne ht hed he
        refine ⟨hfrag', fun hmem => (mem_append.mp hmem).elim hcounted' fun heq => ?_⟩
        exact absurd (congrArg Prod.fst (mem_singleton.mp heq)) hed
    · rw [hacked, hagrees.counted, length_append]
      rfl
    · rw [← concat_eq_append, nodup_concat]
      exact ⟨fun hmem => hnew (hcounted hmem), hagrees.nodup⟩
    · exact append_subset.mpr ⟨hagrees.subset, cons_subset.mpr ⟨hfrag, nil_subset _⟩⟩
  · rw [credit_acked_ne L _ hm]
    exact h.agrees_of_ne ht honly hm

end Touches

/-! ### Messages, fragments and sends -/

lemma isend {peer isendSeq : ℕ} {synchronous : Bool} (h : Inv path s L)
    (hs : s.isend m peer isendSeq synchronous = some s') :
    Inv path s' ⟨update L.frags m [], update L.acked m []⟩ := by
  unfold Sender.isend at hs
  split_ifs at hs with hempty
  cases hs
  refine ⟨fun m' => ?_, fun hdoAck e m' he => ?_⟩
  · show Agrees _ m' (update L.frags m [] m') (update L.acked m [] m')
    by_cases hm : m' = m
    · subst hm
      rw [update_self, update_self]
      refine ⟨fun e hin => ?_, ?_, nodup_nil, nil_subset _, nodup_nil, ?_⟩
      · rw [Linked, setMessage_messages_self] at hin
        exact absurd hin (not_or.mpr ⟨not_mem_nil, not_mem_nil⟩)
      · rw [setMessage_messages_self]
        rfl
      · exact fun f hf => absurd hf not_mem_nil
    · rw [update_of_ne hm, update_of_ne hm]
      exact (h.agrees m').frame (setMessage_messages_ne _ hm) (fun _ _ => ⟨rfl, rfl⟩)
        fun _ => le_rfl
  · have hwas := h.quiet hdoAck e m' he
    by_cases hm : m' = m
    · subst hm
      refine .inr (hwas.resolve_left fun hlinked => ?_)
      rw [Linked, hempty.1, hempty.2] at hlinked
      exact hlinked.1.elim not_mem_nil not_mem_nil
    · rw [Sender.Quiet, Linked, FirstOfSync, setMessage_messages_ne _ hm]
      exact hwas

lemma initFrag (hinv : s.Inv path) (h : Inv path s L)
    (hs : s.initFrag path d m seqOffset length = some s') :
    Inv path s' { L with frags := update L.frags m (L.frags m ++ [s'.fragIn d]) } := by
  have hloads := loads_initFrag hinv hs
  refine ⟨fun m' => ?_, fun hdoAck e m' he => ?_⟩
  · show Agrees s' m' (update L.frags m (L.frags m ++ [s'.fragIn d]) m') (L.acked m')
    by_cases hm : m' = m
    · subst hm
      rw [update_self]
      have hagrees := h.agrees m'
      have hnew : s'.fragIn d ∉ L.frags m' := by
        intro hmem
        have hle : (s'.carried d).length ≤ (s.carried d).length := hagrees.loaded _ hmem
        rw [hloads.carried_self] at hle
        exact Nat.not_succ_le_self _ hle
      refine ⟨fun e hin => ?_, ?_, hagrees.nodup, ?_, ?_, fun f hf => ?_⟩
      · by_cases he : e = d
        · subst he
          exact ⟨mem_append_right _ mem_cons_self,
            fun hmem => absurd (hagrees.subset hmem) hnew⟩
        · rw [hloads.fragIn_eq he, Noted, hloads.frags e he]
          obtain ⟨hfrag, hcounted⟩ := hagrees.linked e ((hloads.linked_iff he m').mp hin)
          exact ⟨mem_append_left _ hfrag, hcounted⟩
      · rw [hloads.message]
        exact hagrees.counted
      · exact subset_append_of_subset_left _ hagrees.subset
      · rw [← concat_eq_append, nodup_concat]
        exact ⟨hnew, hagrees.nodupFrags⟩
      · rcases mem_append.mp hf with hf | hf
        · exact (hagrees.loaded f hf).trans (hloads.carried_le f.1)
        · rw [mem_singleton.mp hf]
          exact le_rfl
    · rw [update_of_ne hm]
      refine (h.agrees m').frame (hloads.messages m' hm) (fun e hin => ?_) hloads.carried_le
      have he : e ≠ d := fun he => hloads.unlinked m' (he ▸ hin)
      exact ⟨hloads.frags e he, hloads.carried_ne e he⟩
  · by_cases hed : e = d
    · subst hed
      rw [hloads.frag] at he
      obtain rfl : m = m' := some.inj he
      exact hloads.quiet hdoAck
    · rw [hloads.frags e hed] at he
      have hsync : (s'.messages m').synchronous = (s.messages m').synchronous := by
        by_cases hm : m' = m
        · rw [hm, hloads.message]
        · rw [hloads.messages m' hm]
      rw [Sender.Quiet, FirstOfSync, hloads.frags e hed, hloads.linked_iff hed, hsync]
      exact h.quiet hdoAck e m' he

lemma send {dest : ℕ} {header : DataHeader} (hinv : s.Inv (.gm doAck doChecksum))
    (h : Inv (.gm doAck doChecksum) s L)
    (hs : s.send (.gm doAck doChecksum) d = some (s', dest, header)) :
    Inv (.gm doAck doChecksum) s' L := by
  obtain ⟨m, hd, hin, hsends⟩ := send_cases hs
  refine h.move hsends.touches (hinv.onlyIn hd) hsends.numAcked (fun _ => ⟨.inl hin, ?_⟩)
    (staysQuiet (by rw [hsends.frag, hd]) fun hdoAck => .inl ⟨.inr hsends.toAck, ?_⟩)
  · rw [Noted, Noted, hsends.frag]
    exact id
  · rw [FirstOfSync, hsends.touches.synchronous, hsends.frag]
    have hq := (hinv.toSend m d hin).2
    rcases h.quiet hdoAck d m hd with ⟨-, hfirst | ⟨hseq, hsent⟩⟩ | ⟨hfree, -⟩
    · exact .inl hfirst
    · rw [hq, if_neg (by decide)] at hsent
      refine .inr ⟨hseq, ?_⟩
      rw [if_pos rfl, hsent]
    · exact absurd (hq.symm.trans hfree) (by decide)

/-! ### Reports of GM -/

variable (hinv : s.Inv path) (h : Inv path s L)

section

include hinv h

lemma freeResourcesGm (hd : (s.frags d).parentSendDesc = some m)
    (hs : s.freeResourcesGm d (some m) = some s') :
    Inv path s' L ∧ s.Touches s' d m ∧ (s'.messages m).numAcked = (s.messages m).numAcked := by
  obtain ⟨rfl, -⟩ | ⟨hsends, hfreed⟩ := freeResourcesGm_cases hinv hs
  · exact ⟨h, .refl _ _ _, rfl⟩
  · refine ⟨h.move hfreed.touches (hinv.onlyIn hd) hfreed.numAcked ?_ ?_, hfreed.touches,
      hfreed.numAcked⟩
    · exact fun hin => absurd hin hfreed.unlinked
    · intro _ m' _
      right
      rw [hfreed.frag]
      exact ⟨rfl, hsends⟩

lemma setFrag_of_none {f : SendFragDesc → SendFragDesc} (hd : (s.frags d).parentSendDesc = none)
    (hf : (f (s.frags d)).parentSendDesc = (s.frags d).parentSendDesc) :
    Inv path (s.setFrag d f) L := by
  have hunlinked : ∀ m, ¬s.Linked d m := by
    rintro m (hin | hin)
    · exact nomatch hd.symm.trans (hinv.toSend m d hin).1
    · exact nomatch hd.symm.trans (hinv.toAck m d hin).1
  refine h.move (.setFrag s d 0 f) (fun m' _ => not_or.mp (hunlinked m')) rfl ?_ ?_
  · exact fun hin => absurd hin (hunlinked 0)
  · intro _ m' hm'
    rw [setFrag_frags_self, hf, hd] at hm'
    exact nomatch hm'

lemma freeResourcesGm_none (hd : (s.frags d).parentSendDesc = none)
    (hs : s.freeResourcesGm d none = some s') : Inv path s' L ∧ s'.messages = s.messages := by
  unfold Sender.freeResourcesGm at hs
  split_ifs at hs
  · exact some.inj hs ▸ ⟨h, rfl⟩
  · exact some.inj hs ▸ ⟨h, rfl⟩
  · exact some.inj hs ▸ ⟨h.setFrag_of_none hinv hd rfl, rfl⟩

/-- A dropped send: the descriptor has to be sent again, if it has been sent. -/
lemma sendDropped (hsends : (s.frags d).gmSends ≠ 0)
    (hlinked : ∀ m, (s.frags d).parentSendDesc = some m → (s.frags d).whichQueue = .fragsToAck →
      s.Linked d m)
    (hs : (s.setFrag d fun frag => { frag with gmSends := frag.gmSends - 1 }).sendDropped d = s') :
    Inv path s' (L.tally d s s') := by
  rw [Sender.sendDropped, setFrag_frags_self] at hs
  split at hs
  case h_1 m hd =>
    split_ifs at hs with hq
    · have hrequeues := requeues_requeue
        (s.setFrag d fun frag => { frag with gmSends := frag.gmSends - 1 }) d m
        fun frag => { frag with whichQueue := .fragsToSend }
      rw [hs] at hrequeues
      have hfrag : s'.frags d =
          { s.frags d with gmSends := (s.frags d).gmSends - 1, whichQueue := .fragsToSend } := by
        rw [← hs, requeue, setMessage_frags, setFrag_frags_self, setFrag_frags_self]
      have htouches := (Touches.setFrag s d m _).trans hrequeues.touches
      rw [tally_of_touches htouches hrequeues.numAcked]
      refine h.move htouches (hinv.onlyIn hd) hrequeues.numAcked (fun _ => ⟨hlinked m hd hq, ?_⟩)
        (staysQuiet (by rw [hfrag, hd]) fun hdoAck => .inl ⟨hrequeues.linked, ?_⟩)
      · rw [Noted, Noted, hfrag]
        exact id
      · rw [FirstOfSync, htouches.synchronous, hfrag]
        rcases h.quiet hdoAck d m hd with ⟨-, hfirst | ⟨hseq, hsent⟩⟩ | ⟨hfree, -⟩
        · exact .inl hfirst
        · rw [if_pos hq] at hsent
          exact .inr ⟨hseq, by rw [hsent]; rfl⟩
        · exact absurd (hq.symm.trans hfree) (by decide)
    · rw [← hs, tally_of_messages (setFrag_messages _)]
      refine h.move (.setFrag s d m _) (hinv.onlyIn hd) rfl (fun hin => ⟨hin, ?_⟩)
        (staysQuiet (by rw [setFrag_frags_self, hd]) fun hdoAck => ?_)
      · rw [Noted, Noted, setFrag_frags_self]
        exact id
      · rcases h.quiet hdoAck d m hd with ⟨hin, hfirst | ⟨-, hsent⟩⟩ | ⟨-, hsent⟩
        · refine .inl ⟨hin, .inl ?_⟩
          rw [FirstOfSync, setFrag_frags_self]
          exact hfirst
        · exact absurd (hsent.trans (if_neg hq)) hsends
        · exact absurd hsent hsends
  case h_2 hd =>
    rw [← hs, tally_of_messages (setFrag_messages _)]
    exact h.setFrag_of_none hinv hd rfl

lemma completed (hd : (s.frags d).parentSendDesc = some m) (hsends : (s.frags d).gmSends ≠ 0)
    (hfirst : s.FirstOfSync d m ∨ path.doAck = true) : Inv path (s.completed d m) L := by
  refine h.move (s.touches_completed d m) (hinv.onlyIn hd) ?_
    (fun hin => ⟨linked_completed.mp hin, ?_⟩)
    (staysQuiet (by rw [completed_frag, hd]) fun hdoAck => ?_)
  · rw [completed_message]
  · rw [Noted, Noted, completed_frag]
    exact id
  · have hfirst := hfirst.resolve_right (by rw [hdoAck]; decide)
    obtain ⟨hin, -⟩ := (h.quiet hdoAck d m hd).resolve_right fun hfree => hsends hfree.2
    refine .inl ⟨linked_completed.mpr hin, .inl ?_⟩
    rw [FirstOfSync, completed_message, completed_frag]
    exact hfirst

/-- A successful send that is counted as acknowledged: it is the only one of its descriptor, so that
the descriptor is freed. -/
lemma completed_credit (hd : (s.frags d).parentSendDesc = some m)
    (hsends : (s.frags d).gmSends ≠ 0) (hfirst : ¬s.FirstOfSync d m) (hdoAck : path.doAck = false)
    (hs : ((s.completed d m).setMessage m fun msg =>
      { msg with numAcked := msg.numAcked + 1 }).freeResourcesGm d (some m) = some s') :
    Inv path s' (L.tally d s s') := by
  obtain ⟨hin, hquiet⟩ := (h.quiet hdoAck d m hd).resolve_right fun hfree => hsends hfree.2
  obtain ⟨hseq, hsent⟩ := hquiet.resolve_left hfirst
  have hq : (s.frags d).whichQueue = .fragsToAck := by
    by_contra hq
    exact hsends (hsent.trans (if_neg hq))
  rw [if_pos hq] at hsent
  have hcounted : ((s.completed d m).setMessage m fun msg =>
      { msg with numAcked := msg.numAcked + 1 }).Inv path :=
    (hinv.completed d m).setMessage (Sublist.refl _) (Sublist.refl _)
  have htouches : s.Touches ((s.completed d m).setMessage m fun msg =>
      { msg with numAcked := msg.numAcked + 1 }) d m := (s.touches_completed d m).trans
      (.of_numbers ((Becomes.refl _ d m).setMessage _) rfl rfl rfl rfl)
  obtain ⟨-, hkept⟩ | ⟨hzero, hfreed⟩ := freeResourcesGm_cases hcounted hs
  · rw [setMessage_frags, completed_frag, hq, hsent] at hkept
    exact hkept.elim nofun fun hne => absurd rfl hne
  · refine h.credit (htouches.trans hfreed.touches) (hinv.onlyIn hd) ?_ hin ?_ ?_ ?_
    · rw [hfreed.numAcked, setMessage_messages_self, completed_message]
    · exact fun hnoted => hnoted.2 hseq
    · exact fun hlinked => absurd hlinked hfreed.unlinked
    · intro _ m' _
      right
      rw [hfreed.frag]
      exact ⟨rfl, hzero⟩

end

lemma callback {status : GmStatus} (hinv : s.Inv (.gm doAck doChecksum))
    (h : Inv (.gm doAck doChecksum) s L)
    (hlinked : status = .dropped → ∀ m, (s.frags d).parentSendDesc = some m →
      (s.frags d).whichQueue = .fragsToAck → s.Linked d m)
    (hs : s.callback doAck d status = some s') :
    Inv (.gm doAck doChecksum) s' (L.tally d s s') := by
  unfold Sender.callback at hs
  split_ifs at hs with hsends
  cases status with
  | dropped => exact h.sendDropped hinv hsends (hlinked rfl) (some.inj hs)
  | success =>
    cases hd : (s.frags d).parentSendDesc with
    | none =>
      simp only [sendSucceeded, setFrag_frags_self, hd] at hs
      have hreported := h.setFrag_of_none hinv hd
        (f := fun frag => { frag with gmSends := frag.gmSends - 1 }) rfl
      obtain ⟨hfreed, hmessages⟩ := hreported.freeResourcesGm_none
        (hinv.setFrag ⟨rfl, rfl, rfl, rfl, rfl⟩) (by rwa [setFrag_frags_self]) hs
      rw [tally_of_messages (hmessages.trans (setFrag_messages _))]
      exact hfreed
    | some m =>
      rcases sendSucceeded_cases hd hs with ⟨hfirst, hs⟩ | ⟨⟨hfirst, hdoAck⟩, hs⟩
      · have hcompleted := h.completed hinv hd hsends hfirst
        have htouches := s.touches_completed d m
        have hacked : ((s.completed d m).messages m).numAcked = (s.messages m).numAcked := by
          rw [completed_message]
        rcases hs with rfl | hs
        · rw [tally_of_touches htouches hacked]
          exact hcompleted
        · have hd' : ((s.completed d m).frags d).parentSendDesc = some m := by
            rw [completed_frag, hd]
          obtain ⟨hfreed, htouches', hacked'⟩ :=
            hcompleted.freeResourcesGm (hinv.completed d m) hd' hs
          rw [tally_of_touches (htouches.trans htouches') (hacked'.trans hacked)]
          exact hfreed
      · exact h.completed_credit hinv hd hsends hfirst hdoAck hs

/-! ### Acknowledgements -/

variable {ack : Ack}

/-- The ledger does not depend on what destinations have acknowledged or on the records. -/
lemma of_eq (h : Inv path s L) (hfrags : s'.frags = s.frags) (hmessages : s'.messages = s.messages)
    (hcarried : s'.carried = s.carried) : Inv path s' L := by
  refine ⟨fun m => (h.agrees m).frame (by rw [hmessages]) (fun e _ => ?_) fun e => ?_, ?_⟩
  · rw [hfrags, hcarried]
    exact ⟨rfl, rfl⟩
  · rw [hcarried]
  · unfold Sender.Quiet Linked FirstOfSync
    rw [hfrags, hmessages]
    exact h.quiet

section

include hinv h

lemma firstOfSync (hdoAck : path.doAck = false) (hd : (s.frags d).parentSendDesc = some m)
    (hseq : (s.frags d).fragSeq ≠ 0) : s.FirstOfSync d m := by
  rcases h.quiet hdoAck d m hd with ⟨-, hfirst | ⟨hzero, -⟩⟩ | ⟨hfree, -⟩
  · exact hfirst
  · exact absurd hzero hseq
  · exact absurd ((hinv.loaded d m hd).freed hfree) hseq

/-- An acknowledgement of good data for a descriptor on a list, which has not been acknowledged. -/
lemma goodAck (hd : (s.frags d).parentSendDesc = some m) (hseq : (s.frags d).fragSeq ≠ 0)
    (hin : s.Linked d m) (hnew : (s.frags d).didRecvAck = false)
    (hs : s' = s.acked d m ack ∨ (s.acked d m ack).freeResourcesGm d (some m) = some s') :
    Inv path s' (L.tally d s s') := by
  have htouches := s.touches_acked d m ack
  have hacked : ((s.acked d m ack).messages m).numAcked = (s.messages m).numAcked + 1 := by
    rw [acked_message]
  have hfresh : ¬s.Noted d := by
    rw [Noted, hnew]
    exact fun hnoted => nomatch hnoted.1
  have hd' : ((s.acked d m ack).frags d).parentSendDesc = some m := by rw [acked_frag, hd]
  have hkept : Inv path (s.acked d m ack) (L.tally d s (s.acked d m ack)) := by
    refine h.credit htouches (hinv.onlyIn hd) hacked hin hfresh (fun _ => ?_)
      (staysQuiet hd' fun hdoAck => .inl ⟨linked_acked.mpr hin, .inl ?_⟩)
    · rw [Noted, acked_frag]
      exact ⟨rfl, hseq⟩
    · rw [FirstOfSync, acked_message, acked_frag]
      exact h.firstOfSync hinv hdoAck hd hseq
  rcases hs with rfl | hs
  · exact hkept
  · obtain ⟨hfreed, htouches', hsame⟩ := hkept.freeResourcesGm (hinv.acked d m ack) hd' hs
    rw [tally_of_succ (hsame.trans hacked) (htouches.trans htouches').messages,
      ← tally_of_succ hacked htouches.messages]
    exact hfreed

/-- An acknowledgement of bad data for a descriptor on a list: it has to be sent again. -/
lemma badAck (hd : (s.frags d).parentSendDesc = some m) (hseq : (s.frags d).fragSeq ≠ 0)
    (hin : s.Linked d m) : Inv path (s.refused d m) (L.tally d s (s.refused d m)) := by
  have hrequeues := requeues_refused hin
  rw [tally_of_touches hrequeues.touches hrequeues.numAcked]
  refine h.move hrequeues.touches (hinv.onlyIn hd) hrequeues.numAcked (fun _ => ⟨hin, ?_⟩)
    (staysQuiet (by rw [refused_frag, hd]) fun hdoAck => .inl ⟨hrequeues.linked, .inl ?_⟩)
  · rw [Noted, Noted, refused_frag]
    exact id
  · rw [FirstOfSync, hrequeues.touches.synchronous, refused_frag]
    exact h.firstOfSync hinv hdoAck hd hseq

end

/-- `msgDataAck`, where an acknowledgement about a fragment finds it on a list of its message, and
good news have not been noted before. -/
lemma processAck (hinv : s.Inv (.gm doAck doChecksum)) (h : Inv (.gm doAck doChecksum) s L)
    (hzero : ack.ackStatus ≠ .aggInfoOnly → ack.thisFragSeq ≠ 0)
    (hfresh : ∀ m, s.Concerns ack m → s.Linked ack.sendFragDesc m ∧
      (ack.ackStatus = .dataGood → (s.frags ack.sendFragDesc).didRecvAck = false))
    (hs : s.processAck (.gm doAck doChecksum) ack = some s') :
    Inv (.gm doAck doChecksum) s' (L.tally ack.sendFragDesc s s') := by
  have hupdated : Inv (.gm doAck doChecksum) (s.updateAckInfo ack) L := h.of_eq rfl rfl rfl
  have hinv' : (s.updateAckInfo ack).Inv (.gm doAck doChecksum) := hinv.of_eq rfl rfl rfl rfl
  obtain ⟨hfrags, hmessages, hcarried⟩ | ⟨m, hconcerns, hcase⟩ := processAck_cases hs
  · rw [tally_of_messages hmessages]
    exact h.of_eq hfrags hmessages hcarried
  · obtain ⟨hin, hnew⟩ := hfresh m hconcerns
    have hseq : (s.frags ack.sendFragDesc).fragSeq ≠ 0 := hconcerns.fragSeq ▸ hzero hconcerns.status
    show Inv _ s' (L.tally ack.sendFragDesc (s.updateAckInfo ack) s')
    rcases hcase with ⟨hgood, hs⟩ | rfl
    · exact hupdated.goodAck hinv' hconcerns.parent hseq hin (hnew hgood) hs
    · exact hupdated.badAck hinv' hconcerns.parent hseq hin

/-! ### Sending again -/

variable {timedOut : ℕ → Bool}

/-- The body of the loop in `resend`, for a descriptor on `FragsToAck` that is not known to be
acknowledged if it is covered. -/
lemma resendFrag (hinv : s.Inv (.gm true doChecksum)) (h : Inv (.gm true doChecksum) s L)
    (hin : d ∈ (s.messages m).fragsToAck) (hnew : s.Covers d → (s.frags d).didRecvAck = false)
    (hs : s.resendFrag (.gm true doChecksum) m timedOut d = some s') :
    Inv (.gm true doChecksum) s' (L.tally d s s') := by
  have honly := hinv.onlyIn (hinv.toAck m d hin).1
  obtain ⟨hcovers, hdrops⟩ | ⟨-, rfl | ⟨hrequeues, hrecv, hseq⟩⟩ := resendFrag_cases hinv hin hs
  · refine h.credit hdrops.touches honly hdrops.numAcked (.inr hin) ?_ ?_ nofun
    · rw [Noted, hnew hcovers]
      exact fun hnoted => nomatch hnoted.1
    · exact fun hlinked => absurd hlinked hdrops.unlinked
  · rwa [tally_of_messages rfl]
  · rw [tally_of_touches hrequeues.touches hrequeues.numAcked]
    refine h.move hrequeues.touches honly hrequeues.numAcked (fun _ => ⟨.inr hin, ?_⟩) nofun
    rw [Noted, Noted, hrecv, hseq]
    exact id

/-- The loop in `resend`.  What it says of the descriptors that are still to come stays true, since
they are not touched. -/
lemma resend_loop (ds : List ℕ) (hinv : s.Inv (.gm true doChecksum))
    (h : Inv (.gm true doChecksum) s L) (hds : ds.Nodup)
    (hin : ∀ d ∈ ds, d ∈ (s.messages m).fragsToAck)
    (hnew : ∀ d ∈ ds, s.Covers d → (s.frags d).didRecvAck = false)
    (hs : ds.foldlM (Sender.resendFrag (.gm true doChecksum) m timedOut) s = some s') :
    Inv (.gm true doChecksum) s' (L.tallyResend (.gm true doChecksum) m timedOut ds s) := by
  induction ds generalizing s L with
  | nil => exact some.inj hs ▸ h
  | cons d ds ih =>
    obtain ⟨t, ht, hs⟩ := bind_eq_some_iff.mp hs
    obtain ⟨hnotMem, hds⟩ := nodup_cons.mp hds
    have hne : ∀ e ∈ ds, e ≠ d := fun e he heq => hnotMem (heq ▸ he)
    have hd := hin d mem_cons_self
    obtain ⟨hinv', hkeep, hbooks⟩ := hinv.resendFrag hd ht
    have hfrags := (touches_resendFrag hinv hd ht).frags
    have hinfo : t.ackInfo = s.ackInfo := by
      rcases hbooks with hbooks | ⟨hbooks, -⟩
      · exact congrArg Books.ackInfo hbooks
      · exact congrArg Books.ackInfo hbooks
    rw [tallyResend, ht]
    refine ih hinv' (h.resendFrag hinv hd (hnew d mem_cons_self) ht) hds (fun e he => ?_)
      (fun e he => ?_) hs
    · exact hkeep e (hin e (mem_cons_of_mem _ he)) (hne e he)
    · rw [Covers, hfrags e (hne e he), hinfo]
      exact hnew e (mem_cons_of_mem _ he)

lemma resend (hinv : s.Inv (.gm doAck doChecksum)) (h : Inv (.gm doAck doChecksum) s L)
    (hnew : ∀ d ∈ (s.messages m).fragsToAck, s.Covers d → (s.frags d).didRecvAck = false)
    (hs : s.resend (.gm doAck doChecksum) m timedOut = some s') :
    Inv (.gm doAck doChecksum) s' (L.tallyResend (.gm doAck doChecksum) m timedOut
      (s.messages m).fragsToAck s) := by
  unfold Sender.resend at hs
  split_ifs at hs with hdoAck
  obtain rfl : doAck = true := hdoAck
  exact h.resend_loop _ hinv (hinv.nodupAck m) (fun d hd => hd) hnew hs

end Inv

end Ledger

/-! ### Runs -/

namespace Reliability

variable {s : Reliability} {e : Event}

/-- The condition under which an event counts no fragment twice.

* A dropped send finds its descriptor on a list, if it says that it is on `FragsToAck`.
* A fragment that `resend` finds covered has not been acknowledged by name before.  If its
  descriptor is freed at once it is the only one on `FragsToAck`: it is then taken off the list
  twice, which leaves other lists broken (`LinkedMessage.resend_truthful_iff`).
* An acknowledgement about a fragment finds it on a list, and good news come once. -/
def CountsOnce (s : Reliability) : Event → Prop
  | .callback d .dropped => ∀ m ∈ (s.sender.frags d).parentSendDesc,
      (s.sender.frags d).whichQueue = .fragsToAck → s.sender.Linked d m
  | .resend m _ => ∀ d ∈ (s.sender.messages m).fragsToAck, s.sender.Covers d →
      (s.sender.frags d).didRecvAck = false ∧
        ((s.sender.frags d).sendDidComplete = true → (s.sender.frags d).gmSends = 0 →
          (s.sender.messages m).fragsToAck = [d])
  | .deliverAck i => ∀ ack ∈ s.acks[i]?,
      ∀ m ∈ (s.sender.frags ack.sendFragDesc).parentSendDesc, s.sender.Concerns ack m →
        s.sender.Linked ack.sendFragDesc m ∧
          (ack.ackStatus = .dataGood → (s.sender.frags ack.sendFragDesc).didRecvAck = false)
  | _ => True

instance (s : Reliability) : ∀ e, Decidable (CountsOnce s e)
  | .callback _ .dropped | .resend _ _ | .deliverAck _ => by
    unfold CountsOnce
    infer_instance
  | .callback _ .success | .isend .. | .initFrag .. | .send _ | .deliver .. | .processMatchedData ..
  | .sendUnsentAcks .. | .malloc .. => isTrue trivial

end Reliability

namespace Ledger

open Reliability

variable {doAck doChecksum : Bool} {s s' : Reliability} {e : Event} {L : Ledger}

lemma init_inv (path : Path) : Inv path init.sender .empty where
  agrees _ := ⟨fun _ hin => hin.elim nofun nofun, rfl, nodup_nil, nil_subset _, nodup_nil, nofun⟩
  quiet _ _ _ hd := nomatch hd

/-- **Each event keeps the ledger.** -/
theorem Inv.step (hinv : Reliability.Inv (.gm doAck doChecksum) s)
    (h : Inv (.gm doAck doChecksum) s.sender L) (honce : CountsOnce s e)
    (hs : Reliability.step (.gm doAck doChecksum) s e = some s') :
    Inv (.gm doAck doChecksum) s'.sender (L.step (.gm doAck doChecksum) s e s') := by
  obtain ⟨t, hcall, rfl⟩ | ⟨d, t, dest, header, rfl, ht, rfl⟩ | ⟨proc, r, sent, hrecv, rfl⟩ :=
    step_cases hs
  · cases hcall with
    | isend ht => exact h.isend ht
    | initFrag ht => exact h.initFrag hinv.sender ht
    | callback hpath ht =>
      cases hpath
      refine h.callback hinv.sender ?_ ht
      rintro rfl m hd
      exact honce m hd
    | resend ht => exact h.resend hinv.sender (fun d hd hcovers => (honce d hd hcovers).1) ht
    | deliverAck hin ht =>
      rw [Ledger.step, hin]
      have hzero := hinv.thisFragSeq_ne_zero (mem_of_getElem? hin)
      refine h.processAck hinv.sender hzero (fun m hconcerns => ?_) ht
      exact honce _ hin m hconcerns.parent hconcerns
  · exact h.send hinv.sender ht
  · cases hrecv <;> exact h

lemma run_inv {events : List Event} (hinv : Reliability.Inv (.gm doAck doChecksum) s)
    (h : Inv (.gm doAck doChecksum) s.sender L)
    (honce : EveryEvent (.gm doAck doChecksum) CountsOnce s events)
    (hs : Reliability.run (.gm doAck doChecksum) s events = some s') :
    ∃ L', Ledger.run (.gm doAck doChecksum) s L events = some (s', L') ∧
      Inv (.gm doAck doChecksum) s'.sender L' := by
  induction events generalizing s L with
  | nil => exact ⟨L, by rw [some.inj hs]; rfl, some.inj hs ▸ h⟩
  | cons e events ih =>
    obtain ⟨t, ht, hrest⟩ := run_cons hs
    obtain ⟨hCe, hC⟩ := honce
    rw [ht] at hC
    obtain ⟨L', hrun, hinv'⟩ := ih (hinv.step ht) (h.step hinv hCe ht) hC hrest
    refine ⟨L', ?_, hinv'⟩
    rw [Ledger.run, ht]
    exact hrun

end Ledger

/-! ### Counted at most once -/

namespace Reliability

/-- **Each fragment is acknowledged at most once** with GM, if every event meets the condition.  In
every state of such a run, and for every message:

* `NumAcked` has counted different fragments of the message, each of them once;
* it is at most the number of fragments of the message, and if it is that number all of them have
  been created and counted. -/
theorem run_acked_at_most_once {doAck doChecksum : Bool} {events : List Event} {s : Reliability}
    (hs : run (.gm doAck doChecksum) init events = some s)
    (honce : EveryEvent (.gm doAck doChecksum) CountsOnce init events) :
    ∃ L, Ledger.run (.gm doAck doChecksum) init .empty events = some (s, L) ∧
      ∀ m, (L.acked m).Nodup ∧ L.acked m ⊆ L.frags m ∧
        (s.sender.messages m).numAcked = (L.acked m).length ∧
        ∀ numfrags : ℕ, (L.frags m).length ≤ numfrags →
          (s.sender.messages m).numAcked ≤ numfrags ∧
            ((s.sender.messages m).numAcked = numfrags →
              (L.frags m).length = numfrags ∧ ∀ f ∈ L.frags m, f ∈ L.acked m) := by
  obtain ⟨L, hrun, hinv⟩ := Ledger.run_inv (Reliability.init_inv _) (Ledger.init_inv _) honce hs
  refine ⟨L, hrun, fun m => ?_⟩
  have hagrees := hinv.agrees m
  have hperm := subperm_of_subset hagrees.nodup hagrees.subset
  refine ⟨hagrees.nodup, hagrees.subset, hagrees.counted, fun numfrags hfrags => ?_⟩
  have hle := hperm.length_le
  rw [hagrees.counted]
  refine ⟨by exact_mod_cast hle.trans hfrags, fun hall => ?_⟩
  refine ⟨by omega, fun f hf => ?_⟩
  exact (hperm.perm_of_length_le (by omega)).mem_iff.mpr hf

/-- Both fragments of a message are sent, the first one arrives.  Its acknowledgement comes before
GM has reported the send, so its descriptor stays, and `resend` finds it covered. -/
def countTwiceRun : List Event :=
  [.isend 0 1 0 false, .initFrag 0 0 0 8, .initFrag 1 0 8 8, .send 0, .send 1,
    .deliver 0 true available, .processMatchedData 1 0 16 false available, .deliverAck 0,
    .resend 0 fun _ => false]

/-- The first fragment is counted twice, and `NumAcked` is the number of fragments although the
second one has not been acknowledged. -/
theorem run_countTwiceRun :
    (Ledger.run (.gm true true) init .empty countTwiceRun).map (fun r =>
      ((r.1.sender.messages 0).numAcked, r.2.frags 0, r.2.acked 0, (r.1.recv 1).accepted)) =
      some (2, [(0, 1), (1, 1)], [(0, 1), (0, 1)], [1]) := by
  decide +kernel

/-- GM reports both sends in time.  The acknowledgement of the first fragment comes after `resend`
has found it covered by the second one, and once more. -/
def countOnceRun : List Event :=
  [.isend 0 1 0 false, .initFrag 0 0 0 8, .initFrag 1 0 8 8, .send 0, .send 1,
    .callback 0 .success, .callback 1 .success,
    .deliver 0 true available, .processMatchedData 1 0 16 false available,
    .deliver 1 true available, .processMatchedData 1 0 16 false available,
    .deliverAck 1, .resend 0 (fun _ => false), .deliverAck 0, .deliverAck 1]

theorem run_acked_at_most_once_countOnceRun :
    ∃ s, run (.gm true true) init countOnceRun = some s ∧ (s.sender.messages 0).numAcked = 2 ∧
      ∃ L, Ledger.run (.gm true true) init .empty countOnceRun = some (s, L) ∧
        (L.acked 0).Nodup ∧ ∀ f ∈ L.frags 0, f ∈ L.acked 0 := by
  have hrun : (Ledger.run (.gm true true) init .empty countOnceRun).map
      (fun r => ((r.1.sender.messages 0).numAcked, (r.2.frags 0).length)) = some (2, 2) := by
    decide +kernel
  have hsome : (run (.gm true true) init countOnceRun).isSome = true := by decide +kernel
  obtain ⟨s, hs⟩ := isSome_iff_exists.mp hsome
  obtain ⟨L, hL, hledger⟩ := run_acked_at_most_once hs (by decide +kernel)
  rw [hL] at hrun
  obtain ⟨hacked, hfrags⟩ := Prod.mk.inj (some.inj hrun)
  obtain ⟨hnodup, -, -, hall⟩ := hledger 0
  exact ⟨s, hs, hacked, L, hL, hnodup, ((hall 2 hfrags.le).2 hacked).2⟩

end Reliability

end Lampi
