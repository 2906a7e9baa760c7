import Lampi.Path.SendFrag
import Mathlib.Data.List.Nodup

/-!
# Invariants of the sending side

`Sender.Inv` says that a descriptor with a message carries a fragment numbered for its destination,
and that the descriptors on the lists of a message belong to it and say so.  Every operation of the
sender keeps it (`Inv.isend`, `Inv.initFrag`, `Inv.send`, `Inv.callback`, `Inv.processAck`,
`Inv.resend`).  Each operation changes one descriptor and one message; `Inv.change` has the argument
once.

`Sender.books` are the fields that most operations leave alone: the counters, what destinations have
acknowledged, and the records of what has happened.
-/

namespace Lampi

open List Option Function

variable {path : Path} {s s' : Sender} {d e m : ℕ} {ack : Ack} {frag : SendFragDesc} {n : ℕ → ℕ}

/-! ### The invariant -/

/-- The descriptor carries a fragment with a number allotted for its destination; its own copy of
the number is 0 when it is back in the pool. -/
structure SendFragDesc.Loaded (path : Path) (frag : SendFragDesc) (d : ℕ) (carried : List (ℕ × ℕ))
    (nextFragSeqs : ℕ → ℕ) : Prop where
  carried : (frag.globalDestProc, frag.header.fragSeq) ∈ carried
  sendFragDesc : frag.header.sendFragDesc = d
  lt : frag.header.fragSeq < nextFragSeqs frag.globalDestProc
  numbered : frag.header.wantsAck path = true → 1 ≤ frag.header.fragSeq
  fragSeq : frag.whichQueue ≠ .freeList → frag.fragSeq = frag.header.fragSeq
  freed : frag.whichQueue = .freeList → frag.fragSeq = 0

lemma SendFragDesc.Loaded.mono {c c' : List (ℕ × ℕ)} {n' : ℕ → ℕ} (h : frag.Loaded path d c n)
    (hc : c ⊆ c') (hn : ∀ p, n p ≤ n' p) : frag.Loaded path d c' n' :=
  { h with carried := hc h.carried, lt := h.lt.trans_le (hn _) }

/-- It is on list `q`, and besides only fields change that the invariant does not mention. -/
structure SendFragDesc.MovedTo (frag : SendFragDesc) (q : FragQueue) (frag' : SendFragDesc) :
    Prop where
  parentSendDesc : frag'.parentSendDesc = frag.parentSendDesc
  globalDestProc : frag'.globalDestProc = frag.globalDestProc
  header : frag'.header = frag.header
  fragSeq : frag'.fragSeq = frag.fragSeq
  whichQueue : frag'.whichQueue = q

lemma SendFragDesc.Loaded.movedTo {frag' : SendFragDesc} {c : List (ℕ × ℕ)} {q : FragQueue}
    (h : frag.Loaded path d c n) (hmoved : frag.MovedTo q frag')
    (hq : q = .freeList ↔ frag.whichQueue = .freeList) : frag'.Loaded path d c n := by
  obtain ⟨h1, h2, h3, h4, h5, h6⟩ := h
  rw [ne_eq, ← hq] at h5
  rw [← hq] at h6
  constructor
  all_goals simpa only [hmoved.globalDestProc, hmoved.header, hmoved.fragSeq, hmoved.whichQueue]

namespace Sender

/-- A descriptor with a message is loaded, and the descriptors on the lists of a message are
different ones that name the message and the list. -/
structure Inv (path : Path) (s : Sender) : Prop where
  loaded : ∀ d m, (s.frags d).parentSendDesc = some m →
    (s.frags d).Loaded path d (s.carried d) s.nextFragSeqs
  toSend : ∀ m, ∀ d ∈ (s.messages m).fragsToSend,
    (s.frags d).parentSendDesc = some m ∧ (s.frags d).whichQueue = .fragsToSend
  toAck : ∀ m, ∀ d ∈ (s.messages m).fragsToAck,
    (s.frags d).parentSendDesc = some m ∧ (s.frags d).whichQueue = .fragsToAck
  nodupSend : ∀ m, (s.messages m).fragsToSend.Nodup
  nodupAck : ∀ m, (s.messages m).fragsToAck.Nodup
  next_pos : ∀ p, 1 ≤ s.nextFragSeqs p

def OnlyIn (s : Sender) (d m : ℕ) : Prop :=
  ∀ m', m' ≠ m → d ∉ (s.messages m').fragsToSend ∧ d ∉ (s.messages m').fragsToAck

def Unlisted (s : Sender) (d : ℕ) : Prop :=
  ∀ m, d ∉ (s.messages m).fragsToSend ∧ d ∉ (s.messages m).fragsToAck

namespace Inv

variable (h : s.Inv path)

include h

lemma onlyIn (hd : (s.frags d).parentSendDesc = some m) : s.OnlyIn d m := by
  intro m' hne
  constructor
  · exact fun hin => hne (some.inj ((h.toSend m' d hin).1.symm.trans hd))
  · exact fun hin => hne (some.inj ((h.toAck m' d hin).1.symm.trans hd))

lemma notMem_toSend (hd : (s.frags d).whichQueue ≠ .fragsToSend) : d ∉ (s.messages m).fragsToSend :=
  fun hin => hd (h.toSend m d hin).2

lemma notMem_toAck (hd : (s.frags d).whichQueue ≠ .fragsToAck) : d ∉ (s.messages m).fragsToAck :=
  fun hin => hd (h.toAck m d hin).2

end Inv

/-! ### Parts of operations -/

variable (f : SendFragDesc → SendFragDesc)

@[simp] lemma setFrag_frags_self : (s.setFrag d f).frags d = f (s.frags d) := update_self ..

lemma setFrag_frags_ne (h : e ≠ d) : (s.setFrag d f).frags e = s.frags e := update_of_ne h ..

@[simp] lemma setFrag_messages : (s.setFrag d f).messages = s.messages := rfl

@[simp] lemma setMessage_frags (f : SendDesc → SendDesc) :
    (s.setMessage m f).frags = s.frags := rfl

@[simp] lemma setMessage_messages_self (f : SendDesc → SendDesc) :
    (s.setMessage m f).messages m = f (s.messages m) := update_self ..

lemma setMessage_messages_ne (f : SendDesc → SendDesc) {m' : ℕ} (h : m' ≠ m) :
    (s.setMessage m f).messages m' = s.messages m' := update_of_ne h ..

/-- Only descriptor `d` and message `m` change, to these. -/
structure Becomes (s s' : Sender) (d m : ℕ) (frag : SendFragDesc) (msg : SendDesc) : Prop where
  frag : s'.frags d = frag
  frags : ∀ e, e ≠ d → s'.frags e = s.frags e
  message : s'.messages m = msg
  messages : ∀ m', m' ≠ m → s'.messages m' = s.messages m'

variable {msg : SendDesc}

lemma Becomes.of_eq (hfrags : s'.frags = s.frags) (hmessages : s'.messages = s.messages) :
    s.Becomes s' d m (s.frags d) (s.messages m) :=
  ⟨by rw [hfrags], fun _ _ => by rw [hfrags], by rw [hmessages], fun _ _ => by rw [hmessages]⟩

lemma Becomes.refl (s : Sender) (d m : ℕ) : s.Becomes s d m (s.frags d) (s.messages m) :=
  .of_eq rfl rfl

lemma Becomes.setFrag (h : s.Becomes s' d m frag msg) (f : SendFragDesc → SendFragDesc) :
    s.Becomes (s'.setFrag d f) d m (f frag) msg where
  frag := by rw [setFrag_frags_self, h.frag]
  frags e he := (setFrag_frags_ne f he).trans (h.frags e he)
  message := h.message
  messages := h.messages

lemma Becomes.setMessage (h : s.Becomes s' d m frag msg) (f : SendDesc → SendDesc) :
    s.Becomes (s'.setMessage m f) d m frag (f msg) where
  frag := h.frag
  frags := h.frags
  message := by rw [setMessage_messages_self, h.message]
  messages m' hm := (setMessage_messages_ne f hm).trans (h.messages m' hm)

/-- The counters, what destinations have acknowledged, and what has happened. -/
structure Books where
  nextFragSeqs : ℕ → ℕ
  ackInfo : ℕ → AckInfo
  carried : ℕ → List (ℕ × ℕ)
  credited : List (ℕ × ℕ × ℕ)
  treatedAsDelivered : List (ℕ × ℕ)

def books (s : Sender) : Books :=
  ⟨s.nextFragSeqs, s.ackInfo, s.carried, s.credited, s.treatedAsDelivered⟩

@[simp] lemma setFrag_books (f : SendFragDesc → SendFragDesc) :
    (s.setFrag d f).books = s.books := rfl

@[simp] lemma setMessage_books (f : SendDesc → SendDesc) :
    (s.setMessage m f).books = s.books := rfl

/-- The descriptors on one of the lists of a message are different ones that name the message and
the list. -/
def ListedOn (s : Sender) (list : SendDesc → List ℕ) (q : FragQueue) : Prop :=
  ∀ m, (∀ d ∈ list (s.messages m), (s.frags d).parentSendDesc = some m ∧
    (s.frags d).whichQueue = q) ∧ (list (s.messages m)).Nodup

section ListedOn

variable {list : SendDesc → List ℕ} {q : FragQueue}

/-- Only message `m` changes, and no descriptor on the lists of other messages. -/
lemma ListedOn.change (h : s.ListedOn list q)
    (hmessages : ∀ m', m' ≠ m → s'.messages m' = s.messages m')
    (hfrags : ∀ m', m' ≠ m → ∀ e ∈ list (s.messages m'), s'.frags e = s.frags e)
    (hlist : ∀ e ∈ list (s'.messages m), (s'.frags e).parentSendDesc = some m ∧
      (s'.frags e).whichQueue = q) (hnodup : (list (s'.messages m)).Nodup) :
    s'.ListedOn list q := by
  intro m'
  by_cases hm : m' = m
  · exact hm ▸ ⟨hlist, hnodup⟩
  · rw [hmessages m' hm]
    refine ⟨fun e he => ?_, (h m').2⟩
    rw [hfrags m' hm e he]
    exact (h m').1 e he

lemma ListedOn.setMessage (h : s.ListedOn list q) {f : SendDesc → SendDesc}
    (hsub : (list (f (s.messages m))).Sublist (list (s.messages m))) :
    (s.setMessage m f).ListedOn list q := by
  refine h.change (fun m' hm => setMessage_messages_ne f hm) (fun _ _ _ _ => rfl) ?_ ?_
  · rw [setMessage_messages_self]
    exact fun e he => (h m).1 e (hsub.subset he)
  · rw [setMessage_messages_self]
    exact (h m).2.sublist hsub

lemma ListedOn.relist (h : s.ListedOn list q) {q' : FragQueue}
    (hb : s.Becomes s' d m frag msg) (honly : ∀ m', m' ≠ m → d ∉ list (s.messages m'))
    (hlist : list msg = (list (s.messages m)).erase d ++ if q' = q then [d] else [])
    (hd : q' = q → frag.parentSendDesc = some m ∧ frag.whichQueue = q) : s'.ListedOn list q := by
  have hgone : d ∉ (list (s.messages m)).erase d := (h m).2.not_mem_erase
  refine h.change hb.messages (fun m' hm e he => hb.frags e fun hed => honly m' hm (hed ▸ he)) ?_ ?_
  · intro e he
    rw [hb.message, hlist, mem_append] at he
    obtain he | he := he
    · rw [hb.frags e fun hed => hgone (hed ▸ he)]
      exact (h m).1 e (mem_of_mem_erase he)
    · split_ifs at he with hq
      · rw [mem_singleton.mp he, hb.frag]
        exact hd hq
      · cases he
  · rw [hb.message, hlist]
    split_ifs
    · rw [← concat_eq_append, nodup_concat]
      exact ⟨hgone, (h m).2.erase d⟩
    · rw [append_nil]
      exact (h m).2.erase d

end ListedOn

namespace Inv

lemma of_listedOn (hsend : s.ListedOn SendDesc.fragsToSend .fragsToSend)
    (hack : s.ListedOn SendDesc.fragsToAck .fragsToAck)
    (hloaded : ∀ d m, (s.frags d).parentSendDesc = some m →
      (s.frags d).Loaded path d (s.carried d) s.nextFragSeqs)
    (hnext : ∀ p, 1 ≤ s.nextFragSeqs p) : s.Inv path :=
  ⟨hloaded, fun m => (hsend m).1, fun m => (hack m).1, fun m => (hsend m).2, fun m => (hack m).2,
    hnext⟩

variable (h : s.Inv path)

include h

lemma listedOn_send : s.ListedOn SendDesc.fragsToSend .fragsToSend :=
  fun m => ⟨h.toSend m, h.nodupSend m⟩

lemma listedOn_ack : s.ListedOn SendDesc.fragsToAck .fragsToAck :=
  fun m => ⟨h.toAck m, h.nodupAck m⟩

/-- Descriptor `d` goes to list `q` of message `m`.  Everything else stays in place, so it is enough
to look at these two. -/
lemma change (hb : s.Becomes s' d m frag msg) (q : FragQueue)
    (hcarried : ∀ e, s.carried e ⊆ s'.carried e) (hnext : ∀ p, s.nextFragSeqs p ≤ s'.nextFragSeqs p)
    (honly : s.OnlyIn d m)
    (hloaded : ∀ m', frag.parentSendDesc = some m' →
      frag.Loaded path d (s'.carried d) s'.nextFragSeqs)
    (hsend : msg.fragsToSend =
      (s.messages m).fragsToSend.erase d ++ if q = .fragsToSend then [d] else [])
    (hack : msg.fragsToAck =
      (s.messages m).fragsToAck.erase d ++ if q = .fragsToAck then [d] else [])
    (hd : q ≠ .freeList → frag.parentSendDesc = some m ∧ frag.whichQueue = q) : s'.Inv path := by
  refine of_listedOn (h.listedOn_send.relist hb (fun m' hm => (honly m' hm).1) hsend ?_)
    (h.listedOn_ack.relist hb (fun m' hm => (honly m' hm).2) hack ?_)
    (fun e m' he => ?_) fun p => (h.next_pos p).trans (hnext p)
  · exact fun hq => hq ▸ hd (hq ▸ by decide)
  · exact fun hq => hq ▸ hd (hq ▸ by decide)
  · by_cases hed : e = d
    · subst hed
      rw [hb.frag] at he ⊢
      exact hloaded m' he
    · rw [hb.frags e hed] at he ⊢
      exact (h.loaded e m' he).mono (hcarried e) hnext

lemma setMessage {f : SendDesc → SendDesc}
    (hsend : (f (s.messages m)).fragsToSend.Sublist (s.messages m).fragsToSend)
    (hack : (f (s.messages m)).fragsToAck.Sublist (s.messages m).fragsToAck) :
    (s.setMessage m f).Inv path :=
  of_listedOn (h.listedOn_send.setMessage hsend) (h.listedOn_ack.setMessage hack) h.loaded
    h.next_pos

variable {f : SendFragDesc → SendFragDesc}

/-- Fields of a descriptor change that the invariant does not mention. -/
lemma setFrag (hf : (s.frags d).MovedTo (s.frags d).whichQueue (f (s.frags d))) :
    (s.setFrag d f).Inv path := by
  have hsame : ∀ e, (s.frags e).MovedTo (s.frags e).whichQueue ((s.setFrag d f).frags e) := by
    intro e
    by_cases he : e = d
    · subst he
      rwa [setFrag_frags_self]
    · rw [setFrag_frags_ne f he]
      exact ⟨rfl, rfl, rfl, rfl, rfl⟩
  refine ⟨fun e m he => ?_, fun m e he => ?_, fun m e he => ?_, h.nodupSend, h.nodupAck, h.next_pos⟩
  · rw [(hsame e).parentSendDesc] at he
    exact (h.loaded e m he).movedTo (hsame e) Iff.rfl
  · rw [(hsame e).parentSendDesc, (hsame e).whichQueue]
    exact h.toSend m e he
  · rw [(hsame e).parentSendDesc, (hsame e).whichQueue]
    exact h.toAck m e he

lemma requeue (hd : (s.frags d).parentSendDesc = some m) (hq : (s.frags d).whichQueue = .fragsToAck)
    (hf : (s.frags d).MovedTo .fragsToSend (f (s.frags d))) :
    ((s.setFrag d f).requeue d m).Inv path := by
  refine h.change (((Becomes.refl s d m).setFrag f).setMessage _) .fragsToSend
    (fun _ => .refl _) (fun _ => le_rfl) (h.onlyIn hd) (fun m' _ => ?_) ?_
    (append_nil _).symm fun _ => ⟨hf.parentSendDesc.trans hd, hf.whichQueue⟩
  · exact (h.loaded d m hd).movedTo hf (by rw [hq]; decide)
  · rw [erase_of_not_mem (h.notMem_toSend (by rw [hq]; decide))]
    rfl

lemma free {t : Sender} (hd : (s.frags d).parentSendDesc = some m) (ht : s.takeOff d m = some t)
    (hf : ∀ m', (f (s.frags d)).parentSendDesc = some m' →
      (f (s.frags d)).Loaded path d (s.carried d) s.nextFragSeqs) : (t.setFrag d f).Inv path := by
  unfold takeOff at ht
  split at ht
  case h_1 hq =>
    cases ht
    refine h.change (((Becomes.refl s d m).setMessage _).setFrag f) .freeList
      (fun _ => .refl _) (fun _ => le_rfl) (h.onlyIn hd) hf ?_ (append_nil _).symm
      fun hne => absurd rfl hne
    rw [erase_of_not_mem (h.notMem_toSend (by rw [hq]; decide))]
    exact (append_nil _).symm
  case h_2 hq =>
    cases ht
    refine h.change (((Becomes.refl s d m).setMessage _).setFrag f) .freeList
      (fun _ => .refl _) (fun _ => le_rfl) (h.onlyIn hd) hf (append_nil _).symm ?_
      fun hne => absurd rfl hne
    rw [erase_of_not_mem (h.notMem_toAck (by rw [hq]; decide))]
    exact (append_nil _).symm
  case h_3 => cases ht

lemma unlisted (hd : s.Unlisted d) (hf : ∀ m, (f (s.frags d)).parentSendDesc = some m →
      (f (s.frags d)).Loaded path d (s.carried d) s.nextFragSeqs) : (s.setFrag d f).Inv path := by
  refine h.change ((Becomes.refl s d 0).setFrag f) .freeList (fun _ => .refl _)
    (fun _ => le_rfl) (fun m' _ => hd m') hf ?_ ?_ fun hne => absurd rfl hne
  · rw [erase_of_not_mem (hd 0).1]
    exact (append_nil _).symm
  · rw [erase_of_not_mem (hd 0).2]
    exact (append_nil _).symm

/-! ### Messages, fragments and sends -/

lemma isend {peer isendSeq : ℕ} {synchronous : Bool}
    (hs : s.isend m peer isendSeq synchronous = some s') : s'.Inv path ∧ s'.books = s.books := by
  unfold Sender.isend at hs
  split_ifs at hs
  cases hs
  exact ⟨h.setMessage (nil_sublist _) (nil_sublist _), rfl⟩

end Inv

/-- What `initFragSeq` allots: no number, or the next one for the destination. -/
lemma initFragSeq_cases (path : Path) (s : Sender) (message : SendDesc) (seqOffset : ℕ) :
    ((s.initFragSeq path message seqOffset = (0, s.nextFragSeqs) ∧ path.doAck = false ∧
        (message.synchronous = false ∨ seqOffset ≠ 0))) ∨
      s.initFragSeq path message seqOffset = (s.nextFragSeqs message.peer,
        update s.nextFragSeqs message.peer (s.nextFragSeqs message.peer + 1)) := by
  unfold initFragSeq
  split_ifs with hcond
  · refine .inl ⟨rfl, ?_⟩
    simpa using hcond
  · exact .inr rfl

lemma initFragSeq_bounds (message : SendDesc) (seqOffset p : ℕ) :
    s.nextFragSeqs p ≤ (s.initFragSeq path message seqOffset).2 p ∧
      (s.initFragSeq path message seqOffset).2 p ≤ s.nextFragSeqs p + 1 := by
  obtain ⟨hseq, -⟩ | hseq := initFragSeq_cases path s message seqOffset
  · rw [hseq]
    exact ⟨le_rfl, Nat.le_succ _⟩
  · rw [hseq]
    by_cases hp : p = message.peer
    · subst hp
      simp
    · simp [hp]

/-- The books after descriptor `d` was loaded with a fragment of message `m`. -/
def loadedBooks (path : Path) (s : Sender) (d m seqOffset : ℕ) : Books :=
  let n := s.initFragSeq path (s.messages m) seqOffset
  { s.books with
    nextFragSeqs := n.2
    carried := Function.update s.carried d (s.carried d ++ [((s.messages m).peer, n.1)]) }

variable {seqOffset length : ℕ}

section

variable (hs : s.initFrag path d m seqOffset length = some s')

include hs

lemma initFrag_books : s'.books = s.loadedBooks path d m seqOffset := by
  unfold initFrag at hs
  split_ifs at hs
  cases hs
  rfl

/-- Loading a descriptor adds to what descriptors have carried, and counters only grow. -/
lemma initFrag_grows :
    (∀ e, s.carried e ⊆ s'.carried e) ∧ ∀ p, s.nextFragSeqs p ≤ s'.nextFragSeqs p := by
  have hbooks := initFrag_books hs
  have hcarried : s'.carried = _ := congrArg Books.carried hbooks
  have hnext : s'.nextFragSeqs = _ := congrArg Books.nextFragSeqs hbooks
  rw [hcarried, hnext]
  refine ⟨fun e => ?_, fun p => (initFragSeq_bounds _ _ p).1⟩
  by_cases he : e = d
  · subst he
    simp [loadedBooks]
  · simp [loadedBooks, he]

lemma becomes_initFrag :
    (s.frags d).whichQueue = .freeList ∧ s.Becomes s' d m (newFrag path (s.messages m) d m
      (s.initFragSeq path (s.messages m) seqOffset).1 seqOffset length (s.frags d))
      { s.messages m with fragsToSend := (s.messages m).fragsToSend ++ [d] } := by
  unfold initFrag at hs
  split_ifs at hs with hfree
  cases hs
  refine ⟨hfree, Becomes.setMessage (Becomes.setFrag ?_ _) _⟩
  exact .of_eq rfl rfl

end

lemma takeOff_books (hs : s.takeOff d m = some s') : s'.books = s.books ∧ s'.frags = s.frags := by
  unfold takeOff at hs
  split at hs
  all_goals
    cases hs
    try exact ⟨rfl, rfl⟩

variable {header : DataHeader}

section

variable (h : s.Inv path)

include h

private lemma one_le_initFragSeq {message : SendDesc} (hwants : header.wantsAck path = true)
    (hsync : header.msgType = .pt2ptSync → message.synchronous = true) :
    1 ≤ (s.initFragSeq path message header.seqOffset).1 := by
  obtain ⟨hseq, hdoAck, hplain⟩ | hseq := initFragSeq_cases path s message header.seqOffset
  · simp only [DataHeader.wantsAck, hdoAck, Bool.false_or, Bool.and_eq_true, beq_iff_eq] at hwants
    rcases hplain with hplain | hplain
    · exact absurd (hsync hwants.1) (by simp [hplain])
    · exact absurd hwants.2 hplain
  · rw [hseq]
    exact h.next_pos _

private lemma initFragSeq_lt (message : SendDesc) (seqOffset : ℕ) :
    (s.initFragSeq path message seqOffset).1 <
      (s.initFragSeq path message seqOffset).2 message.peer := by
  obtain ⟨hseq, -⟩ | hseq := initFragSeq_cases path s message seqOffset
  · rw [hseq]
    exact h.next_pos _
  · rw [hseq]
    simp

lemma Inv.initFrag (hs : s.initFrag path d m seqOffset length = some s') : s'.Inv path := by
  have hbooks := initFrag_books hs
  have hcarried : s'.carried = _ := congrArg Books.carried hbooks
  have hnext : s'.nextFragSeqs = _ := congrArg Books.nextFragSeqs hbooks
  obtain ⟨hgrow, hgrow'⟩ := initFrag_grows hs
  obtain ⟨hfree, hb⟩ := becomes_initFrag hs
  have honly : s.Unlisted d := by
    intro m'
    constructor
    · exact h.notMem_toSend (by rw [hfree]; decide)
    · exact h.notMem_toAck (by rw [hfree]; decide)
  refine h.change hb .fragsToSend hgrow hgrow' (fun m' _ => honly m') (fun m' _ => ?_) ?_ ?_
    fun _ => ⟨rfl, rfl⟩
  · rw [hcarried, hnext]
    refine ⟨?_, rfl, initFragSeq_lt h _ _, fun hwants => one_le_initFragSeq h hwants ?_,
      fun _ => rfl, fun hq => nomatch hq⟩
    · simp [loadedBooks, newFrag]
    · cases path with
      | gm => cases hsync : (s.messages m).synchronous <;> simp [newFrag, hsync]
      | udp => simp [newFrag]
  · rw [erase_of_not_mem (honly m).1]
    rfl
  · rw [erase_of_not_mem (honly m).2]
    exact (append_nil _).symm

/-- A send takes a descriptor from `FragsToSend` of its message, and sends its header to its
destination. -/
lemma Inv.send {dest : ℕ} (hs : s.send path d = some (s', dest, header)) :
    s'.Inv path ∧ s'.books = s.books ∧
      ∃ m, (s.frags d).parentSendDesc = some m ∧ dest = (s.frags d).globalDestProc ∧
        header = (s.frags d).header := by
  obtain ⟨m, hd, hsent⟩ := bind_eq_some_iff.mp hs
  split_ifs at hsent with hin
  cases hsent
  have hq := (h.toSend m d hin).2
  refine ⟨?_, rfl, m, hd, rfl, rfl⟩
  refine h.change (((Becomes.refl s d m).setFrag _).setMessage _) .fragsToAck
    (fun _ => .refl _) (fun _ => le_rfl) (h.onlyIn hd) (fun m' _ => ?_)
    (append_nil _).symm ?_ fun _ => ⟨hd, rfl⟩
  · exact (h.loaded d m hd).movedTo ⟨rfl, rfl, rfl, rfl, rfl⟩ (by simp [hq])
  · rw [erase_of_not_mem (h.notMem_toAck (by rw [hq]; decide))]
    rfl

/-! ### Freeing descriptors -/

lemma Inv.freeResourcesUdp (hd : (s.frags d).parentSendDesc = some m)
    (hs : s.freeResourcesUdp d m = some s') : s'.Inv path ∧ s'.books = s.books := by
  obtain ⟨t, ht, rfl⟩ := map_eq_some_iff.mp hs
  exact ⟨h.free hd ht (fun m' hm' => nomatch hm'), (takeOff_books ht).1⟩

lemma Inv.freeResourcesGm (hd : (s.frags d).parentSendDesc = some m)
    (hs : s.freeResourcesGm d (some m) = some s') : s'.Inv path ∧ s'.books = s.books := by
  unfold Sender.freeResourcesGm at hs
  split_ifs at hs
  · exact some.inj hs ▸ ⟨h, rfl⟩
  · exact some.inj hs ▸ ⟨h, rfl⟩
  · obtain ⟨t, ht, rfl⟩ := map_eq_some_iff.mp hs
    refine ⟨h.free hd ht fun m' _ => ?_, (takeOff_books ht).1⟩
    obtain ⟨h1, h2, h3, h4, -, -⟩ := h.loaded d m hd
    exact ⟨h1, h2, h3, h4, absurd rfl, fun _ => rfl⟩

lemma Inv.freeResourcesGm_none (hd : (s.frags d).parentSendDesc = none)
    (hs : s.freeResourcesGm d none = some s') : s'.Inv path ∧ s'.books = s.books := by
  unfold Sender.freeResourcesGm at hs
  split_ifs at hs
  · exact some.inj hs ▸ ⟨h, rfl⟩
  · exact some.inj hs ▸ ⟨h, rfl⟩
  · cases hs
    refine ⟨h.unlisted (fun m => ⟨fun hin => ?_, fun hin => ?_⟩) fun m hm => ?_, rfl⟩
    · exact nomatch hd.symm.trans (h.toSend m d hin).1
    · exact nomatch hd.symm.trans (h.toAck m d hin).1
    · exact nomatch hd.symm.trans hm

lemma Inv.freeResources (hd : (s.frags d).parentSendDesc = some m)
    (hs : s.freeResources path d m = some s') : s'.Inv path ∧ s'.books = s.books := by
  cases path with
  | gm => exact h.freeResourcesGm hd hs
  | udp => exact h.freeResourcesUdp hd hs

/-! ### Acknowledgements -/

/-- The books after an acknowledgement of descriptor `d` was counted. -/
def creditedBooks (s : Sender) (d : ℕ) (ack : Ack) : Books :=
  { s.books with
    credited := s.credited ++
      [(ack.srcProc, (s.frags d).globalDestProc, (s.frags d).fragSeq)] }

/-- The invariant does not depend on what destinations have acknowledged or on the records. -/
lemma Inv.of_eq (hfrags : s'.frags = s.frags) (hmessages : s'.messages = s.messages)
    (hcarried : s'.carried = s.carried) (hnext : s'.nextFragSeqs = s.nextFragSeqs) :
    s'.Inv path := by
  obtain ⟨h1, h2, h3, h4, h5, h6⟩ := h
  rw [← hfrags] at h1 h2 h3
  rw [← hmessages] at h2 h3 h4 h5
  rw [← hcarried, ← hnext] at h1
  exact ⟨h1, h2, h3, h4, h5, hnext ▸ h6⟩

lemma Inv.countAck (d m : ℕ) (ack : Ack) : (s.countAck d m ack).Inv path :=
  (h.setMessage (f := fun msg => { msg with numAcked := msg.numAcked + 1 })
    (.refl _) (.refl _)).of_eq rfl rfl rfl rfl

/-- A descriptor that carries a number is acknowledged: good news is counted, on bad news it has to
be sent again. -/
lemma Inv.handlePt2PtMessageAck (hd : (s.frags d).parentSendDesc = some m)
    (hseq : (s.frags d).fragSeq ≠ 0) (hs : s.handlePt2PtMessageAck path d m ack = some s') :
    s'.Inv path ∧
      (s'.books = s.books ∨ ack.ackStatus = .dataGood ∧ s'.books = s.creditedBooks d ack) := by
  simp only [Sender.handlePt2PtMessageAck] at hs
  by_cases hgood : ack.ackStatus = .dataGood
  · rw [if_pos hgood] at hs
    have hcounted := h.countAck d m ack
    suffices hfreed : s'.Inv path ∧ s'.books = (s.countAck d m ack).books from
      ⟨hfreed.1, .inr ⟨hgood, hfreed.2⟩⟩
    cases path with
    | gm =>
      split_ifs at hs
      · exact hcounted.freeResourcesGm hd hs
      · exact some.inj hs ▸ ⟨hcounted, rfl⟩
    | udp => exact hcounted.freeResourcesUdp hd hs
  · rw [if_neg hgood] at hs
    cases hs
    refine ⟨setMessage ?_ (.refl _) (.refl _), .inl ?_⟩
    · split_ifs with hq
      · refine h.requeue hd hq ⟨rfl, rfl, rfl, rfl, ?_⟩
        cases path <;> simp
      · -- a descriptor with a number is not in the pool, so it waits to be sent already
        have hsend : (s.frags d).whichQueue = .fragsToSend := by
          have hfree := (h.loaded d m hd).freed
          cases hcase : (s.frags d).whichQueue with
          | freeList => exact absurd (hfree hcase) hseq
          | fragsToSend => rfl
          | fragsToAck => exact absurd hcase hq
        refine h.setFrag ⟨rfl, rfl, rfl, rfl, ?_⟩
        cases path <;> simp [hsend]
    · split_ifs <;> rfl

private lemma Inv.noteAck (d : ℕ) (ack : Ack) :
    (s.noteAck path d ack).Inv path ∧ (s.noteAck path d ack).books = s.books ∧
      ((s.noteAck path d ack).frags d).parentSendDesc = (s.frags d).parentSendDesc ∧
      ((s.noteAck path d ack).frags d).globalDestProc = (s.frags d).globalDestProc ∧
      ((s.noteAck path d ack).frags d).fragSeq = (s.frags d).fragSeq := by
  cases path with
  | gm =>
    simp only [noteAck]
    split_ifs
    · rw [setFrag_frags_self]
      exact ⟨h.setFrag ⟨rfl, rfl, rfl, rfl, rfl⟩, rfl, rfl, rfl, rfl⟩
    · exact ⟨h, rfl, rfl, rfl, rfl⟩
  | udp => exact ⟨h, rfl, rfl, rfl, rfl⟩

/-- **What an acknowledgement can do**: nothing; update what is known about its source; or, if the
descriptor it names carries the number it names, also count it or have it sent again. -/
theorem Inv.processAck (hzero : ack.ackStatus ≠ .aggInfoOnly → ack.thisFragSeq ≠ 0)
    (hs : s.processAck path ack = some s') :
    s'.Inv path ∧ (s' = s ∨ s'.books = (s.updateAckInfo ack).books ∨
      ∃ m, (s.frags ack.sendFragDesc).parentSendDesc = some m ∧
        (s.frags ack.sendFragDesc).fragSeq = ack.thisFragSeq ∧ ack.thisFragSeq ≠ 0 ∧
        ack.ackStatus = .dataGood ∧
        s'.books = (s.updateAckInfo ack).creditedBooks ack.sendFragDesc ack) := by
  simp only [Sender.processAck] at hs
  split at hs
  case h_1 => exact some.inj hs ▸ ⟨h, .inl rfl⟩
  case h_2 m hd =>
    have hupdated : (s.updateAckInfo ack).Inv path := h.of_eq rfl rfl rfl rfl
    split_ifs at hs with hstale hagg hseq
    · exact some.inj hs ▸ ⟨h, .inl rfl⟩
    · exact some.inj hs ▸ ⟨hupdated, .inr (.inl rfl)⟩
    · exact some.inj hs ▸ ⟨hupdated, .inr (.inl rfl)⟩
    · rw [ne_eq, not_not] at hseq
      obtain ⟨hnoted, hbooks, hparent, hdest, hnumber⟩ := hupdated.noteAck ack.sendFragDesc ack
      have hne := hzero hagg
      obtain ⟨hinv, hsame | ⟨hgood, hcredited⟩⟩ := hnoted.handlePt2PtMessageAck
        (hparent.trans hd) (by rwa [hnumber, hseq]) hs
      · exact ⟨hinv, .inr (.inl (hsame.trans hbooks))⟩
      · refine ⟨hinv, .inr (.inr ⟨m, hd, hseq, hne, hgood, hcredited.trans ?_⟩)⟩
        have hlog : (Sender.noteAck path (s.updateAckInfo ack) ack.sendFragDesc ack).credited =
            s.credited := congrArg Books.credited hbooks
        rw [creditedBooks, creditedBooks, hbooks, hlog, hdest, hnumber]
        rfl

/-! ### Reports of GM -/

private lemma Inv.sendDropped (d : ℕ) :
    (s.sendDropped d).Inv path ∧ (s.sendDropped d).books = s.books := by
  unfold Sender.sendDropped
  split
  case h_1 m hd =>
    split_ifs with hq
    · exact ⟨h.requeue hd hq ⟨rfl, rfl, rfl, rfl, rfl⟩, rfl⟩
    · exact ⟨h, rfl⟩
  case h_2 => exact ⟨h, rfl⟩

variable {doAck : Bool}

private lemma Inv.sendSucceeded (hs : s.sendSucceeded doAck d = some s') :
    s'.Inv path ∧ s'.books = s.books := by
  simp only [Sender.sendSucceeded] at hs
  split at hs
  case h_1 m hd =>
    have hcounted : (s.setMessage m fun msg => { msg with numSent := msg.numSent + 1 }).Inv path :=
      h.setMessage (.refl _) (.refl _)
    have hcomplete := hcounted.setFrag (d := d)
      (f := fun frag => { frag with sendDidComplete := true }) ⟨rfl, rfl, rfl, rfl, rfl⟩
    generalize ht : ((s.setMessage m fun msg => { msg with numSent := msg.numSent + 1 }).setFrag d
      fun frag => { frag with sendDidComplete := true }) = t at hs hcomplete
    have hbooks : t.books = s.books := ht ▸ rfl
    have hd' : (t.frags d).parentSendDesc = some m := by
      rw [← ht, setFrag_frags_self]
      exact hd
    rw [← hbooks]
    split_ifs at hs
    · exact hcomplete.freeResourcesGm hd' hs
    · exact some.inj hs ▸ ⟨hcomplete, rfl⟩
    · have hacked :
          (t.setMessage m fun msg => { msg with numAcked := msg.numAcked + 1 }).Inv path :=
        hcomplete.setMessage (.refl _) (.refl _)
      exact hacked.freeResourcesGm hd' hs
    · exact hcomplete.freeResourcesGm hd' hs
    · exact some.inj hs ▸ ⟨hcomplete, rfl⟩
  case h_2 hd => exact h.freeResourcesGm_none hd hs

lemma Inv.callback {status : GmStatus} (hs : s.callback doAck d status = some s') :
    s'.Inv path ∧ s'.books = s.books := by
  simp only [Sender.callback] at hs
  have hcount : (s.setFrag d fun frag => { frag with gmSends := frag.gmSends - 1 }).Inv path :=
    h.setFrag ⟨rfl, rfl, rfl, rfl, rfl⟩
  cases status with
  | success =>
    split_ifs at hs
    exact hcount.sendSucceeded hs
  | dropped =>
    split_ifs at hs
    exact some.inj hs ▸ hcount.sendDropped d

end

/-! ### Sending again -/

/-- The lists have lost at most descriptor `d`. -/
def LosesOnly (s s' : Sender) (d : ℕ) : Prop :=
  ∀ m, (s'.messages m).fragsToSend ⊆ (s.messages m).fragsToSend ∧
    (s'.messages m).fragsToAck ⊆ (s.messages m).fragsToAck ∧
    ∀ e ∈ (s.messages m).fragsToAck, e ≠ d → e ∈ (s'.messages m).fragsToAck

lemma LosesOnly.refl (s : Sender) (d : ℕ) : LosesOnly s s d :=
  fun _ => ⟨Subset.refl _, Subset.refl _, fun _ he _ => he⟩

lemma LosesOnly.trans {s'' : Sender} (h : LosesOnly s s' d) (h' : LosesOnly s' s'' d) :
    LosesOnly s s'' d := by
  intro m
  obtain ⟨h1, h2, h3⟩ := h m
  obtain ⟨h1', h2', h3'⟩ := h' m
  exact ⟨Subset.trans h1' h1, Subset.trans h2' h2,
    fun e he hne => h3' e (h3 e he hne) hne⟩

lemma LosesOnly.unlisted (h : LosesOnly s s' d) (hd : s.Unlisted d) : s'.Unlisted d :=
  fun m => ⟨fun hin => (hd m).1 ((h m).1 hin), fun hin => (hd m).2 ((h m).2.1 hin)⟩

private lemma setMessage_losesOnly {f : SendDesc → SendDesc}
    (hsend : (f (s.messages m)).fragsToSend ⊆ (s.messages m).fragsToSend)
    (hack : (f (s.messages m)).fragsToAck ⊆ (s.messages m).fragsToAck)
    (hkeep : ∀ e ∈ (s.messages m).fragsToAck, e ≠ d → e ∈ (f (s.messages m)).fragsToAck) :
    LosesOnly s (s.setMessage m f) d := by
  intro m'
  by_cases hm : m' = m
  · subst hm
    rw [setMessage_messages_self]
    exact ⟨hsend, hack, hkeep⟩
  · rw [setMessage_messages_ne f hm]
    exact LosesOnly.refl s d m'

private lemma takeOff_losesOnly (hs : s.takeOff d m = some s') : LosesOnly s s' d := by
  unfold takeOff at hs
  split at hs
  case h_1 =>
    cases hs
    exact setMessage_losesOnly (.refl _) erase_subset
      fun e he hne => (mem_erase_of_ne hne).mpr he
  case h_2 =>
    cases hs
    exact setMessage_losesOnly erase_subset (.refl _) fun e he _ => he
  case h_3 => cases hs

private lemma freeResources_losesOnly (hs : s.freeResources path d m = some s') :
    LosesOnly s s' d := by
  cases path with
  | gm =>
    simp only [freeResources, freeResourcesGm] at hs
    split_ifs at hs
    · exact some.inj hs ▸ LosesOnly.refl s d
    · exact some.inj hs ▸ LosesOnly.refl s d
    · obtain ⟨t, ht, rfl⟩ := map_eq_some_iff.mp hs
      have := takeOff_losesOnly ht
      exact this
  | udp =>
    obtain ⟨t, ht, rfl⟩ := map_eq_some_iff.mp hs
    have := takeOff_losesOnly ht
    exact this

variable (h : s.Inv path)

include h

private lemma Inv.freeDelivered (hd : (s.frags d).parentSendDesc = some m)
    (hunlisted : s.Unlisted d) (hs : s.freeDelivered path d m = some s') :
    s'.Inv path ∧ s'.books = s.books ∧ LosesOnly s s' d := by
  simp only [Sender.freeDelivered] at hs
  have hacked : (s.setMessage m fun msg => { msg with numAcked := msg.numAcked + 1 }).Inv path :=
    h.setMessage (.refl _) (.refl _)
  have hloses :
      LosesOnly s (s.setMessage m fun msg => { msg with numAcked := msg.numAcked + 1 }) d :=
    setMessage_losesOnly (.refl _) (.refl _) fun e he _ => he
  split_ifs at hs
  · rw [setMessage_frags, hd] at hs
    obtain ⟨t, ht, rfl⟩ := map_eq_some_iff.mp hs
    obtain ⟨hfreed, hbooks⟩ := hacked.freeResources hd ht
    have hloses' := hloses.trans (freeResources_losesOnly ht)
    refine ⟨hfreed.unlisted (hloses'.unlisted hunlisted) ?_, hbooks, hloses'⟩
    exact fun m' hm' => nomatch hm'
  · exact some.inj hs ▸ ⟨hacked, rfl, hloses⟩

/-- The books after `resend` has treated descriptor `d` as delivered. -/
def deliveredBooks (s : Sender) (d : ℕ) : Books :=
  { s.books with
    treatedAsDelivered := s.treatedAsDelivered ++
      [((s.frags d).globalDestProc, (s.frags d).fragSeq)] }

variable {timedOut : ℕ → Bool}

/-- The body of the loop in `resend`: a descriptor is treated as delivered only if the cumulative
number of its destination covers it.  No other one leaves `FragsToAck`. -/
lemma Inv.resendFrag (hd : d ∈ (s.messages m).fragsToAck)
    (hs : s.resendFrag path m timedOut d = some s') :
    s'.Inv path ∧ (∀ e ∈ (s.messages m).fragsToAck, e ≠ d → e ∈ (s'.messages m).fragsToAck) ∧
      (s'.books = s.books ∨ s'.books = s.deliveredBooks d ∧
        (s.frags d).fragSeq ≤
          (s.ackInfo (s.frags d).globalDestProc).deliveredLargestInorderSeq) := by
  obtain ⟨hparent, hq⟩ := h.toAck m d hd
  simp only [Sender.resendFrag] at hs
  split_ifs at hs with hcovered htimedOut
  · have hlogged : Sender.Inv path { s with treatedAsDelivered := s.treatedAsDelivered ++
        [((s.frags d).globalDestProc, (s.frags d).fragSeq)] } := h.of_eq rfl rfl rfl rfl
    have hlet := hlogged.setMessage (m := m)
      (f := fun msg => { msg with fragsToAck := msg.fragsToAck.erase d })
      (.refl _) erase_sublist
    generalize ht : (Sender.setMessage _ m fun msg =>
      { msg with fragsToAck := msg.fragsToAck.erase d }) = t at hs hlet
    have hmessage : t.messages m =
        { s.messages m with fragsToAck := (s.messages m).fragsToAck.erase d } := by
      rw [← ht, setMessage_messages_self]
    have hunlisted : t.Unlisted d := by
      intro m'
      by_cases hm : m' = m
      · subst hm
        rw [hmessage]
        exact ⟨h.notMem_toSend (by rw [hq]; decide), (h.nodupAck m').not_mem_erase⟩
      · rw [← ht, setMessage_messages_ne _ hm]
        exact h.onlyIn hparent m' hm
    obtain ⟨hinv, hbooks, hloses⟩ := hlet.freeDelivered (by rw [← ht]; exact hparent) hunlisted hs
    refine ⟨hinv, fun e he hne => (hloses m).2.2 e ?_ hne, .inr ⟨?_, hcovered⟩⟩
    · rw [hmessage]
      exact (mem_erase_of_ne hne).mpr he
    · rw [hbooks, ← ht]
      rfl
  · cases hs
    refine ⟨?_, fun e he hne => ?_, .inl rfl⟩
    · exact Inv.setMessage (h.requeue hparent hq ⟨rfl, rfl, rfl, rfl, rfl⟩) (.refl _)
        (.refl _)
    · rw [setMessage_messages_self, Sender.requeue, setMessage_messages_self, setFrag_messages]
      exact (mem_erase_of_ne hne).mpr he
  · exact some.inj hs ▸ ⟨h, fun e he _ => he, .inl rfl⟩

lemma Inv.one_le_fragSeq (hdoAck : path.doAck = true) (hd : d ∈ (s.messages m).fragsToAck) :
    1 ≤ (s.frags d).fragSeq := by
  obtain ⟨hparent, hq⟩ := h.toAck m d hd
  have hloaded := h.loaded d m hparent
  rw [hloaded.fragSeq (by rw [hq]; decide)]
  exact hloaded.numbered (by rw [DataHeader.wantsAck, hdoAck, Bool.true_or])

private lemma Inv.resend_loop (hdoAck : path.doAck = true) (l : List ℕ) (hl : l.Nodup)
    (hsub : ∀ d ∈ l, d ∈ (s.messages m).fragsToAck)
    (hs : l.foldlM (Sender.resendFrag path m timedOut) s = some s') :
    s'.Inv path ∧ { s'.books with treatedAsDelivered := s.treatedAsDelivered } = s.books ∧
      ∀ p ∈ s'.treatedAsDelivered, p ∈ s.treatedAsDelivered ∨
        (1 ≤ p.2 ∧ p.2 ≤ (s.ackInfo p.1).deliveredLargestInorderSeq) := by
  induction l generalizing s with
  | nil => exact some.inj hs ▸ ⟨h, rfl, fun p hp => .inl hp⟩
  | cons d l ih =>
    obtain ⟨t, ht, hs⟩ := bind_eq_some_iff.mp hs
    have hd := hsub d mem_cons_self
    obtain ⟨hinv, hkeep, hbooks⟩ := h.resendFrag hd ht
    obtain ⟨hnotMem, hl⟩ := nodup_cons.mp hl
    obtain ⟨hinv', hbooks', htreated⟩ := ih hinv hl (fun e he =>
      hkeep e (hsub e (mem_cons_of_mem _ he)) fun heq => hnotMem (heq ▸ he)) hs
    have hinfo : t.ackInfo = s.ackInfo := by
      obtain hbooks | ⟨hbooks, -⟩ := hbooks
      · exact congrArg Books.ackInfo hbooks
      · exact congrArg Books.ackInfo hbooks
    rw [hinfo] at htreated
    refine ⟨hinv', ?_, fun p hp => ?_⟩
    · have hsame : { t.books with treatedAsDelivered := s.treatedAsDelivered } = s.books := by
        obtain hbooks | ⟨hbooks, -⟩ := hbooks
        · rw [hbooks]
          rfl
        · rw [hbooks]
          rfl
      rw [← hsame, ← hbooks']
    · obtain hp | hp := htreated p hp
      · obtain hbooks | ⟨hbooks, hcovered⟩ := hbooks
        · have hlog : t.treatedAsDelivered = s.treatedAsDelivered :=
            congrArg Books.treatedAsDelivered hbooks
          exact .inl (hlog ▸ hp)
        · have hlog : t.treatedAsDelivered = _ := congrArg Books.treatedAsDelivered hbooks
          rw [hlog] at hp
          refine (mem_append.mp hp).imp_right fun hp => ?_
          rw [mem_singleton.mp hp]
          exact ⟨h.one_le_fragSeq hdoAck hd, hcovered⟩
      · exact .inr hp

/-- **What `resend` treats as delivered** is covered by the cumulative number of its destination. -/
theorem Inv.resend (hs : s.resend path m timedOut = some s') :
    s'.Inv path ∧ { s'.books with treatedAsDelivered := s.treatedAsDelivered } = s.books ∧
      ∀ p ∈ s'.treatedAsDelivered, p ∈ s.treatedAsDelivered ∨
        (1 ≤ p.2 ∧ p.2 ≤ (s.ackInfo p.1).deliveredLargestInorderSeq) := by
  unfold Sender.resend at hs
  split_ifs at hs with hdoAck
  exact h.resend_loop hdoAck _ (h.nodupAck m) (fun d hd => hd) hs

end Sender

end Lampi
