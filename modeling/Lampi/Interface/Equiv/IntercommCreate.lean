import Mathlib.Data.List.GetD
import Mathlib.Data.List.Nodup
import Lampi.Interface.IntercommCreate

/-!
# When the members of an inter-communicator agree on its context ID

Each member compares its own rank with that of the other leader to decide where the context ID comes
from.  `intercommCreate_agrees_iff`: all members of both groups issue matching broadcasts and end
with one new context ID just if in each group the leader has rank 0, or all members come to the same
decision.
-/

namespace Lampi

open MessagePassing CreateArgs Function List CreateSide

/-! ### What a process issues -/

/-- The history that a broadcast leaves. -/
def bcastLog (root : ℕ) : CreateTag → List (List ℤ)
  | .issued => [[(root : ℤ)]]
  | _ => []

def IsHistory (tag : CreateTag) : Prop := tag = .issued ∨ tag = .generated

lemma IsHistory.ne {tag : CreateTag} (htag : IsHistory tag) :
    .user ≠ tag ∧ .intercomm ≠ tag ∧ .bcast ≠ tag := by
  rcases htag with rfl | rfl <;> decide

namespace CreateArgs

variable {args : CreateArgs} {ctl : ContextIDCtl} {tag : CreateTag} {α : Type}
  {k : List ℤ → CreateProc α}

lemma ulmBcast_logs (htag : IsHistory tag) (root : ℕ) (value : List ℤ) :
    (args.ulmBcast root value).Logs args.localGlobalRank tag (fun _ => True)
      (bcastLog root tag) := by
  have hrest : Proc.Logs args.localGlobalRank tag (fun _ => True)
      (if args.procID = root then do
        Proc.sendToAll .bcast value (args.members.filter (· ≠ args.localGlobalRank))
        pure value
      else Proc.recvFrom (args.members.getD root 0) .bcast) [] := by
    split_ifs
    · exact Proc.Logs.bind_of_nil (Proc.logs_sendToAll htag.ne.2.2 _ _) fun _ _ => rfl
    · exact ⟨htag.ne.2.2, fun _ _ => rfl⟩
  change Proc.Logs _ _ _ (Proc.send _ CreateTag.issued _ _) _
  rw [Proc.Logs]
  rcases htag with rfl | rfl
  · rw [if_pos ⟨rfl, rfl⟩]
    exact ⟨[], rfl, hrest⟩
  · rw [if_neg fun h => absurd h.2 (by decide)]
    exact hrest

lemma peerExchange_logs (htag : IsHistory tag) (sendBuff : List ℤ) (lenRecvBuff : ℕ) :
    (args.peerExchange sendBuff lenRecvBuff).Logs args.localGlobalRank tag (fun _ => True) [] := by
  unfold peerExchange
  split_ifs
  · exact Proc.Logs.send_of_ne htag.ne.1 ⟨htag.ne.1, fun _ _ => rfl⟩
  · exact fun _ => rfl

def generatedLog (args : CreateArgs) (ctl : ContextIDCtl) : CreateTag → List (List ℤ)
  | .generated => if args.procID = 0 then [[ctl.generate.1]] else []
  | _ => []

lemma getNewContextID_logs (htag : IsHistory tag) (outputContextID : List ℤ) :
    (args.getNewContextID ctl outputContextID).Logs args.localGlobalRank tag (fun _ => True)
      (args.generatedLog ctl tag ++ bcastLog 0 tag) := by
  unfold getNewContextID
  split_ifs with hroot
  · change Proc.Logs _ _ _ (Proc.send _ CreateTag.generated _ _) _
    rw [Proc.Logs]
    have hbcast : (args.ulmBcast 0 [ctl.generate.1]).Logs args.localGlobalRank tag
        (fun _ => True) (bcastLog 0 tag) := ulmBcast_logs htag 0 _
    rcases htag with rfl | rfl
    · rw [if_neg fun h => absurd h.2 (by decide)]
      exact hbcast
    · rw [if_pos ⟨rfl, rfl⟩]
      refine ⟨[], ?_, hbcast⟩
      simp [generatedLog, hroot, bcastLog]
  · have hnone : args.generatedLog ctl tag = [] := by
      rcases htag with rfl | rfl
      · rfl
      · exact if_neg hroot
    rw [hnone]
    exact ulmBcast_logs htag 0 outputContextID

/-- The history of the last part: it depends on how the process decides. -/
def contextIDLog (args : CreateArgs) (ctl : ContextIDCtl) (tag : CreateTag) : List (List ℤ) :=
  if args.localGlobalRank < args.remoteGlobalRank then
    args.generatedLog ctl tag ++ bcastLog 0 tag
  else bcastLog args.localLeader tag

lemma newContextID_logs (htag : IsHistory tag) :
    (args.newContextID ctl).Logs args.localGlobalRank tag (fun _ => True)
      (args.contextIDLog ctl tag) := by
  unfold newContextID contextIDLog
  by_cases hrank : args.localGlobalRank < args.remoteGlobalRank
  · rw [if_pos hrank, if_pos hrank, ← append_nil (args.generatedLog ctl tag ++ bcastLog 0 tag)]
    refine Proc.Logs.bind (getNewContextID_logs htag _) fun id => ?_
    split_ifs
    · exact Proc.Logs.send_of_ne htag.ne.2.1 fun _ => rfl
    · exact fun _ => rfl
  · split_ifs
    · exact ⟨htag.ne.2.1, fun _ => ulmBcast_logs htag _ _⟩
    · exact ulmBcast_logs htag _ _

/-- **What a process issues** in `ulm_intercomm_create` if it comes to the end without an error. -/
theorem ulmIntercommCreate_logs (args : CreateArgs) (ctl : ContextIDCtl) (htag : IsHistory tag) :
    (args.ulmIntercommCreate ctl).Logs args.localGlobalRank tag (fun r => ∃ x, r = .ok x)
      (bcastLog args.localLeader tag ++ (bcastLog args.localLeader tag ++
        args.contextIDLog ctl tag)) := by
  unfold ulmIntercommCreate
  split_ifs
  · refine Proc.Logs.bind_of_nil (peerExchange_logs htag _ _) fun size => ?_
    refine Proc.Logs.bind (ulmBcast_logs htag _ _) fun size => ?_
    refine Proc.Logs.bind_of_nil (peerExchange_logs htag _ _) fun list => ?_
    refine Proc.Logs.bind (ulmBcast_logs htag _ _) fun list => ?_
    split_ifs
    · rintro ⟨x, hx⟩
      cases hx
    · rw [← append_nil (args.contextIDLog ctl tag)]
      exact Proc.Logs.bind (newContextID_logs htag) fun _ _ => rfl
  · rintro ⟨x, hx⟩
    cases hx

/-! ### How a process gets the context ID -/

lemma newContextID_bind_of_lt (h : args.localGlobalRank < args.remoteGlobalRank) :
    (args.newContextID ctl).bind k = (args.getNewContextID ctl [-1]).bind fun id =>
      if args.procID = args.localLeader then
        .send args.remoteGlobalRank CreateTag.intercomm id (k id)
      else k id := by
  unfold newContextID
  rw [if_pos h]
  refine (Proc.bind_bind _ _ _).trans (congrArg _ (funext fun id => ?_))
  split_ifs
  · rfl
  · rfl

lemma newContextID_bind_leader (h : ¬args.localGlobalRank < args.remoteGlobalRank)
    (hleader : args.procID = args.localLeader) :
    (args.newContextID ctl).bind k = .recv args.remoteGlobalRank CreateTag.intercomm fun id =>
      (args.ulmBcast args.localLeader id).bind k := by
  unfold newContextID
  rw [if_neg h, if_pos hleader]
  rfl

lemma newContextID_bind_member (h : ¬args.localGlobalRank < args.remoteGlobalRank)
    (hleader : args.procID ≠ args.localLeader) :
    (args.newContextID ctl).bind k = (args.ulmBcast args.localLeader [-1]).bind k := by
  unfold newContextID
  rw [if_neg h, if_neg hleader]
  rfl

lemma newContextID_bind_of_root_zero (h : args.localLeader = 0) (hproc : args.procID ≠ 0) :
    (args.newContextID ctl).bind k = (args.ulmBcast 0 [-1]).bind k := by
  have hleader : args.procID ≠ args.localLeader := fun heq => hproc (heq.trans h)
  by_cases hlt : args.localGlobalRank < args.remoteGlobalRank
  · rw [newContextID_bind_of_lt hlt, getNewContextID, if_neg hproc]
    simp only [if_neg hleader]
  · rw [newContextID_bind_member hlt hleader, h]

end CreateArgs

/-! ### The two groups -/

variable {root p q : ℕ} {b g : Bool} {side : CreateSide} {peer : List ℕ} {sides : Bool → CreateSide}
  {ctl : ℕ → ContextIDCtl} {tag : CreateTag} {α : Type} {net : Net ℕ CreateTag (List ℤ) α}

namespace CreateSide

/-- The arguments of member `p` of a group. -/
abbrev argsOf (side : CreateSide) (peer : List ℕ) (p : ℕ) : CreateArgs :=
  side.args peer (side.members.idxOf p)

def leader (side : CreateSide) : ℕ := side.members.getD side.localLeader 0

lemma localGlobalRank_argsOf (hp : p ∈ side.members) :
    (side.argsOf peer p).localGlobalRank = p := by
  have hlt : side.members.idxOf p < side.members.length := idxOf_lt_length_of_mem hp
  change side.members.getD (side.members.idxOf p) 0 = p
  rw [getD_eq_getElem _ _ hlt]
  exact getElem_idxOf hlt

lemma procID_argsOf_eq_iff (hnodup : side.members.Nodup) (hroot : root < side.members.length)
    (hp : p ∈ side.members) :
    (side.argsOf peer p).procID = root ↔ p = side.members.getD root 0 := by
  have hlt : side.members.idxOf p < side.members.length := idxOf_lt_length_of_mem hp
  rw [getD_eq_getElem _ _ hroot]
  constructor
  · rintro rfl
    exact (getElem_idxOf hlt).symm
  · rintro rfl
    exact hnodup.idxOf_getElem root hroot

lemma getD_mem (hroot : root < side.members.length) : side.members.getD root 0 ∈ side.members := by
  rw [getD_eq_getElem _ _ hroot]
  exact getElem_mem hroot

end CreateSide

/-- Two disjoint groups that call `ulm_intercomm_create` with each other.  Each names its own
leader, and the other one by its rank in a communicator that contains all. -/
structure ValidCreate (peer : List ℕ) (sides : Bool → CreateSide) : Prop where
  nodup : ∀ b, (sides b).members.Nodup
  disjoint : ∀ p, p ∈ (sides false).members → p ∉ (sides true).members
  leader_lt : ∀ b, (sides b).localLeader < (sides b).members.length
  peer_nodup : peer.Nodup
  mem_peer : ∀ b, ∀ p ∈ (sides b).members, p ∈ peer
  remote : ∀ b, peer[(sides b).remoteLeader]? = some (sides !b).leader

def sideOf (sides : Bool → CreateSide) (p : ℕ) : Bool := decide (p ∈ (sides true).members)

/-- In each group all members decide in the same way about the generation of the context ID, or it
does not matter since the leader has rank 0. -/
def SameDecision (sides : Bool → CreateSide) : Prop :=
  ∀ b, (sides b).localLeader = 0 ∨ ∀ p ∈ (sides b).members, ∀ q ∈ (sides b).members,
    p < (sides !b).leader ↔ q < (sides !b).leader

/-- All members of both groups call `ulm_intercomm_create`: those of a group issue the same
broadcasts, every run ends, and all have the other group and one context ID, generated once. -/
structure CreateAgrees (peer : List ℕ) (sides : Bool → CreateSide) (ctl : ℕ → ContextIDCtl) :
    Prop where
  ends : ∃ bound, ∀ n net, Steps n (ulmIntercommCreate.start peer sides ctl) net → n ≤ bound
  sameBroadcasts : ∀ net, Reaches (ulmIntercommCreate.start peer sides ctl) net →
    ∀ b, ∀ p ∈ (sides b).members, ∀ q ∈ (sides b).members,
      net.chan (p, p, .issued) <+: net.chan (q, q, .issued) ∨
        net.chan (q, q, .issued) <+: net.chan (p, p, .issued)
  atEnd : ∀ net, Reaches (ulmIntercommCreate.start peer sides ctl) net → Stopped net →
    (∀ b, ∀ p ∈ (sides b).members, ∀ q ∈ (sides b).members,
      net.chan (p, p, .issued) = net.chan (q, q, .issued)) ∧
    ∃ id : ℤ,
      (∀ b, ∀ p ∈ (sides b).members,
        net.procs p = .done (.ok (id, (sides !b).members.map Int.ofNat))) ∧
      ∃ r, net.chan (r, r, .generated) = [[id]] ∧ ∀ q ≠ r, net.chan (q, q, .generated) = []

/-! ### Broadcasts -/

/-- No message is under way; only the history is there. -/
def Quiet {α : Type} (net : Net ℕ CreateTag (List ℤ) α) : Prop :=
  ∀ p q tag, ¬IsHistory tag → net.chan (p, q, tag) = []

/-- What a member does in a broadcast after it has been noted. -/
def bcastRest (args : CreateArgs) (root : ℕ) (value : List ℤ) : CreateProc (List ℤ) :=
  if args.procID = root then do
    Proc.sendToAll .bcast value (args.members.filter (· ≠ args.localGlobalRank))
    pure value
  else Proc.recvFrom (args.members.getD root 0) .bcast

section Bcast

variable (hnodup : side.members.Nodup) (value : ℕ → List ℤ) (k : ℕ → List ℤ → CreateProc α)
  (hquiet : Quiet net)
  (h : ∀ p ∈ side.members, net.procs p = ((side.argsOf peer p).ulmBcast root (value p)).bind (k p))

include hnodup hquiet h

private lemma reaches_noted :
    ∃ net', Reaches net net' ∧ Quiet net' ∧
      (∀ p ∈ side.members,
        net'.procs p = (bcastRest (side.argsOf peer p) root (value p)).bind (k p)) ∧
      ∀ p ∉ side.members, net'.procs p = net.procs p := by
  have hnoted := reaches_sendAll hnodup (fun p => p) (fun _ => CreateTag.issued)
    (fun _ => [(root : ℤ)]) (fun p => (bcastRest (side.argsOf peer p) root (value p)).bind (k p))
    net fun p hp => (h p hp).trans
      (congrArg (fun q => Proc.send q CreateTag.issued [(root : ℤ)]
        ((bcastRest (side.argsOf peer p) root (value p)).bind (k p))) (localGlobalRank_argsOf hp))
  refine ⟨_, hnoted, ?_, fun p hp => if_pos hp, fun p hp => if_neg hp⟩
  intro p q tag htag
  have hne : ¬(p ∈ side.members ∧ (q, tag) = (p, CreateTag.issued)) := by
    rintro ⟨-, heq⟩
    exact htag (.inl (congrArg Prod.snd heq))
  dsimp only
  rw [if_neg hne]
  exact hquiet p q tag htag

/-- **A broadcast**: if all members of a group issue it with one root, then all get what the root
has. -/
theorem reaches_ulmBcast (hroot : root < side.members.length) :
    ∃ net', Reaches net net' ∧ Quiet net' ∧
      (∀ p ∈ side.members, net'.procs p = k p (value (side.members.getD root 0))) ∧
      ∀ p ∉ side.members, net'.procs p = net.procs p := by
  obtain ⟨r, hr⟩ : ∃ r, side.members.getD root 0 = r := ⟨_, rfl⟩
  have hmem : r ∈ side.members := hr ▸ getD_mem hroot
  have hiff : ∀ p ∈ side.members, (side.argsOf peer p).procID = root ↔ p = r := by
    intro p hp
    rw [procID_argsOf_eq_iff hnodup hroot hp, hr]
  obtain ⟨net1, hreach, hquiet1, hprocs, hothers⟩ := reaches_noted hnodup value k hquiet h
  -- the root sends to the others
  have hrootProg : net1.procs r =
      (Proc.sendToAll CreateTag.bcast (value r) (side.members.filter (· ≠ r))).bind
        fun _ => k r (value r) := by
    rw [hprocs r hmem, bcastRest, if_pos ((hiff r hmem).mpr rfl), localGlobalRank_argsOf hmem]
    exact Proc.bind_bind _ _ _
  obtain ⟨net2, hsent, hprocs2, hchan2⟩ : ∃ net2, Reaches net1 net2 ∧
      net2.procs = update net1.procs r (k r (value r)) ∧
      net2.chan = fun key =>
        if key.1 = r ∧ key.2.1 ∈ side.members.filter (· ≠ r) ∧ key.2.2 = CreateTag.bcast then
          net1.chan key ++ [value r]
        else net1.chan key :=
    ⟨_, reaches_sendToAll (hnodup.filter _) CreateTag.bcast (value r) _ net1 hrootProg, rfl, rfl⟩
  -- the others receive
  have hothersProg : ∀ p ∈ side.members.filter (· ≠ r),
      net2.procs p = .recv r CreateTag.bcast (k p) := by
    intro p hp
    obtain ⟨hp, hne⟩ := mem_filter.mp hp
    have hne : p ≠ r := by simpa using hne
    rw [hprocs2, update_of_ne hne, hprocs p hp, bcastRest, if_neg (mt (hiff p hp).mp hne)]
    change Proc.recv (side.members.getD root 0) _ _ = _
    rw [hr]
    rfl
  have hmsg : ∀ p ∈ side.members.filter (· ≠ r),
      net2.chan (r, p, CreateTag.bcast) = value r :: [] := by
    intro p hp
    have hempty := hquiet1 r p CreateTag.bcast (by simp [IsHistory])
    rw [hchan2]
    dsimp only
    rw [if_pos ⟨rfl, hp, rfl⟩, hempty]
    rfl
  have hreceived := reaches_recvAll (hnodup.filter _) (fun _ => r) (fun _ => CreateTag.bcast)
    (fun _ => value r) (fun _ => []) k net2 hothersProg hmsg
  refine ⟨_, (hreach.trans hsent).trans hreceived, ?_, ?_, ?_⟩
  · intro p q tag htag
    simp only [hchan2]
    split_ifs with hq hp
    · rfl
    · exact absurd ⟨hp.2.1, hp.1, hp.2.2⟩ hq
    · exact hquiet1 p q tag htag
  · intro p hp
    rw [hr]
    by_cases hpr : p = r
    · subst hpr
      simp [hprocs2]
    · exact if_pos (mem_filter.mpr ⟨hp, by simpa using hpr⟩)
  · intro p hp
    have hne : p ≠ r := fun heq => hp (heq ▸ hmem)
    dsimp only
    rw [if_neg fun hmem => hp (mem_filter.mp hmem).1, hprocs2, update_of_ne hne]
    exact hothers p hp

end Bcast

/-- Where the program of a process has come to its end, all that it is to write is written. -/
lemma chan_eq_of_done {α ε : Type} {net net' : Net ℕ CreateTag (List ℤ) (Except ε α)}
    {log : List (List ℤ)} {x : α} (hreach : Reaches net net') (hempty : net.chan (p, p, tag) = [])
    (hlog : (net.procs p).Logs p tag (fun r => ∃ x, r = .ok x) log)
    (hdone : net'.procs p = .done (.ok x)) : net'.chan (p, p, tag) = log := by
  obtain ⟨n, hn⟩ := hreach
  obtain ⟨written, rest, rfl, hchan, hrest⟩ := hn.logs hlog
  rw [hdone] at hrest
  have hnil : rest = [] := hrest ⟨x, rfl⟩
  rw [hchan, hempty, hnil, append_nil, nil_append]

namespace ValidCreate

/-- What a member does with the list of the other group. -/
def withGroup (args : CreateArgs) (ctl : ContextIDCtl) (remoteGroupList : List ℤ) :
    CreateProc (Except MpiErr (ℤ × List ℤ)) :=
  if args.inBothGroups remoteGroupList then .done (.error .arg)
  else (args.newContextID ctl).bind fun id => .done (.ok (id.headD (-1), remoteGroupList))

/-- What a member does with the size of the other group. -/
def withSize (args : CreateArgs) (ctl : ContextIDCtl) (remoteGroupSize : List ℤ) :
    CreateProc (Except MpiErr (ℤ × List ℤ)) :=
  (args.peerExchange (args.members.map Int.ofNat) (remoteGroupSize.headD 0).toNat).bind fun list =>
    (args.ulmBcast args.localLeader list).bind (withGroup args ctl)

def finish (remote : CreateSide) (id : List ℤ) : CreateProc (Except MpiErr (ℤ × List ℤ)) :=
  .done (.ok (id.headD (-1), remote.members.map Int.ofNat))

/-- The process that generates the context ID for a group. -/
def generator (side : CreateSide) : ℕ := side.members.getD 0 0

/-- What a member of the generating group does with the context ID: the leader passes it on. -/
def passOn (sides : Bool → CreateSide) (g : Bool) (k : ℕ → List ℤ → CreateProc α) (p : ℕ)
    (id : List ℤ) : CreateProc α :=
  if p = (sides g).leader then .send (sides !g).leader CreateTag.intercomm id (k p id) else k p id

def issuedLog (side : CreateSide) (remoteLeader p : ℕ) : List (List ℤ) :=
  [[(side.localLeader : ℤ)], [(side.localLeader : ℤ)],
    [((if p < remoteLeader then 0 else side.localLeader : ℕ) : ℤ)]]

/-- No message is under way, the members are at these programs, and nobody else does anything. -/
structure Standing (sides : Bool → CreateSide)
    (prog : Bool → ℕ → CreateProc (Except MpiErr (ℤ × List ℤ)))
    (net : Net ℕ CreateTag (List ℤ) (Except MpiErr (ℤ × List ℤ))) : Prop where
  quiet : Quiet net
  member : ∀ b, ∀ p ∈ (sides b).members, net.procs p = prog b p
  other : ∀ p, (∀ b, p ∉ (sides b).members) → net.procs p = .done (.error .arg)

/-- From the first programs the members come to the others. -/
def Leads (sides : Bool → CreateSide)
    (prog prog' : Bool → ℕ → CreateProc (Except MpiErr (ℤ × List ℤ))) : Prop :=
  ∀ net, Standing sides prog net → ∃ net', Reaches net net' ∧ Standing sides prog' net'

variable {prog prog' prog'' : Bool → ℕ → CreateProc (Except MpiErr (ℤ × List ℤ))}

lemma Leads.trans (h : Leads sides prog prog') (h' : Leads sides prog' prog'') :
    Leads sides prog prog'' := by
  intro net hnet
  obtain ⟨net1, hreach1, hnet1⟩ := h net hnet
  obtain ⟨net2, hreach2, hnet2⟩ := h' net1 hnet1
  exact ⟨net2, hreach1.trans hreach2, hnet2⟩

lemma leads_of_eq (heq : ∀ b, ∀ p ∈ (sides b).members, prog b p = prog' b p) :
    Leads sides prog prog' := fun net hnet =>
  ⟨net, Reaches.refl net, hnet.quiet, fun b p hp => (hnet.member b p hp).trans (heq b p hp),
    hnet.other⟩

lemma ulmIntercommCreate_of_argsOk {args : CreateArgs} {ctl : ContextIDCtl}
    (h : args.argsOk = true) :
    args.ulmIntercommCreate ctl =
      (args.peerExchange [(args.members.length : ℤ)] 1).bind fun size =>
        (args.ulmBcast args.localLeader size).bind (withSize args ctl) := if_pos h

lemma start_procs_of_not_mem (hp : ∀ b, p ∉ (sides b).members) :
    (ulmIntercommCreate.start peer sides ctl).procs p = .done (.error .arg) :=
  (if_neg (hp false)).trans (if_neg (hp true))

/-- The broadcasts of two members are the same just if it does not matter how they decide. -/
lemma issuedLog_eq_iff {side : CreateSide} {remoteLeader : ℕ} :
    issuedLog side remoteLeader p = issuedLog side remoteLeader q ↔
      side.localLeader = 0 ∨ (p < remoteLeader ↔ q < remoteLeader) := by
  simp only [issuedLog, cons.injEq, and_true, true_and, Int.natCast_inj]
  split_ifs with hp hq hq <;> omega

/-! ### A run to the end -/

variable (hvalid : ValidCreate peer sides)

include hvalid

lemma leader_mem (b : Bool) :
    (sides b).leader ∈ (sides b).members := getD_mem (hvalid.leader_lt b)

lemma not_mem_not (hp : p ∈ (sides b).members) : p ∉ (sides !b).members := by
  cases b with
  | false => exact hvalid.disjoint p hp
  | true => exact fun h => hvalid.disjoint p h hp

lemma leader_ne (b : Bool) : (sides b).leader ≠ (sides !b).leader :=
  fun h => hvalid.not_mem_not (hvalid.leader_mem b) (h ▸ hvalid.leader_mem (!b))

lemma remoteGlobalRank_argsOf (b : Bool) (p : ℕ) :
    ((sides b).argsOf peer p).remoteGlobalRank = (sides !b).leader := by
  change peer.getD (sides b).remoteLeader 0 = _
  rw [getD_eq_getElem?_getD, hvalid.remote b]
  rfl

section

variable (hp : p ∈ (sides b).members)

include hp

lemma rank_lt_iff : ((sides b).argsOf peer p).localGlobalRank <
    ((sides b).argsOf peer p).remoteGlobalRank ↔ p < (sides !b).leader := by
  rw [localGlobalRank_argsOf hp, hvalid.remoteGlobalRank_argsOf]

lemma procID_eq_localLeader_iff :
    ((sides b).argsOf peer p).procID = ((sides b).argsOf peer p).localLeader ↔
      p = (sides b).leader := procID_argsOf_eq_iff (hvalid.nodup b) (hvalid.leader_lt b) hp

lemma argsOk : ((sides b).argsOf peer p).argsOk = true := by
  obtain ⟨hlt, hget⟩ := List.getElem?_eq_some_iff.mp (hvalid.remote b)
  have hne : peer.idxOf p ≠ (sides b).remoteLeader := by
    intro heq
    have hleader : p = (sides !b).leader := by
      rw [← hget]
      simp only [← heq, getElem_idxOf]
    exact hvalid.not_mem_not hp (hleader ▸ hvalid.leader_mem (!b))
  have hleader : (sides b).localLeader < (sides b).members.length := hvalid.leader_lt b
  unfold CreateArgs.argsOk
  rw [localGlobalRank_argsOf hp]
  simp [args, hlt, hne, hleader]

end

lemma inBothGroups (b : Bool) (p : ℕ) :
    ((sides b).argsOf peer p).inBothGroups ((sides !b).members.map Int.ofNat) = false := by
  unfold CreateArgs.inBothGroups
  rw [any_eq_false]
  intro q hq
  rw [Bool.not_eq_true, any_eq_false]
  intro r hr
  obtain ⟨q', hq', rfl⟩ := mem_map.mp hr
  have hne : Int.ofNat q' ≠ (q : ℤ) := fun h =>
    hvalid.not_mem_not hq (Int.ofNat.inj h ▸ hq')
  rw [beq_iff_eq]
  exact hne

lemma start_procs (hp : p ∈ (sides b).members) :
    (ulmIntercommCreate.start peer sides ctl).procs p =
      ((sides b).argsOf peer p).ulmIntercommCreate (ctl p) := by
  cases b with
  | false => exact if_pos hp
  | true => exact (if_neg (hvalid.not_mem_not hp)).trans (if_pos hp)

lemma sideOf_eq (hp : p ∈ (sides b).members) : sideOf sides p = b := by
  cases b with
  | false => exact decide_eq_false (hvalid.not_mem_not hp)
  | true => exact decide_eq_true hp

variable (k : Bool → ℕ → List ℤ → CreateProc (Except MpiErr (ℤ × List ℤ)))

lemma leads_ulmBcast (b : Bool) (hroot : root < (sides b).members.length) (value : ℕ → List ℤ)
    (h : ∀ p ∈ (sides b).members,
      prog b p = (((sides b).argsOf peer p).ulmBcast root (value p)).bind (k b p)) :
    Leads sides prog (update prog b fun p => k b p (value ((sides b).members.getD root 0))) := by
  intro net hnet
  obtain ⟨net', hreach, hquiet, hin, hout⟩ := reaches_ulmBcast (hvalid.nodup b) value (k b)
    hnet.quiet (fun p hp => (hnet.member b p hp).trans (h p hp)) hroot
  refine ⟨net', hreach, hquiet, fun b' p hp => ?_,
    fun p hp => (hout p (hp b)).trans (hnet.other p hp)⟩
  rcases eq_or_ne b' b with rfl | hne
  · rw [update_self, hin p hp]
  · obtain rfl := Bool.eq_not_of_ne hne
    have hnot := hvalid.not_mem_not hp
    rw [Bool.not_not] at hnot
    rw [update_of_ne hne, hout p hnot, hnet.member _ p hp]

lemma leads_bcasts (value : Bool → ℕ → List ℤ) :
    Leads sides (fun b p => (((sides b).argsOf peer p).ulmBcast (sides b).localLeader
      (value b p)).bind (k b p)) fun b p => k b p (value b (sides b).leader) := by
  refine (hvalid.leads_ulmBcast k false (hvalid.leader_lt false) (value false) fun _ _ => rfl).trans
    ((hvalid.leads_ulmBcast k true (hvalid.leader_lt true) (value true) fun _ _ => rfl).trans
      (leads_of_eq fun b p _ => ?_))
  cases b with
  | false => rfl
  | true => rfl

lemma leads_peerExchange (sendBuff : Bool → List ℤ) (len : Bool → ℕ) :
    Leads sides (fun b p => (((sides b).argsOf peer p).peerExchange (sendBuff b) (len b)).bind
      (k b p)) fun b p =>
        k b p (if p = (sides b).leader then (sendBuff !b).take (len b) else []) := by
  intro net hnet
  obtain ⟨leaders, hleaders, hmem⟩ : ∃ leaders : List ℕ, leaders.Nodup ∧
      ∀ p, p ∈ leaders ↔ ∃ b, (sides b).leader = p :=
    ⟨[(sides false).leader, (sides true).leader], by simpa using hvalid.leader_ne false,
      fun p => by simp [eq_comm]⟩
  -- what a leader does, by its group
  have hside : ∀ b, sideOf sides (sides b).leader = b := fun b =>
    hvalid.sideOf_eq (hvalid.leader_mem b)
  have hback : ∀ p ∈ leaders, (sides !sideOf sides p).leader ∈ leaders ∧
      (sides !sideOf sides (sides !sideOf sides p).leader).leader = p := by
    intro p hp
    obtain ⟨b, rfl⟩ := (hmem p).mp hp
    rw [hside, hside, Bool.not_not]
    exact ⟨(hmem _).mpr ⟨_, rfl⟩, rfl⟩
  refine ⟨⟨fun p => if p ∈ leaders then k (sideOf sides p) p
    ((sendBuff !sideOf sides p).take (len (sideOf sides p))) else net.procs p, net.chan⟩, ?_,
    hnet.quiet, fun b p hp => ?_, fun p hp => ?_⟩
  · refine reaches_phase hleaders hleaders (fun p => (sides !sideOf sides p).leader)
      (fun p => (sides !sideOf sides p).leader) CreateTag.user (fun p => sendBuff (sideOf sides p))
      (fun p => .recv (sides !sideOf sides p).leader CreateTag.user
        fun m => k (sideOf sides p) p (m.take (len (sideOf sides p))))
      (fun p m => k (sideOf sides p) p (m.take (len (sideOf sides p)))) hback hback ?_
      (fun p hp => if_pos hp) ?_ ?_ rfl
    · intro p hp
      obtain ⟨b, rfl⟩ := (hmem p).mp hp
      have hleader := hvalid.leader_mem b
      rw [hnet.member b _ hleader, peerExchange, if_pos ((hvalid.procID_eq_localLeader_iff
        hleader).mpr rfl), hvalid.remoteGlobalRank_argsOf, hside]
      rfl
    · exact fun p _ => hnet.quiet p _ _ (by simp [IsHistory])
    · intro p
      dsimp only
      split_ifs with hp
      · obtain ⟨b, rfl⟩ := (hmem p).mp hp
        rw [hside, hside]
      · rfl
  · have hiff : p ∈ leaders ↔ p = (sides b).leader := by
      rw [hmem]
      refine ⟨?_, fun heq => ⟨b, heq.symm⟩⟩
      rintro ⟨b', rfl⟩
      rw [← hvalid.sideOf_eq hp, hside]
    simp only [hiff]
    split_ifs with hleader
    · rw [hvalid.sideOf_eq hp]
    · rw [hnet.member b p hp, peerExchange,
        if_neg (mt (hvalid.procID_eq_localLeader_iff hp).mp hleader)]
      rfl
  · refine (if_neg fun hL => ?_).trans (hnet.other p hp)
    obtain ⟨b, rfl⟩ := (hmem p).mp hL
    exact hp b (hvalid.leader_mem b)

variable (ctl)

/-- **The groups are exchanged**: then every member knows the other group. -/
theorem leads_groups :
    Leads sides (fun b p => ((sides b).argsOf peer p).ulmIntercommCreate (ctl p)) fun b p =>
      (((sides b).argsOf peer p).newContextID (ctl p)).bind (finish (sides !b)) := by
  have hexchange := fun (k : Bool → ℕ → List ℤ → _) => hvalid.leads_peerExchange fun b p value =>
    (((sides b).argsOf peer p).ulmBcast (sides b).localLeader value).bind (k b p)
  have hsize := (hexchange (fun b p => withSize ((sides b).argsOf peer p) (ctl p))
    (fun b => [((sides b).members.length : ℤ)]) fun _ => 1).trans (hvalid.leads_bcasts _ _)
  have hlist := (hexchange (fun b p => withGroup ((sides b).argsOf peer p) (ctl p))
    (fun b => (sides b).members.map Int.ofNat) fun b => (sides !b).members.length).trans
      (hvalid.leads_bcasts _ _)
  refine ((leads_of_eq fun b p hp => ?_).trans hsize).trans ((leads_of_eq fun b p hp => ?_).trans
    (hlist.trans (leads_of_eq fun b p hp => ?_)))
  · exact ulmIntercommCreate_of_argsOk (hvalid.argsOk hp)
  · rw [if_pos rfl]
    rfl
  · rw [if_pos rfl, take_of_length_le (by simp), withGroup, hvalid.inBothGroups]
    rfl

lemma generator_mem (b : Bool) :
    generator (sides b) ∈ (sides b).members := getD_mem (Nat.zero_lt_of_lt (hvalid.leader_lt b))

lemma procID_eq_zero_iff (hp : p ∈ (sides b).members) :
    ((sides b).argsOf peer p).procID = 0 ↔ p = generator (sides b) :=
  procID_argsOf_eq_iff (hvalid.nodup b) (Nat.zero_lt_of_lt (hvalid.leader_lt b)) hp

lemma exists_low : ∃ g, (sides g).leader < (sides !g).leader := by
  rcases Nat.lt_or_gt_of_ne (hvalid.leader_ne false) with hlt | hgt
  · exact ⟨false, hlt⟩
  · exact ⟨true, hgt⟩

lemma start_logs (hp : p ∈ (sides b).members) (htag : IsHistory tag) :
    ((ulmIntercommCreate.start peer sides ctl).procs p).Logs p tag (fun r => ∃ x, r = .ok x)
      (bcastLog (sides b).localLeader tag ++ (bcastLog (sides b).localLeader tag ++
        ((sides b).argsOf peer p).contextIDLog (ctl p) tag)) := by
  have hlogs := ulmIntercommCreate_logs ((sides b).argsOf peer p) (ctl p) htag
  rw [localGlobalRank_argsOf hp] at hlogs
  rw [hvalid.start_procs hp]
  exact hlogs

lemma start_logs_issued (hp : p ∈ (sides b).members) :
    ((ulmIntercommCreate.start peer sides ctl).procs p).Logs p .issued (fun r => ∃ x, r = .ok x)
      (issuedLog (sides b) (sides !b).leader p) := by
  have hlogs := hvalid.start_logs ctl hp (.inl rfl)
  have heq : ((sides b).argsOf peer p).contextIDLog (ctl p) .issued =
      [[((if p < (sides !b).leader then 0 else (sides b).localLeader : ℕ) : ℤ)]] := by
    simp only [contextIDLog, hvalid.rank_lt_iff hp]
    split_ifs
    · rfl
    · rfl
  rwa [heq] at hlogs

lemma start_logs_generated (hp : p ∈ (sides b).members) :
    ((ulmIntercommCreate.start peer sides ctl).procs p).Logs p .generated
      (fun r => ∃ x, r = .ok x)
      (if p < (sides !b).leader ∧ p = generator (sides b) then [[(ctl p).generate.1]] else []) := by
  have hlogs := hvalid.start_logs ctl hp (.inr rfl)
  have heq : ((sides b).argsOf peer p).contextIDLog (ctl p) .generated =
      if p < (sides !b).leader ∧ p = generator (sides b) then [[(ctl p).generate.1]] else [] := by
    simp only [contextIDLog, hvalid.rank_lt_iff hp]
    by_cases hlt : p < (sides !b).leader
    · simp only [hlt, if_true, true_and, generatedLog, hvalid.procID_eq_zero_iff hp, bcastLog,
        append_nil]
    · simp only [hlt, if_false, false_and, bcastLog]
  rwa [heq] at hlogs

variable {ctl}

variable (hsame : SameDecision sides)

include hsame

lemma newContextID_bind_of_ne_leader (hhigh : ¬(sides b).leader < (sides !b).leader)
    (hp : p ∈ (sides b).members) (hne : p ≠ (sides b).leader) (k : List ℤ → CreateProc α) :
    (((sides b).argsOf peer p).newContextID (ctl p)).bind k =
      (((sides b).argsOf peer p).ulmBcast (sides b).localLeader [-1]).bind k := by
  have hproc : ((sides b).argsOf peer p).procID ≠ ((sides b).argsOf peer p).localLeader :=
    mt (hvalid.procID_eq_localLeader_iff hp).mp hne
  by_cases hlt : p < (sides !b).leader
  · have hzero : (sides b).localLeader = 0 := by
      rcases hsame b with hzero | hall
      · exact hzero
      · exact absurd ((hall _ (hvalid.leader_mem b) p hp).mpr hlt) hhigh
    have hproc' : ((sides b).argsOf peer p).procID ≠ 0 := fun heq => hproc (heq.trans hzero.symm)
    rw [newContextID_bind_of_root_zero hzero hproc', hzero]
  · exact newContextID_bind_member (mt (hvalid.rank_lt_iff hp).mp hlt) hproc

variable (hlow : (sides g).leader < (sides !g).leader)

include hlow

/-- In the group whose leader has the lower rank, the process of rank 0 decides to generate. -/
lemma generator_lt : generator (sides g) < (sides !g).leader := by
  rcases hsame g with hzero | hall
  · have heq : (sides g).leader = generator (sides g) := by
      rw [leader, hzero, generator]
    exact heq ▸ hlow
  · exact (hall _ (hvalid.generator_mem g) _ (hvalid.leader_mem g)).mpr hlow

lemma newContextID_bind_of_ne_generator (hp : p ∈ (sides g).members)
    (hne : p ≠ generator (sides g)) (k : ℕ → List ℤ → CreateProc α) :
    (((sides g).argsOf peer p).newContextID (ctl p)).bind (k p) =
      (((sides g).argsOf peer p).ulmBcast 0 [-1]).bind (passOn sides g k p) := by
  have hproc : ((sides g).argsOf peer p).procID ≠ 0 := mt (hvalid.procID_eq_zero_iff hp).mp hne
  by_cases hlt : p < (sides !g).leader
  · rw [newContextID_bind_of_lt ((hvalid.rank_lt_iff hp).mpr hlt), getNewContextID, if_neg hproc,
      hvalid.remoteGlobalRank_argsOf]
    simp only [hvalid.procID_eq_localLeader_iff hp]
    rfl
  · -- the leader decides otherwise, so its rank is 0
    have hleader : p ≠ (sides g).leader := fun heq => hlt (heq ▸ hlow)
    have hzero : (sides g).localLeader = 0 := by
      rcases hsame g with hzero | hall
      · exact hzero
      · exact absurd ((hall p hp _ (hvalid.leader_mem g)).mpr hlow) hlt
    have hpass : passOn sides g k p = k p := funext fun id => if_neg hleader
    rw [newContextID_bind_of_root_zero hzero hproc, hpass]

/-- **The generating group**: the context ID of its process of rank 0 comes to all its members. -/
theorem leads_generated {prog : Bool → ℕ → CreateProc (Except MpiErr (ℤ × List ℤ))}
    (h : ∀ p ∈ (sides g).members,
      prog g p = (((sides g).argsOf peer p).newContextID (ctl p)).bind (k g p)) :
    Leads sides prog (update prog g fun p =>
      passOn sides g (k g) p [(ctl (generator (sides g))).generate.1]) := by
  obtain ⟨r, hr⟩ : ∃ r, generator (sides g) = r := ⟨_, rfl⟩
  have hmem : r ∈ (sides g).members := hr ▸ hvalid.generator_mem g
  have hlt : r < (sides !g).leader := hr ▸ hvalid.generator_lt hsame hlow
  -- the others just take part in the broadcast
  have hnoted : Leads sides prog (update prog g fun p => (((sides g).argsOf peer p).ulmBcast 0
      (if p = r then [(ctl r).generate.1] else [-1])).bind (passOn sides g (k g) p)) := by
    intro net hnet
    have hprog : net.procs r = .send r CreateTag.generated [(ctl r).generate.1]
        ((((sides g).argsOf peer r).ulmBcast 0 [(ctl r).generate.1]).bind
          (passOn sides g (k g) r)) := by
      rw [hnet.member g r hmem, h r hmem,
        newContextID_bind_of_lt ((hvalid.rank_lt_iff hmem).mpr hlt),
        getNewContextID, if_pos ((hvalid.procID_eq_zero_iff hmem).mpr hr.symm),
        hvalid.remoteGlobalRank_argsOf]
      simp only [hvalid.procID_eq_localLeader_iff hmem]
      exact congrArg (fun q => Proc.send q CreateTag.generated [(ctl r).generate.1]
        ((((sides g).argsOf peer r).ulmBcast 0 [(ctl r).generate.1]).bind (passOn sides g (k g) r)))
        (localGlobalRank_argsOf hmem)
    refine ⟨_, Reaches.step r (stepOf_send hprog), fun p q tag htag => ?_, fun b p hp => ?_,
      fun p hp => ?_⟩
    · have hne : (p, q, tag) ≠ (r, r, CreateTag.generated) :=
        fun heq => htag (.inr (congrArg (·.2.2) heq))
      exact (update_of_ne hne _ _).trans (hnet.quiet p q tag htag)
    · dsimp only
      rcases eq_or_ne p r with rfl | hpr
      · obtain rfl : b = g := by rw [← hvalid.sideOf_eq hp, hvalid.sideOf_eq hmem]
        rw [update_self, update_self, if_pos rfl]
      · rw [update_of_ne hpr, hnet.member b p hp]
        rcases eq_or_ne b g with rfl | hbg
        · rw [update_self, if_neg hpr, h p hp]
          exact hvalid.newContextID_bind_of_ne_generator hsame hlow hp (hr ▸ hpr) _
        · rw [update_of_ne hbg]
    · exact (update_of_ne (fun heq : p = r => hp g (heq ▸ hmem)) _ _).trans (hnet.other p hp)
  have hbcast := hvalid.leads_ulmBcast (fun b => passOn sides g (k g)) g
    (Nat.zero_lt_of_lt (hvalid.leader_lt g)) (fun p => if p = r then [(ctl r).generate.1] else [-1])
    fun p hp => congrFun (update_self g _ prog) p
  refine hnoted.trans (hbcast.trans (leads_of_eq fun b p hp => ?_))
  rw [update_idem, hr]
  simp only [show (sides g).members.getD 0 0 = r from hr, if_true]

/-- **The other group**: what its leader receives comes to all its members. -/
theorem leads_received (id : List ℤ) {prog : Bool → ℕ → CreateProc (Except MpiErr (ℤ × List ℤ))}
    (h : ∀ p ∈ (sides g).members, prog g p = passOn sides g (k g) p id)
    (h' : ∀ p ∈ (sides !g).members, prog (!g) p =
      (((sides !g).argsOf peer p).newContextID (ctl p)).bind (k (!g) p)) :
    Leads sides prog fun b p => k b p id := by
  have hl := hvalid.leader_mem g
  have hr := hvalid.leader_mem (!g)
  have hhigh : ¬(sides !g).leader < (sides !!g).leader := by
    rw [Bool.not_not]
    exact Nat.not_lt.mpr (Nat.le_of_lt hlow)
  have hne := hvalid.leader_ne g
  -- one leader sends, the other receives
  have hpassed : Leads sides prog fun b p => if b = g then k b p id else
      (((sides b).argsOf peer p).ulmBcast (sides b).localLeader
        (if p = (sides b).leader then id else [-1])).bind (k b p) := by
    intro net hnet
    have hsend : net.procs (sides g).leader = .send (sides !g).leader CreateTag.intercomm id
        (k g (sides g).leader id) := by
      rw [hnet.member g _ hl, h _ hl]
      exact if_pos rfl
    have hrecv : net.procs (sides !g).leader = .recv (sides g).leader CreateTag.intercomm fun id =>
        (((sides !g).argsOf peer (sides !g).leader).ulmBcast (sides !g).localLeader id).bind
          (k (!g) (sides !g).leader) := by
      rw [hnet.member _ _ hr, h' _ hr,
        newContextID_bind_leader (mt (hvalid.rank_lt_iff hr).mp hhigh)
          ((hvalid.procID_eq_localLeader_iff hr).mpr rfl),
        hvalid.remoteGlobalRank_argsOf, Bool.not_not]
      rfl
    refine ⟨⟨fun p => if p ∈ [(sides !g).leader] then
        (((sides !g).argsOf peer p).ulmBcast (sides !g).localLeader id).bind (k (!g) p)
        else if p ∈ [(sides g).leader] then k g p id else net.procs p, net.chan⟩,
      reaches_phase (S := [(sides g).leader]) (R := [(sides !g).leader]) (nodup_singleton _)
        (nodup_singleton _) (fun _ => (sides !g).leader) (fun _ => (sides g).leader)
        CreateTag.intercomm (fun _ => id) (fun p => k g p id)
        (fun p id =>
          (((sides !g).argsOf peer p).ulmBcast (sides !g).localLeader id).bind (k (!g) p))
        ?_ ?_ ?_ ?_ ?_ (fun _ => rfl) rfl, hnet.quiet, fun b p hp => ?_, fun p hp => ?_⟩
    · exact fun p hp => ⟨mem_singleton_self _, (mem_singleton.mp hp).symm⟩
    · exact fun q hq => ⟨mem_singleton_self _, (mem_singleton.mp hq).symm⟩
    · intro p hp
      rw [mem_singleton.mp hp]
      exact hsend
    · intro q hq
      rw [mem_singleton.mp hq, if_neg fun hmem => hne (mem_singleton.mp hmem).symm]
      exact hrecv
    · exact fun p _ => hnet.quiet p _ _ (by simp [IsHistory])
    · simp only [mem_singleton]
      rcases eq_or_ne b g with rfl | hb
      · have hpr : p ≠ (sides !b).leader := fun heq => hvalid.not_mem_not hp (heq ▸ hr)
        rw [if_neg hpr, if_pos rfl, hnet.member b p hp, h p hp, passOn]
        split_ifs <;> rfl
      · obtain rfl := Bool.eq_not_of_ne hb
        have hpl : p ≠ (sides g).leader := fun heq => hvalid.not_mem_not hl (heq ▸ hp)
        rw [if_neg hpl, if_neg hb]
        split_ifs with hpr
        · rfl
        · rw [hnet.member _ p hp, h' p hp]
          exact hvalid.newContextID_bind_of_ne_leader hsame hhigh hp hpr _
    · have hout : ∀ b, p ≠ (sides b).leader := fun b heq => hp b (heq ▸ hvalid.leader_mem b)
      simp only [mem_singleton, hout, if_false]
      exact hnet.other p hp
  refine hpassed.trans ((hvalid.leads_ulmBcast k (!g) (hvalid.leader_lt !g)
    (fun p => if p = (sides !g).leader then id else [-1]) fun p hp => if_neg (by simp)).trans
      (leads_of_eq fun b p hp => ?_))
  rcases eq_or_ne b g with rfl | hb
  · rw [update_of_ne (Bool.eq_not_self b).mp, if_pos rfl]
  · obtain rfl := Bool.eq_not_of_ne hb
    rw [update_self]
    exact congrArg _ (if_pos rfl)

/-- **A run to the end**, if the decisions are the same. -/
theorem reaches_end (ctl : ℕ → ContextIDCtl) :
    ∃ net, Reaches (ulmIntercommCreate.start peer sides ctl) net ∧ Stopped net ∧
      ∀ b, ∀ p ∈ (sides b).members, net.procs p =
        .done (.ok ((ctl (generator (sides g))).generate.1, (sides !b).members.map Int.ofNat)) := by
  have hleads := ((hvalid.leads_groups ctl).trans
    (hvalid.leads_generated (fun b _ => finish (sides !b)) hsame hlow fun _ _ => rfl)).trans
    (hvalid.leads_received (fun b _ => finish (sides !b)) hsame hlow _
      (fun p _ => by rw [update_self]) fun p _ => by rw [update_of_ne (Bool.not_eq_self g).mp])
  obtain ⟨net, hreach, hnet⟩ := hleads (ulmIntercommCreate.start peer sides ctl)
    ⟨fun _ _ _ _ => rfl, fun b p hp => hvalid.start_procs hp, fun p hp => start_procs_of_not_mem hp⟩
  refine ⟨net, hreach, fun p => ?_, hnet.member⟩
  by_cases hp : ∃ b, p ∈ (sides b).members
  · obtain ⟨b, hp⟩ := hp
    simp only [stepOf, hnet.member b p hp, finish]
  · simp only [stepOf, hnet.other p fun b h => hp ⟨b, h⟩]

lemma generated_eq_nil {net : Net ℕ CreateTag (List ℤ) (Except MpiErr (ℤ × List ℤ))} {id : ℤ}
    (hreach : Reaches (ulmIntercommCreate.start peer sides ctl) net)
    (hdone : ∀ b, ∀ p ∈ (sides b).members,
      net.procs p = .done (.ok (id, (sides !b).members.map Int.ofNat)))
    (hq : q ≠ generator (sides g)) : net.chan (q, q, .generated) = [] := by
  by_cases hmem : ∃ b, q ∈ (sides b).members
  · obtain ⟨b, hmem⟩ := hmem
    rw [chan_eq_of_done hreach rfl (hvalid.start_logs_generated ctl hmem) (hdone b q hmem)]
    refine if_neg ?_
    rintro ⟨hlt, rfl⟩
    by_cases hb : b = g
    · exact hq (hb ▸ rfl)
    · -- in the other group the process of rank 0 decides against it, if it is not the leader
      obtain rfl : b = !g := Bool.eq_not_of_ne hb
      rw [Bool.not_not] at hlt
      rcases hsame (!g) with hzero | hall
      · have heq : (sides !g).leader = generator (sides !g) := by
          rw [leader, hzero, generator]
        omega
      · rw [Bool.not_not] at hall
        have := (hall _ hmem _ (hvalid.leader_mem (!g))).mp hlt
        omega
  · have hnot : ∀ b, q ∉ (sides b).members := fun b h => hmem ⟨b, h⟩
    obtain ⟨n, hn⟩ := hreach
    have hlog : ((ulmIntercommCreate.start peer sides ctl).procs q).Logs q .generated
        (fun _ => True) [] := by
      rw [start_procs_of_not_mem hnot]
      exact fun _ => rfl
    obtain ⟨written, rest, heq, hchan, -⟩ := hn.logs hlog
    rw [hchan, (append_eq_nil_iff.mp heq.symm).1]
    rfl

end ValidCreate

/-! ### Agreement -/

/-- **When the members agree**: just if in each group the leader has rank 0, or all members come to
the same decision. -/
theorem intercommCreate_agrees_iff (peer : List ℕ) (sides : Bool → CreateSide)
    (ctl : ℕ → ContextIDCtl) (hvalid : ValidCreate peer sides) :
    CreateAgrees peer sides ctl ↔ SameDecision sides := by
  constructor
  · intro hagrees b
    obtain ⟨bound, hbound⟩ := hagrees.ends
    obtain ⟨net, hreach, hstop⟩ := exists_stopped hbound
    obtain ⟨hissued, id, hdone, -⟩ := hagrees.atEnd net hreach hstop
    have hchan : ∀ p ∈ (sides b).members, net.chan (p, p, .issued) =
        ValidCreate.issuedLog (sides b) (sides !b).leader p := fun p hp =>
      chan_eq_of_done hreach rfl (hvalid.start_logs_issued ctl hp) (hdone b p hp)
    by_cases hzero : (sides b).localLeader = 0
    · exact .inl hzero
    · refine .inr fun p hp q hq => ?_
      have heq := hissued b p hp q hq
      rw [hchan p hp, hchan q hq, ValidCreate.issuedLog_eq_iff] at heq
      exact heq.resolve_left hzero
  · intro hsame
    obtain ⟨g, hlow⟩ := hvalid.exists_low
    obtain ⟨final, ⟨n, hn⟩, hstop, hdone⟩ := hvalid.reaches_end hsame hlow ctl
    have hissued : ∀ b, ∀ p ∈ (sides b).members, ∀ q ∈ (sides b).members,
        ValidCreate.issuedLog (sides b) (sides !b).leader p =
          ValidCreate.issuedLog (sides b) (sides !b).leader q := by
      intro b p hp q hq
      rw [ValidCreate.issuedLog_eq_iff]
      exact (hsame b).imp_right fun hall => hall p hp q hq
    refine ⟨⟨n, fun m net hm => ?_⟩, ?_, ?_⟩
    · obtain ⟨k, rfl, -⟩ := hn.extend hstop hm
      exact Nat.le_add_left m k
    · -- what two members have issued so far are beginnings of one list
      rintro net ⟨m, hm⟩ b p hp q hq
      obtain ⟨written, rest, heq, hchan, -⟩ := hm.logs (hvalid.start_logs_issued ctl hp)
      obtain ⟨written', rest', heq', hchan', -⟩ := hm.logs (hvalid.start_logs_issued ctl hq)
      rw [hchan, hchan']
      refine prefix_or_prefix_of_prefix (prefix_append written rest) ?_
      rw [← heq, hissued b p hp q hq, heq']
      exact prefix_append written' rest'
    · rintro net ⟨m, hm⟩ hstop'
      obtain ⟨k, rfl, hk⟩ := hn.extend hstop hm
      obtain rfl : net = final := by
        cases hk with
        | refl => rfl
        | head q hq _ => exact absurd (hstop' q ▸ hq) (by simp)
      have hreach : Reaches (ulmIntercommCreate.start peer sides ctl) net := ⟨_, hm⟩
      refine ⟨fun b p hp q hq => ?_, _, hdone, ValidCreate.generator (sides g), ?_, fun q hq => ?_⟩
      · rw [chan_eq_of_done hreach rfl (hvalid.start_logs_issued ctl hp) (hdone b p hp),
          chan_eq_of_done hreach rfl (hvalid.start_logs_issued ctl hq) (hdone b q hq)]
        exact hissued b p hp q hq
      · have hmem := hvalid.generator_mem g
        rw [chan_eq_of_done hreach rfl (hvalid.start_logs_generated ctl hmem) (hdone g _ hmem)]
        exact if_pos ⟨hvalid.generator_lt hsame hlow, rfl⟩
      · exact hvalid.generated_eq_nil hsame hlow hreach hdone hq

/-- Processes 0 and 2, led by process 2, and process 1 alone. -/
def twoAndOne : Bool → CreateSide
  | false => ⟨[0, 2], 1, 1⟩
  | true => ⟨[1], 0, 2⟩

lemma twoAndOne_valid : ValidCreate [0, 1, 2] twoAndOne := by
  constructor <;> decide

/-- A run of the three processes to its end. -/
def twoAndOneSchedule : List ℕ :=
  [0, 1, 2, 1, 1, 1, 2, 2, 2, 0, 0, 2, 1, 1, 1, 1, 1, 2, 2, 2, 0, 0, 0, 0, 2, 2, 2]

/-- Process 0 decides to generate, its leader does not: they broadcast from different roots, and
processes 0 and 1 both generate a context ID. -/
theorem intercommCreate_twoAndOne :
    ValidCreate [0, 1, 2] twoAndOne ∧
      (∃ net, Reaches (ulmIntercommCreate.start [0, 1, 2] twoAndOne (ContextIDCtl.init 3)) net ∧
        net.chan (0, 0, .issued) = [[1], [1], [0]] ∧
        net.chan (2, 2, .issued) = [[1], [1], [1]] ∧
        net.chan (0, 0, .generated) = [[3]] ∧ net.chan (1, 1, .generated) = [[13]]) ∧
      ¬CreateAgrees [0, 1, 2] twoAndOne (ContextIDCtl.init 3) := by
  have hrun : (follow twoAndOneSchedule
      (ulmIntercommCreate.start [0, 1, 2] twoAndOne (ContextIDCtl.init 3))).map (fun net =>
        (net.chan (0, 0, .issued), net.chan (2, 2, .issued), net.chan (0, 0, .generated),
          net.chan (1, 1, .generated))) =
      some ([[1], [1], [0]], [[1], [1], [1]], [[3]], [[13]]) := by
    decide
  obtain ⟨net, hfollow, hnet⟩ := Option.map_eq_some_iff.mp hrun
  simp only [Prod.mk.injEq] at hnet
  have hreach := reaches_of_follow hfollow
  refine ⟨twoAndOne_valid, ⟨net, hreach, hnet⟩, fun hagrees => ?_⟩
  have hpre := hagrees.sameBroadcasts net hreach false 0 (by decide) 2 (by decide)
  rw [hnet.1, hnet.2.1] at hpre
  revert hpre
  decide

/-- Processes 0 and 1, led by process 1, and process 2 alone: here all members agree. -/
def lowAndHigh : Bool → CreateSide
  | false => ⟨[0, 1], 1, 2⟩
  | true => ⟨[2], 0, 1⟩

theorem intercommCreate_agrees_iff_lowAndHigh :
    ValidCreate [0, 1, 2] lowAndHigh ∧ SameDecision lowAndHigh ∧
      CreateAgrees [0, 1, 2] lowAndHigh (ContextIDCtl.init 3) := by
  have hvalid : ValidCreate [0, 1, 2] lowAndHigh := by
    constructor <;> decide
  have hsame : SameDecision lowAndHigh := by
    unfold SameDecision
    decide
  exact ⟨hvalid, hsame, (intercommCreate_agrees_iff _ _ _ hvalid).mpr hsame⟩

end Lampi
