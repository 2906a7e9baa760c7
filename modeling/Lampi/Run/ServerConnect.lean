import Mathlib.Data.List.Basic

/-!
# `adminMessage::serverConnect`

mpirun waits for a client from each host.  A client says who it is, and is accepted or rejected.
The tables by rank are written before the checks and after them, for a client that is rejected too
(`connect_keeps_iff`).
-/

namespace Lampi

open Function

/-- The clients, by socket, and the tables by the rank of the host. -/
structure AdminServer where
  np : Int
  clientSocketActive : ℕ → Bool
  ranks : ℕ → Int
  largestClientSocket : Int
  processCount : ℕ → Int
  daemonPIDs : ℕ → Int
  hostsAssigned : ℕ → Bool

/-- A connection whose message was read: `hName` is what `gethostbyaddr` finds, and `replied` tells
whether the answer could be written. -/
structure Connection where
  sockfd : ℕ
  tag : Int
  authData : Int × Int × Int
  hostrank : Int
  nprocesses : Int
  daemonPid : Int
  hName : Option (List Char)
  replied : Bool

/-- What `serverConnect` is called with, and `authData_m`. -/
structure ServerArgs where
  hostList : List (List Char)
  procList : ℕ → Int
  authData : Int × Int × Int

/-- What keeps a round of the loop from being finished: the server gives up, or it writes outside
its tables. -/
inductive ConnectError
  | gaveUp
  | outOfBounds
  deriving DecidableEq

namespace AdminServer

def init : AdminServer :=
  ⟨0, fun _ => false, fun _ => -1, -1, fun _ => 0, fun _ => 0, fun _ => false⟩

variable (args : ServerArgs) (s : AdminServer) (c : Connection)

/-- `socketToHostRank`, with `assignNewId`. -/
def socketToHostRank : Option ℕ :=
  c.hName.bind fun hName => (List.range args.hostList.length).find? fun j =>
    hName <+: args.hostList.getD j [] ∧ s.hostsAssigned j = false

/-- `hostrank`, which is looked for if it is `UNKNOWN_HOST_ID`.  Whether the tables have such an
index is not checked. -/
def hostrank : Except ConnectError ℕ :=
  if c.hostrank = -1 then
    match s.socketToHostRank args c with
    | some rank => .ok rank
    | none => .error .gaveUp
  else if 0 ≤ c.hostrank ∧ c.hostrank < 8192 then .ok c.hostrank.toNat
  else .error .outOfBounds

/-- `nprocesses`, unless it is `UNKNOWN_N_PROCS`. -/
def nprocesses (rank : ℕ) : Int := if c.nprocesses = -1 then args.procList rank else c.nprocesses

/-- `ok`: the tag is `INITMSG`, the authorization data is right, and the rank is not found. -/
def ok (rank : ℕ) : Bool :=
  c.tag = 0 ∧ c.authData = args.authData ∧
    ∀ i < s.largestClientSocket.toNat, ¬(s.clientSocketActive i ∧ s.ranks i = rank)

/-- A round of the loop. -/
def connect : Except ConnectError AdminServer :=
  (s.hostrank args c).map fun rank =>
    let nprocesses := nprocesses args c rank
    let t := { s with
      processCount := update s.processCount rank nprocesses
      daemonPIDs := update s.daemonPIDs rank c.daemonPid
      hostsAssigned := if c.hostrank = -1 then update s.hostsAssigned rank true
        else s.hostsAssigned }
    if s.ok args c rank then
      let t := { t with
        ranks := update s.ranks c.sockfd rank
        clientSocketActive := update s.clientSocketActive c.sockfd c.replied }
      -- without a reply the others are set back
      if c.replied then { t with
        np := s.np + nprocesses
        largestClientSocket := max s.largestClientSocket c.sockfd }
      else t
    else t

/-- The clients are the same, and the hosts other than `own` have what they had. -/
def Keeps (own : ℕ) (s' : AdminServer) : Prop :=
  s'.clientSocketActive = s.clientSocketActive ∧ s'.ranks = s.ranks ∧ ∀ k ≠ own,
    s'.processCount k = s.processCount k ∧ s'.daemonPIDs k = s.daemonPIDs k ∧
      s'.hostsAssigned k = s.hostsAssigned k

variable {args s c}

/-- **A client that is rejected** leaves the other hosts as they are if and only if its rank is an
index of the tables, and it has the rank of its own host, or claims that of another with the number
of processes and the daemon this one has. -/
theorem connect_keeps_iff
    (hrejected : ∀ rank, s.hostrank args c = .ok rank → s.ok args c rank = false) (own : ℕ) :
    (∃ s', s.connect args c = .ok s' ∧ s.Keeps own s') ↔
      ∃ rank, s.hostrank args c = .ok rank ∧ (rank = own ∨ c.hostrank ≠ -1 ∧
        s.processCount rank = nprocesses args c rank ∧ s.daemonPIDs rank = c.daemonPid) := by
  cases hrank : s.hostrank args c with
  | error e => simp [connect, hrank, Except.map]
  | ok rank =>
    simp only [connect, hrank, hrejected rank hrank, Except.map, Except.ok.injEq, exists_eq_left']
    constructor
    · rintro ⟨-, -, hkeeps⟩
      by_cases hown : rank = own
      · exact .inl hown
      · obtain ⟨hcount, hpid, hassigned⟩ := hkeeps rank hown
        refine .inr ⟨fun hunknown => ?_, by simpa using hcount.symm, by simpa using hpid.symm⟩
        -- the host that was found had not been assigned
        rw [hostrank, if_pos hunknown] at hrank
        split at hrank
        case h_2 => cases hrank
        case h_1 found hfound =>
          obtain rfl := Except.ok.inj hrank
          obtain ⟨hName, -, hfind⟩ := Option.bind_eq_some_iff.mp hfound
          have hfree := List.find?_some hfind
          simp [hunknown, of_decide_eq_true hfree] at hassigned
    · refine fun h => ⟨rfl, rfl, fun k hk => ?_⟩
      by_cases hne : k = rank
      · subst hne
        obtain ⟨hclaimed, hcount, hpid⟩ := h.resolve_left hk
        simp [hclaimed, hcount, hpid]
      · simp only [Bool.false_eq_true, if_false, update_of_ne hne, true_and]
        split_ifs <;> simp [hne]

section TwoClients

private def serverArgs : ServerArgs := ⟨[], fun _ => 0, (1, 2, 3)⟩

/-- The client of the first of two hosts. -/
private def firstClient : Connection := ⟨5, 0, (1, 2, 3), 0, 2, 100, none, true⟩

/-- A client without authorization that claims the rank of a host. -/
private def intruder (hostrank : Int) : Connection := ⟨6, 0, (0, 0, 0), hostrank, 7, 9, none, true⟩

/-- The rank is that of the first host, with other data. -/
theorem connect_overwrites :
    ((init.connect serverArgs firstClient).bind (connect serverArgs · (intruder 0))).map
      (fun s => (s.np, s.processCount 0, s.daemonPIDs 0)) = .ok (2, 7, 9) := by decide

/-- The first host has been accepted, and the client is rejected as one of the second. -/
theorem connect_keeps_first :
    ∃ s s', init.connect serverArgs firstClient = .ok s ∧ s.processCount 0 = 2 ∧
      s.connect serverArgs (intruder 1) = .ok s' ∧ s.Keeps 1 s' := by
  obtain ⟨s, hs, hcount, hrank, hok⟩ : ∃ s, init.connect serverArgs firstClient = .ok s ∧
      s.processCount 0 = 2 ∧ s.hostrank serverArgs (intruder 1) = .ok 1 ∧
      s.ok serverArgs (intruder 1) 1 = false := ⟨_, rfl, rfl, rfl, by decide⟩
  have hrejected : ∀ rank, s.hostrank serverArgs (intruder 1) = .ok rank →
      s.ok serverArgs (intruder 1) rank = false := by
    intro rank h
    obtain rfl := Except.ok.inj (hrank.symm.trans h)
    exact hok
  obtain ⟨s', hs', hkeeps⟩ := (connect_keeps_iff hrejected 1).mpr ⟨1, hrank, .inl rfl⟩
  exact ⟨s, s', hs, hcount, hs', hkeeps⟩

end TwoClients

end AdminServer

end Lampi
