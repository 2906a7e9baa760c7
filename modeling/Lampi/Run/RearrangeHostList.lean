import Mathlib.Data.List.Basic

/-!
# `RearrangeHostList`

mpirun moves the data of the master host to the front of six parallel arrays, in place.  The host is
found with `strncmp` over the length of its own name, so that a host whose name only begins like
this is taken for it.  The arrays are rotated as intended if and only if no such host comes before
the master (`rearrangeHostList_moves_iff`).
-/

namespace Lampi

open Function

/-- The data of one host; a list of path types comes with its length. -/
structure HostRecord where
  host : List Char
  processCount : Int
  workingDir : List Char
  userAppDir : Option (List Char)
  exe : List Char
  pathTypes : List Int

/-- The arrays of `RunParams` with an entry for each host.  Without a list of application
directories (`UserAppDirList == NULL`) no host has one. -/
structure RunParams where
  hostList : ℕ → List Char
  processCount : ℕ → Int
  workingDirList : ℕ → List Char
  userAppDirList : ℕ → Option (List Char)
  exeList : ℕ → List Char
  listPathTypes : ℕ → List Int

namespace RunParams

variable (p : RunParams)

def record (k : ℕ) : HostRecord :=
  ⟨p.hostList k, p.processCount k, p.workingDirList k, p.userAppDirList k, p.exeList k,
    p.listPathTypes k⟩

def set (k : ℕ) (r : HostRecord) : RunParams where
  hostList := update p.hostList k r.host
  processCount := update p.processCount k r.processCount
  workingDirList := update p.workingDirList k r.workingDir
  userAppDirList := update p.userAppDirList k r.userAppDir
  exeList := update p.exeList k r.exe
  listPathTypes := update p.listPathTypes k r.pathTypes

/-- `for (k = Indx; k > 0; k--)` -/
def shift : ℕ → RunParams → RunParams
  | 0, p => p
  | k + 1, p => shift k (p.set (k + 1) (p.record k))

/-- `strncmp (HostList[j], h_name, strlen (h_name)) == 0` finds the host.  Its data is put in front,
under the name looked for; without a host mpirun gives up. -/
def rearrangeHostList (nHosts : ℕ) (hName : List Char) : Option RunParams :=
  ((List.range nHosts).find? fun j => hName <+: p.hostList j).map fun indx =>
    (p.shift indx).set 0 { p.record indx with host := hName }

lemma record_set (k : ℕ) (r : HostRecord) (j : ℕ) :
    (p.set k r).record j = if j = k then r else p.record j := by
  by_cases h : j = k <;> simp [set, record, h]

lemma record_shift (i j : ℕ) :
    (p.shift i).record j = p.record (if 1 ≤ j ∧ j ≤ i then j - 1 else j) := by
  induction i generalizing p with
  | zero => rw [if_neg (by omega), shift]
  | succ i ih =>
    rw [shift, ih, record_set]
    split_ifs
    all_goals first | rfl | omega | exact congrArg p.record (by omega)

/-- **The data of the master host is moved to the front**, and the data before it moves up by one,
if and only if no host before it has a name that begins with its name. -/
theorem rearrangeHostList_moves_iff {nHosts i : ℕ} (hnames : ∀ j < nHosts, ∀ k < nHosts,
      p.hostList j = p.hostList k → j = k) (hi : i < nHosts) :
    (∃ q, p.rearrangeHostList nHosts (p.hostList i) = some q ∧
      ∀ k, q.record k = p.record (if k = 0 then i else if k ≤ i then k - 1 else k)) ↔
    ∀ j < i, ¬p.hostList i <+: p.hostList j := by
  obtain ⟨m, hfind⟩ : ∃ m, (List.range nHosts).find? (fun j => p.hostList i <+: p.hostList j) =
      some m := by
    rw [← Option.isSome_iff_exists, List.find?_isSome]
    exact ⟨i, by simpa using hi, by simp⟩
  obtain ⟨hm, -, hleast⟩ := List.find?_range_eq_some.mp hfind
  have hfirst : ∀ j, p.hostList i <+: p.hostList j → m ≤ j := by
    intro j hj
    by_contra hjm
    have hno := hleast j (by omega)
    simp [hj] at hno
  simp only [rearrangeHostList, hfind, Option.map_some, Option.some_inj, exists_eq_left',
    record_set, record_shift]
  constructor
  · intro hmoved j hj hprefix
    -- the data of the master still stands at its place
    have hmj := hfirst j hprefix
    have hat := hmoved i
    rw [if_neg (by omega), if_neg (by omega), if_neg (by omega), if_pos (Nat.le_refl i)] at hat
    have := hnames _ hi _ (by omega) (congrArg HostRecord.host hat)
    omega
  · intro hnone k
    have hmi := hfirst i (List.prefix_refl _)
    obtain rfl : m = i := by
      by_contra hne
      exact hnone m (by omega) (by simpa using hm)
    split_ifs
    all_goals first | rfl | omega

/-- Two hosts, with one and two processes. -/
def twoHosts (first second : List Char) : RunParams :=
  ⟨fun j => if j = 0 then first else second, fun j => j + 1, fun _ => [], fun _ => none,
    fun _ => [], fun _ => []⟩

/-- Host `n` is looked for and `n1` is found: `n` gets its data, and `n1` is lost. -/
theorem rearrangeHostList_lost :
    ((twoHosts ['n', '1'] ['n']).rearrangeHostList 2 ['n']).map (fun q =>
      (q.hostList 0, q.processCount 0, q.hostList 1, q.processCount 1)) =
      some (['n'], 1, ['n'], 2) := by decide

theorem rearrangeHostList_moves_second :
    ∃ q, (twoHosts ['n'] ['m']).rearrangeHostList 2 ['m'] = some q ∧ ∀ k, q.record k =
      (twoHosts ['n'] ['m']).record (if k = 0 then 1 else if k ≤ 1 then k - 1 else k) :=
  ((twoHosts ['n'] ['m']).rearrangeHostList_moves_iff (i := 1) (by decide) (by decide)).mpr
    (by decide)

end RunParams

end Lampi
