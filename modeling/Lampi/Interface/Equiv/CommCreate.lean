import Mathlib.Data.List.Nodup
import Mathlib.Data.List.Perm.Subperm
import Mathlib.Data.List.Range
import Mathlib.Data.List.GetD
import Lampi.Interface.CommCreate

/-!
# Correctness of `ulm_comm_split` and `ulm_intercomm_merge`

`commSplit_ordered`: all processes of a color get the same group, ordered by key and old rank.
`intercommMerge_agrees_iff`: the two sides of an inter-communicator build the same group unless both
values of `high` are non-zero and different.
-/

namespace Lampi

open List

/-! ### Groups -/

variable {group ranks : List ℕ}

private lemma inclRanks_eq (h : ∀ rank ∈ ranks, rank < group.length) :
    inclRanks group (ranks.map Int.ofNat) = .ok (ranks.map (group[·]?)) := by
  induction ranks with
  | nil => rfl
  | cons rank ranks ih =>
    obtain ⟨hrank, hranks⟩ := forall_mem_cons.mp h
    have hvalid : ¬(Int.ofNat rank < 0 ∨ Int.ofNat rank > group.length) := by
      simp only [Int.ofNat_eq_natCast]
      omega
    rw [map_cons, inclRanks, if_neg hvalid, ih hranks]
    rfl

lemma ulmGroupIncl_eq (hnodup : ranks.Nodup) (h : ∀ rank ∈ ranks, rank < group.length) :
    ulmGroupIncl group (ranks.map Int.ofNat) = .ok (ranks.map (group[·]?)) := by
  have hlength : ranks.length ≤ group.length := by
    have hsub : ranks.Subperm (range group.length) :=
      hnodup.subperm fun rank hrank => mem_range.mpr (h rank hrank)
    simpa using hsub.length_le
  unfold ulmGroupIncl
  rw [length_map]
  split_ifs with hempty hlong
  · -- an empty group has no ranks
    have hnil : ranks = [] := by
      rcases hempty with rfl | hzero
      · exact length_eq_zero_iff.mp (Nat.le_zero.mp hlength)
      · exact length_eq_zero_iff.mp hzero
    rw [hnil]
    rfl
  · omega
  · exact inclRanks_eq h

/-! ### Processes of one color -/

lemma mem_condense {color : ℤ} {pairs : List (ℤ × ℤ)} {first q : ℕ} :
    q ∈ condense color first pairs ↔
      first ≤ q ∧ q < first + pairs.length ∧ (pairs.getD (q - first) (0, 0)).1 = color := by
  induction pairs generalizing first with
  | nil =>
    simp only [condense, not_mem_nil, length_nil, false_iff]
    omega
  | cons pair pairs ih =>
    have hhead : q ∈ condense color first (pair :: pairs) ↔
        (pair.1 = color ∧ q = first) ∨ q ∈ condense color (first + 1) pairs := by
      rw [condense]
      split_ifs with hcolor <;> simp [hcolor]
    rw [hhead, ih, length_cons]
    by_cases hq : q = first
    · subst hq
      simp
    · by_cases hle : first ≤ q
      · obtain ⟨k, rfl⟩ : ∃ k, q = first + 1 + k := ⟨q - (first + 1), by omega⟩
        have hsub : first + 1 + k - first = k + 1 := by omega
        rw [hsub, getD_cons_succ, Nat.add_sub_cancel_left]
        constructor
        · rintro (⟨-, h⟩ | ⟨-, hlt, hcolor⟩)
          · exact absurd h hq
          · exact ⟨hle, by omega, hcolor⟩
        · rintro ⟨-, hlt, hcolor⟩
          exact .inr ⟨by omega, by omega, hcolor⟩
      · constructor
        · rintro (⟨-, h⟩ | ⟨h, -⟩)
          · exact absurd h hq
          · omega
        · rintro ⟨h, -⟩
          exact absurd h hle

lemma condense_sorted (color : ℤ) (first : ℕ) (pairs : List (ℤ × ℤ)) :
    (condense color first pairs).Pairwise (· < ·) := by
  induction pairs generalizing first with
  | nil => exact Pairwise.nil
  | cons pair pairs ih =>
    unfold condense
    split_ifs
    · refine pairwise_cons.mpr ⟨fun q hq => ?_, ih (first + 1)⟩
      exact (mem_condense.mp hq).1
    · exact ih (first + 1)

/-! ### The sort -/

variable {list : List ℕ} {keys : List ℤ} {listDone : List Bool}

def Before (keys : List ℤ) (i j : ℕ) : Prop :=
  keys.getD i 0 < keys.getD j 0 ∨ keys.getD i 0 = keys.getD j 0 ∧ i < j

lemma Before.trans {i j k : ℕ} (h : Before keys i j) (h' : Before keys j k) : Before keys i k := by
  unfold Before at *
  omega

lemma findSmallest_spec (keys : List ℤ) (is : List ℕ) {e : ℕ} (hdone : listDone.getD e false =
    false)
    (hle : ∀ i ∈ is, e ≤ i) (hsorted : is.Pairwise (· < ·)) :
    let m := findSmallest keys listDone is (keys.getD e 0) e
    listDone.getD m false = false ∧ (m = e ∨ m ∈ is) ∧
      ∀ i, i = e ∨ i ∈ is → listDone.getD i false = false → i ≠ m → Before keys m i := by
  induction is generalizing e with
  | nil =>
    refine ⟨hdone, .inl rfl, fun i hi _ hne => absurd ?_ hne⟩
    exact hi.resolve_right not_mem_nil
  | cons i is ih =>
    obtain ⟨hei, hle⟩ := forall_mem_cons.mp hle
    obtain ⟨hi, hsorted⟩ := pairwise_cons.mp hsorted
    rw [findSmallest]
    split_ifs with hidone hless
    · -- the element is done
      obtain ⟨hm, hmem, hbefore⟩ := ih hdone hle hsorted
      refine ⟨hm, ?_, fun j hj hjdone hne => ?_⟩
      · exact hmem.imp_right (mem_cons_of_mem i)
      · rcases hj with rfl | hj
        · exact hbefore j (.inl rfl) hjdone hne
        · rcases mem_cons.mp hj with rfl | hj
          · exact absurd (hjdone.symm.trans hidone) (by decide)
          · exact hbefore j (.inr hj) hjdone hne
    · -- a new minimum
      have hidone' : listDone.getD i false = false := by simpa using hidone
      obtain ⟨hm, hmem, hbefore⟩ := ih hidone' (fun j hj => Nat.le_of_lt (hi j hj)) hsorted
      refine ⟨hm, .inr (by simpa using hmem), fun j hj hjdone hne => ?_⟩
      rcases hj with rfl | hj
      · have hij : Before keys i j := .inl hless
        by_cases hmi : i = findSmallest keys listDone is (keys.getD i 0) i
        · rwa [← hmi]
        · exact (hbefore i (.inl rfl) hidone' hmi).trans hij
      · exact hbefore j (by simpa using hj) hjdone hne
    · -- the minimum stays
      obtain ⟨hm, hmem, hbefore⟩ := ih hdone hle hsorted
      refine ⟨hm, hmem.imp_right (mem_cons_of_mem i), fun j hj hjdone hne => ?_⟩
      rcases hj with rfl | hj
      · exact hbefore j (.inl rfl) hjdone hne
      · rcases mem_cons.mp hj with rfl | hj
        · by_cases hej : e = j
          · exact hbefore j (.inl hej.symm) hjdone hne
          · have hbeforeE : Before keys e j := by
              unfold Before
              omega
            by_cases hme : e = findSmallest keys listDone is (keys.getD e 0) e
            · rwa [← hme]
            · exact (hbefore e (.inl rfl) hdone hme).trans hbeforeE
        · exact hbefore j (.inr hj) hjdone hne

def undone (n : ℕ) (listDone : List Bool) : List ℕ :=
  (range n).filter fun i => !listDone.getD i false

/-- **One round** takes the first of the elements that are not done. -/
theorem selectElement_spec (hlength : listDone.length = keys.length)
    (hsome : undone keys.length listDone ≠ []) :
    ∃ m ∈ undone keys.length listDone, selectElement keys listDone = some m ∧
      ∀ i ∈ undone keys.length listDone, i ≠ m → Before keys m i := by
  have hmem : ∀ i, i ∈ undone keys.length listDone ↔
      i < keys.length ∧ listDone.getD i false = false := by
    intro i
    simp [undone]
  obtain ⟨a, ha⟩ := exists_mem_of_ne_nil _ hsome
  obtain ⟨halt, hadone⟩ := (hmem a).mp ha
  cases hfirst : firstAvailable listDone with
  | none =>
    have hall := findIdx?_eq_none_iff.mp hfirst
    rw [getD_eq_getElem _ _ (hlength ▸ halt)] at hadone
    have := hall _ (getElem_mem (hlength ▸ halt))
    simp [hadone] at this
  | some e =>
    obtain ⟨helt, hedone, hbelow⟩ := findIdx?_eq_some_iff_getElem.mp hfirst
    have hedone' : listDone.getD e false = false := by
      rw [getD_eq_getElem _ _ helt]
      simpa using hedone
    obtain ⟨hm, hmemM, hbefore⟩ := findSmallest_spec keys (range' e (keys.length - e)) hedone'
      (fun i hi => (mem_range'_1.mp hi).1) pairwise_lt_range'
    set m := findSmallest keys listDone (range' e (keys.length - e)) (keys.getD e 0) e with hdef
    have hrange : ∀ i, i ∈ range' e (keys.length - e) ↔ e ≤ i ∧ i < keys.length := by
      intro i
      rw [mem_range'_1]
      omega
    refine ⟨m, (hmem m).mpr ⟨?_, hm⟩, ?_, fun i hi hne => ?_⟩
    · rcases hmemM with h | h
      · omega
      · exact ((hrange m).mp h).2
    · rw [selectElement, hfirst]
      rfl
    · obtain ⟨hilt, hidone⟩ := (hmem i).mp hi
      refine hbefore i (.inr ((hrange i).mpr ⟨?_, hilt⟩)) hidone hne
      -- all elements before the first available one are done
      by_contra hlt
      have hbelow' := hbelow i (by omega)
      rw [getD_eq_getElem _ _ (hlength ▸ hilt)] at hidone
      simp [hidone] at hbelow'

lemma undone_set {m : ℕ} (hlength : listDone.length = keys.length)
    (hm : m ∈ undone keys.length listDone) :
    (m :: undone keys.length (listDone.set m true)).Perm (undone keys.length listDone) := by
  have hlt : m < listDone.length := by
    simp only [undone, mem_filter, mem_range] at hm
    exact hlength ▸ hm.1
  have herase :
      undone keys.length (listDone.set m true) = (undone keys.length listDone).erase m := by
    unfold undone
    rw [(nodup_range.filter _).erase_eq_filter, filter_filter]
    refine filter_congr fun i _ => ?_
    by_cases hi : i = m
    · subst hi
      simp [getD_eq_getElem?_getD, hlt]
    · simp [getD_eq_getElem?_getD, getElem?_set_ne (Ne.symm hi), hi]
  rw [herase]
  exact (perm_cons_erase hm).symm

/-- **The sort** takes the elements in order. -/
theorem sortElements_spec (list : List ℕ) {rounds : ℕ} (hlength : listDone.length = keys.length)
    (hrounds : (undone keys.length listDone).length = rounds) :
    ∃ is : List ℕ, sortElements list keys rounds listDone = some (is.map (list.getD · 0)) ∧
      is.Perm (undone keys.length listDone) ∧ is.Pairwise (Before keys) := by
  induction rounds generalizing listDone with
  | zero =>
    refine ⟨[], rfl, ?_, Pairwise.nil⟩
    rw [length_eq_zero_iff.mp hrounds]
  | succ rounds ih =>
    have hsome : undone keys.length listDone ≠ [] := by
      intro hnil
      rw [hnil] at hrounds
      exact absurd hrounds (by simp)
    obtain ⟨m, hm, hselect, hbefore⟩ := selectElement_spec hlength hsome
    have hperm := undone_set hlength hm
    have hnodup : (m :: undone keys.length (listDone.set m true)).Nodup :=
      hperm.nodup_iff.mpr (nodup_range.filter _)
    have hrounds' : (undone keys.length (listDone.set m true)).length = rounds := by
      have := hperm.length_eq
      rw [length_cons] at this
      omega
    obtain ⟨is, hsort, his, hsorted⟩ := ih (by simpa using hlength) hrounds'
    refine ⟨m :: is, ?_, (his.cons m).trans hperm, ?_⟩
    · rw [sortElements, hselect, Option.bind_some, hsort]
      rfl
    · refine pairwise_cons.mpr ⟨fun i hi => ?_, hsorted⟩
      have hi' := his.subset hi
      refine hbefore i (hperm.subset (mem_cons_of_mem m hi')) ?_
      rintro rfl
      exact (nodup_cons.mp hnodup).1 hi'

/-- The order of the new group: by key, then by old rank. -/
def RankBefore (key : ℕ → ℤ) (p q : ℕ) : Prop := key p < key q ∨ key p = key q ∧ p < q

lemma sortedList_spec (allPairs : List (ℤ × ℤ)) (color : ℤ) :
    ∃ ranks : List ℕ, sortedList allPairs color = some ranks ∧ ranks.Nodup ∧
      (∀ q, q ∈ ranks ↔ q < allPairs.length ∧ (allPairs.getD q (0, 0)).1 = color) ∧
      ranks.Pairwise (RankBefore fun q => (allPairs.getD q (0, 0)).2) := by
  have hlist := condense_sorted color 0 allPairs
  have hmem : ∀ q, q ∈ condense color 0 allPairs ↔
      q < allPairs.length ∧ (allPairs.getD q (0, 0)).1 = color := by
    intro q
    rw [mem_condense]
    simp
  unfold sortedList
  generalize condense color 0 allPairs = list at *
  set keys := list.map fun proc => (allPairs.getD proc (0, 0)).2 with hkeys
  have hkeysLength : keys.length = list.length := by simp [hkeys]
  have hundone : undone keys.length (replicate list.length false) = range list.length := by
    rw [undone, hkeysLength]
    refine filter_eq_self.mpr fun i hi => ?_
    simp [getD_eq_getElem?_getD, mem_range.mp hi]
  obtain ⟨is, hsort, hperm, hsorted⟩ := sortElements_spec list
    (show (replicate list.length false).length = keys.length by simp [hkeysLength])
    (show (undone keys.length _).length = list.length by rw [hundone, length_range])
  rw [hundone] at hperm
  have hlt : ∀ i ∈ is, i < list.length := fun i hi => mem_range.mp (hperm.subset hi)
  -- the elements are positions in a list without repetitions
  have hranks : (is.map (list.getD · 0)).Perm list := by
    refine (hperm.map _).trans (Perm.of_eq ?_)
    refine ext_getElem (by simp) fun i hi hi' => ?_
    rw [getElem_map, getElem_range, getD_eq_getElem _ _ hi']
  refine ⟨_, hsort, ?_, fun q => ?_, ?_⟩
  · exact hranks.nodup_iff.mpr (hlist.imp Nat.ne_of_lt)
  · rw [hranks.mem_iff, hmem]
  · refine pairwise_map.mpr (hsorted.imp_of_mem fun {i j} hi hj hbefore => ?_)
    have hi' := hlt i hi
    have hj' := hlt j hj
    have hkey : ∀ k (hk : k < list.length), keys.getD k 0 =
      (allPairs.getD (list.getD k 0) (0, 0)).2 := by
      intro k hk
      rw [getD_eq_getElem _ _ (hkeysLength ▸ hk), getD_eq_getElem _ _ hk]
      simp [hkeys]
    unfold Before at hbefore
    rw [hkey i hi', hkey j hj'] at hbefore
    refine hbefore.imp_right fun ⟨heq, hij⟩ => ⟨heq, ?_⟩
    rw [getD_eq_getElem _ _ hi', getD_eq_getElem _ _ hj']
    exact pairwise_iff_getElem.mp hlist i j hi' hj' hij

/-! ### `ulm_comm_split` -/

/-- The pairs that `ulm_gather` and `ulm_bcast` deliver, for these arguments of the members. -/
def gatherPairs (args : List (ℤ × ℤ)) : List (ℤ × ℤ) := args.map fun a => splitPair a.1 a.2

lemma getD_gatherPairs (args : List (ℤ × ℤ)) (q : ℕ) :
    ((gatherPairs args).getD q (0, 0)).1 = (args.getD q (0, 0)).1 ∧
      ((args.getD q (0, 0)).1 ≠ mpiUndefined →
        ((gatherPairs args).getD q (0, 0)).2 = (args.getD q (0, 0)).2) := by
  simp only [gatherPairs, getD_eq_getElem?_getD, getElem?_map]
  cases args[q]? with
  | none => exact ⟨rfl, fun _ => rfl⟩
  | some a => exact ⟨rfl, fun h => if_neg h⟩

/-- **`MPI_Comm_split`**: all processes of a color get the same group.  It has the members of the
color, each once, ordered by key and then by old rank.  A process without a color gets
`MPI_COMM_NULL`. -/
theorem commSplit_ordered {localGroup : List ℕ} {args : List (ℤ × ℤ)}
    (hlength : args.length = localGroup.length) :
    (∀ color, 0 ≤ color → ∃ ranks : List ℕ, ranks.Nodup ∧
      (∀ q, q ∈ ranks ↔ q < localGroup.length ∧ (args.getD q (0, 0)).1 = color) ∧
      ranks.Pairwise (RankBefore fun q => (args.getD q (0, 0)).2) ∧
      ∀ r < localGroup.length, (args.getD r (0, 0)).1 = color →
        ulmCommSplit localGroup (gatherPairs args) (args.getD r (0, 0)).1 =
          .ok (some (ranks.map (localGroup[·]?)))) ∧
    ∀ r < localGroup.length, (args.getD r (0, 0)).1 = mpiUndefined →
      ulmCommSplit localGroup (gatherPairs args) (args.getD r (0, 0)).1 = .ok none := by
  refine ⟨fun color hcolor => ?_, fun r _ hr => ?_⟩
  · obtain ⟨ranks, hsorted, hnodup, hmem, horder⟩ := sortedList_spec (gatherPairs args) color
    have hmem' : ∀ q, q ∈ ranks ↔ q < localGroup.length ∧ (args.getD q (0, 0)).1 = color := by
      intro q
      rw [hmem, (getD_gatherPairs args q).1, gatherPairs, length_map, hlength]
    have hdefined : color ≠ mpiUndefined := by
      unfold mpiUndefined
      omega
    refine ⟨ranks, hnodup, hmem', ?_, fun r hr hrcolor => ?_⟩
    · refine horder.imp_of_mem fun {p q} hp hq hbefore => ?_
      have hkey : ∀ q ∈ ranks, ((gatherPairs args).getD q (0, 0)).2 = (args.getD q (0, 0)).2 := by
        intro q hq
        refine (getD_gatherPairs args q).2 ?_
        rw [((hmem' q).mp hq).2]
        exact hdefined
      unfold RankBefore at hbefore ⊢
      dsimp only at hbefore ⊢
      rwa [hkey p hp, hkey q hq] at hbefore
    · rw [hrcolor, ulmCommSplit, if_neg hdefined, if_neg (Int.not_lt.mpr hcolor), hsorted]
      dsimp only
      rw [ulmGroupIncl_eq hnodup fun q hq => ((hmem' q).mp hq).1]
      rfl
  · rw [hr]
    rfl

theorem commSplit_ordered_fourProcesses :
    (∃ ranks : List ℕ, ranks = [2, 0] ∧
      ∀ r < 4, (([(3, 5), (-1, 0), (3, -2), (4, 0)] : List (ℤ × ℤ)).getD r (0, 0)).1 = 3 →
        ulmCommSplit [10, 11, 12, 13] (gatherPairs [(3, 5), (-1, 0), (3, -2), (4, 0)])
          (([(3, 5), (-1, 0), (3, -2), (4, 0)] : List (ℤ × ℤ)).getD r (0, 0)).1 =
          .ok (some (ranks.map ([10, 11, 12, 13][·]?)))) ∧
    ulmCommSplit [10, 11, 12, 13] (gatherPairs [(3, 5), (-1, 0), (3, -2), (4, 0)]) (-1) =
      .ok none := by
  obtain ⟨hcolors, hundefined⟩ := commSplit_ordered
    (show ([(3, 5), (-1, 0), (3, -2), (4, 0)] : List (ℤ × ℤ)).length =
      ([10, 11, 12, 13] : List ℕ).length from rfl)
  obtain ⟨ranks, -, -, -, hranks⟩ := hcolors 3 (by decide)
  refine ⟨⟨[2, 0], rfl, ?_⟩, hundefined 1 (by decide) rfl⟩
  have hvalue := hranks 0 (by decide) rfl
  intro r hr hcolor
  rw [hranks r hr hcolor, ← hvalue]
  decide

/-! ### `ulm_intercomm_merge` -/

/-- What the members of the two groups build: they agree on a list, with the group whose value is
zero first if the other's is not. -/
def MergeAgrees (nprocs : ℕ) (groupA groupB : List ℕ) (highA highB : ℤ) : Prop :=
  ∃ members : List ℕ, (members = groupA ++ groupB ∨ members = groupB ++ groupA) ∧
    (highA = 0 → highB ≠ 0 → members = groupA ++ groupB) ∧
    (highA ≠ 0 → highB = 0 → members = groupB ++ groupA) ∧
    ulmIntercommMerge nprocs groupA groupB (replicate groupA.length highA) highA highB =
      .ok (members.map some) ∧
    ulmIntercommMerge nprocs groupB groupA (replicate groupB.length highB) highB highA =
      .ok (members.map some)

lemma allSame_replicate (n : ℕ) (high : ℤ) : allSame (replicate n high) = true := by
  cases n with
  | zero => rfl
  | succ n => simp [replicate_succ, allSame]

lemma ulmIntercommMerge_eq {nprocs : ℕ} {localGroup remoteGroup : List ℕ} {high remoteHigh : ℤ}
    (hnodup : (localGroup ++ remoteGroup).Nodup)
    (hlt : ∀ q ∈ localGroup ++ remoteGroup, q < nprocs) :
    ulmIntercommMerge nprocs localGroup remoteGroup (replicate localGroup.length high) high
        remoteHigh =
      .ok ((mergedGroup localGroup remoteGroup
        (decideHigh localGroup remoteGroup high remoteHigh)).map some) := by
  rw [ulmIntercommMerge, if_pos (allSame_replicate _ _)]
  have hmerged : ∀ high, (mergedGroup localGroup remoteGroup high).Nodup ∧
      ∀ q ∈ mergedGroup localGroup remoteGroup high, q < nprocs := by
    intro high
    unfold mergedGroup
    split_ifs
    · refine ⟨perm_append_comm.nodup_iff.mp hnodup, fun q hq => hlt q ?_⟩
      exact perm_append_comm.mem_iff.mp hq
    · exact ⟨hnodup, hlt⟩
  obtain ⟨hmergedNodup, hmergedLt⟩ := hmerged (decideHigh localGroup remoteGroup high remoteHigh)
  rw [ulmGroupIncl_eq hmergedNodup (by simpa using hmergedLt)]
  congr 1
  refine map_congr_left fun q hq => ?_
  rw [getElem?_range (hmergedLt q hq)]

lemma append_ne_append {groupA groupB : List ℕ} (hnodup : (groupA ++ groupB).Nodup)
    (hA : groupA ≠ []) (hB : groupB ≠ []) : groupA ++ groupB ≠ groupB ++ groupA := by
  obtain ⟨a, as, rfl⟩ := exists_cons_of_ne_nil hA
  obtain ⟨b, bs, rfl⟩ := exists_cons_of_ne_nil hB
  intro heq
  rw [cons_append, cons_append, cons.injEq] at heq
  exact (nodup_append.mp hnodup).2.2 a mem_cons_self b mem_cons_self heq.1

/-- **`MPI_Intercomm_merge`**: the two sides build the same group just if the values of `high` are
equal or one of them is zero. -/
theorem intercommMerge_agrees_iff {nprocs : ℕ} {groupA groupB : List ℕ} {highA highB : ℤ}
    (hnodup : (groupA ++ groupB).Nodup) (hA : groupA ≠ []) (hB : groupB ≠ [])
    (hlt : ∀ q ∈ groupA ++ groupB, q < nprocs) :
    MergeAgrees nprocs groupA groupB highA highB ↔ highA = highB ∨ highA = 0 ∨ highB = 0 := by
  have hnodup' : (groupB ++ groupA).Nodup := perm_append_comm.nodup_iff.mp hnodup
  have hlt' : ∀ q ∈ groupB ++ groupA, q < nprocs := fun q hq =>
    hlt q (perm_append_comm.mem_iff.mp hq)
  have hne := append_ne_append hnodup hA hB
  -- the first members of the groups are different
  have hfirst : groupA.getD 0 0 ≠ groupB.getD 0 0 := by
    obtain ⟨a, as, rfl⟩ := exists_cons_of_ne_nil hA
    obtain ⟨b, bs, rfl⟩ := exists_cons_of_ne_nil hB
    exact (nodup_append.mp hnodup).2.2 a mem_cons_self b mem_cons_self
  unfold MergeAgrees
  rw [ulmIntercommMerge_eq hnodup hlt, ulmIntercommMerge_eq hnodup' hlt']
  simp only [Except.ok.injEq, map_inj_right fun _ _ => Option.some.inj]
  unfold mergedGroup decideHigh
  constructor
  · rintro ⟨members, -, -, -, hmemberA, hmemberB⟩
    by_contra hcontra
    rw [not_or, not_or] at hcontra
    obtain ⟨hdiff, hnzA, hnzB⟩ := hcontra
    rw [if_neg hdiff, if_pos hnzA] at hmemberA
    rw [if_neg (Ne.symm hdiff), if_pos hnzB] at hmemberB
    exact hne (hmemberB.trans hmemberA.symm)
  · intro hcond
    by_cases hsame : highA = highB
    · subst hsame
      rcases Nat.lt_or_gt_of_ne hfirst with hless | hgreater
      · refine ⟨groupA ++ groupB, .inl rfl, fun h h' => absurd h h', fun h h' => absurd h' h, ?_,
          ?_⟩
        · rw [if_neg (Nat.lt_asymm hless)]
          simp
        · rw [if_pos hless]
          simp
      · refine ⟨groupB ++ groupA, .inr rfl, fun h h' => absurd h h', fun h h' => absurd h' h, ?_,
          ?_⟩
        · rw [if_pos hgreater]
          simp
        · rw [if_neg (Nat.lt_asymm hgreater)]
          simp
    · rw [if_neg hsame, if_neg (Ne.symm hsame)]
      rcases hcond.resolve_left hsame with rfl | rfl
      · have hB' : highB ≠ 0 := Ne.symm hsame
        refine ⟨groupA ++ groupB, .inl rfl, fun _ _ => rfl, absurd rfl, ?_, ?_⟩
        · simp
        · rw [if_pos hB']
      · refine ⟨groupB ++ groupA, .inr rfl, fun h => absurd h hsame, fun _ _ => rfl, ?_, ?_⟩
        · rw [if_pos hsame]
        · simp

theorem intercommMerge_agrees_iff_twoProcesses :
    MergeAgrees 2 [0] [1] 0 5 ∧ ¬MergeAgrees 2 [0] [1] 1 2 :=
  ⟨(intercommMerge_agrees_iff (by decide) (by decide) (by decide) (by decide)).mpr (by decide),
    fun h => absurd
      ((intercommMerge_agrees_iff (by decide) (by decide) (by decide) (by decide)).mp h)
      (by decide)⟩

/-- One process in each group, with the values 1 and 2: each puts the other's group first. -/
theorem intercommMerge_oneAndTwo :
    ulmIntercommMerge 2 [0] [1] [1] 1 2 = .ok [some 1, some 0] ∧
      ulmIntercommMerge 2 [1] [0] [2] 2 1 = .ok [some 0, some 1] := by
  decide

end Lampi
