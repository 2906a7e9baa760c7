import Mathlib.Algebra.Order.Ring.Int
import Lampi.Path.Tcp

/-!
# Correctness of the TCP path's transfers

A call that would block sets the counter of a connection's rank back by one: the rank is sent and
received right just when no call would block (`connectAck_iff`).  A fragment is written right, over
all partial writes, just when the length of its data is an `int` (`writes_iff`).  A message is read
into the posted buffer just when no fragment starts past it (`inside_iff_offsets`).
-/

namespace Lampi

open List Option

/-! ### Connecting -/

section Connect

variable {σ : Type} {transfer : ℤ → ℕ → σ → σ} {results : List CallResult} {cnt : ℤ} {s s' : σ}

/-- What every transfer and every call that would block keeps holds at the end, with the number of
calls that would have blocked. -/
lemma connectAckLoop_induction {I : ℕ → ℤ → σ → Prop}
    (hmoved : ∀ e (cnt : ℤ) (n : ℕ) s, cnt < sizeofLong → 0 < n → n ≤ sizeofLong - cnt →
      I e cnt s → I e (cnt + n) (transfer cnt n s))
    (hagain : ∀ e (cnt : ℤ) s, cnt < sizeofLong → I e cnt s → I (e + 1) (cnt - 1) s)
    (hcnt : cnt ≤ sizeofLong) {e : ℕ} (hI : I e cnt s)
    (h : connectAckLoop transfer cnt results s = some s') :
    I (e + results.count .eagain) sizeofLong s' := by
  fun_induction connectAckLoop transfer cnt results s generalizing e with
  | case1 | case4 | case7 | case8 => cases h
  | case2 _ _ hlt =>
    cases h
    rwa [le_antisymm hcnt (not_lt.mp hlt)] at hI
  | case3 cnt _ s hlt n hn ih =>
    exact ih (by omega) (hmoved e cnt n s hlt hn.1 hn.2 hI) h
  | case5 _ _ _ _ ih =>
    exact ih hcnt hI h
  | case6 cnt _ s hlt ih =>
    rw [count_cons_self, ← Nat.add_assoc, Nat.add_right_comm]
    exact ih (by omega) (hagain e cnt s hlt hI) h

/-- Whether the loop ends does not depend on what is transferred. -/
lemma connectAckLoop_isSome {τ : Type} {transfer' : ℤ → ℕ → τ → τ} {t : τ} :
    (connectAckLoop transfer cnt results s).isSome =
      (connectAckLoop transfer' cnt results t).isSome := by
  induction results generalizing cnt s t with
  | nil =>
    unfold connectAckLoop
    split_ifs <;> rfl
  | cons result results ih =>
    unfold connectAckLoop
    split_ifs
    · cases result with
      | moved n =>
        simp only
        split_ifs
        exacts [ih, rfl]
      | eintr => exact ih
      | eagain => exact ih
      | failed => rfl
    · rfl

private lemma bytesAt_append (ptr : ℤ → UInt8) (m n : ℕ) :
    bytesAt ptr 0 m ++ bytesAt ptr m n = bytesAt ptr 0 (m + n) := by
  simp [bytesAt, range_add, Function.comp_def]

lemma sendConnectAck_spec {ptr : ℤ → UInt8} {sent : List UInt8}
    (h : sendConnectAck ptr results = some sent) :
    sent.length = sizeofLong + results.count .eagain ∧
      (results.count .eagain = 0 → sent = bytesAt ptr 0 sizeofLong) := by
  have hspec := connectAckLoop_induction (I := fun e cnt (sent : List UInt8) =>
    (sent.length : ℤ) = cnt + e ∧ (e = 0 → sent = bytesAt ptr 0 cnt.toNat)) ?_ ?_ (by decide)
    (e := 0) ⟨rfl, fun _ => rfl⟩ h
  · simp only [Nat.zero_add, Int.toNat_natCast] at hspec
    exact ⟨by exact_mod_cast hspec.1, hspec.2⟩
  · rintro e cnt n sent - - - ⟨hlength, hsent⟩
    refine ⟨by simp [bytesAt]; omega, fun he => ?_⟩
    subst he
    obtain ⟨k, rfl⟩ := Int.eq_ofNat_of_zero_le (a := cnt) (by omega)
    rw [hsent rfl, ← Nat.cast_add, Int.toNat_natCast, Int.toNat_natCast, bytesAt_append]
  · rintro e cnt sent - ⟨hlength, -⟩
    exact ⟨by push_cast; omega, nofun⟩

/-- The last byte of the rank is the last one that came. -/
lemma recvConnectAck_spec {stream : ℕ → UInt8} {peer : ℤ → UInt8}
    (h : recvConnectAck stream results = some peer) :
    peer (sizeofLong - 1) = stream (sizeofLong - 1 + results.count .eagain) ∧
      (results.count .eagain = 0 → ∀ i < sizeofLong, peer i = stream i) := by
  obtain ⟨⟨peer, taken⟩, hloop, rfl⟩ := map_eq_some_iff.mp h
  have hspec := connectAckLoop_induction (I := fun e cnt (s : (ℤ → UInt8) × ℕ) =>
    (s.2 : ℤ) = cnt + e ∧ (cnt = sizeofLong → s.1 (sizeofLong - 1) = stream (s.2 - 1)) ∧
      (e = 0 → ∀ i : ℕ, i < cnt → s.1 i = stream i)) ?_ ?_ (by decide)
    (e := 0) ⟨rfl, by simp [sizeofLong], by simp⟩ hloop
  · obtain ⟨htaken, hlast, hall⟩ := hspec
    rw [Nat.zero_add] at htaken hall
    refine ⟨?_, fun he i hi => hall he i (by exact_mod_cast hi)⟩
    rw [hlast rfl]
    congr 1
    simp only [sizeofLong] at htaken ⊢
    omega
  · rintro e cnt n ⟨peer, taken⟩ hlt hpos hle ⟨htaken, -, hall⟩
    dsimp only at htaken hall ⊢
    refine ⟨by push_cast; omega, fun hcnt => ?_, fun he i hi => ?_⟩
    · rw [if_pos (by omega)]
      congr 1
      omega
    · split_ifs with hin
      · congr 1
        omega
      · exact hall he i (by omega)
  · rintro e cnt ⟨peer, taken⟩ hlt ⟨htaken, -, -⟩
    exact ⟨by push_cast at *; omega, fun hcnt => by omega, nofun⟩

end Connect

/-- **The connect handshake.**  For results that let the loops end, the rank is sent, and the rank
that comes is received, just when no call would have blocked. -/
theorem connectAck_iff (results : List CallResult)
    (hends : (sendConnectAck (fun _ => 0) results).isSome) :
    (∀ ptr, sendConnectAck ptr results = some (bytesAt ptr 0 sizeofLong) ↔
        .eagain ∉ results) ∧
      ((∀ stream, ∃ peer, recvConnectAck stream results = some peer ∧
        ∀ i < sizeofLong, peer i = stream i) ↔ .eagain ∉ results) := by
  rw [sendConnectAck] at hends
  rw [← count_eq_zero]
  refine ⟨fun ptr => ⟨fun h => ?_, fun hnone => ?_⟩, fun h => ?_, fun hnone stream => ?_⟩
  · have hlength := (sendConnectAck_spec h).1
    simpa [bytesAt] using hlength
  · have hsome : (sendConnectAck ptr results).isSome := connectAckLoop_isSome.trans hends
    obtain ⟨sent, hsent⟩ := isSome_iff_exists.mp hsome
    rw [hsent, (sendConnectAck_spec hsent).2 hnone]
  · -- the bytes after the rank are others
    obtain ⟨peer, hpeer, hall⟩ := h fun i => if i < sizeofLong then 0 else 1
    have hlast := (recvConnectAck_spec hpeer).1
    have heq := hall (sizeofLong - 1) (by decide)
    rw [show ((sizeofLong - 1 : ℕ) : ℤ) = sizeofLong - 1 from rfl, hlast] at heq
    by_contra hne
    have hpast : ¬sizeofLong - 1 + results.count .eagain < sizeofLong := by
      omega
    rw [if_neg hpast, if_pos (by decide)] at heq
    exact absurd heq (by decide)
  · have hsome : (recvConnectAck stream results).isSome := by
      rw [recvConnectAck, isSome_map, connectAckLoop_isSome, hends]
    obtain ⟨peer, hpeer⟩ := isSome_iff_exists.mp hsome
    exact ⟨peer, hpeer, (recvConnectAck_spec hpeer).2 hnone⟩

theorem connectAck_interrupted : let results := [.moved 3, .eintr, .moved 5]
    ∀ ptr, sendConnectAck ptr results = some (bytesAt ptr 0 sizeofLong) := fun ptr =>
  ((connectAck_iff [.moved 3, .eintr, .moved 5] (by decide)).1 ptr).mpr (by decide)

/-- The fourth of the bytes `1, …, 8` is sent twice; a peer that sent them and then `9` is taken for
another. -/
theorem connectAck_blocked : let results := [.moved 4, .eagain, .moved 5]
    sendConnectAck (fun i => .ofNat (i + 1).toNat) results = some [1, 2, 3, 4, 4, 5, 6, 7, 8] ∧
      (recvConnectAck (fun i => .ofNat (i + 1)) results).map (bytesAt · 0 sizeofLong) =
        some [1, 2, 3, 5, 6, 7, 8, 9] := by
  decide

/-! ### Writing a fragment -/

namespace TcpSendFrag

variable {header : TcpMsgHeader} {payload : List UInt8} {frag frag' : TcpSendFrag}

lemma toInt_of_lt {n : ℤ} (hpos : 0 ≤ n) (hlt : n < 2 ^ 31) : toInt n = n := by
  unfold toInt Int.bmod
  dsimp only
  split_ifs <;> omega

/-- The loop removes the bytes from the front of the vectors, and leaves none that is empty. -/
lemma advance_spec (vecs : List (List UInt8)) (n : ℕ) (hle : n ≤ vecs.flatten.length)
    (hlt : n < 2 ^ 31) (hvecs : ∀ v ∈ vecs, v ≠ [] ∧ v.length < 2 ^ 31) :
    (advance n vecs).flatten = vecs.flatten.drop n ∧
      ∀ v ∈ advance n vecs, v ≠ [] ∧ v.length < 2 ^ 31 := by
  induction vecs generalizing n with
  | nil => simp [advance]
  | cons v vecs ih =>
    obtain ⟨⟨hne, hv⟩, hvecs⟩ := forall_mem_cons.mp hvecs
    rw [flatten_cons, length_append] at hle
    simp only [advance, toInt_of_lt (n := v.length) (by omega) (by exact_mod_cast hv)]
    split_ifs with hwhole
    · have hcast : toInt (n - v.length) = ((n - v.length : ℕ) : ℤ) := by
        rw [toInt_of_lt (by omega) (by omega)]
        omega
      rw [hcast, flatten_cons, drop_append, drop_of_length_le (by omega), nil_append]
      exact ih (n - v.length) (by omega) (by omega) hvecs
    · have hn : n < v.length := by omega
      rw [Int.toNat_natCast, flatten_cons, flatten_cons, drop_append_of_le_length hn.le]
      refine ⟨rfl, forall_mem_cons.mpr ⟨⟨?_, ?_⟩, hvecs⟩⟩
      · simpa [drop_eq_nil_iff] using hn
      · rw [length_drop]
        omega

/-- What was accepted and what is left are the fragment, and `sendComplete` was called if nothing is
left. -/
structure Writes (header : TcpMsgHeader) (payload : List UInt8) (frag : TcpSendFrag) : Prop where
  bytes : frag.accepted ++ frag.fragVecs.flatten = header.bytes ++ payload
  vecs : ∀ v ∈ frag.fragVecs, v ≠ [] ∧ v.length < 2 ^ 31
  completed : frag.completed = if frag.fragVecs = [] then 1 else 0

lemma Writes.sendEventHandler (h : Writes header payload frag) {results : List WritevResult}
    (hs : frag.sendEventHandler results = some frag') : Writes header payload frag' := by
  fun_induction frag.sendEventHandler results with
  | case1 | case5 => cases hs
  | case2 _ ih => exact ih hs
  | case3 =>
    cases hs
    exact h
  | case4 n _ hn =>
    cases hs
    obtain ⟨hpos, hle, hlt⟩ := hn
    obtain ⟨hflatten, hvecs⟩ := advance_spec _ n hle hlt h.vecs
    have hleft : frag.fragVecs ≠ [] := by
      rintro hnil
      simp [hnil] at hle
      omega
    refine ⟨?_, hvecs, ?_⟩
    · rw [hflatten, append_assoc, take_append_drop, h.bytes]
    · simp [h.completed, hleft, length_eq_zero_iff]

lemma Writes.run (h : Writes header payload frag) (calls : List (List WritevResult))
    (hs : frag.run calls = some frag') : Writes header payload frag' := by
  induction calls generalizing frag with
  | nil =>
    cases hs
    exact h
  | cons results calls ih =>
    obtain ⟨frag1, hcall, hs⟩ := bind_eq_some_iff.mp hs
    exact ih (h.sendEventHandler hcall) hs

lemma init_writes (hlt : payload.length < 2 ^ 31) :
    Writes header payload (init header payload) := by
  have hheader : header.bytes ≠ [] ∧ header.bytes.length < 2 ^ 31 := by
    refine ⟨fun hnil => ?_, by rw [header.size]; decide⟩
    have hsize := header.size
    simp [hnil] at hsize
  unfold init
  split_ifs with hempty
  · refine ⟨by simp [length_eq_zero_iff.mp hempty], by simpa using hheader, rfl⟩
  · have hpayload : payload ≠ [] ∧ payload.length < 2 ^ 31 :=
      ⟨fun hnil => hempty (by simp [hnil]), hlt⟩
    exact ⟨by simp, forall_mem_cons.mpr ⟨hheader, forall_mem_singleton.mpr hpayload⟩, rfl⟩

/-- The socket accepts the bytes of the fragment in order, and `sendComplete` is called once, with
the last byte. -/
def Right (header : TcpMsgHeader) (payload : List UInt8) (frag : TcpSendFrag) : Prop :=
  frag.accepted <+: header.bytes ++ payload ∧
    frag.completed = if frag.accepted = header.bytes ++ payload then 1 else 0

lemma Writes.right (h : Writes header payload frag) : Right header payload frag := by
  have hiff : frag.fragVecs = [] ↔ frag.accepted = header.bytes ++ payload := by
    rw [← h.bytes, self_eq_append_right, flatten_eq_nil_iff]
    refine ⟨fun hnil => by simp [hnil], fun hnil => eq_nil_iff_forall_not_mem.mpr fun v hv => ?_⟩
    exact (h.vecs v hv).1 (hnil v hv)
  exact ⟨⟨_, h.bytes⟩, by simp only [h.completed, hiff]⟩

private lemma not_right (header : TcpMsgHeader) (n : ℕ) (hn : n < payload.length) :
    ¬Right header payload ⟨[], header.bytes ++ payload.take n, 1⟩ := by
  rintro ⟨-, hcompleted⟩
  have hne : header.bytes ++ payload.take n ≠ header.bytes ++ payload := fun heq => by
    have hlength := congrArg length heq
    rw [length_append, length_append, length_take] at hlength
    omega
  simp [hne] at hcompleted

/-- When the length of the data is not a positive `int`, it is taken for written with the header. -/
private lemma run_header (hne : payload.length ≠ 0) (hint : toInt payload.length ≤ 0) :
    (init header payload).run [[.accepted 64]] = some ⟨[], header.bytes, 1⟩ := by
  simp [init, hne, run, sendEventHandler, advance, header.size, toInt_of_lt, hint]

/-- **A fragment is written.**  For all results of `writev`, the socket accepts the header and then
the data, and `sendComplete` is called once with the last byte, just when the length is an `int`. -/
theorem writes_iff (header : TcpMsgHeader) (payload : List UInt8) :
    (∀ calls frag, (init header payload).run calls = some frag → Right header payload frag) ↔
      payload.length < 2 ^ 31 := by
  refine ⟨fun hright => ?_, fun hlt calls frag hs => ((init_writes hlt).run calls hs).right⟩
  by_contra hge
  have hne : payload.length ≠ 0 := by omega
  have hbound : toInt payload.length < 2 ^ 31 := by
    unfold toInt Int.bmod
    dsimp only
    split_ifs <;> omega
  by_cases hint : toInt payload.length ≤ 0
  · refine not_right header 0 (by omega) (hright [[.accepted 64]] _ ?_)
    rw [run_header hne hint, take_zero, append_nil]
  · obtain ⟨n, hn⟩ := Int.eq_ofNat_of_zero_le (not_le.mp hint).le
    refine not_right header n (by omega) (hright [[.accepted 64], [.accepted n]] _ ?_)
    have hpos : n ≠ 0 ∧ 0 < n ∧ n ≤ payload.length ∧ n < 2147483648 := by omega
    simp [init, hne, run, sendEventHandler, advance, header.size, toInt_of_lt, hn, hpos]

/-- With two gigabytes of data, `sendComplete` is called when the socket has taken the header. -/
theorem writes_twoGigabytes :
    let header : TcpMsgHeader := ⟨replicate 64 0, length_replicate⟩
    (init header (replicate (2 ^ 31) 0)).run [[.accepted 64]] = some ⟨[], header.bytes, 1⟩ := by
  refine run_header ?_ ?_ <;> rw [length_replicate] <;> decide

end TcpSendFrag

/-! ### Reading a fragment -/

namespace TcpRecvFrag

variable {frag : TcpRecvFrag} {s s' : TcpRecvState} {results results' : List CallResult} {n cnt : ℕ}

lemma recvLoop_le (h : recvLoop n results = some (cnt, results')) : cnt ≤ n := by
  fun_induction recvLoop n results with
  | case1 cnt _ hk =>
    cases h
    exact hk.2.1
  | case2 | case5 => cases h
  | case3 _ ih => exact ih h
  | case4 =>
    cases h
    exact n.zero_le

lemma recvPart_spec {places : ℕ → ℕ → List ℕ} (hplaces : ∀ i, places i 0 = [])
    (h : recvPart n places s results = some (s', results')) : ∃ cnt ≤ n - s.fragCnt,
      s' = ⟨s.fragCnt + cnt, s.written ++ places s.fragCnt cnt, s.delivered⟩ := by
  unfold recvPart at h
  split_ifs at h
  · obtain ⟨⟨cnt, results1⟩, hloop, heq⟩ := map_eq_some_iff.mp h
    cases heq
    exact ⟨cnt, recvLoop_le hloop, rfl⟩
  · cases h
    exact ⟨0, Nat.zero_le _, by rw [hplaces, append_nil, Nat.add_zero]⟩

/-- The first `stored` of the bytes are written in order, at the offset of the fragment, and
`DeliveredToAppLock` is told with the last byte how many were and were not. -/
structure Right (frag : TcpRecvFrag) (stored : ℕ) (s : TcpRecvState) : Prop where
  fragCnt_le : s.fragCnt ≤ frag.length
  written : s.written = range' frag.dataOffset (min s.fragCnt stored)
  delivered : s.delivered =
    if s.fragCnt = frag.length then some (stored, frag.length - stored) else none

lemma Right.recvEventHandler (h : Right frag frag.fragLen s) (hle : frag.fragLen ≤ frag.length)
    (hs : frag.recvEventHandler s results = some s') : Right frag frag.fragLen s' := by
  unfold TcpRecvFrag.recvEventHandler at hs
  split_ifs at hs with hdone
  rw [Bool.not_eq_true, isSome_eq_false_iff, isNone_iff_eq_none] at hdone
  obtain ⟨⟨s1, results1⟩, hdata, hs⟩ := bind_eq_some_iff.mp hs
  obtain ⟨cnt, hcnt, rfl⟩ := recvPart_spec (fun _ => rfl) hdata
  have hfrag := h.fragCnt_le
  have hwritten : s.written ++ range' (frag.dataOffset + s.fragCnt) cnt =
      range' frag.dataOffset (min (s.fragCnt + cnt) frag.fragLen) := by
    rw [h.written]
    rcases Nat.lt_or_ge s.fragCnt frag.fragLen with hlt | hge
    · rw [Nat.min_eq_left hlt.le, range'_append_1, Nat.min_eq_left (by omega)]
    · obtain rfl : cnt = 0 := by omega
      rw [range'_zero, append_nil, Nat.add_zero]
  dsimp only at hs
  split_ifs at hs with hlt
  · cases hs
    exact ⟨by dsimp only; omega, hwritten, by rw [hdone, if_neg (by dsimp only; omega)]⟩
  obtain ⟨⟨s2, results2⟩, hdiscard, hs⟩ := bind_eq_some_iff.mp hs
  obtain ⟨cnt2, hcnt2, rfl⟩ := recvPart_spec (fun _ => rfl) hdiscard
  dsimp only at hs hcnt2
  rw [append_nil, hwritten] at hs
  split_ifs at hs with hlt2
  · cases hs
    refine ⟨by dsimp only; omega, congrArg (range' _) (by dsimp only; omega), ?_⟩
    rw [hdone, if_neg (by dsimp only; omega)]
  · cases hs
    refine ⟨by dsimp only; omega, congrArg (range' _) (by dsimp only; omega), ?_⟩
    rw [if_pos (by dsimp only; omega)]

lemma Right.run (h : Right frag frag.fragLen s) (hle : frag.fragLen ≤ frag.length)
    (calls : List (List CallResult)) (hs : frag.run s calls = some s') :
    Right frag frag.fragLen s' := by
  induction calls generalizing s with
  | nil =>
    cases hs
    exact h
  | cons results calls ih =>
    obtain ⟨s1, hcall, hs⟩ := bind_eq_some_iff.mp hs
    exact ih (h.recvEventHandler hle hcall) hs

/-- Over all results of `recv`, the part of a fragment that fits into the posted buffer is
stored. -/
def Inside (posted dataOffset length : ℕ) : Prop :=
  let frag := recvHeader posted dataOffset length
  ∀ calls s, frag.run ⟨0, [], none⟩ calls = some s → frag.Right (min length (posted - dataOffset)) s

lemma inside_iff {posted dataOffset length : ℕ} (hpos : 0 < length)
    (hend : dataOffset + length < 2 ^ 64) (hposted : posted < 2 ^ 64) :
    Inside posted dataOffset length ↔ dataOffset ≤ posted := by
  refine ⟨fun h => ?_, fun hle calls s hs => ?_⟩
  · by_contra hlt
    -- the length that is left wraps around
    have hfrag : recvHeader posted dataOffset length = ⟨dataOffset, length, length⟩ := by
      rw [recvHeader, TcpRecvFrag.mk.injEq]
      refine ⟨rfl, rfl, ?_⟩
      dsimp only
      split_ifs <;> omega
    have hrun : (recvHeader posted dataOffset length).run ⟨0, [], none⟩ [[.moved 1]] =
        some ⟨1, [dataOffset], if 1 < length then none else some (length, 0)⟩ := by
      rw [hfrag]
      by_cases hone : 1 < length <;>
        simp [run, recvEventHandler, recvData, recvDiscard, recvPart, recvLoop, hpos, hone,
          Nat.one_le_iff_ne_zero.mpr hpos.ne']
    have hwritten := (h _ _ hrun).written
    rw [Nat.sub_eq_zero_of_le (not_le.mp hlt).le, Nat.min_zero, Nat.min_zero] at hwritten
    cases hwritten
  · have hlen :
        (recvHeader posted dataOffset length).fragLen = min length (posted - dataOffset) := by
      dsimp only [recvHeader]
      split_ifs <;> omega
    rw [← hlen]
    refine Right.run ⟨Nat.zero_le _, by simp, (if_neg hpos.ne).symm⟩ ?_ calls hs
    rw [hlen]
    exact Nat.min_le_left _ _

/-- **Receiving stays inside the posted buffer** just when no fragment of the message starts past
the posted length. -/
theorem inside_iff_offsets (sizes : TcpSizes) (posted msgLength : Fin (2 ^ 64)) :
    (∀ i, sizes.dataOffset i < msgLength →
        Inside posted (sizes.dataOffset i) (sizes.fragLength msgLength i)) ↔
      ∀ i, sizes.dataOffset i < msgLength → sizes.dataOffset i ≤ posted := by
  refine forall₂_congr fun i hi => inside_iff ?_ ?_ posted.isLt
  · unfold TcpSizes.fragLength
    split_ifs
    · exact lt_min sizes.eager_pos (Nat.sub_pos_of_lt hi)
    · exact lt_min sizes.fragment_pos (Nat.sub_pos_of_lt hi)
  · have hle : sizes.fragLength msgLength i ≤ msgLength - sizes.dataOffset i := Nat.min_le_right _ _
    omega

/-- Of three bytes in fragments of one, the last is written behind a buffer of one byte. -/
theorem inside_past : let sizes : TcpSizes := ⟨1, 1, by decide, by decide⟩
    (recvHeader 1 (sizes.dataOffset 2) (sizes.fragLength 3 2)).run ⟨0, [], none⟩ [[.moved 1]] =
      some ⟨1, [2], some (1, 0)⟩ := by
  decide

end TcpRecvFrag

end Lampi
