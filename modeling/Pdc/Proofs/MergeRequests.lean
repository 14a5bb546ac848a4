import Pdc.Client.MergeRequests
import Mathlib.Algebra.Order.BigOperators.Group.List

/-!
# What merging changes

Writes to regions that follow one another are one write of their data put
together, so merging them is right as long as the merged buffer is the data put
together and the merged region is as long as the regions together.

The source takes both from the wrong place. It copies each request's buffer from
its start and not from its local offset, it starts the copies at the first
request's local offset, it gives the merged region a length in bytes, and it
takes the first request's access type for all; the reads it hands out at the end
go to buffers of its own. What is left is the case where none of that matters:
one-byte elements, writes only, and local offsets all zero.
-/

namespace Pdc

open List Lib

variable {rs : List LocalRequest} {x : LocalRequest × List UInt8} {remote : Remote}
  {junk : Nat → UInt8} {first : LocalRequest} {xs rest : List (LocalRequest × List UInt8)}
  {unit off n : Nat} {newBuf a b : List UInt8} {objId : UInt64}

/-- The remote regions follow one another from `off` on. -/
def Consecutive : Nat → List LocalRequest → Prop
  | _, [] => True
  | off, r :: rs => r.remoteOffset = off ∧ Consecutive (off + r.remoteSize) rs

instance decidableConsecutive : (off : Nat) → (rs : List LocalRequest) →
    Decidable (Consecutive off rs)
  | _, [] => isTrue trivial
  | off, r :: rs =>
    @instDecidableAnd _ _ (Nat.decEq _ _) (decidableConsecutive (off + r.remoteSize) rs)

/-- Every buffer holds the local region of its request. -/
def BufsHold (unit : Nat) (xs : List (LocalRequest × List UInt8)) : Prop :=
  ∀ x ∈ xs, (x.1.localOffset + x.1.remoteSize) * unit ≤ x.2.length

/-- Whatever the buffers and the object hold, starting and waiting for the
requests leaves what starting and waiting for them one by one leaves. -/
def MergeUnobservable (unit : Nat) (reqs : List LocalRequest) : Prop :=
  ∀ (junk : Nat → UInt8) (remote : Remote) (xs : List (LocalRequest × List UInt8)),
    xs.map Prod.fst = reqs → BufsHold unit xs → (∀ e, (remote e).length = unit) →
    startWaitAll unit junk remote xs = some (transferAll unit remote xs)

/-! ## The checks -/

theorem mergeCheckRest_of_consecutive :
    ∀ {prev : LocalRequest} {rs : List LocalRequest},
      (∀ r ∈ rs, r.regionPartition = .regionLocal) → (∀ r ∈ rs, r.localObjId = objId) →
      Consecutive (prev.remoteOffset + prev.remoteSize) rs →
        mergeCheckRest objId prev rs = true := by
  intro prev rs
  induction rs generalizing prev with
  | nil => intro _ _ _; rfl
  | cons r rs ih =>
    intro hlocal hobj hcons
    rw [forall_mem_cons] at hlocal hobj
    obtain ⟨hoff, hrest⟩ := hcons
    rw [← hoff] at hrest
    rw [mergeCheckRest, hlocal.1, hobj.1, hoff, ih hlocal.2 hobj.2 hrest]
    simp

theorem mergeCheck_of_consecutive
    (hlocal : ∀ r ∈ rs, r.regionPartition = .regionLocal) (hobj : ∀ r ∈ rs, r.localObjId = objId)
    (hcons : Consecutive off rs) : mergeCheck rs = true := by
  cases rs with
  | nil => rfl
  | cons r rs =>
    rw [forall_mem_cons] at hlocal hobj
    obtain ⟨hoff, hrest⟩ := hcons
    rw [← hoff] at hrest
    rw [mergeCheck, hlocal.1, hobj.1, mergeCheckRest_of_consecutive hlocal.2 hobj.2 hrest]
    rfl

/-! ## Writes put together -/

theorem writeElems_append (remote : Remote) {m : Nat} (ha : a.length = n * unit) :
    writeElems unit (writeElems unit remote off n a) (off + n) m b =
      writeElems unit remote off (n + m) (a ++ b) := by
  funext e
  rw [writeElems, writeElems, writeElems]
  rcases Nat.lt_or_ge e (off + n) with he | he
  · rw [if_neg (by omega)]
    by_cases hlo : off ≤ e
    · rw [if_pos (by omega), if_pos (by omega), elem_append_left (by
        rw [ha]; exact Nat.mul_le_mul_right unit (by omega))]
    · rw [if_neg (by omega), if_neg (by omega)]
  · rw [elem_append_right ha (by omega), if_neg (by omega : ¬ (off ≤ e ∧ e < off + n))]
    by_cases hhi : e < off + n + m
    · rw [if_pos (by omega), if_pos (by omega)]
      congr 1
      omega
    · rw [if_neg (by omega), if_neg (by omega)]

theorem length_writeData (h : (x.1.localOffset + x.1.remoteSize) * unit ≤ x.2.length) :
    (writeData unit x).length = x.1.remoteSize * unit :=
  length_slice (by rwa [Nat.add_mul] at h)

theorem length_flatMap_data {f : LocalRequest × List UInt8 → List UInt8} :
    ∀ {xs : List (LocalRequest × List UInt8)}, (∀ x ∈ xs, (f x).length = x.1.remoteSize * unit) →
      (xs.flatMap f).length = (xs.map fun x => x.1.remoteSize).sum * unit := by
  intro xs
  induction xs with
  | nil => intro _; simp
  | cons x xs ih =>
    intro h
    rw [forall_mem_cons] at h
    rw [flatMap_cons, length_append, h.1, ih h.2, map_cons, sum_cons, Nat.add_mul]

theorem transferWrites_before {unit : Nat} {e : Nat} :
    ∀ {xs : List (LocalRequest × List UInt8)} {off : Nat} {remote : Remote},
      Consecutive off (xs.map Prod.fst) → e < off → transferWrites unit remote xs e = remote e := by
  intro xs
  induction xs with
  | nil => intro off remote _ _; rfl
  | cons x xs ih =>
    intro off remote hcons he
    obtain ⟨hoff, hcons⟩ := hcons
    rw [transferWrites, foldl_cons]
    change transferWrites unit _ xs e = _
    rw [ih hcons (by omega)]
    split
    · rw [writeElems, if_neg (by omega)]
    · rfl

theorem transferWrites_consecutive :
    ∀ {xs : List (LocalRequest × List UInt8)} {off : Nat} {remote : Remote},
      Consecutive off (xs.map Prod.fst) → BufsHold unit xs → (∀ x ∈ xs, x.1.access = .write) →
      transferWrites unit remote xs =
        writeElems unit remote off (xs.map fun x => x.1.remoteSize).sum
          (xs.flatMap (writeData unit)) := by
  intro xs
  induction xs with
  | nil =>
    intro off remote _ _ _
    funext e
    rw [map_nil, sum_nil, writeElems, if_neg (by omega)]
    rfl
  | cons x xs ih =>
    intro off remote hcons hhold hw
    obtain ⟨hoff, hcons⟩ := hcons
    rw [BufsHold, forall_mem_cons] at hhold
    rw [forall_mem_cons] at hw
    rw [transferWrites, foldl_cons, if_pos hw.1, hoff]
    change transferWrites unit _ xs = _
    rw [ih hcons hhold.2 hw.2, writeElems_append remote (length_writeData hhold.1)]
    rfl

theorem writeElems_inj (ha : a.length = n * unit) (hb : b.length = n * unit)
    (h : writeElems unit remote off n a = writeElems unit remote off n b) : a = b := by
  refine ext_elem ha hb fun k hk => ?_
  have he := congrFun h (off + k)
  rwa [writeElems, writeElems, if_pos (by omega), if_pos (by omega), Nat.add_sub_cancel_left] at he

theorem flatMap_inj {α β : Type*} {f g : α → List β} :
    ∀ {xs : List α}, (∀ x ∈ xs, (f x).length = (g x).length) → xs.flatMap f = xs.flatMap g →
      ∀ x ∈ xs, f x = g x := by
  intro xs
  induction xs with
  | nil => intro _ _ x hx; simp at hx
  | cons y xs ih =>
    intro hlen h
    rw [forall_mem_cons] at hlen ⊢
    obtain ⟨hy, hrest⟩ := append_inj h hlen.1
    exact ⟨hy, ih hlen.2 hrest⟩

/-! ## The merged request -/

def mergeData (unit : Nat) (x : LocalRequest × List UInt8) : List UInt8 :=
  slice x.2 0 (x.1.totalDataSize unit)

theorem length_mergeData (h : (x.1.localOffset + x.1.remoteSize) * unit ≤ x.2.length) :
    (mergeData unit x).length = x.1.totalDataSize unit := by
  refine length_slice ?_
  rw [Nat.add_mul] at h
  rw [LocalRequest.totalDataSize, Nat.mul_comm unit]
  omega

theorem inBlock_iff {len : Nat} : inBlock len off n = true ↔ n = 0 ∨ off + n ≤ len := by
  rw [inBlock, Bool.or_eq_true, beq_iff_eq, decide_eq_true_eq]

theorem length_mergeCopy :
    ∀ {xs : List (LocalRequest × List UInt8)} {newBuf out : List UInt8} {copyOff : Nat},
      mergeCopy unit xs newBuf copyOff = some out → out.length = newBuf.length := by
  intro xs
  induction xs with
  | nil =>
    intro newBuf out copyOff h
    rw [mergeCopy, Option.some.injEq] at h
    rw [h]
  | cons x xs ih =>
    intro newBuf out copyOff h
    obtain ⟨_, h⟩ := Option.ite_none_right_eq_some.mp h
    rw [ih h, length_memcpy]

theorem mergeCopy_front {unit : Nat} :
    ∀ {xs : List (LocalRequest × List UInt8)} {front back : List UInt8}, BufsHold unit xs →
      newBufSize unit xs ≤ back.length →
      mergeCopy unit xs (front ++ back) front.length =
        some (front ++ (xs.flatMap (mergeData unit) ++ back.drop (newBufSize unit xs))) := by
  intro xs
  induction xs with
  | nil => intro front back _ _; rfl
  | cons x xs ih =>
    intro front back hhold hle
    rw [BufsHold, forall_mem_cons] at hhold
    have hlen := length_mergeData hhold.1
    have hbuf : x.1.totalDataSize unit ≤ x.2.length := by
      rw [← hlen, mergeData, slice, length_take, length_drop]
      omega
    rw [newBufSize, map_cons, sum_cons, ← newBufSize] at hle ⊢
    have hcopy : memcpy (front ++ back) front.length x.2 0 (x.1.totalDataSize unit) =
        (front ++ mergeData unit x) ++ back.drop (x.1.totalDataSize unit) := by
      have hfill := @memcpy_append_front _ front back (mergeData unit x) (by omega)
      rw [hlen] at hfill
      rw [append_assoc, ← hfill, mergeData,
        memcpy_slice_src (by rw [length_append]; omega) (by omega) (by omega)]
    rw [mergeCopy, if_pos ?_, hcopy]
    · have hfront : front.length + x.1.totalDataSize unit =
      (front ++ mergeData unit x).length := by
        rw [length_append, hlen]
      rw [hfront, ih hhold.2 (by rw [length_drop]; omega), drop_drop,
        flatMap_cons, append_assoc, append_assoc]
    · rw [Bool.and_eq_true, inBlock_iff, inBlock_iff, length_append]
      omega

theorem redistribute_none :
    ∀ {rs : List LocalRequest} {isFirst : Bool} {mergeOff : Nat},
      redistribute unit none rs isFirst mergeOff ≠ none ↔ ∀ r ∈ rs, r.access ≠ .read := by
  intro rs
  induction rs with
  | nil => intro isFirst mergeOff; simp [redistribute]
  | cons r rs ih =>
    intro isFirst mergeOff
    rw [redistribute]
    by_cases hr : r.access = .read
    · simp [hr]
    · rw [if_neg hr, ih]
      simp [hr]

theorem transferMerged_eq_some {out : Remote × List (List UInt8)}
    (h : transferMerged unit junk remote first xs = some out) :
    ∃ newBuf, mergeCopy unit xs (malloc junk (newBufSize unit xs)) first.localOffset = some newBuf ∧
      inBlock newBuf.length (first.localOffset * unit) (unit * newBufSize unit xs) = true ∧
      (first.access = .write → ∀ x ∈ xs, x.1.access ≠ .read) ∧
      out = (transferWrites unit remote [(mergedRequest first (newBufSize unit xs), newBuf)],
        xs.map Prod.snd) := by
  obtain ⟨newBuf, hcopy, h⟩ := Option.bind_eq_some_iff.mp h
  obtain ⟨hblock, h⟩ := Option.ite_none_right_eq_some.mp h
  obtain ⟨bufs, hbufs, h⟩ := Option.bind_eq_some_iff.mp h
  refine ⟨newBuf, hcopy, hblock, fun hw x hx => ?_, ?_⟩
  · rw [if_neg (by rw [mergedRequest]; simp [hw])] at hbufs
    exact redistribute_none.mp (by rw [hbufs]; simp) x.1 (mem_map.mpr ⟨x, hx, rfl⟩)
  · injection h with h
    exact h.symm

theorem transferMerged_write
    (hcopy : mergeCopy unit xs (malloc junk (newBufSize unit xs)) first.localOffset = some newBuf)
    (hblock : inBlock newBuf.length (first.localOffset * unit) (unit * newBufSize unit xs) = true)
    (hfirst : first.access = .write) (hw : ∀ x ∈ xs, x.1.access ≠ .read) :
    transferMerged unit junk remote first xs =
      some (transferWrites unit remote [(mergedRequest first (newBufSize unit xs), newBuf)],
        xs.map Prod.snd) := by
  have hreads : redistribute unit none (xs.map Prod.fst) true 0 ≠ none := by
    refine redistribute_none.mpr fun r hr => ?_
    obtain ⟨x, hx, rfl⟩ := mem_map.mp hr
    exact hw x hx
  obtain ⟨bufs, hbufs⟩ := Option.ne_none_iff_exists'.mp hreads
  have hnull : (mergedRequest first (newBufSize unit xs)).access ≠ .read := by
    change first.access ≠ .read
    rw [hfirst]
    exact Access.noConfusion
  refine Option.bind_eq_some_iff.mpr ⟨newBuf, hcopy, ?_⟩
  refine Option.ite_none_right_eq_some.mpr ⟨hblock, ?_⟩
  refine Option.bind_eq_some_iff.mpr ⟨bufs, ?_, rfl⟩
  rw [if_neg hnull]
  exact hbufs

/-! ## When it is unobservable -/

section Merge

variable {unit : Nat} {reqs : List LocalRequest} {objId : UInt64} {off : Nat} {r : LocalRequest}

theorem startWaitAll_merged (hcount : mergeTransferMinCount < reqs.length)
    (hcheck : mergeCheck reqs = true) {xs : List (LocalRequest × List UInt8)}
    (hxs : xs.map Prod.fst = reqs) (junk : Nat → UInt8) (remote : Remote) :
    ∃ x rest, xs = x :: rest ∧
      startWaitAll unit junk remote xs = transferMerged unit junk remote x.1 xs := by
  subst hxs
  cases xs with
  | nil => exact absurd hcount (Nat.not_lt_zero _)
  | cons x rest =>
    refine ⟨x, rest, rfl, ?_⟩
    rw [startWaitAll, if_pos]
    rw [Bool.and_eq_true, decide_eq_true_eq, hcheck]
    rw [length_map] at hcount
    exact ⟨hcount, rfl⟩

theorem transferReads_writes (hw : ∀ x ∈ xs, x.1.access = .write) :
    transferReads unit remote xs = xs.map Prod.snd := by
  refine map_congr_left fun x hx => ?_
  rw [if_neg (by rw [hw x hx]; exact Access.noConfusion)]

theorem transferMerged_writes (hcons : Consecutive off ((x :: rest).map Prod.fst))
    (hhold : BufsHold 1 (x :: rest)) (hw : ∀ y ∈ x :: rest, y.1.access = .write)
    (hoff : x.1.localOffset = 0) :
    transferMerged 1 junk remote x.1 (x :: rest) =
      some (writeElems 1 remote off ((x :: rest).map fun y => y.1.remoteSize).sum
        ((x :: rest).flatMap (mergeData 1)), (x :: rest).map Prod.snd) := by
  generalize hxs : x :: rest = xs at *
  have hbytes : newBufSize 1 xs = (xs.map fun y => y.1.remoteSize).sum := by
    simp [newBufSize, LocalRequest.totalDataSize]
  have hcopy : mergeCopy 1 xs (malloc junk (newBufSize 1 xs)) 0 =
      some (xs.flatMap (mergeData 1)) := by
    have hlen : (malloc junk (newBufSize 1 xs)).length = newBufSize 1 xs := by simp [malloc]
    have h := @mergeCopy_front 1 xs [] (malloc junk (newBufSize 1 xs)) hhold hlen.ge
    rw [drop_eq_nil_of_le hlen.le, append_nil] at h
    exact h
  have hdata : (xs.flatMap (mergeData 1)).length = newBufSize 1 xs := by
    rw [length_mergeCopy hcopy]
    simp [malloc]
  have hremote : x.1.remoteOffset = off := by
    rw [← hxs] at hcons
    exact hcons.1
  have hx : x.1.access = .write := hw x (by rw [← hxs]; simp)
  rw [transferMerged_write (hoff ▸ hcopy) (by rw [inBlock_iff, hdata, hoff]; omega) hx
    (fun y hy => by rw [hw y hy]; exact Access.noConfusion)]
  refine congrArg (fun remote' => some (remote', xs.map Prod.snd)) ?_
  rw [transferWrites, foldl_cons, foldl_nil, mergedRequest]
  simp only [if_pos hx]
  rw [writeData, hoff, hremote, hbytes, Nat.zero_mul, Nat.mul_one,
    slice_eq_self (hdata.trans hbytes)]

theorem newBufSize_pos (hunit : 0 < unit) (hx : x ∈ xs) (hpos : 0 < x.1.remoteSize) :
    0 < newBufSize unit xs :=
  lt_of_lt_of_le (Nat.mul_pos hunit hpos) (le_sum_of_mem (mem_map.mpr ⟨x, hx, rfl⟩))

/-- The merged region, as many elements as the new buffer has bytes, fits the
new buffer only if an element is a byte and the local offset is zero. -/
theorem unit_eq_one_of_inBlock (hunit : 0 < unit) (hsize : 0 < newBufSize unit xs)
    (hcopy : mergeCopy unit xs (malloc junk (newBufSize unit xs)) first.localOffset = some newBuf)
    (hblock : inBlock newBuf.length (first.localOffset * unit) (unit * newBufSize unit xs) = true) :
    unit = 1 ∧ first.localOffset = 0 := by
  have hlen : newBuf.length = newBufSize unit xs := by
    rw [length_mergeCopy hcopy]
    simp [malloc]
  have hfit : first.localOffset * unit + unit * newBufSize unit xs ≤ newBufSize unit xs := by
    rcases inBlock_iff.mp hblock with hzero | hle
    · exact absurd hzero (Nat.mul_pos hunit hsize).ne'
    · rwa [hlen] at hle
  have hle : unit ≤ 1 := by
    refine Nat.le_of_mul_le_mul_right ?_ hsize
    omega
  have hone : unit = 1 := by omega
  subst hone
  exact ⟨rfl, by omega⟩

/-- A buffer whose first byte is unlike all others. -/
def markedBuf (unit : Nat) (r : LocalRequest) : List UInt8 :=
  1 :: List.replicate ((r.localOffset + r.remoteSize) * unit) 0

def marked (unit : Nat) (reqs : List LocalRequest) : List (LocalRequest × List UInt8) :=
  reqs.map fun r => (r, markedBuf unit r)

theorem map_fst_marked (unit : Nat) (reqs : List LocalRequest) :
    (marked unit reqs).map Prod.fst = reqs := by
  rw [marked, map_map]
  exact map_id reqs

theorem bufsHold_marked (unit : Nat) (reqs : List LocalRequest) :
    BufsHold unit (marked unit reqs) := by
  intro x hx
  obtain ⟨r, _, rfl⟩ := mem_map.mp hx
  simp [markedBuf]

/-- A read leaves its data in the user's buffer, which a merged read does not. -/
theorem transferReads_marked_ne (hunit : 0 < unit)
    (hcons : Consecutive off (r :: rs)) (hpos : 0 < r.remoteSize) (hr : r.access = .read) :
    transferReads unit (transferWrites unit (fun _ => replicate unit 2) (marked unit (r ::
      rs)))
      (marked unit (r :: rs)) ≠ (marked unit (r :: rs)).map Prod.snd := by
  intro h
  obtain ⟨hoff, hrest⟩ := hcons
  -- No write of the list touches the first element of the read.
  have hremote : transferWrites unit (fun _ => replicate unit 2) (marked unit (r :: rs))
      r.remoteOffset = replicate unit 2 := by
    rw [marked, map_cons, transferWrites, foldl_cons, if_neg (by simp [hr])]
    change transferWrites unit _ (marked unit rs) _ = _
    rw [@transferWrites_before unit _ (marked unit rs) (off + r.remoteSize) _
      (by rw [map_fst_marked]; exact hrest) (by omega)]
  generalize hwrites : transferWrites unit (fun _ => replicate unit 2)
    (marked unit (r :: rs)) = remote' at h hremote
  rw [transferReads, marked, map_cons, map_cons, map_cons, cons.injEq] at h
  have hbuf := h.1
  simp only [if_pos hr] at hbuf
  -- The first byte it reads is 2, which no buffer has.
  have hbyte : (readElems remote' r.remoteOffset r.remoteSize)[0 + 0]? = some 2 := by
    obtain ⟨m, hm⟩ := Nat.exists_eq_add_of_lt hpos
    rw [readElems, hm, range_succ_eq_map, flatMap_cons, Nat.add_zero, hremote, getElem?_append_left
      (by simpa using hunit), getElem?_replicate_of_lt (by omega)]
  have hlt : r.localOffset * unit < (markedBuf unit r).length := by
    rw [markedBuf, length_cons, length_replicate, Nat.add_mul]
    omega
  have hread := @memcpy_getElem?_of_src _ (markedBuf unit r)
    (readElems remote' r.remoteOffset r.remoteSize) (r.remoteSize * unit) 0 (r.localOffset * unit)
    (r.localOffset * unit) 2
    hlt (Nat.le_refl _) (Nat.lt_add_of_pos_right (Nat.mul_pos hpos hunit))
    (by rw [Nat.sub_self]; exact hbyte)
  rw [hbuf] at hread
  have hmem := mem_of_getElem? hread
  rw [markedBuf, mem_cons, mem_replicate] at hmem
  rcases hmem with hmem | hmem
  · exact absurd hmem (by decide)
  · exact absurd hmem.2 (by decide)

theorem localOffset_of_marked (hpos : 0 < r.remoteSize)
    (h : mergeData 1 (r, markedBuf 1 r) = writeData 1 (r, markedBuf 1 r)) : r.localOffset = 0 := by
  by_contra hne
  obtain ⟨k, hk⟩ := Nat.exists_eq_succ_of_ne_zero hne
  have hfirst := congrArg (fun bytes => bytes[0]?) h
  simp only [mergeData, writeData, slice_getElem?, LocalRequest.totalDataSize, Nat.one_mul,
    Nat.mul_one, if_pos hpos, Nat.add_zero] at hfirst
  rw [markedBuf, hk, getElem?_cons_succ, getElem?_replicate_of_lt (by omega)] at hfirst
  exact absurd (Option.some.inj hfirst) (by decide)

theorem localOffset_of_merged (hcons : Consecutive off reqs) (hpos : ∀ r ∈ reqs, 0 < r.remoteSize)
    (hwrites : ∀ r ∈ reqs, r.access = .write) (hxs : marked 1 reqs = x :: rest)
    (hoff : x.1.localOffset = 0)
    (hrun : transferMerged 1 junk remote x.1 (marked 1 reqs) =
      some (transferAll 1 remote (marked 1 reqs))) :
    ∀ r ∈ reqs, r.localOffset = 0 := by
  have hfst := map_fst_marked 1 reqs
  have hhold := bufsHold_marked 1 reqs
  have hw : ∀ y ∈ marked 1 reqs, y.1.access = .write := fun y hy =>
    hwrites y.1 (by rw [← hfst]; exact mem_map.mpr ⟨y, hy, rfl⟩)
  have hcons' : Consecutive off ((marked 1 reqs).map Prod.fst) := by rw [hfst]; exact hcons
  rw [hxs] at hrun hw hhold hcons'
  rw [transferMerged_writes hcons' hhold hw hoff, transferAll,
    transferWrites_consecutive hcons' hhold hw, Option.some.injEq, Prod.mk.injEq] at hrun
  have hdata := writeElems_inj (length_flatMap_data fun y hy => by
      rw [length_mergeData (hhold y hy), LocalRequest.totalDataSize, Nat.mul_comm])
    (length_flatMap_data fun y hy => length_writeData (hhold y hy)) hrun.1
  intro r hr
  have hmem : (r, markedBuf 1 r) ∈ x :: rest := by
    rw [← hxs]
    exact mem_map.mpr ⟨r, hr, rfl⟩
  refine localOffset_of_marked (hpos r hr) (flatMap_inj (fun y hy => ?_) hdata _ hmem)
  rw [length_mergeData (hhold y hy), length_writeData (hhold y hy), LocalRequest.totalDataSize,
    Nat.mul_comm]

/-- More than the threshold's requests of one object whose regions follow one
another: merging them is unobservable exactly for one-byte elements, writes only
and no local offsets. -/
theorem mergeUnobservable_iff (hunit : 0 < unit) (hcount : mergeTransferMinCount < reqs.length)
    (hlocal : ∀ r ∈ reqs, r.regionPartition = .regionLocal)
    (hobj : ∀ r ∈ reqs, r.localObjId = objId) (hcons : Consecutive off reqs)
    (hpos : ∀ r ∈ reqs, 0 < r.remoteSize)
    (hacc : ∀ r ∈ reqs, r.access = .read ∨ r.access = .write) :
    MergeUnobservable unit reqs ↔ unit = 1 ∧ ∀ r ∈ reqs, r.access = .write ∧ r.localOffset = 0 := by
  have hcheck := mergeCheck_of_consecutive hlocal hobj hcons
  constructor
  · intro h
    have hfst := map_fst_marked unit reqs
    have hhold := bufsHold_marked unit reqs
    have hrun := h (fun _ => 0) (fun _ => List.replicate unit 2) (marked unit reqs) hfst hhold
      fun _ => length_replicate
    obtain ⟨x, rest, hxs, hstart⟩ := @startWaitAll_merged unit _ hcount hcheck _ hfst (fun _ => 0)
      fun _ => List.replicate unit 2
    rw [hstart] at hrun
    obtain ⟨newBuf, hcopy, hblock, hnoread, hout⟩ := transferMerged_eq_some hrun
    rw [Prod.mk.injEq] at hout
    have hx : x.1 ∈ reqs := by
      rw [← hfst, hxs]
      simp
    -- A first request that reads would have to fill the user's buffer.
    have hfirst : x.1.access = .write := by
      refine (hacc x.1 hx).resolve_left fun hread => ?_
      obtain ⟨r, rs, rfl⟩ := exists_cons_of_ne_nil (ne_nil_of_mem hx)
      have hxr : x.1 = r := by
        rw [marked, map_cons, List.cons.injEq] at hxs
        rw [← hxs.1]
      rw [hxr] at hread
      exact transferReads_marked_ne hunit hcons (hpos r (by simp)) hread hout.2
    have hw : ∀ y ∈ marked unit reqs, y.1.access = .write := fun y hy =>
      (hacc y.1 (by rw [← hfst]; exact mem_map.mpr ⟨y, hy, rfl⟩)).resolve_left (hnoread hfirst y hy)
    obtain ⟨hunit1, hoff⟩ := unit_eq_one_of_inBlock hunit
      (newBufSize_pos hunit (by rw [hxs]; simp) (hpos x.1 hx)) hcopy hblock
    subst hunit1
    have hwrites : ∀ r ∈ reqs, r.access = .write := fun r hr =>
      hw _ (mem_map.mpr ⟨r, hr, rfl⟩)
    exact ⟨rfl, fun r hr => ⟨hwrites r hr,
      localOffset_of_merged hcons hpos hwrites hxs hoff hrun r hr⟩⟩
  · rintro ⟨rfl, hreqs⟩ junk remote xs rfl hhold _
    obtain ⟨x, rest, hxs, hstart⟩ := @startWaitAll_merged 1 _ hcount hcheck xs rfl junk remote
    have hw : ∀ y ∈ xs, y.1.access = .write ∧ y.1.localOffset = 0 := fun y hy =>
      hreqs y.1 (mem_map.mpr ⟨y, hy, rfl⟩)
    subst hxs
    rw [hstart, transferMerged_writes hcons hhold (fun y hy => (hw y hy).1) (hw x (by simp)).2,
      transferAll, transferReads_writes fun y hy => (hw y hy).1,
      transferWrites_consecutive hcons hhold fun y hy => (hw y hy).1]
    have hdata : (x :: rest).flatMap (mergeData 1) = (x :: rest).flatMap (writeData 1) := by
      refine flatMap_congr fun y hy => ?_
      rw [mergeData, writeData, (hw y hy).2, LocalRequest.totalDataSize, Nat.zero_mul, Nat.one_mul,
        Nat.mul_one]
    rw [hdata]

end Merge

def writeOne (i : Nat) : LocalRequest where
  access := .write
  localObjId := 1
  regionPartition := .regionLocal
  localOffset := 0
  remoteOffset := i
  remoteSize := 1

theorem mergeUnobservable_iff_bytes : MergeUnobservable 1 ((List.range 51).map writeOne) :=
  (@mergeUnobservable_iff 1 _ 1 0 (by decide) (by decide) (by decide +kernel) (by decide +kernel)
    (by decide +kernel) (by decide +kernel) (by decide +kernel)).mpr (by decide +kernel)

/-- Fifty-one writes of one four-byte element each: the merged request is of 204
elements and its buffer has 204 bytes. -/
theorem merge_overruns : ¬ MergeUnobservable 4 ((List.range 51).map writeOne) := by
  intro h
  have hfst := map_fst_marked 4 ((List.range 51).map writeOne)
  have hrun := h (fun _ => 0) (fun _ => [0, 0, 0, 0]) _ hfst (bufsHold_marked 4 _) fun _ => rfl
  obtain ⟨x, rest, hxs, hstart⟩ := @startWaitAll_merged 4 _ (by decide) (by decide +kernel) _ hfst
    (fun _ => 0) fun _ => [0, 0, 0, 0]
  obtain ⟨newBuf, hcopy, hblock, _, _⟩ := transferMerged_eq_some hrun
  exact absurd (unit_eq_one_of_inBlock (by decide) (by decide +kernel) hcopy hblock).1 (by decide)

end Pdc
