import Pdc.Proofs.Refresh
import Pdc.Proofs.StoragePaths

/-!
# Storage by region is an array store

The storage list may hold any number of regions over the same cell. What
keeps reads right is that they never disagree: a write patches every stored
region it overlaps, and it adds itself to the list with the bytes it just
wrote. `StorageInv` is that invariant together with what the file owes it,
extents that lie in the file and do not share bytes, and `StorageInv.write`
carries it over one call of `PDC_Server_data_write_out`.

In two and three dimensions the step needs nothing else. In one dimension
the source compares a position inside the stored region with the size of the
incoming write and gives up on the whole request when it is larger. `Reaches`
is what a write needs for that check to stay silent; the stored region may
start before the write, but by no more than the write's own length.
-/

namespace Pdc

open List Lib Bool

variable {bytes buf : List UInt8} {sr : StorageRegion} {s : DataServerRegion} (sieving : Bool)
  (junk : Nat → UInt8) {unit n : Nat} {info : Region}

/-! ## One call of `PDC_Server_data_write_out` -/

def StorageRegion.window (sr : StorageRegion) (bytes : List UInt8) : List UInt8 :=
  slice bytes sr.offset sr.dataSize

def patchRegion (n unit : Nat) (info : Region) (buf bytes : List UInt8) (sr : StorageRegion) :
    List UInt8 :=
  memcpy bytes sr.offset (refresh n unit info buf sr.region (sr.window bytes)) 0 sr.dataSize

def patchAll (n unit : Nat) (info : Region) (buf : List UInt8) (storage : List StorageRegion)
    (bytes : List UInt8) : List UInt8 :=
  storage.foldl (patchRegion n unit info buf) bytes

/-- `is_contained` after the loop. -/
def storageContains (n : Nat) (info : Region) (storage : List StorageRegion) : Bool :=
  storage.any fun sr =>
    (regionOverlapDetect n info sr.region).isSome && detectRegionContained n info sr.region

/-- The one-dimensional sanity check passes: a stored region that reaches
past the start of the write starts at most the write's length before it. -/
def Reaches (n : Nat) (info : Region) (sr : StorageRegion) : Prop :=
  n = 1 → info.off 0 < sr.region.off 0 + sr.region.len 0 → info.off 0 ≤ sr.region.off 0 + info.len 0

@[simp] theorem length_patchRegion (n unit : Nat) (info : Region) (buf bytes : List UInt8)
    (sr : StorageRegion) : (patchRegion n unit info buf bytes sr).length = bytes.length :=
  length_memcpy ..

@[simp] theorem length_patchAll (n unit : Nat) (info : Region) (buf : List UInt8)
    (storage : List StorageRegion) (bytes : List UInt8) :
    (patchAll n unit info buf storage bytes).length = bytes.length :=
  length_foldl (fun b sr => length_patchRegion n unit info buf b sr) storage bytes

theorem StorageRegion.Backed.of_length {bytes' : List UInt8}
    (h : sr.Backed n unit bytes) (hlen : bytes.length ≤ bytes'.length) : sr.Backed n unit bytes' :=
  ⟨h.noWrap, h.dataSize_eq, le_trans h.fits hlen⟩

theorem StorageRegion.Backed.length_window (h : sr.Backed n unit bytes) :
    (sr.window bytes).length = sr.region.count n * unit := by
  rw [StorageRegion.window, length_slice h.fits, h.dataSize_eq]

theorem Reaches.pos_le {ov : Region} (h : Reaches 1 info sr) (hinfo : info.NoWrap 1)
    (hsr : sr.region.NoWrap 1) (hov : regionOverlapDetect 1 info sr.region = some ov) :
    (ov.off 0 - sr.region.off 0) * unit ≤ info.writeSize 1 unit := by
  have hbounds := regionOverlapDetect_bounds hinfo hsr hov 0 (by omega)
  have hcheck : checkOverlap 1 info sr.region = true := by
    by_contra hno
    rw [regionOverlapDetect, if_neg hno] at hov
    cases hov
  have hoverlap := (checkOverlap_iff hinfo hsr).mp hcheck 0 (by omega)
  rw [Region.writeSize_eq (.inl rfl), Region.count_one]
  refine Nat.mul_le_mul_right unit ?_
  have := h rfl
  omega

section Write

variable {n unit : Nat} {info : Region} {buf : List UInt8}

theorem writeOutLoop_eq (sieving : Bool) (junk : Nat → UInt8) (hn : n = 1 ∨ n = 2 ∨ n = 3)
    (hinfo : info.NoWrap n) (hbuf : buf.length = info.count n * unit) :
    ∀ {storage : List StorageRegion} {f : File} {isContained : Bool},
      (∀ sr ∈ storage, sr.Backed n unit f.bytes) → (∀ sr ∈ storage, Reaches n info sr) →
      ∃ pos, writeOutLoop sieving junk n unit info buf storage f isContained =
        ({ bytes := patchAll n unit info buf storage f.bytes, pos },
          isContained || storageContains n info storage, .succeed) := by
  intro storage
  induction storage with
  | nil =>
    intro f isContained _ _
    exact ⟨f.pos, by simp [writeOutLoop, patchAll, storageContains]⟩
  | cons sr rest ih =>
    intro f isContained hback hreach
    have hsr := hback sr (by simp)
    rw [writeOutLoop]
    split
    · next hov =>
      -- No overlap: storing the loaded window back would change nothing.
      have hsame : patchRegion n unit info buf f.bytes sr = f.bytes := by
        rw [patchRegion, refresh, hov]
        exact memcpy_self_window hsr.fits
      obtain ⟨pos, h⟩ := @ih f isContained (fun q hq => hback q (mem_cons_of_mem _ hq))
        (fun q hq => hreach q (mem_cons_of_mem _ hq))
      refine ⟨pos, ?_⟩
      rw [h, patchAll, patchAll, foldl_cons, hsame, storageContains, storageContains,
        any_cons, hov]
      simp
    · next ov hov =>
      obtain ⟨hin, hst⟩ := regionOverlapDetect_inside hinfo hsr.noWrap hov
      obtain ⟨pos, h⟩ := writeOverlap_eq junk sieving ⟨hn, hsr, hbuf, hin, hst⟩ (by
        rintro rfl
        exact (hreach sr (by simp)).pos_le hinfo hsr.noWrap hov)
      have hpatch : sr.patch n unit f.bytes info buf ov =
          patchRegion n unit info buf f.bytes sr := by
        rw [patchRegion, refresh, hov]
        rfl
      rw [hpatch] at h
      obtain ⟨pos', h'⟩ := @ih ⟨patchRegion n unit info buf f.bytes sr, pos⟩
        (isContained || detectRegionContained n info sr.region)
        (fun q hq => (hback q (mem_cons_of_mem _ hq)).of_length (by simp))
        (fun q hq => hreach q (mem_cons_of_mem _ hq))
      refine ⟨pos', ?_⟩
      simp only [h]
      rw [h', storageContains, storageContains, any_cons, hov]
      simp [patchAll, Bool.or_assoc]

/-- What a call leaves behind when every stored region is backed: the file
patched, and the write appended to file and list unless a stored region
contains it. -/
theorem serverDataWriteOut_eq (hn : n = 1 ∨ n = 2 ∨ n = 3) (hinfo : info.NoWrap n)
    (hbuf : buf.length = info.count n * unit)
    (hback : ∀ sr ∈ s.storage, sr.Backed n unit s.file.bytes)
    (hreach : ∀ sr ∈ s.storage, Reaches n info sr) :
    ∃ pos, serverDataWriteOut sieving junk n unit s info buf =
      (if storageContains n info s.storage then
        { file := ⟨patchAll n unit info buf s.storage s.file.bytes, pos⟩, storage := s.storage }
      else
        { file := ⟨patchAll n unit info buf s.storage s.file.bytes ++ buf, pos⟩
          storage := s.storage ++
            [⟨info, s.file.bytes.length, info.count n * unit⟩] }, .succeed) := by
  obtain ⟨pos, hloop⟩ := @writeOutLoop_eq n unit info buf sieving junk hn hinfo hbuf s.storage
    s.file false hback hreach
  rw [serverDataWriteOut, hloop, Bool.false_or]
  cases hcont : storageContains n info s.storage with
  | true => exact ⟨pos, rfl⟩
  | false =>
    have hsize := Region.writeSize_eq hn unit info
    simp only [File.seekEnd]
    rw [serverPosixWrite_eq (by rw [hsize, hbuf]; omega)]
    simp only [hsize]
    rw [slice_eq_self hbuf, pwrite_end]
    exact ⟨s.file.bytes.length + info.count n * unit, by simp⟩

end Write

theorem readFromRegion_eq (hn : n = 1 ∨ n = 2 ∨ n = 3) {f : File} (hback : sr.Backed n unit f.bytes)
    (hinfo : info.NoWrap n) (hbuf : buf.length = info.count n * unit) :
    readFromRegion sieving junk n unit f info buf sr =
      refresh n unit sr.region (sr.window f.bytes) info buf := by
  rw [readFromRegion, refresh, regionOverlapDetect_comm n sr.region info]
  cases hov : regionOverlapDetect n info sr.region with
  | none => rfl
  | some ov =>
    obtain ⟨hin, hst⟩ := regionOverlapDetect_inside hinfo hback.noWrap hov
    exact readOverlap_eq junk sieving ⟨hn, hback, hbuf, hin, hst⟩

theorem serverDataReadFrom_eq (hn : n = 1 ∨ n = 2 ∨ n = 3)
    (hback : ∀ sr ∈ s.storage, sr.Backed n unit s.file.bytes)
    (hinfo : info.NoWrap n) (hbuf : buf.length = info.count n * unit) :
    serverDataReadFrom sieving junk n unit s info buf =
      (s.storage.map fun sr => (sr.region, sr.window s.file.bytes)).foldl
        (fun b p => refresh n unit p.1 p.2 info b) buf := by
  obtain ⟨f, storage⟩ := s
  rw [serverDataReadFrom]
  induction storage generalizing buf with
  | nil => rfl
  | cons sr rest ih =>
    rw [foldl_cons, readFromRegion_eq sieving junk hn (hback sr (by simp)) hinfo hbuf]
    exact ih (by rw [length_refresh, hbuf]) fun q hq => hback q (mem_cons_of_mem _ hq)

/-! ## Data sieving cannot be observed -/

/-- With every stored region backed by the file, the file, the storage list,
the result and the buffer read do not depend on `data_sieving_g`, nor on what
the temporary buffers held before they were used. -/
theorem dataSieving_unobservable {n unit : Nat} (hn : n = 2 ∨ n = 3) (junk junk' : Nat → UInt8)
    (s : DataServerRegion) (hback : ∀ sr ∈ s.storage, sr.Backed n unit s.file.bytes)
    (t : Transfer n unit) :
    (serverDataWriteOut true junk n unit s t.region t.buf).1.file.bytes =
        (serverDataWriteOut false junk' n unit s t.region t.buf).1.file.bytes ∧
      (serverDataWriteOut true junk n unit s t.region t.buf).1.storage =
        (serverDataWriteOut false junk' n unit s t.region t.buf).1.storage ∧
      (serverDataWriteOut true junk n unit s t.region t.buf).2 =
        (serverDataWriteOut false junk' n unit s t.region t.buf).2 ∧
      serverDataReadFrom true junk n unit s t.region t.buf =
        serverDataReadFrom false junk' n unit s t.region t.buf := by
  have hn' : n = 1 ∨ n = 2 ∨ n = 3 := .inr hn
  have hreach : ∀ sr ∈ s.storage, Reaches n t.region sr := fun sr _ h1 => absurd h1 (by omega)
  obtain ⟨pos, hon⟩ := serverDataWriteOut_eq true junk hn' t.noWrap t.length_buf hback hreach
  obtain ⟨pos', hoff⟩ := serverDataWriteOut_eq false junk' hn' t.noWrap t.length_buf hback hreach
  rw [hon, hoff, serverDataReadFrom_eq true junk hn' hback t.noWrap t.length_buf,
    serverDataReadFrom_eq false junk' hn' hback t.noWrap t.length_buf]
  cases storageContains n t.region s.storage <;> exact ⟨rfl, rfl, rfl, rfl⟩

/-- One row of two elements in the file, and a write of its first element. -/
theorem dataSieving_unobservable_row :
    (serverDataWriteOut true (fun _ => 0) 2 1 ⟨⟨[1, 2], 0⟩, [⟨⟨[0, 0], [1, 2]⟩, 0, 2⟩]⟩
        ⟨[0, 0], [1, 1]⟩ [7]).1.file.bytes =
      (serverDataWriteOut false (fun _ => 9) 2 1 ⟨⟨[1, 2], 0⟩, [⟨⟨[0, 0], [1, 2]⟩, 0, 2⟩]⟩
        ⟨[0, 0], [1, 1]⟩ [7]).1.file.bytes :=
  (dataSieving_unobservable (n := 2) (.inl rfl) (fun _ => 0) (fun _ => 9)
    ⟨⟨[1, 2], 0⟩, [⟨⟨[0, 0], [1, 2]⟩, 0, 2⟩]⟩
    (fun sr hsr => by
      rw [mem_singleton.mp hsr]
      exact ⟨by decide, by decide, by decide⟩)
    ⟨⟨[0, 0], [1, 1]⟩, [7], by decide, by decide⟩).1

/-- A stored region the file does not reach: sieving loads nothing for its
second element and writes its temporary's byte out, the direct write stops
after the first. -/
theorem dataSieving_observable_short_file :
    (serverDataWriteOut true (fun _ => 0) 2 1 ⟨⟨[], 0⟩, [⟨⟨[0, 0], [1, 2]⟩, 0, 2⟩]⟩
        ⟨[0, 0], [1, 1]⟩ [7]).1.file.bytes = [7, 0] ∧
      (serverDataWriteOut false (fun _ => 0) 2 1 ⟨⟨[], 0⟩, [⟨⟨[0, 0], [1, 2]⟩, 0, 2⟩]⟩
        ⟨[0, 0], [1, 1]⟩ [7]).1.file.bytes = [7] := by
  decide

/-! ## The invariant -/

/-- The stored regions as copies of the array. -/
def DataServerRegion.copies (n unit : Nat) (s : DataServerRegion) :
    List (Patch (Fin n → ℕ) (List UInt8)) :=
  s.storage.map fun sr => boxPatch n unit sr.region (sr.window s.file.bytes)

/-- The storage stands for the array `m`. -/
structure StorageInv (n unit : Nat) (m : (Fin n → ℕ) → Option (List UInt8))
    (s : DataServerRegion) : Prop where
  backed : ∀ sr ∈ s.storage, sr.Backed n unit s.file.bytes
  apart : s.storage.Pairwise fun a b => a.offset + a.dataSize ≤ b.offset
  coherent : Coherent (s.copies n unit) m
  covered : Covered (s.copies n unit) m

theorem StorageInv.empty (n unit : Nat) (f : File) : StorageInv n unit (fun _ => none) ⟨f, []⟩ where
  backed := by simp
  apart := List.Pairwise.nil
  coherent := by simp [Coherent, DataServerRegion.copies]
  covered := fun c v h => by cases h

section Step

variable {n unit : Nat} {info : Region} {buf : List UInt8}

theorem slice_patchAll_of_apart {off m : Nat} :
    ∀ {storage : List StorageRegion} {bytes : List UInt8}, (∀ sr ∈ storage, off + m ≤ sr.offset) →
      slice (patchAll n unit info buf storage bytes) off m = slice bytes off m := by
  intro storage
  induction storage with
  | nil => intro bytes _; rfl
  | cons sr rest ih =>
    intro bytes h
    refine (ih fun q hq => h q (mem_cons_of_mem _ hq)).trans ?_
    exact slice_memcpy_of_disjoint (.inl (h sr (by simp)))

theorem window_patchAll :
    ∀ {storage : List StorageRegion} {bytes : List UInt8},
      storage.Pairwise (fun a b => a.offset + a.dataSize ≤ b.offset) →
      (∀ q ∈ storage, q.Backed n unit bytes) → sr ∈ storage →
      sr.window (patchAll n unit info buf storage bytes) =
        refresh n unit info buf sr.region (sr.window bytes) := by
  intro storage
  induction storage with
  | nil => intro bytes _ _ hsr; cases hsr
  | cons q rest ih =>
    intro bytes hapart hback hsr
    rw [pairwise_cons] at hapart
    have hq := hback q (by simp)
    have hlen : (refresh n unit info buf q.region (q.window bytes)).length = q.dataSize := by
      rw [length_refresh, hq.length_window, hq.dataSize_eq]
    rcases mem_cons.mp hsr with rfl | hsr
    · -- Its own patch, then patches of regions stored after it.
      refine (slice_patchAll_of_apart hapart.1).trans ?_
      rw [patchRegion, slice_memcpy hq.fits (by omega), slice_eq_self hlen]
    · refine (ih hapart.2 (fun r hr => (hback r (mem_cons_of_mem _ hr)).of_length
        (by simp)) hsr).trans ?_
      congr 1
      exact slice_memcpy_of_disjoint (.inr (hapart.1 sr hsr))

theorem storageContains_inside {storage : List StorageRegion} (hinfo : info.NoWrap n)
    (hback : ∀ sr ∈ storage, sr.Backed n unit bytes) (h : storageContains n info storage = true) :
    ∃ sr ∈ storage, info.Inside n sr.region := by
  obtain ⟨sr, hsr, hin⟩ := any_eq_true.mp h
  rw [and_eq_true] at hin
  exact ⟨sr, hsr, (detectRegionContained_iff hinfo (hback sr hsr).noWrap).mp hin.2⟩

section

variable (hn : n = 1 ∨ n = 2 ∨ n = 3) {m : (Fin n → ℕ) → Option (List UInt8)}
  (h : StorageInv n unit m s) (sieving : Bool) (junk : Nat → UInt8) (t : Transfer n unit)
include hn h

theorem StorageInv.write (hreach : ∀ sr ∈ s.storage, Reaches n t.region sr) :
    StorageInv n unit (overlay m t.patch)
      (serverDataWriteOut sieving junk n unit s t.region t.buf).1 := by
  obtain ⟨pos, heq⟩ := serverDataWriteOut_eq sieving junk hn t.noWrap t.length_buf h.backed hreach
  rw [heq]
  generalize hpatched : patchAll n unit t.region t.buf s.storage s.file.bytes = patched
  have hlen : patched.length = s.file.bytes.length := by rw [← hpatched, length_patchAll]
  have hback : ∀ sr ∈ s.storage, sr.Backed n unit patched :=
    fun sr hsr => (h.backed sr hsr).of_length (by omega)
  have hrefreshed : ∀ sr ∈ s.storage, Refreshed t.patch
      (boxPatch n unit sr.region (sr.window s.file.bytes))
      (boxPatch n unit sr.region (sr.window patched)) := by
    intro sr hsr
    rw [← hpatched, window_patchAll h.apart h.backed hsr]
    exact refreshed_refresh hn t.noWrap (h.backed sr hsr).noWrap t.length_buf
      (h.backed sr hsr).length_window
  cases hcont : storageContains n t.region s.storage with
  | true =>
    obtain ⟨host, hhost, hin⟩ := storageContains_inside t.noWrap h.backed hcont
    refine ⟨hback, h.apart, h.coherent.write ?_, h.covered.write ?_ ?_⟩
    · intro p' hp'
      obtain ⟨sr, hsr, rfl⟩ := mem_map.mp hp'
      exact .inl ⟨_, mem_map.mpr ⟨sr, hsr, rfl⟩, hrefreshed sr hsr⟩
    · intro p hp
      obtain ⟨sr, hsr, rfl⟩ := mem_map.mp hp
      exact ⟨_, mem_map.mpr ⟨sr, hsr, rfl⟩, subset_rfl⟩
    · exact ⟨_, mem_map.mpr ⟨host, hhost, rfl⟩, hin.cells_subset⟩
  | false =>
    -- The windows of the earlier regions are not affected by what is appended.
    have hwindow : ∀ sr ∈ s.storage, sr.window (patched ++ t.buf) = sr.window patched :=
      fun sr hsr => slice_append_left (hback sr hsr).fits
    have hnew : slice (patched ++ t.buf) s.file.bytes.length (t.region.count n * unit) = t.buf := by
      rw [← hlen, ← t.length_buf, slice_append_right]
    refine ⟨?_, ?_, h.coherent.write ?_, h.covered.write ?_ ?_⟩
    · intro sr hsr
      rcases mem_append.mp hsr with hsr | hsr
      · exact (hback sr hsr).of_length (by simp)
      · rw [mem_singleton.mp hsr]
        refine ⟨t.noWrap, rfl, ?_⟩
        simp only [false_eq_true, if_false, length_append, hlen, t.length_buf, Nat.le_refl]
    · refine pairwise_append.mpr ⟨h.apart, pairwise_singleton _ _, ?_⟩
      intro a ha b hb
      rw [mem_singleton.mp hb]
      exact (h.backed a ha).fits
    · intro p' hp'
      obtain ⟨sr, hsr, rfl⟩ := mem_map.mp hp'
      rcases mem_append.mp hsr with hsr | hsr
      · refine .inl ⟨_, mem_map.mpr ⟨sr, hsr, rfl⟩, ?_⟩
        simp only [false_eq_true, if_false, hwindow sr hsr]
        exact hrefreshed sr hsr
      · right
        rw [mem_singleton.mp hsr]
        refine ⟨subset_rfl, fun c _ => ?_⟩
        simp only [false_eq_true, if_false, StorageRegion.window, hnew]
        rfl
    · intro p hp
      obtain ⟨sr, hsr, rfl⟩ := mem_map.mp hp
      exact ⟨_, mem_map.mpr ⟨sr, mem_append_left _ hsr, rfl⟩, subset_rfl⟩
    · exact ⟨_, mem_map.mpr ⟨_, mem_append_right _ (mem_singleton.mpr rfl),
        rfl⟩, subset_rfl⟩

theorem StorageInv.read
    {c : Fin n → ℕ} (hc : c ∈ t.region.cells n) {v : List UInt8} (hv : m c = some v) :
    elem unit (serverDataReadFrom sieving junk n unit s t.region t.buf) (t.region.index n c) =
      v := by
  rw [serverDataReadFrom_eq sieving junk hn h.backed t.noWrap t.length_buf]
  refine (foldl_refresh_elem hn t.noWrap hc t.length_buf ?_ ?_).1 ?_
  · intro p hp
    obtain ⟨sr, hsr, rfl⟩ := mem_map.mp hp
    exact ⟨(h.backed sr hsr).noWrap, (h.backed sr hsr).length_window⟩
  · intro p hp hpc
    obtain ⟨sr, hsr, rfl⟩ := mem_map.mp hp
    have hcoh := h.coherent _ (mem_map.mpr ⟨sr, hsr, rfl⟩) c hpc
    rw [hv] at hcoh
    injection hcoh with hcoh
    exact hcoh.symm
  · obtain ⟨p, hp, hpc⟩ := h.covered c v hv
    obtain ⟨sr, hsr, rfl⟩ := mem_map.mp hp
    exact ⟨_, mem_map.mpr ⟨sr, hsr, rfl⟩, hpc⟩

end

end Step

/-! ## Runs -/

/-- A call of `PDC_Server_data_write_out`: the request, and what `malloc`
happens to return during the call. -/
structure WriteCall (n unit : Nat) extends Transfer n unit where
  junk : Nat → UInt8

def writeStep {n unit : Nat} (sieving : Bool) (s : DataServerRegion) (w : WriteCall n unit) :
    DataServerRegion :=
  (serverDataWriteOut sieving w.junk n unit s w.region w.buf).1

theorem StorageInv.of_run (hn : n = 1 ∨ n = 2 ∨ n = 3) (sieving : Bool) (f : File)
    (ws : List (WriteCall n unit))
    (hok : Along (writeStep sieving) (fun s w => ∀ sr ∈ s.storage, Reaches n w.region sr)
      ⟨f, []⟩ ws) :
    StorageInv n unit (lastWrite (ws.map fun w => w.patch))
      (run (writeStep sieving) ⟨f, []⟩ ws) := by
  refine Along.invariant_nil
    (I := fun hist s => StorageInv n unit (lastWrite (hist.map fun w => w.patch)) s)
    ?_ (StorageInv.empty n unit f) hok
  intro hist s w hinv hreach
  rw [map_append, map_singleton, lastWrite_append_singleton]
  exact hinv.write hn sieving w.junk w.toTransfer hreach

/-- One dimension: when no stored region that reaches past the start of a
write starts more than the write's length before it, a read returns the last
value written to every cell that was written. -/
theorem storage1D_read_lastWrite {unit : Nat} (sieving : Bool) (f : File)
    (ws : List (WriteCall 1 unit))
    (hok : Along (writeStep sieving) (fun s w => ∀ sr ∈ s.storage,
      w.region.off 0 < sr.region.off 0 + sr.region.len 0 →
        w.region.off 0 ≤ sr.region.off 0 + w.region.len 0) ⟨f, []⟩ ws)
    (junk : Nat → UInt8) (rd : Transfer 1 unit) (c : Fin 1 → ℕ) (hc : c ∈ rd.region.cells 1)
    (v : List UInt8) (hv : lastWrite (ws.map fun w => w.patch) c = some v) :
    elem unit (serverDataReadFrom sieving junk 1 unit
      (run (writeStep sieving) ⟨f, []⟩ ws) rd.region rd.buf) (rd.region.index 1 c) = v := by
  have hinv := StorageInv.of_run (.inl rfl) sieving f ws (hok.mono fun s w h sr hsr _ => h sr hsr)
  exact hinv.read (.inl rfl) sieving junk rd hc hv

/-- Two overlapping writes, the second starting at the first's last element
but one and as long as what is left of it. -/
theorem storage1D_read_lastWrite_two :
    elem 1 (serverDataReadFrom false (fun _ => 0) 1 1 (run (writeStep false) ⟨⟨[], 0⟩, []⟩
        [(⟨⟨⟨[0], [4]⟩, [1, 1, 1, 1], by decide, by decide⟩, fun _ => 0⟩ : WriteCall 1 1),
          ⟨⟨⟨[2], [2]⟩, [2, 2], by decide, by decide⟩, fun _ => 0⟩]) ⟨[3], [1]⟩ [0]) 0 = [2] :=
  storage1D_read_lastWrite false ⟨[], 0⟩
    [⟨⟨⟨[0], [4]⟩, [1, 1, 1, 1], by decide, by decide⟩, fun _ => 0⟩,
      ⟨⟨⟨[2], [2]⟩, [2, 2], by decide, by decide⟩, fun _ => 0⟩]
    ⟨by decide, by decide, trivial⟩ (fun _ => 0)
    ⟨⟨[3], [1]⟩, [0], by decide, by decide⟩ (fun _ => 3) (by decide) [2]
    (lastWrite_last [_] (by change _ ∈ Region.cells _ _; decide))

/-- The second write covers the last element of the first one only. The
stored region starts three elements before it, more than the one element it
writes, so the write is refused and the old value stays. -/
theorem storage1D_write_lost :
    ∃ (ws : List (WriteCall 1 1)) (rd : Transfer 1 1) (c : Fin 1 → ℕ),
      c ∈ rd.region.cells 1 ∧ lastWrite (ws.map fun w => w.patch) c = some [2] ∧
        elem 1 (serverDataReadFrom false (fun _ => 0) 1 1
          (run (writeStep false) ⟨⟨[], 0⟩, []⟩ ws) rd.region rd.buf) (rd.region.index 1 c) =
            [1] := by
  refine ⟨[⟨⟨⟨[0], [4]⟩, [1, 1, 1, 1], by decide, by decide⟩, fun _ => 0⟩,
      ⟨⟨⟨[3], [1]⟩, [2], by decide, by decide⟩, fun _ => 0⟩],
    ⟨⟨[3], [1]⟩, [0], by decide, by decide⟩, fun _ => 3, ?_, ?_, ?_⟩
  · decide
  · exact lastWrite_last [_] (by change _ ∈ Region.cells _ _; decide)
  · decide

/-- Two and three dimensions: a read returns the last value written to every
cell that was written, and no two stored regions disagree on a cell. -/
theorem storage_read_lastWrite {n unit : Nat} (hn : n = 2 ∨ n = 3) (sieving : Bool) (f : File)
    (ws : List (WriteCall n unit)) :
    (∀ (junk : Nat → UInt8) (rd : Transfer n unit), ∀ c ∈ rd.region.cells n, ∀ v,
      lastWrite (ws.map fun w => w.patch) c = some v →
        elem unit (serverDataReadFrom sieving junk n unit (run (writeStep sieving) ⟨f, []⟩ ws)
          rd.region rd.buf) (rd.region.index n c) = v) ∧
    (∀ a ∈ (run (writeStep sieving) ⟨f, []⟩ ws).storage,
      ∀ b ∈ (run (writeStep sieving) ⟨f, []⟩ ws).storage, ∀ c ∈ a.region.cells n ∩ b.region.cells n,
          elem unit (a.window (run (writeStep sieving) ⟨f, []⟩ ws).file.bytes)
              (a.region.index n c) =
            elem unit (b.window (run (writeStep sieving) ⟨f, []⟩ ws).file.bytes)
              (b.region.index n c)) := by
  have hn' : n = 1 ∨ n = 2 ∨ n = 3 := .inr hn
  have hinv := StorageInv.of_run hn' sieving f ws
    (Along.of_forall fun s w sr _ h1 => absurd h1 (by omega))
  constructor
  · intro junk rd c hc v hv
    exact hinv.read hn' sieving junk rd hc hv
  · intro a ha b hb c hc
    have hca := hinv.coherent _ (mem_map.mpr ⟨a, ha, rfl⟩) c hc.1
    have hcb := hinv.coherent _ (mem_map.mpr ⟨b, hb, rfl⟩) c hc.2
    rw [hca] at hcb
    injection hcb

/-- Two rows that share an element: the shared one reads back from the later. -/
theorem storage_read_lastWrite_rows :
    elem 1 (serverDataReadFrom true (fun _ => 0) 2 1 (run (writeStep true) ⟨⟨[], 0⟩, []⟩
        [(⟨⟨⟨[0, 0], [1, 2]⟩, [1, 1], by decide, by decide⟩, fun _ => 0⟩ : WriteCall 2 1),
          ⟨⟨⟨[0, 1], [1, 2]⟩, [2, 2], by decide, by decide⟩, fun _ => 0⟩])
      ⟨[0, 0], [1, 2]⟩ [0, 0]) 1 = [2] :=
  (storage_read_lastWrite (.inl rfl) true ⟨[], 0⟩
    [⟨⟨⟨[0, 0], [1, 2]⟩, [1, 1], by decide, by decide⟩, fun _ => 0⟩,
      ⟨⟨⟨[0, 1], [1, 2]⟩, [2, 2], by decide, by decide⟩, fun _ => 0⟩]).1 (fun _ => 0)
    ⟨⟨[0, 0], [1, 2]⟩, [0, 0], by decide, by decide⟩ (fun i => i) (by decide) [2]
    (lastWrite_last [_] (by change _ ∈ Region.cells _ _; decide))

end Pdc
