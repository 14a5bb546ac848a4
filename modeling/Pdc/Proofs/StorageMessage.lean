import Pdc.Server.StorageMessage
import Pdc.Lib.Run
import Mathlib.Data.List.Forall2

/-!
# Storage regions are received as they were sent

A record is what the sender writes for one region, over what was in the buffer
before (`storageRecord`). The receiver reads it back, and takes as many bytes as
were written, whatever stood in the fields that the sender does not set. As
long as the records fit, nothing else is needed.

The buffer does not survive its growth. So the lists that are received as they
were sent, whatever `realloc` does, are those for which the sender never asks
for more: at each region the size it computes, with 1024 bytes to spare, is
within the block, and so is the record. A region without a path is left out of
the message, and then the receiver reads past its end.
-/

namespace Pdc

open List Lib Lib.Fill Option

variable {o : Option Histogram} {old old' : Bytes} {r : StoredRegion} {ndim : Nat}

/-! ## One record -/

def histBytes (old : Bytes) : Option Histogram → Bytes
  | none => intBytes 0
  | some h => intBytes 1 ++ ((intBytes h.dtype ++ intBytes h.nbin ++ u64Bytes h.incr ++ old.drop 16)
    ++ (u64sBytes h.range ++ u64sBytes h.bin))

def storageRecord (r : StoredRegion) (old old' : Bytes) : Bytes :=
  intBytes (r.location.length + 1) ++ ((r.location ++ [0]) ++
    (u64sBytes (regionInfoWords r.region (u64sOf 9 old)) ++
      (u64Bytes r.offset ++ (u64Bytes r.dataSize ++ histBytes old' r.hist))))

def histBytesSize : Option Histogram → Nat
  | none => 4
  | some h => 4 + (32 + (8 * (2 * h.nbin) + 8 * h.nbin))

def recordSize (r : StoredRegion) : Nat :=
  4 + ((r.location.length + 1) + (72 + (8 + (8 + histBytesSize r.hist))))

@[simp] theorem length_regionInfoWords (r : RegionInfo) (ws : List UInt64) :
    (regionInfoWords r ws).length = ws.length := by
  simp only [regionInfoWords]
  split <;> split <;> simp

theorem length_histBytes (hold : old.length = 32)
    (h : ∀ h, o = some h → h.WF) : (histBytes old o).length = histBytesSize o := by
  cases o with
  | none => exact length_intBytes 0
  | some hist =>
    have hwf := h hist rfl
    simp only [histBytes, histBytesSize, length_append, length_intBytes, length_u64Bytes,
      length_drop, hold, length_u64sBytes, hwf.range_length, hwf.bin_length]

theorem regionInfoWords_carries {r : RegionInfo} (h₁ : 1 ≤ r.ndim) (h₃ : r.ndim ≤ 3)
    {ws : List UInt64} (hws : ws.length = 9) :
    (transferOfWords (regionInfoWords r ws)).Carries r := by
  obtain ⟨a, b, c, d, e, f, g, h, i, rfl⟩ :
      ∃ a b c d e f g h i, ws = [a, b, c, d, e, f, g, h, i] := by
    match ws, hws with
    | [a, b, c, d, e, f, g, h, i], _ => exact ⟨a, b, c, d, e, f, g, h, i, rfl⟩
  have hdims : r.ndim = 1 ∨ r.ndim = 2 ∨ r.ndim = 3 := by omega
  refine ⟨?_, fun i hi => ?_, fun i hi => ?_⟩
  · obtain h | h | h := hdims <;> simp [transferOfWords, regionInfoWords, h]
  · have hi : i = 0 ∨ i = 1 ∨ i = 2 := by omega
    obtain h | h | h := hdims <;> obtain rfl | rfl | rfl := hi <;> first
      | omega
      | simp [transferOfWords, regionInfoWords, RegionInfoTransfer.start, h]
  · have hi : i = 0 ∨ i = 1 ∨ i = 2 := by omega
    obtain h | h | h := hdims <;> obtain rfl | rfl | rfl := hi <;> first
      | omega
      | simp [transferOfWords, regionInfoWords, RegionInfoTransfer.count, h]

theorem length_storageRecord (hold' : old'.length = 32) :
    (storageRecord r old old').length = recordSize r := by
  simp only [storageRecord, recordSize, length_append, length_intBytes, length_singleton,
    length_u64sBytes, length_regionInfoWords, length_u64sOf, length_u64Bytes,
    length_histBytes hold' r.hist_wf]

theorem reads_histogram {h : Histogram} (hwf : h.WF) (hold : old.length = 32) :
    Reads readHistogram ((intBytes h.dtype ++ intBytes h.nbin ++ u64Bytes h.incr ++ old.drop 16) ++
      (u64sBytes h.range ++ u64sBytes h.bin)) h := by
  have hnbin : ((h.nbin : Int)).toNat = h.nbin := Int.toNat_natCast _
  have hskip : Reads (readBytes 16) (old.drop 16) (old.drop 16) := by
    have hlen : (old.drop 16).length = 16 := by rw [length_drop, hold]
    have hbytes := Reads.bytes (old.drop 16)
    rwa [hlen] at hbytes
  have hrange : Reads (readMany readU64 (2 * h.nbin)) (u64sBytes h.range) h.range :=
    hwf.range_length ▸ Reads.u64s h.range
  have hbin : Reads (readMany readU64 h.nbin) (u64sBytes h.bin) h.bin :=
    hwf.bin_length ▸ Reads.u64s h.bin
  have hint : Reads readInt (intBytes h.nbin) h.nbin := Reads.int (by omega) (by
    have := hwf.nbin_lt
    omega)
  refine (Reads.int hwf.dtype_ge hwf.dtype_lt).bind (hint.bind ((Reads.u64 h.incr).bind
    (hskip.bind ?_)))
  exact hrange.bind (hbin.map _)

theorem reads_hist (hwf : ∀ h, o = some h → h.WF)
    (hold : old.length = 32) : Reads readHist (histBytes old o) o := by
  cases o with
  | none =>
    have h : Reads readHist (intBytes 0 ++ []) none :=
      (Reads.int (by decide) (by decide)).bind (Reads.pure none)
    rwa [append_nil] at h
  | some h =>
    have hmark : Reads readInt (intBytes 1) 1 := Reads.int (by decide) (by decide)
    exact hmark.bind ((reads_histogram (hwf h rfl) hold).map some)

/-- A region arrives with its path, its dimensions, its place and its histogram. -/
structure ReceivedRegion.Same (d : ReceivedRegion) (r : StoredRegion) : Prop where
  location : d.location = r.location
  region : d.region.Is (some r.region)
  offset : d.offset = r.offset
  dataSize : d.dataSize = r.dataSize
  hist : d.hist = r.hist

theorem takeWhile_location (r : StoredRegion) :
    (r.location ++ [0]).takeWhile (fun b => decide (b ≠ 0)) = r.location := by
  rw [takeWhile_append_of_pos fun b hb => ?_]
  · simp
  · exact decide_eq_true fun h0 => r.location_string (h0 ▸ hb)

theorem reads_record (hndim : r.region.ndim = ndim)
    (h₁ : 1 ≤ ndim) (h₃ : ndim ≤ 3) (old : Bytes) (hold' : old'.length = 32) :
    ∃ d, Reads (readStorageRegion ndim) (storageRecord r old old') d ∧ d.Same r := by
  subst hndim
  have hloc : Reads (readBytes ((r.location.length + 1 : Int)).toNat) (r.location ++ [0])
      (r.location ++ [0]) := by
    have hlen : ((r.location.length + 1 : Int)).toNat = (r.location ++ [0]).length := by
      rw [length_append, length_singleton]
      omega
    rw [hlen]
    exact Reads.bytes _
  have hint : Reads readInt (intBytes (r.location.length + 1)) (r.location.length + 1) :=
    Reads.int (by omega) (by have := r.location_length; omega)
  have hwords := Reads.u64s (regionInfoWords r.region (u64sOf 9 old))
  rw [length_regionInfoWords] at hwords
  have hcarries := regionInfoWords_carries h₁ h₃ (length_u64sOf 9 old)
  obtain ⟨-, hstart, hcount⟩ := hcarries.is h₁ (by omega) RegionList.zero
  refine ⟨_, hint.bind (hloc.bind (hwords.bind ((Reads.u64 r.offset).bind
    ((Reads.u64 r.dataSize).bind ((reads_hist r.hist_wf hold').map _))))), ?_⟩
  exact ⟨takeWhile_location r, ⟨rfl, hstart, hcount⟩, rfl, rfl, rfl⟩

/-! ## Writing a record -/

section

variable {n : Nat} {xs : Bytes} {f f' : Fill UInt8}

theorem length_histHeader (h : Histogram) (hold : old.length = histogramSize) :
    (intBytes h.dtype ++ intBytes h.nbin ++ u64Bytes h.incr ++ old.drop 16).length =
      histogramSize := by
  simp only [length_append, length_intBytes, length_u64Bytes, length_drop, hold, histogramSize]

theorem length_regionInfo (r : RegionInfo) (old : Bytes) :
    (u64sBytes (regionInfoWords r (u64sOf 9 old))).length = regionInfoSize := by
  rw [length_u64sBytes, length_regionInfoWords, length_u64sOf, regionInfoSize]

theorem putHist_filled (h : f.Filled n xs) (hwf : ∀ h, o = some h → h.WF)
    (hfit : xs.length + histBytesSize o ≤ n) :
    ∃ old' f', old'.length = 32 ∧ putHist f o = some f' ∧ f'.Filled n (xs ++ histBytes old' o) := by
  cases o with
  | none =>
    obtain ⟨f', hputs, hf'⟩ := h.puts (intBytes 0) (by rw [length_intBytes]; exact hfit)
    exact ⟨List.replicate 32 0, f', rfl, hputs, hf'⟩
  | some hist =>
    have hwf := hwf hist rfl
    have hrange := length_u64sBytes hist.range
    have hbin := length_u64sBytes hist.bin
    rw [hwf.range_length] at hrange
    rw [hwf.bin_length] at hbin
    simp only [histBytesSize] at hfit
    obtain ⟨f₁, h₁, w₁⟩ := h.puts (intBytes 1) (by rw [length_intBytes]; omega)
    have l₁ : (xs ++ intBytes 1).length = xs.length + 4 := by
      rw [length_append, length_intBytes]
    obtain ⟨old', f₂, hold', h₂, w₂⟩ := w₁.rewrite
      (fun old hold => length_histHeader hist hold) (by rw [l₁, histogramSize]; omega)
    have l₂ := w₂.next
    rw [length_append, length_histHeader hist hold', histogramSize] at l₂
    obtain ⟨f₃, h₃, w₃⟩ := w₂.puts (u64sBytes hist.range) (by rw [← w₂.next]; omega)
    obtain ⟨f₄, h₄, w₄⟩ := w₃.puts (u64sBytes hist.bin) (by rw [length_append, ← w₂.next]; omega)
    refine ⟨old', f₄, hold', ?_, ?_⟩
    · simp only [putHist, bind_eq_bind, bind_some, h₁, h₂, h₃, h₄]
    · simpa only [histBytes, append_assoc] using w₄

theorem putRecord_filled (h : f.Filled n xs) (r : StoredRegion)
    (hfit : xs.length + recordSize r ≤ n) :
    ∃ old old' f', old'.length = 32 ∧ putRecord f r = some f' ∧
      f'.Filled n (xs ++ storageRecord r old old') := by
  have hloc : (r.location ++ [0]).length = r.location.length + 1 := length_append
  simp only [recordSize] at hfit
  obtain ⟨f₁, h₁, w₁⟩ := h.puts (intBytes (r.location.length + 1)) (by rw [length_intBytes]; omega)
  have l₁ : (xs ++ intBytes (r.location.length + 1)).length = xs.length + 4 := by
    rw [length_append, length_intBytes]
  obtain ⟨f₂, h₂, w₂⟩ := w₁.puts (r.location ++ [0]) (by omega)
  have l₂ := w₂.next
  rw [length_append] at l₂
  obtain ⟨old, f₃, hold, h₃, w₃⟩ := w₂.rewrite
    (fun old _ => length_regionInfo r.region old) (by rw [← w₂.next, l₂, regionInfoSize]; omega)
  have l₃ := w₃.next
  rw [length_append, ← w₂.next, length_regionInfo, regionInfoSize] at l₃
  obtain ⟨f₄, h₄, w₄⟩ := w₃.puts (u64Bytes r.offset) (by rw [← w₃.next, l₃, length_u64Bytes]; omega)
  have l₄ := w₄.next
  rw [length_append, ← w₃.next, length_u64Bytes] at l₄
  obtain ⟨f₅, h₅, w₅⟩ := w₄.puts (u64Bytes r.dataSize)
    (by rw [← w₄.next, l₄, length_u64Bytes]; omega)
  have l₅ := w₅.next
  rw [length_append, ← w₄.next, length_u64Bytes] at l₅
  obtain ⟨old', f₆, hold', h₆, w₆⟩ := putHist_filled w₅ r.hist_wf (by rw [← w₅.next, l₅]; omega)
  refine ⟨old, old', f₆, hold', ?_, ?_⟩
  · simp only [putRecord, bind_eq_bind, bind_some, h₁, h₂, h₃, h₄, h₅, h₆]
  · simpa only [storageRecord, append_assoc] using w₆

theorem putHist_next (hwf : ∀ h, o = some h → h.WF) (h : putHist f o = some f') :
    f'.next = f.next + histBytesSize o ∧ f'.cells.length = f.cells.length ∧
      f'.next ≤ f'.cells.length := by
  cases o with
  | none =>
    have hputs := puts_eq_some h
    rwa [length_intBytes] at hputs
  | some hist =>
    have hwf := hwf hist rfl
    obtain ⟨f₁, h₁, h⟩ := bind_eq_some_iff.mp h
    obtain ⟨f₂, h₂, h⟩ := bind_eq_some_iff.mp h
    obtain ⟨f₃, h₃, h₄⟩ := bind_eq_some_iff.mp h
    have e₁ := puts_eq_some h₁
    have e₂ := rewrite_eq_some (fun old hold => length_histHeader hist hold) h₂
    have e₃ := puts_eq_some h₃
    have e₄ := puts_eq_some h₄
    rw [length_intBytes] at e₁
    rw [histogramSize] at e₂
    rw [length_u64sBytes, hwf.range_length] at e₃
    rw [length_u64sBytes, hwf.bin_length] at e₄
    simp only [histBytesSize]
    omega

theorem putRecord_next (h : putRecord f r = some f') :
    f'.next = f.next + recordSize r ∧ f'.cells.length = f.cells.length ∧
      f'.next ≤ f'.cells.length := by
  obtain ⟨f₁, h₁, h⟩ := bind_eq_some_iff.mp h
  obtain ⟨f₂, h₂, h⟩ := bind_eq_some_iff.mp h
  obtain ⟨f₃, h₃, h⟩ := bind_eq_some_iff.mp h
  obtain ⟨f₄, h₄, h⟩ := bind_eq_some_iff.mp h
  obtain ⟨f₅, h₅, h₆⟩ := bind_eq_some_iff.mp h
  have e₁ := puts_eq_some h₁
  have e₂ := puts_eq_some h₂
  have e₃ := rewrite_eq_some (fun old _ => length_regionInfo r.region old) h₃
  have e₄ := puts_eq_some h₄
  have e₅ := puts_eq_some h₅
  have e₆ := putHist_next r.hist_wf h₆
  rw [length_intBytes] at e₁
  rw [length_append, length_singleton] at e₂
  rw [regionInfoSize] at e₃
  rw [length_u64Bytes] at e₄ e₅
  simp only [recordSize]
  omega

end

/-! ## A list of regions -/

/-- The next record fits, and the sender sees that it does. -/
def RecordFits (alloc off : Nat) (r : StoredRegion) : Prop :=
  (off + mySize r + 1024) % 2 ^ 64 ≤ alloc ∧ off + recordSize r ≤ alloc

instance (alloc off : Nat) (r : StoredRegion) : Decidable (RecordFits alloc off r) :=
  inferInstanceAs (Decidable (_ ∧ _))

/-- The records of regions, as they lie one behind the other. -/
def Records (ndim : Nat) (recs : List Bytes) (rs : List StoredRegion) : Prop :=
  List.Forall₂ (fun bs r => bs.length = recordSize r ∧
    ∃ d, Reads (readStorageRegion ndim) bs d ∧ d.Same r) recs rs

theorem Records.reads {recs : List Bytes} {rs : List StoredRegion} (h : Records ndim recs rs) :
    ∃ ds, Reads (recvQueryMetadata ndim rs.length) recs.flatten ds ∧
      List.Forall₂ ReceivedRegion.Same ds rs := by
  induction h with
  | nil => exact ⟨[], Reads.pure [], .nil⟩
  | cons hrec _ ih =>
    obtain ⟨-, d, hread, hsame⟩ := hrec
    obtain ⟨ds, hreads, hall⟩ := ih
    exact ⟨d :: ds, hread.bind (hreads.map (d :: ·)), .cons hsame hall⟩

def nextOffset (off : Nat) (r : StoredRegion) : Nat := off + recordSize r

section

variable {ndim n : Nat} {xs : Bytes} {f f' : Fill UInt8} {r : StoredRegion} {rs : List StoredRegion}

theorem putRecord_records (h : f.Filled n xs) (hdim : r.region.ndim = ndim) (h₁ : 1 ≤ ndim)
    (h₃ : ndim ≤ 3) (hfits : xs.length + recordSize r ≤ n) :
    ∃ bs f', putRecord f r = some f' ∧ f'.Filled n (xs ++ bs) ∧ bs.length = recordSize r ∧
      ∃ d, Reads (readStorageRegion ndim) bs d ∧ d.Same r := by
  obtain ⟨old, old', f', hold', hput, hf'⟩ := putRecord_filled h r hfits
  exact ⟨_, f', hput, hf', length_storageRecord hold', reads_record hdim h₁ h₃ old hold'⟩

theorem foldlM_of_fits (re : Realloc) (h₁ : 1 ≤ ndim) (h₃ : ndim ≤ 3) (h : f.Filled n xs)
    (hdims : ∀ r ∈ rs, r.region.ndim = ndim)
    (hfits : Along nextOffset (fun off r => r.location ≠ [] ∧ RecordFits n off r) xs.length rs) :
    ∃ recs f', rs.foldlM (addStorageRegionToBuf re) f = some f' ∧
      f'.Filled n (xs ++ recs.flatten) ∧ Records ndim recs rs := by
  induction rs generalizing f xs with
  | nil => exact ⟨[], f, rfl, by rwa [flatten_nil, append_nil], .nil⟩
  | cons r rs ih =>
    rw [forall_mem_cons] at hdims
    obtain ⟨⟨hloc, hfit⟩, hrest⟩ := hfits
    obtain ⟨bs, f₁, hput, hf₁, hlen, hread⟩ := putRecord_records h hdims.1 h₁ h₃ hfit.2
    have hoff : (xs ++ bs).length = nextOffset xs.length r := by
      rw [length_append, hlen, nextOffset]
    obtain ⟨recs, f', hfold, hf', hrecs⟩ := ih hf₁ hdims.2 (hoff ▸ hrest)
    refine ⟨bs :: recs, f', ?_, ?_, .cons ⟨hlen, hread⟩ hrecs⟩
    · have hroom := Nat.not_lt.mpr hfit.1
      rw [← h.next, ← h.length] at hroom
      rw [foldlM_cons, addStorageRegionToBuf, if_neg hloc, if_neg hroom, hput]
      exact hfold
    · rwa [flatten_cons, ← append_assoc]

/-- A `realloc` that always moves the block. -/
def movingRealloc : Realloc := ⟨fun _ => false, fun _ => 0⟩

/-- If `realloc` moves the block, then the sender has an outcome only if it never
asked for more. The regions with a path are those whose records there are. -/
theorem fits_of_foldlM (h₁ : 1 ≤ ndim) (h₃ : ndim ≤ 3) (h : f.Filled n xs)
    (hdims : ∀ r ∈ rs, r.region.ndim = ndim)
    (hfold : rs.foldlM (addStorageRegionToBuf movingRealloc) f = some f') :
    ∃ recs, f'.Filled n (xs ++ recs.flatten) ∧
      Records ndim recs (rs.filter fun r => r.location ≠ []) ∧
      Along nextOffset (RecordFits n) xs.length (rs.filter fun r => r.location ≠ []) := by
  induction rs generalizing f xs with
  | nil =>
    cases hfold
    exact ⟨[], by rwa [flatten_nil, append_nil], .nil, trivial⟩
  | cons r rs ih =>
    rw [forall_mem_cons] at hdims
    obtain ⟨f₁, hadd, hfold⟩ := bind_eq_some_iff.mp hfold
    rw [addStorageRegionToBuf] at hadd
    split at hadd
    · next hloc =>
      cases hadd
      obtain ⟨recs, hf', hrecs, halong⟩ := ih h hdims.2 hfold
      refine ⟨recs, hf', ?_⟩
      rw [filter_cons_of_neg (by simp [hloc])]
      exact ⟨hrecs, halong⟩
    · next hloc =>
      split at hadd
      · exact nomatch hadd
      · next hroom =>
        have hnext := putRecord_next hadd
        rw [h.length] at hroom hnext
        rw [h.next] at hroom hnext
        have hfit : xs.length + recordSize r ≤ n := by omega
        obtain ⟨bs, f₂, hput, hf₂, hlen, hread⟩ := putRecord_records h hdims.1 h₁ h₃ hfit
        obtain rfl : f₂ = f₁ := some.inj (hput.symm.trans hadd)
        have hoff : (xs ++ bs).length = nextOffset xs.length r := by
          rw [length_append, hlen, nextOffset]
        obtain ⟨recs, hf', hrecs, halong⟩ := ih hf₂ hdims.2 hfold
        refine ⟨bs :: recs, ?_, ?_⟩
        · rwa [flatten_cons, ← append_assoc]
        · rw [filter_cons_of_pos (by simp [hloc])]
          exact ⟨.cons ⟨hlen, hread⟩ hrecs, ⟨Nat.not_lt.mp hroom, hfit⟩, hoff ▸ halong⟩

end

/-- The bytes are read as the regions, and nothing is left over. -/
def ReadAs (ndim : Nat) (bytes : Bytes) (rs : List StoredRegion) : Prop :=
  ∃ ds, recvQueryMetadata ndim rs.length bytes = some (ds, []) ∧
    List.Forall₂ ReceivedRegion.Same ds rs

/-- The regions are received as they were sent, and nothing is left over, whatever
`realloc` does. -/
def ReceivedAsSent (ndim alloc : Nat) (rs : List StoredRegion) : Prop :=
  ∀ re, ∃ buf, addAll re alloc rs = some buf ∧ ReadAs ndim (buf.cells.take buf.next) rs

/-- Each of the regions has a path, and its record fits the buffer and is seen to. -/
abbrev BlockFits (alloc : Nat) (rs : List StoredRegion) : Prop :=
  Along nextOffset (fun off r => r.location ≠ [] ∧ RecordFits alloc off r) 0 rs

section

variable {ndim alloc : Nat} {rs : List StoredRegion} (h₁ : 1 ≤ ndim) (h₃ : ndim ≤ 3)
  (hdims : ∀ r ∈ rs, r.region.ndim = ndim)
include h₁ h₃ hdims

theorem fits_of_readAs {buf : Fill UInt8} (hbuf : addAll movingRealloc alloc rs = some buf)
    (h : ReadAs ndim (buf.cells.take buf.next) rs) :
    buf.cells.length = alloc ∧ BlockFits alloc rs := by
  obtain ⟨ds, hread, -⟩ := h
  obtain ⟨recs, hfilled, hrecs, halong⟩ :=
    fits_of_foldlM h₁ h₃ (Filled.start length_replicate) hdims hbuf
  obtain ⟨ds', hreads, -⟩ := hrecs.reads
  have hbytes : buf.cells.take buf.next = recs.flatten := by
    rw [hfilled.next]
    exact hfilled.written
  have hall : ∀ r ∈ rs, r.location ≠ [] := by
    by_contra hsome
    have hfewer : (rs.filter fun r => r.location ≠ []).length < rs.length := by
      refine Nat.lt_of_le_of_ne (length_filter_le _ _) fun heq => hsome ?_
      intro r hr
      exact of_decide_eq_true (length_filter_eq_length_iff.mp heq r hr)
    rw [hbytes] at hread
    exact nomatch (readMany_eq_none hreads.run_eq rfl hfewer).symm.trans hread
  rw [filter_eq_self.mpr fun r hr => decide_eq_true (hall r hr)] at halong
  exact ⟨hfilled.length, halong.and_mem hall⟩

theorem readAs_of_fits (re : Realloc) (h : BlockFits alloc rs) :
    ∃ buf, addAll re alloc rs = some buf ∧ buf.cells.length = alloc ∧
      ReadAs ndim (buf.cells.take buf.next) rs := by
  obtain ⟨recs, buf, hbuf, hfilled, hrecs⟩ :=
    foldlM_of_fits re h₁ h₃ (Filled.start length_replicate) hdims h
  obtain ⟨ds, hreads, hsame⟩ := hrecs.reads
  have hbytes : buf.cells.take buf.next = recs.flatten := by
    rw [hfilled.next]
    exact hfilled.written
  refine ⟨buf, hbuf, hfilled.length, ds, ?_, hsame⟩
  rw [hbytes]
  exact hreads.run_eq

end

/-- The regions of an object are received as they were sent just if each of them has
a path, and its record fits the buffer and is seen to. -/
theorem receivedAsSent_iff {ndim alloc : Nat} (h₁ : 1 ≤ ndim) (h₃ : ndim ≤ 3)
    {rs : List StoredRegion} (hdims : ∀ r ∈ rs, r.region.ndim = ndim) :
    ReceivedAsSent ndim alloc rs ↔
      Along nextOffset (fun off r => r.location ≠ [] ∧ RecordFits alloc off r) 0 rs := by
  refine ⟨fun h => ?_, fun h re => ?_⟩
  · obtain ⟨buf, hbuf, hread⟩ := h movingRealloc
    exact (fits_of_readAs h₁ h₃ hdims hbuf hread).2
  · obtain ⟨buf, hbuf, -, hread⟩ := readAs_of_fits h₁ h₃ hdims re h
    exact ⟨buf, hbuf, hread⟩

def eightBytes : StoredRegion where
  location := [47]
  region := ⟨1, [16], [8], rfl, rfl⟩
  offset := 0
  dataSize := 8
  hist := some ⟨2, 1, 0, [0, 0], [8]⟩
  location_length := by decide
  location_string := by decide
  hist_wf := by
    intro h hh
    cases hh
    exact ⟨by decide, by decide, by decide, rfl, rfl⟩

theorem receivedAsSent_two : ReceivedAsSent 1 4096 [eightBytes, eightBytes] :=
  (receivedAsSent_iff (by decide) (by decide) (by simp [eightBytes])).mpr
    ⟨⟨by decide, by decide +kernel⟩, ⟨by decide, by decide +kernel⟩, trivial⟩

/-- The second region makes the sender ask for a larger buffer, which it keeps to
itself. -/
theorem not_receivedAsSent_growth : ¬ ReceivedAsSent 1 1200 [eightBytes, eightBytes] := by
  intro h
  obtain ⟨buf, hbuf, -⟩ := h movingRealloc
  obtain ⟨-, -, -, halong⟩ := fits_of_foldlM (by decide : 1 ≤ 1) (by decide)
    (Filled.start length_replicate) (by simp [eightBytes]) hbuf
  have hsecond : RecordFits 1200 (nextOffset 0 eightBytes) eightBytes := halong.2.1
  exact absurd hsecond (by decide +kernel)

end Pdc
