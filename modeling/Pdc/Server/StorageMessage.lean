import Pdc.Lib.Codec
import Pdc.Lib.Fill
import Pdc.Server.RegionList

/-!
# Sending storage regions (`pdc_server_data.c`)

To spread a query over the servers, the server that has an object's metadata
sends the storage regions in one buffer for each of the others. Each record is
written by `add_storage_region_to_buf` where the last one ended: the length of
the path and the path, the region, the position and size of the data, and the
histogram if there is one. The receiver walks the records with its own
pointer.

Two of the parts are written through a pointer to a struct, and not all fields
are set: the dimensions a region does not have, and the pointers of a
histogram. These bytes stay what they were. All fields of a
`region_info_transfer_t` are eight bytes long, so it is nine words here.

The buffer is the caller's. When it may become too small, the function asks
`realloc` for one of twice the size, writes into that, and does not tell the
caller where it is. If `realloc` has moved the block, the caller is left with a
pointer to memory that is not its own any more, and what it sends then is not
in the model: there is no outcome. The same holds for a write that leaves the
block.
-/

namespace Pdc

open Lib

/-- `pdc_histogram_t`, with its arrays. Floating-point numbers are kept as bits. -/
structure Histogram where
  dtype : Int
  nbin : Nat
  incr : UInt64
  range : List UInt64
  bin : List UInt64
  deriving DecidableEq

/-- A histogram's arrays are as long as it says, and its numbers fit their fields. -/
structure Histogram.WF (h : Histogram) : Prop where
  dtype_ge : -2 ^ 31 ≤ h.dtype
  dtype_lt : h.dtype < 2 ^ 31
  nbin_lt : h.nbin < 2 ^ 31
  range_length : h.range.length = 2 * h.nbin
  bin_length : h.bin.length = h.nbin

/-- What a message says of a storage region: a `region_list_t` with its
`storage_location`, a string in an array of `ADDR_MAX` characters. -/
structure StoredRegion where
  location : Bytes
  region : RegionInfo
  offset : UInt64
  dataSize : UInt64
  hist : Option Histogram
  location_length : location.length < 1024
  location_string : 0 ∉ location
  hist_wf : ∀ h, hist = some h → h.WF

/-! ## The sender -/

/-- The words of a `region_info_transfer_t` after a region has been written to it. -/
def regionInfoWords (r : RegionInfo) (ws : List UInt64) : List UInt64 :=
  let ws := ws.set 0 (UInt64.ofNat r.ndim)
  let ws := if 3 ≤ r.ndim then (ws.set 3 r.offset[2]!).set 7 r.size[2]! else ws
  let ws := if 2 ≤ r.ndim then (ws.set 2 r.offset[1]!).set 6 r.size[1]! else ws
  (ws.set 1 r.offset[0]!).set 5 r.size[0]!

/-- `sizeof(region_info_transfer_t)`. -/
def regionInfoSize : Nat := 72

/-- `sizeof(pdc_histogram_t)`. -/
def histogramSize : Nat := 32

/-- `my_size`. Three words for each bin of a histogram are counted in an `int`. -/
def mySize (r : StoredRegion) : Nat :=
  (4 + r.location.length + 1 + regionInfoSize + 20 +
    match r.hist with
    | none => 0
    | some h => (Int.bmod (8 * h.nbin * 3) (2 ^ 32) % 2 ^ 64).toNat) % 2 ^ 64

/-- The mark whether there is a histogram, and the histogram. -/
def putHist (buf : Fill UInt8) : Option Histogram → Option (Fill UInt8)
  | none => buf.puts (intBytes 0)
  | some h => do
      let buf ← buf.puts (intBytes 1)
      let buf ← buf.rewrite histogramSize fun old =>
        intBytes h.dtype ++ intBytes h.nbin ++ u64Bytes h.incr ++ old.drop 16
      let buf ← buf.puts (u64sBytes h.range)
      buf.puts (u64sBytes h.bin)

/-- The writes of `add_storage_region_to_buf`, at the buffer's offset. -/
def putRecord (buf : Fill UInt8) (r : StoredRegion) : Option (Fill UInt8) := do
  let buf ← buf.puts (intBytes (r.location.length + 1))
  let buf ← buf.puts (r.location ++ [0])
  let buf ← buf.rewrite regionInfoSize
    fun old => u64sBytes (regionInfoWords r.region (u64sOf 9 old))
  let buf ← buf.puts (u64Bytes r.offset)
  let buf ← buf.puts (u64Bytes r.dataSize)
  putHist buf r.hist

/-- What `realloc` does when it is asked for a number of bytes: whether the block
stays where it is, and what is in the part of it that is new. -/
structure Realloc where
  inPlace : Nat → Bool
  junk : Nat → UInt8

/-- `add_storage_region_to_buf`, on the caller's block. A region without a path is
an error, and is not written. -/
def addStorageRegionToBuf (re : Realloc) (buf : Fill UInt8) (r : StoredRegion) :
    Option (Fill UInt8) :=
  let alloc := buf.cells.length
  if r.location = [] then some buf
  else if alloc < (buf.next + mySize r + 1024) % 2 ^ 64 then
    let alloc := alloc * 2 % 2 ^ 64
    if re.inPlace alloc then
      putRecord { buf with cells := (buf.cells ++ (List.range alloc).map re.junk).take alloc } r
    else none
  else putRecord buf r

/-- The buffer after a list of regions, from one of `alloc` bytes that are zero. -/
def addAll (re : Realloc) (alloc : Nat) (rs : List StoredRegion) : Option (Fill UInt8) :=
  rs.foldlM (addStorageRegionToBuf re) ⟨List.replicate alloc 0, 0⟩

/-- The buffers that are sent for blocks of regions, one after the other. A new one
has the size the last one has grown to. -/
def encodeBlocks (re : Realloc) : Nat → List (List StoredRegion) → Option (List Bytes)
  | _, [] => some []
  | alloc, rs :: blocks => do
    let buf ← addAll re alloc rs
    let bufs ← encodeBlocks re buf.cells.length blocks
    some (buf.cells.take buf.next :: bufs)

/-- The same from the first value of `buf_alloc`, a product of `int`s. -/
def bulkBuffers (re : Realloc) (avgCount : Nat) (blocks : List (List StoredRegion)) :
    Option (List Bytes) :=
  if 4096 * avgCount < 2 ^ 31 then encodeBlocks re (4096 * avgCount) blocks else none

/-! ## The receiver -/

/-- The fields of a received `region_list_t`. -/
structure ReceivedRegion where
  location : Bytes
  region : RegionList
  offset : UInt64
  dataSize : UInt64
  hist : Option Histogram

/-- A `region_info_transfer_t` from its words. -/
def transferOfWords (ws : List UInt64) : RegionInfoTransfer where
  ndim := (ws[0]!).toNat
  start0 := ws[1]!
  start1 := ws[2]!
  start2 := ws[3]!
  start3 := ws[4]!
  count0 := ws[5]!
  count1 := ws[6]!
  count2 := ws[7]!
  count3 := ws[8]!

/-- A `region_list_t` from `calloc`. -/
def RegionList.zero : RegionList := ⟨0, [0, 0, 0, 0], [0, 0, 0, 0], rfl, rfl⟩

/-- A histogram, copied with `PDC_copy_hist`. -/
def readHistogram : Reader Histogram := do
  let dtype ← readInt
  let nbin ← readInt
  let incr ← readU64
  let _ ← readBytes 16
  let range ← readMany readU64 (2 * nbin.toNat)
  let bin ← readMany readU64 nbin.toNat
  pure { dtype := dtype, nbin := nbin.toNat, incr := incr, range := range, bin := bin }

/-- The mark whether there is a histogram, and the histogram. -/
def readHist : Reader (Option Histogram) := do
  let hasHist ← readInt
  if hasHist = 1 then (do let h ← readHistogram; pure (some h)) else pure none

/-- One turn of the loop of `PDC_recv_query_metadata_bulk`. The number of dimensions
is that of the message. -/
def readStorageRegion (ndim : Nat) : Reader ReceivedRegion := do
  let len ← readInt
  let loc ← readBytes len.toNat
  let ws ← readMany readU64 9
  let offset ← readU64
  let size ← readU64
  let hist ← readHist
  pure {
    location := loc.takeWhile (· ≠ 0)
    region := { regionTransferToList (transferOfWords ws) RegionList.zero with ndim := ndim }
    offset := offset
    dataSize := size
    hist := hist }

/-- The reading of a message with a number of regions. -/
def recvQueryMetadata (ndim nregion : Nat) : Reader (List ReceivedRegion) :=
  readMany (readStorageRegion ndim) nregion

end Pdc
