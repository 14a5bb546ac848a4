import Pdc.Lib.Buffer

/-!
# Regions and the copies between them (`pdc_region_utils.c`)

A region of an `ndim`-dimensional object is two `uint64_t` arrays, an offset
and a size in each dimension. The comparisons and the sums on them are the
source's own 64-bit ones, so `offset + size` wraps here where it wraps there.

Positions inside a buffer are natural numbers. A buffer that exists is
smaller than the address space, so the source's pointer arithmetic does not
wrap, and it only ever subtracts an offset from an overlap that starts at or
after it. What the source leaves undefined, a copy that would leave its
buffer, leaves the destination's length alone here (`memcpy`).
-/

namespace Pdc

open Lib

/-- `pdc_region_partition_t`. -/
inductive RegionPartition where
  | objStatic
  | regionStatic
  | regionDynamic
  | regionLocal
  deriving DecidableEq, Repr

/-- The enumerator's value. -/
def RegionPartition.value : RegionPartition → Nat
  | .objStatic => 0
  | .regionStatic => 1
  | .regionDynamic => 2
  | .regionLocal => 3

/-- The `offset` and `size` arrays of a `struct pdc_region_info`, or the
`start` and `count` arrays of a `region_list_t`. -/
structure Region where
  offset : List UInt64
  size : List UInt64
  deriving DecidableEq, Repr

namespace Region

/-- `offset[i]` as a position. -/
def off (r : Region) (i : Nat) : Nat := (r.offset[i]!).toNat

/-- `size[i]` as a length. -/
def len (r : Region) (i : Nat) : Nat := (r.size[i]!).toNat

/-- The number of cells of the first `ndim` dimensions. -/
def count (ndim : Nat) (r : Region) : Nat :=
  (List.range ndim).foldl (fun acc i => acc * r.len i) 1

/-- `write_size` as `PDC_Server_data_write_out` and the cache compute it. -/
def writeSize (ndim unit : Nat) (r : Region) : Nat :=
  let s := if ndim ≥ 1 then unit * r.len 0 else 0
  let s := if ndim ≥ 2 then s * r.len 1 else s
  if ndim ≥ 3 then s * r.len 2 else s

end Region

/-- `check_overlap`. -/
def checkOverlap (ndim : Nat) (r₁ r₂ : Region) : Bool :=
  (List.range ndim).all fun i =>
    (r₁.offset[i]! + r₁.size[i]! > r₂.offset[i]! && r₂.offset[i]! ≥ r₁.offset[i]!) ||
      (r₂.offset[i]! + r₂.size[i]! > r₁.offset[i]! && r₁.offset[i]! ≥ r₂.offset[i]!)

/-- `PDC_region_overlap_detect`; a NULL `output_offset` is `none`. -/
def regionOverlapDetect (ndim : Nat) (r₁ r₂ : Region) : Option Region :=
  if checkOverlap ndim r₁ r₂ then
    let outputOffset := fun i =>
      if r₂.offset[i]! < r₁.offset[i]! then r₁.offset[i]! else r₂.offset[i]!
    some {
      offset := (List.range ndim).map outputOffset
      size := (List.range ndim).map fun i =>
        (if r₂.offset[i]! + r₂.size[i]! < r₁.offset[i]! + r₁.size[i]! then
          r₂.offset[i]! + r₂.size[i]!
        else r₁.offset[i]! + r₁.size[i]!) - outputOffset i }
  else none

/-- `detect_region_contained`: is the first region inside the second. -/
def detectRegionContained (ndim : Nat) (r r₂ : Region) : Bool :=
  (List.range ndim).all fun i =>
    !(r.offset[i]! < r₂.offset[i]! || r.offset[i]! + r.size[i]! > r₂.offset[i]! + r₂.size[i]!)

/-- `pdc_access_t`. -/
inductive Access where
  | na
  | read
  | write
  deriving DecidableEq, Repr

/-- One row of `memcpy_subregion`: into the packed buffer for a write, out of
it otherwise. The two buffers are returned. -/
def copyRow (access : Access) (pos subPos len : Nat) (bufs : List UInt8 × List UInt8) :
    List UInt8 × List UInt8 :=
  if access = .write then (bufs.1, memcpy bufs.2 subPos bufs.1 pos len)
  else (memcpy bufs.1 pos bufs.2 subPos len, bufs.2)

/-- `memcpy_subregion`: copy the sub-region at `subOffset` of a buffer of the
given size to or from a packed buffer of its own. -/
def memcpySubregion (ndim unit : Nat) (access : Access) (buf : List UInt8) (size : List UInt64)
    (subBuf : List UInt8) (subOffset subSize : List UInt64) : List UInt8 × List UInt8 :=
  let size := fun i => (size[i]!).toNat
  let subOffset := fun i => (subOffset[i]!).toNat
  let subSize := fun i => (subSize[i]!).toNat
  match ndim with
  | 1 => copyRow access (subOffset 0 * unit) 0 (unit * subSize 0) (buf, subBuf)
  | 2 =>
    (List.range (subSize 0)).foldl (fun bufs i =>
      copyRow access (((subOffset 0 + i) * size 1 + subOffset 1) * unit)
        (i * (subSize 1 * unit)) (subSize 1 * unit) bufs) (buf, subBuf)
  | 3 =>
    (List.range (subSize 0)).foldl (fun bufs i =>
      (List.range (subSize 1)).foldl (fun bufs j =>
        copyRow access
          (((subOffset 0 + i) * size 1 * size 2 + (subOffset 1 + j) * size 2 + subOffset 2) * unit)
          ((i * subSize 1 + j) * (subSize 2 * unit)) (subSize 2 * unit) bufs) bufs) (buf, subBuf)
  | _ => (buf, subBuf)

/-- `memcpy_overlap_subregion`: copy the overlap `ov` from the buffer of the
first region into the buffer of the second, row by row. -/
def memcpyOverlapSubregion (ndim unit : Nat) (buf : List UInt8) (r : Region)
    (buf2 : List UInt8) (r₂ ov : Region) : List UInt8 :=
  match ndim with
  | 1 =>
    memcpy buf2 ((ov.off 0 - r₂.off 0) * unit) buf ((ov.off 0 - r.off 0) * unit) (unit * ov.len 0)
  | 2 =>
    (List.range (ov.len 0)).foldl (fun b i =>
      memcpy b (((ov.off 0 - r₂.off 0 + i) * r₂.len 1 + ov.off 1 - r₂.off 1) * unit)
        buf (((ov.off 0 - r.off 0 + i) * r.len 1 + ov.off 1 - r.off 1) * unit)
        (ov.len 1 * unit)) buf2
  | 3 =>
    (List.range (ov.len 0)).foldl (fun b i =>
      (List.range (ov.len 1)).foldl (fun b j =>
        memcpy b ((((ov.off 0 - r₂.off 0 + i) * r₂.len 1 + (ov.off 1 - r₂.off 1 + j)) * r₂.len 2
            + ov.off 2 - r₂.off 2) * unit)
          buf
          ((((ov.off 0 - r.off 0 + i) * r.len 1 + (ov.off 1 - r.off 1 + j)) * r.len 2
            + ov.off 2 - r.off 2) * unit)
          (ov.len 2 * unit)) b) buf2
  | _ => buf2

end Pdc
