import Pdc.Utils.Region

/-!
# Static region partition (`pdc_region_transfer.c`)

With `PDC_REGION_STATIC` every data server owns a slab of the object, cut
along one dimension, and a transfer request is split into its overlaps with
the slabs. The slabs depend on the object's dimensions and on the number of
servers only.

All arithmetic on coordinates is the source's 64-bit one, and so is the size
that is passed to `calloc` for the buffer of an overlap: the source multiplies
the overlap's size in bytes by the element size once more.
-/

namespace Pdc

open Lib

/-- The dimension that is split: the last one with more elements than there
are servers, or the last one. -/
def splitDim (ndim : Nat) (pdcServerNum : UInt64) (objDims : List UInt64) : Nat :=
  match (List.range ndim).find? fun i => objDims[ndim - 1 - i]! > pdcServerNum with
  | some i => ndim - 1 - i
  | none => ndim - 1

/-- `s`, the elements of a slab. -/
def staticS (pdcServerNum objDim : UInt64) : UInt64 :=
  let s := objDim / pdcServerNum
  if s = 0 then 1 else s

/-- `x`, how many slabs have `s` elements and not one more. -/
def staticX (pdcServerNum objDim : UInt64) : UInt64 := pdcServerNum - objDim % pdcServerNum

/-- `static_offset` of a server. -/
def staticOffset (s x i : UInt64) : UInt64 := if i < x then i * s else x * s + (i - x) * (s + 1)

/-- `static_size` of a server. -/
def staticSize (s x i : UInt64) : UInt64 := if i < x then s else s + 1

/-- What `static_region_partition` returns for one data server. -/
structure StaticPart where
  dataServerId : UInt32
  output : Region
  subOffset : List UInt64
  outputBuf : Option (List UInt8)
  deriving DecidableEq, Repr

/-- Does the request reach the slab of a server. -/
def fitsStatic (offset size staticOffset staticSize : UInt64) : Bool :=
  (staticOffset + staticSize > offset && offset ≥ staticOffset) ||
    (offset + size > staticOffset && staticOffset ≥ offset)

/-- The output offset, output size and sub-offset in the split dimension. -/
def clipStatic (offset size staticOffset staticSize : UInt64) : UInt64 × UInt64 × UInt64 :=
  if staticOffset < offset then
    (offset,
      if staticOffset + staticSize < offset + size then staticOffset + staticSize - offset
      else size, 0)
  else
    (staticOffset,
      if staticOffset + staticSize < offset + size then staticSize
      else offset + size - staticOffset, staticOffset - offset)

/-- The sub-region of one server: its output region and its sub-offset. -/
def staticOverlap (ndim split : Nat) (r : Region) (staticOffset staticSize : UInt64) :
    Region × List UInt64 :=
  let clip := clipStatic r.offset[split]! r.size[split]! staticOffset staticSize
  ({ offset := (List.range ndim).map fun j => if j = split then clip.1 else r.offset[j]!
     size := (List.range ndim).map fun j => if j = split then clip.2.1 else r.size[j]! },
    (List.range ndim).map fun j => if j = split then clip.2.2 else 0)

/-- `region_size`: the bytes of a sub-region. -/
def staticRegionSize (ndim : Nat) (unit : UInt64) (output : Region) : UInt64 :=
  (List.range ndim).foldl (fun regionSize j => regionSize * output.size[j]!) unit

/-- The buffer of one sub-region. -/
def staticOutputBuf (buf : List UInt8) (ndim : Nat) (unit : UInt64) (access : Access)
    (r output : Region) (subOffset : List UInt64) : List UInt8 :=
  let outputBuf := List.replicate (staticRegionSize ndim unit output * unit).toNat 0
  if access = .write then
    (memcpySubregion ndim unit.toNat .write buf r.size outputBuf subOffset output.size).2
  else outputBuf

/-- `static_region_partition`. -/
def staticRegionPartition (pdcServerNum : Nat) (buf : List UInt8) (ndim : Nat) (unit : UInt64)
    (access : Access) (objDims : List UInt64) (r : Region) (setOutputBuf : Bool) :
    List StaticPart :=
  let num := UInt64.ofNat pdcServerNum
  let split := splitDim ndim num objDims
  let s := staticS num objDims[split]!
  let x := staticX num objDims[split]!
  (List.range pdcServerNum).filterMap fun i =>
    let offset := staticOffset s x (UInt64.ofNat i)
    let size := staticSize s x (UInt64.ofNat i)
    if fitsStatic r.offset[split]! r.size[split]! offset size then
      let (output, subOffset) := staticOverlap ndim split r offset size
      some {
        dataServerId := UInt32.ofNat i
        output := output
        subOffset := subOffset
        outputBuf :=
          if setOutputBuf then some (staticOutputBuf buf ndim unit access r output subOffset)
          else none }
    else none

/-- The copies `PDCregion_transfer_wait` makes of what the data servers have
sent, each part with its buffer, into the request's own buffer. -/
def gatherParts (ndim : Nat) (unit : UInt64) (newBuf : List UInt8) (remoteRegionSize : List UInt64)
    (parts : List (StaticPart × List UInt8)) : List UInt8 :=
  parts.foldl (fun newBuf part =>
    (memcpySubregion ndim unit.toNat .read newBuf remoteRegionSize part.2 part.1.subOffset
      part.1.output.size).1) newBuf

end Pdc
