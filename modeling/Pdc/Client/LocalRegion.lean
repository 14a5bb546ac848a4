import Pdc.Utils.Region

/-!
# The local region of a transfer (`pdc_region_transfer.c`)

The user's buffer is read and written through the local region of the request.
`pack_region_buffer` copies the rows of a two- or three-dimensional region into
a block of its own for a `PDC_WRITE`, and only allocates that block for a
`PDC_READ`; for one dimension the block is the place in the user's buffer
itself. A read delivers its bytes into the block, and `release_region_buffer`
copies them back.

The remote region has as many elements as the local one, so `total_data_size`
is the size of the block. Positions are natural numbers: the region lies in a
buffer, and a buffer lies in memory. What else `release_region_buffer` frees is
left out.
-/

namespace Pdc

open Lib

/-- `pack_region_buffer` for a `PDC_WRITE`: the bytes that are sent, which are
found at `*new_buf`. -/
def packRegionBuffer (ndim unit : Nat) (region : Region) (buf : List UInt8) : Option (List UInt8) :=
  match ndim with
  | 1 => some (slice buf (region.off 0 * unit) (region.len 0 * unit))
  | 2 =>
    some ((List.range (region.len 0)).flatMap fun i =>
      slice buf (((region.off 0 + i) * region.len 1 + region.off 1) * unit) (region.len 1 * unit))
  | 3 =>
    some ((List.range (region.len 0)).flatMap fun i =>
      (List.range (region.len 1)).flatMap fun j =>
        slice buf (((region.off 0 + i) * region.len 1 * region.len 2 +
            (region.off 1 + j) * region.len 2 + region.off 2) * unit)
          (region.len 2 * unit))
  | _ => none

/-- The end of a `PDC_READ`: `data` has arrived at `new_buf`, and
`release_region_buffer` is called. -/
def releaseRegionBuffer (ndim unit : Nat) (region : Region) (buf data : List UInt8) : List UInt8 :=
  match ndim with
  | 1 => memcpy buf (region.off 0 * unit) data 0 (region.len 0 * unit)
  | 2 => memcpy buf 0 data 0 (region.len 0 * region.len 1 * unit)
  | 3 => memcpy buf 0 data 0 (region.len 0 * region.len 1 * region.len 2 * unit)
  | _ => buf

end Pdc
