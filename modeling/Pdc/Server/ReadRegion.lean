import Pdc.Server.DataIo

/-!
# Reading one region (`pdc_server_data.c`)

`PDC_Server_read_one_region` reads what a request has in common with each of
the storage regions it overlaps. A file stays open while the next storage
region is in the same one. One that cannot be opened or read is left out, and
the loop goes on. `reads` records the reads that were made, each with the path
of the file that was open. A read without an open file has no outcome.
-/

namespace Pdc

open Lib

/-- The variables of the loop. -/
structure ReadLoop where
  file : OpenFile := {}
  elt : IoRegion
  ret : Perr := .succeed
  isReadSucceed : Bool := false
  reads : List (Bytes × StorageEntry) := []

/-- The body of the loop. -/
def readOneStep (files : Bytes → Option Bytes) (st : ReadLoop) (stor : StorageEntry) :
    Option ReadLoop :=
  if stor.storageLocation = [] then some st
  else
    let file := st.file.reopen files stor.storageLocation
    match file.fpRead with
    | none =>
      -- The file of `prev_path` is taken for open, any other is not there.
      if st.file.prevPath = some stor.storageLocation then none else some { st with file }
    | some path =>
      let (buf, ret) := readOverlapRegions st.elt.region stor.region ((files path).getD [])
        stor.offset st.elt.buf
      let st := { st with
        elt := (st.elt.requested stor.region).withBuf buf
        ret
        reads := st.reads ++ [(path, stor)] }
      match ret with
      | .fail => some { st with file := { file with fpRead := none } }
      | .succeed => some { st with
          file := { file with prevPath := some stor.storageLocation }
          isReadSucceed := true }

/-- `PDC_Server_read_one_region`. -/
def serverReadOneRegion (files : Bytes → Option Bytes) (elt : IoRegion) (addr : Nat) :
    Option ReadLoop :=
  if elt.accessType ≠ .read ∨ elt.overlaps = [] then some { elt }
  else
    match createShmSegment elt addr with
    | none => some { elt := { elt with shmAddr := some addr }, ret := .fail }
    | some elt =>
      (elt.overlaps.foldlM (readOneStep files) { elt }).map fun st => { st with
        elt := if st.isReadSucceed then st.elt.ready
          else { st.elt.closeShm with isDataReady := 0, isIoDone := false } }

end Pdc
