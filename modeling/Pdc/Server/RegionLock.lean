import Pdc.Server.RegionList

/-!
# Region locks (`pdc_server_data.c`)

A data server keeps two lists for each object: the regions that are locked,
and the lock requests that wait. A request for a region that is locked is
refused, or waits if the client asked for that; it is answered when the
region is released. The answer to a waiting request goes out from
`PDC_Server_release_lock_request`, which knows nothing of the first list.

An object the server has no entry for is an object with two empty lists. A
release fails on either, and a lock request makes the entry.
-/

namespace Pdc

/-- `pdc_lock_mode_t`. -/
inductive LockMode where
  | block | noBlock
  deriving DecidableEq, Repr

/-- The lock lists of a `data_server_region_t`. A waiting request is kept with
the client its `lock_handle` answers. -/
structure RegionLocks where
  lockHead : List RegionInfo := []
  lockRequestHead : List (RegionInfo × Nat) := []

/-- What the handler of a lock request does: it answers `ret`, or it keeps the
handle for later. -/
inductive LockAnswer where
  | now (ret : Nat)
  | later
  deriving DecidableEq, Repr

/-- `PDC_Data_Server_region_lock`. A request that waits is appended once for each
lock it was found to meet. -/
def regionLock (obj : RegionLocks) (client : Nat) (region : RegionInfo) (mode : LockMode) :
    RegionLocks × LockAnswer :=
  let found := obj.lockHead.filter fun elt => isSameRegionList elt region
  if found = [] then
    ({ obj with lockHead := obj.lockHead ++ [region] }, .now 1)
  else
    match mode with
    | .block =>
      ({ obj with
        lockRequestHead := obj.lockRequestHead ++ found.map fun _ => (region, client) }, .later)
    | .noBlock => (obj, .now 0)

/-- `PDC_Data_Server_region_release`. A region that is not locked is an error,
and nothing is done. -/
def regionRelease (obj : RegionLocks) (region : RegionInfo) : RegionLocks :=
  { obj with lockHead := obj.lockHead.eraseP fun elt => isRegionIdentical region elt }

/-- `PDC_Server_release_lock_request`, with the clients it answers. -/
def releaseLockRequest (obj : RegionLocks) (region : RegionInfo) : RegionLocks × List Nat :=
  ({ obj with
      lockRequestHead := obj.lockRequestHead.filter fun elt => !isRegionIdentical region elt.1 },
    (obj.lockRequestHead.filter fun elt => isRegionIdentical region elt.1).map Prod.snd)

/-! ## Clients -/

/-- What a client asks for. -/
inductive LockOp where
  | lock (client : Nat) (objId : UInt64) (region : RegionInfo) (mode : LockMode)
  | release (client : Nat) (objId : UInt64) (region : RegionInfo)

/-- The server's lists, and the clients that have been granted the lock on a region
of an object and have not released it. -/
structure LockWorld where
  locks : UInt64 → RegionLocks
  holders : UInt64 → RegionInfo → List Nat

def LockWorld.start : LockWorld := ⟨fun _ => {}, fun _ _ => []⟩

/-- The holders of one region of one object. -/
def LockWorld.setHolders (w : LockWorld) (objId : UInt64) (region : RegionInfo)
    (clients : List Nat) : UInt64 → RegionInfo → List Nat :=
  fun o r => if o = objId ∧ r = region then clients else w.holders o r

/-- The lists of one object. -/
def LockWorld.setLocks (w : LockWorld) (objId : UInt64) (obj : RegionLocks) :
    UInt64 → RegionLocks :=
  fun o => if o = objId then obj else w.locks o

/-- One request, with all the answers the server sends before the next. -/
def lockStep (w : LockWorld) : LockOp → LockWorld
  | .lock client objId region mode =>
    let res := regionLock (w.locks objId) client region mode
    { locks := w.setLocks objId res.1
      holders :=
        if res.2 = .now 1 then
          w.setHolders objId region (w.holders objId region ++ [client])
        else w.holders }
  | .release client objId region =>
    let res := releaseLockRequest (regionRelease (w.locks objId) region) region
    { locks := w.setLocks objId res.1
      holders := w.setHolders objId region
        ((w.holders objId region).filter (fun c => c ≠ client) ++ res.2) }

end Pdc
