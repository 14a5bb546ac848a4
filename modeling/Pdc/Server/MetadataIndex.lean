import Pdc.Commons.Dart
import Pdc.Server.Checkpoint

/-!
# The index of a restarted server (`idioms_persistence.c`, `pdc_server.c`)

Each server dumps its part of the index with one pair of files for each virtual
node. A restarted server asks which virtual nodes it has and loads their files,
whichever server wrote them, into the index that `idioms_g` points to.

An index is described by its DART space and the files loaded into it. Before it
come the tables, which `PDC_Server_restart` reads from the checkpoint directory.
There is no outcome where a null pointer is followed, `int vid` overflows or the
code divides by zero.
-/

namespace Pdc

/-- The files of a virtual node that one server has dumped. -/
structure IndexFile where
  serverId : Nat
  vnode : UInt64
  deriving DecidableEq, Repr

namespace Dart

variable (d : Dart) (serverID : UInt32)

/-- The values of `vid` in the loop of `get_vnode_ids_by_serverID`, and its test. -/
def vids : List UInt64 := (List.range d.numVnode.toNat).map UInt64.ofNat

def owns (vid : UInt64) : Bool := d.getServerIdByVnodeId vid = some serverID.toUInt64

/-- `get_vnode_ids_by_serverID`: an owned node is put at its own place in an array of
zeros, and the beginning of the array is returned. -/
def getVnodeIdsByServerID : Option (List UInt64) :=
  if 2 ^ 31 ≤ d.numVnode.toNat ∨ d.numVnodePerServer = 0 then none
  else
    let tempOut := d.vids.map fun vid => if d.owns serverID vid then vid else 0
    some (tempOut.take (d.vids.countP (d.owns serverID)))

/-- The files `idioms_metadata_index_recover` reads. -/
def idiomsMetadataIndexRecover (numServer : Nat) : Option (List IndexFile) := do
  let vids ← d.getVnodeIdsByServerID serverID
  pure (vids.flatMap fun vid => (List.range numServer).map fun sid => ⟨sid, vid⟩)

end Dart

/-- `IDIOMS_t`. -/
structure Idioms where
  dartInfo : Dart
  loaded : List IndexFile := []

variable {B : Type} {layout : StructLayout} {ops : BloomOps B}

/-- What is in the checkpoint directory: the file with the tables, if there is one, and what
`load_dart_info` makes of a DART space. A file that is there has been written to its end. -/
structure CheckpointDir (layout : StructLayout) (ops : BloomOps B) where
  file : Option Lib.Bytes
  complete : ∀ bytes ∈ file, ∀ idSeq, (restart layout ops idSeq bytes).isSome
  loadDartInfo : Dart → Dart

/-- Whether `PDC_Server_restart` reads the tables. -/
def CheckpointDir.restarts (dir : CheckpointDir layout ops) (idSeq : UInt64) : Bool :=
  (dir.file.bind (restart layout ops idSeq)).isSome

/-- The indexes a server has created, `idioms_g`, and the index that records were loaded
into. -/
structure IndexServer where
  serverSize : Nat
  rank : UInt32
  created : List Idioms := []
  idiomsG : Option Nat := none
  recovered : Option Nat := none

/-- `PDC_Server_metadata_index_init`; `dartInfo` is the space `IDIOMS_init` makes. -/
def metadataIndexInit (dartInfo : Dart) (s : IndexServer) : IndexServer :=
  { s with created := s.created ++ [{ dartInfo }], idiomsG := some s.created.length }

/-- `metadata_index_recover`. -/
def metadataIndexRecover (dir : CheckpointDir layout ops) (s : IndexServer) :
    Option IndexServer := do
  let i ← s.idiomsG
  let idioms ← s.created[i]?
  let dartInfo := dir.loadDartInfo idioms.dartInfo
  let files ← dartInfo.idiomsMetadataIndexRecover s.rank s.serverSize
  pure { s with
    created := s.created.set i { dartInfo, loaded := idioms.loaded ++ files }
    recovered := some i }

/-- `PDC_Server_init`, as far as the index is concerned: whether it succeeds, and the server it
leaves. `hashTable` is whether `PDC_Server_init_hash_table` succeeds, with which
`PDC_Server_restart` begins. -/
def pdcServerInit (isRestartG hashTable : Bool) (dir : CheckpointDir layout ops) (dartInfo : Dart)
    (s : IndexServer) : Option (Bool × IndexServer) :=
  if isRestartG then
    if hashTable ∧ dir.restarts (initialIdSeq s.rank.toNat) then do
      let s ← metadataIndexRecover dir s
      pure (true, metadataIndexInit dartInfo s)
    else some (false, s)
  else if hashTable then some (true, metadataIndexInit dartInfo s)
  else some (false, s)

end Pdc
