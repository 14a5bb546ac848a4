import Pdc.Proofs.Checkpoint
import Pdc.Proofs.DartPrefix
import Pdc.Server.MetadataIndex

/-!
# What a restarted server has of the index

The list of a server's virtual nodes is taken from the beginning of an array in
which each node stands at its own place. That is right for the only server of
a space, which has all of them. With two servers or more the second one has the
nodes from some number on, and gets zeros instead.

When the files are loaded there is no index yet: it is created at the end of the
start-up, and is empty.
-/

namespace Pdc

open List

namespace Dart

variable {d : Dart} {serverID : UInt32} {ids : List UInt64}

/-- The list of virtual nodes is right for a server. -/
def ListsVnodes (d : Dart) (serverID : UInt32) : Prop :=
  ∃ ids, d.getVnodeIdsByServerID serverID = some ids ∧ ids.Nodup ∧
    ∀ v, v ∈ ids ↔ v < d.numVnode ∧ d.getServerIdByVnodeId v = some serverID.toUInt64

/-- Every dumped file is loaded by exactly one server. -/
def LoadsOnce (d : Dart) : Prop :=
  ∀ sid < d.numServer, ∀ v < d.numVnode, ∃! serverID : UInt32, serverID.toNat < d.numServer ∧
    ∃ files, d.idiomsMetadataIndexRecover serverID d.numServer = some files ∧ ⟨sid, v⟩ ∈ files

theorem owns_iff (hper : d.numVnodePerServer ≠ 0) {vid : Nat} (hvid : vid < 2 ^ 31) :
    d.owns serverID (UInt64.ofNat vid) ↔ vid / d.perServer % d.numServer = serverID.toNat := by
  have hlt : vid < 2 ^ 64 := by omega
  rw [owns, decide_eq_true_eq, getServerIdByVnodeId_eq hper, Option.some.injEq, ← UInt64.toNat_inj,
    toNat_serverIdOf, UInt64.toNat_ofNat', Nat.mod_eq_of_lt hlt, UInt32.toNat_toUInt64]

theorem mem_vids {v : UInt64} : v ∈ d.vids ↔ v < d.numVnode := by
  rw [vids, mem_map, UInt64.lt_iff_toNat_lt]
  constructor
  · rintro ⟨n, hn, rfl⟩
    rw [mem_range] at hn
    rw [UInt64.toNat_ofNat', Nat.mod_eq_of_lt (hn.trans d.numVnode.toNat_lt)]
    exact hn
  · exact fun h => ⟨v.toNat, mem_range.mpr h, UInt64.ofNat_toNat⟩

theorem getVnodeIdsByServerID_eq_some :
    d.getVnodeIdsByServerID serverID = some ids ↔ d.numVnode.toNat < 2 ^ 31 ∧
      d.numVnodePerServer ≠ 0 ∧ (d.vids.map fun vid => if d.owns serverID vid then vid else 0).take
        (d.vids.countP (d.owns serverID)) = ids := by
  rw [getVnodeIdsByServerID]
  split
  next h => exact iff_of_false (by simp) fun ⟨hlt, hper, _⟩ => h.elim (by omega) hper
  next h =>
    rw [not_or, Nat.not_le] at h
    rw [Option.some.injEq]
    exact ⟨fun hids => ⟨h.1, h.2, hids⟩, fun hids => hids.2.2⟩

/-- The second server's list starts with a zero. -/
theorem zero_mem_of_two (hper : d.numVnodePerServer ≠ 0) (hlt : d.numVnode.toNat < 2 ^ 31)
    (htwo : 1 < d.numServer) (h : d.numServer ≤ d.numVnode.toNat)
    (hids : d.getVnodeIdsByServerID 1 = some ids) : 0 ∈ ids := by
  obtain ⟨-, -, rfl⟩ := getVnodeIdsByServerID_eq_some.mp hids
  have hpos := perServer_pos hper
  have hself : d.perServer < d.numVnode.toNat := by
    have hdiv : d.numVnode.toNat / d.numServer < _ := Nat.div_lt_self (by omega) htwo
    rw [perServer, numVnodePerServer_eq hlt, toNat_ofInt]
    generalize d.numVnode.toNat / d.numServer = k at hdiv ⊢
    omega
  have hcount : 0 < d.vids.countP (d.owns 1) := by
    refine countP_pos_iff.mpr ⟨_, mem_map_of_mem (mem_range.mpr hself), ?_⟩
    rw [owns_iff hper (hself.trans hlt), Nat.div_self hpos, Nat.mod_eq_of_lt htwo]
    rfl
  obtain ⟨c, hc⟩ := Nat.exists_eq_succ_of_ne_zero hcount.ne'
  obtain ⟨n, hn⟩ := Nat.exists_eq_succ_of_ne_zero (n := d.numVnode.toNat) (by omega)
  rw [hc, vids, hn, range_succ_eq_map]
  simp

/-- The only server has all nodes, and gets them all. -/
theorem vids_of_one (hone : d.numServer = 1) (hper : d.numVnodePerServer ≠ 0)
    (hlt : d.numVnode.toNat < 2 ^ 31) (hid : serverID.toNat < d.numServer) :
    (∀ v ∈ d.vids, d.owns serverID v) ∧ d.getVnodeIdsByServerID serverID = some d.vids := by
  have howns : ∀ v ∈ d.vids, d.owns serverID v := by
    intro v hv
    obtain ⟨n, hn, rfl⟩ := mem_map.mp hv
    rw [owns_iff hper ((mem_range.mp hn).trans hlt), hone]
    omega
  refine ⟨howns, getVnodeIdsByServerID_eq_some.mpr ⟨hlt, hper, ?_⟩⟩
  rw [countP_eq_length.mpr howns, map_congr_left fun v hv => if_pos (howns v hv), map_id',
    take_length]

/-- In a space with at least as many virtual nodes as servers, the lists of nodes are right
for all servers, and every dumped file is loaded on exactly one of them, if and only if there is
only one server and the nodes can be counted by an `int`. -/
theorem vnodeIds_partition_iff (d : Dart) (h : d.numServer ≤ d.numVnode.toNat) :
    (∀ serverID : UInt32, serverID.toNat < d.numServer → d.ListsVnodes serverID) ∧ d.LoadsOnce ↔
      d.numServer = 1 ∧ d.numVnode.toNat < 2 ^ 31 := by
  have hpos := d.one_le_numServer
  constructor
  · intro ⟨hlists, _⟩
    obtain ⟨_, hids, -⟩ := hlists 0 hpos
    obtain ⟨hlt, hper, -⟩ := getVnodeIdsByServerID_eq_some.mp hids
    refine ⟨?_, hlt⟩
    by_contra hne
    have htwo : 1 < d.numServer := by omega
    obtain ⟨ids, hids, -, hmem⟩ := hlists 1 htwo
    have howns := (hmem 0).mp (zero_mem_of_two hper hlt htwo h hids)
    have hzero := (owns_iff hper (by decide)).mp (decide_eq_true howns.2)
    simp at hzero
  · intro ⟨hone, hlt⟩
    have hper : d.numVnodePerServer ≠ 0 := by
      rw [numVnodePerServer_eq hlt, hone]
      omega
    constructor
    · intro serverID hid
      obtain ⟨howns, hids⟩ := vids_of_one hone hper hlt hid
      refine ⟨_, hids, nodup_range.map_on fun a ha b hb hab => ?_, fun v => ?_⟩
      · rw [mem_range] at ha hb
        rw [← UInt64.toNat_inj, UInt64.toNat_ofNat', UInt64.toNat_ofNat'] at hab
        omega
      · rw [mem_vids, iff_self_and]
        exact fun hv => of_decide_eq_true (howns v (mem_vids.mpr hv))
    · intro sid hsid v hv
      refine ⟨0, ⟨hpos, d.vids.flatMap fun vid => (range d.numServer).map fun sid => ⟨sid, vid⟩,
        ?_, ?_⟩, fun serverID hid => ?_⟩
      · have hid : (0 : UInt32).toNat < d.numServer := hpos
        rw [idiomsMetadataIndexRecover, (vids_of_one hone hper hlt hid).2]
        rfl
      · exact mem_flatMap.mpr ⟨v, mem_vids.mpr hv, mem_map.mpr ⟨sid, mem_range.mpr hsid, rfl⟩⟩
      · have hzero : serverID.toNat < 1 := hone ▸ hid.1
        exact UInt32.toNat_inj.mp (Nat.lt_one_iff.mp hzero)

/-- A space with four virtual nodes. -/
def smallSpace (numServer : Nat) (h : 1 ≤ numServer ∧ numServer < 2 ^ 31) : Dart where
  alphabetSize := 2
  dartTreeHeight := 2
  replicationFactor := 2
  clientRequestCount := 0
  numServer
  numVnode := 4
  one_le_alphabetSize := by decide
  alphabetSize_lt := by decide
  one_le_dartTreeHeight := by decide
  dartTreeHeight_lt := by decide
  one_le_replicationFactor := by decide
  replicationFactor_lt := by decide
  one_le_numServer := h.1
  numServer_lt := h.2

theorem vnodeIds_partition_one : (smallSpace 1 (by decide)).ListsVnodes 0 :=
  ((vnodeIds_partition_iff (smallSpace 1 (by decide)) (by decide)).mpr ⟨rfl, by decide⟩).1 0
    (by decide)

/-- With two servers the nodes 2 and 3 are the second server's, which gets 0 twice. -/
theorem getVnodeIdsByServerID_zeros :
    ([0, 1, 2, 3].map (smallSpace 2 (by decide)).getServerIdByVnodeId) =
      [some 0, some 0, some 1, some 1] ∧
    (smallSpace 2 (by decide)).getVnodeIdsByServerID 1 = some [0, 0] := by
  decide +kernel

end Dart

theorem CheckpointDir.restarts_eq {B : Type} {layout : StructLayout} {ops : BloomOps B}
    (dir : CheckpointDir layout ops) (idSeq : UInt64) :
    dir.restarts idSeq = dir.file.isSome := by
  have hcomplete := dir.complete
  rw [restarts]
  cases hfile : dir.file with
  | none => rfl
  | some bytes => exact hcomplete bytes hfile idSeq

def savedDir : CheckpointDir savedLayout exactBloom where
  file := some (checkpoint savedLayout savedState)
  complete bytes hbytes idSeq := by
    obtain rfl := Option.some.inj hbytes
    rw [(reads_checkpoint savedState_storable exactBloom idSeq).run_eq]
    rfl
  loadDartInfo := id

end Pdc
