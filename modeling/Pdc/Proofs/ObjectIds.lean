import Pdc.Proofs.Checkpoint

/-!
# Ids of objects and containers

A server numbers its objects and containers with one counter. It starts at a
billion on the first server, at two billions on the second, and so on. A server
that is restarted starts with the same number again, whatever it finds in its
checkpoint.

As long as nothing is deleted, the ids on a server are the first so many numbers
of its interval, and so are those in its checkpoint. The counter is behind them,
or it is one of them. Every event keeps that, and it makes a new id different from
the others just if the counter is behind all of them.
-/

namespace Pdc

open List Lib UInt64

variable {B : Type}

/-! ## Servers that are restarted -/

/-- A server, and the file its checkpoints are written to. -/
structure SavingServer (B : Type) where
  state : CheckpointState B
  file : Option Bytes := none

/-- A server that has been started without a checkpoint. -/
def CheckpointState.started (rank : Nat) : CheckpointState B where
  server := { idSeq := initialIdSeq rank }

inductive ServerEvent where
  | createObject (req : GenObjIdIn)
  | createContainer (contName : Bytes)
  | checkpoint
  | restart

variable {req : GenObjIdIn} {contName : Bytes} {m : Metadata} {entry : HashEntry B}
  {ev : ServerEvent} {idSeq : UInt64} {cont : Container}

section Servers

variable (layout : StructLayout) (ops : BloomOps B)

/-- What an event does on the server with this rank. -/
def savingStep (rank : Nat) (s : SavingServer B) : ServerEvent → SavingServer B
  | .createObject req =>
    { s with state.server := (insertMetadataToHashTable ops s.state.server req).1 }
  | .createContainer contName =>
    match createContainer s.state.server (.ofName contName) with
    | some (server, _) => { s with state.server := server }
    -- there is no outcome for a name that does not fit
    | none => s
  | .checkpoint => { s with file := some (checkpoint layout s.state) }
  | .restart =>
    let restored := s.file.bind (restart layout ops (initialIdSeq rank))
    { s with state := (restored.map Prod.fst).getD (.started rank) }

/-- An event on one of several servers. -/
def serversStep {n : Nat} (w : Fin n → SavingServer B) (ev : Fin n × ServerEvent) :
    Fin n → SavingServer B :=
  Function.update w ev.1 (savingStep layout ops ev.1 (w ev.1) ev.2)

def startedServers (n : Nat) : Fin n → SavingServer B := fun i => { state := .started i }

def ObjectServer.ids (s : ObjectServer B) : List UInt64 :=
  allValues (fun entry => entry.metadata.map Metadata.objId) s.table ++
    allValues (fun cont => [cont.contId]) s.containers

/-- No two objects or containers on the servers have the same id. -/
def IdsUnique {n : Nat} (w : Fin n → SavingServer B) : Prop :=
  ((List.finRange n).flatMap fun i => (w i).state.server.ids).Nodup

/-- Whether an event makes an object or a container that was not there. -/
def ServerEvent.isNew (s : ObjectServer B) : ServerEvent → Bool
  | .createObject req =>
    (findIdenticalMetadata ops ((s.table.lookup req.hashValue).getD {}) (req.metadata 0)).isNone
  | .createContainer contName => (s.containers.lookup (getHashByName contName)).isNone
  | .checkpoint => false
  | .restart => false

/-- How many ids a server gives away. -/
def idsCreated {n : Nat} (i : Fin n) : (Fin n → SavingServer B) → List (Fin n × ServerEvent) → Nat
  | _, [] => 0
  | w, ev :: events =>
    (if ev.1 = i ∧ ev.2.isNew ops (w i).state.server then 1 else 0) +
      idsCreated i (serversStep layout ops w ev) events

/-- Before an object or a container is made, the counter is above all ids of its server. -/
def CounterAbove {n : Nat} (w : Fin n → SavingServer B) (ev : Fin n × ServerEvent) : Prop :=
  ev.2.isNew ops (w ev.1).state.server = true →
    ∀ id ∈ (w ev.1).state.server.ids, id < (w ev.1).state.server.idSeq

/-- A request has the hash of its name, and names fit into the structs. -/
def ServerEvent.Valid : ServerEvent → Prop
  | .createObject req =>
    req.hashValue = getHashByName req.objName ∧ ∀ id, layout.metadata.Fits (req.metadata id)
  | .createContainer contName =>
    contName.length < addrMax ∧
      ∀ contId, layout.container.Fits { contId := contId, contName := contName }
  | .checkpoint => True
  | .restart => True

end Servers

/-! ## What a new id is -/

section New

variable {ops : BloomOps B} {s : ObjectServer B} {key : UInt32}

theorem insertMetadata_of_not_new (h : (ServerEvent.createObject req).isNew ops s = false) :
    insertMetadataToHashTable ops s req = (s, 0) := by
  rw [insertMetadataToHashTable]
  cases hfind : findIdenticalMetadata ops ((s.table.lookup req.hashValue).getD {})
      (req.metadata 0) with
  | some _ => rfl
  | none =>
    rw [ServerEvent.isNew, hfind] at h
    cases h

theorem insertMetadata_of_new (h : (ServerEvent.createObject req).isNew ops s = true) :
    (insertMetadataToHashTable ops s req).1 =
      { s with
        table := s.table.insert req.hashValue
          (hashTableListInsert ops ((s.table.lookup req.hashValue).getD {}) (req.metadata s.idSeq))
        idSeq := s.idSeq + 1 } := by
  rw [insertMetadataToHashTable, Option.isNone_iff_eq_none.mp h]
  rfl

theorem createContainer_of_not_new
    (h : (ServerEvent.createContainer contName).isNew ops s = false) :
    ∃ contId, createContainer s (.ofName contName) = some (s, contId) := by
  obtain ⟨cont, hcont⟩ := Option.isSome_iff_exists.mp (Option.isNone_eq_false_iff.mp h)
  refine ⟨cont.contId, ?_⟩
  rw [createContainer, GenContIdIn.ofName, hcont]

theorem createContainer_of_new (hlt : contName.length < addrMax)
    (h : (ServerEvent.createContainer contName).isNew ops s = true) :
    createContainer s (.ofName contName) = some ({ s with
        containers := s.containers.insert (getHashByName contName)
          { contId := s.idSeq, contName := contName }
        idSeq := s.idSeq + 1 }, s.idSeq) := by
  rw [createContainer, GenContIdIn.ofName, Option.isNone_iff_eq_none.mp h]
  exact if_pos hlt

theorem ids_insert_object {m : Metadata} :
    ({ s with
        table := s.table.insert key (hashTableListInsert ops ((s.table.lookup key).getD {}) m)
        idSeq } : ObjectServer B).ids.Perm (m.objId :: s.ids) := by
  have hlist : ((hashTableListInsert ops ((s.table.lookup key).getD {}) m).metadata.map
      Metadata.objId).Perm ([m.objId] ++ ((s.table.lookup key).map fun entry =>
        entry.metadata.map Metadata.objId).getD []) := by
    rw [hashTableListInsert, map_append]
    refine perm_append_comm.trans (List.Perm.of_eq ?_)
    cases s.table.lookup key <;> rfl
  exact (allValues_insert_perm (fun entry : HashEntry B => entry.metadata.map Metadata.objId)
    hlist).append_right _

theorem ids_insert_container (h : s.containers.lookup key = none) :
    ({ s with containers := s.containers.insert key cont, idSeq } : ObjectServer B).ids.Perm
      (cont.contId :: s.ids) := by
  have hcont : [cont.contId].Perm ([cont.contId] ++ ((s.containers.lookup key).map fun cont =>
      [cont.contId]).getD []) := by
    rw [h]
    rfl
  have hperm := allValues_insert_perm (fun cont : Container => [cont.contId]) hcont
  exact (hperm.append_left _).trans perm_middle

end New

/-! ## What is in the tables -/

structure CreatedObject (layout : StructLayout) (key : UInt32) (m : Metadata) : Prop where
  fits : layout.metadata.Fits m
  hash : getHashByName m.objName = key
  kvtags : m.kvtags = []
  regions : m.regions = []
  mark : m.allStorageRegionDistributed = 0

structure CreatedEntry (layout : StructLayout) (key : UInt32) (entry : HashEntry B) : Prop where
  nObj : entry.nObj = entry.metadata.length
  objects : ∀ m ∈ entry.metadata, CreatedObject layout key m

structure CreatedContainer (layout : StructLayout) (key : UInt32) (cont : Container) : Prop where
  fits : layout.container.Fits cont
  hash : getHashByName cont.contName = key
  objIds : cont.objIds = .null
  kvtags : cont.kvtagListHead = .null

structure CreatedState (layout : StructLayout) (st : CheckpointState B) : Prop where
  objects : ∀ key entry, st.server.table.lookup key = some entry →
    CreatedEntry layout key entry ∧ entry.metadata ≠ []
  containers : ∀ key cont, st.server.containers.lookup key = some cont →
    CreatedContainer layout key cont
  dataServerRegions : st.dataServerRegions = []
  transferCheckpoint : st.transferCheckpoint = []

section Tables

variable {layout : StructLayout} {ops : BloomOps B} {st : CheckpointState B} {key : UInt32}

theorem CreatedEntry.empty : CreatedEntry layout key ({} : HashEntry B) where
  nObj := rfl
  objects _ hm := absurd hm not_mem_nil

theorem CreatedEntry.insert (h : CreatedEntry layout key entry) (hm : CreatedObject layout key m) :
    CreatedEntry layout key (hashTableListInsert ops entry m) where
  nObj := by
    show entry.nObj + 1 = (entry.metadata ++ [m]).length
    rw [h.nObj, length_append, length_singleton]
  objects m' hm' := by
    rcases mem_append.mp hm' with hold | hnew
    · exact h.objects m' hold
    · rw [mem_singleton.mp hnew]
      exact hm

theorem CreatedEntry.foldl_insert {ms : List Metadata} (h : CreatedEntry layout key entry)
    (hms : ∀ m ∈ ms, CreatedObject layout key m) :
    CreatedEntry layout key (ms.foldl (hashTableListInsert ops) entry) :=
  foldlRecOn ms _ h fun _ hentry m hm => hentry.insert (hms m hm)

theorem CreatedState.started (rank : Nat) : CreatedState (B := B) layout (.started rank) where
  objects key entry hentry := by simp [CheckpointState.started] at hentry
  containers key cont hcont := by simp [CheckpointState.started] at hcont
  dataServerRegions := rfl
  transferCheckpoint := rfl

theorem CreatedState.createObject (h : CreatedState layout st)
    (hvalid : (ServerEvent.createObject req).Valid layout)
    (hnew : (ServerEvent.createObject req).isNew ops st.server = true) :
    CreatedState layout
      { st with server := (insertMetadataToHashTable ops st.server req).1 } where
  objects key entry hentry := by
    rw [insertMetadata_of_new hnew] at hentry
    rcases lookup_insert_eq_some_iff.mp hentry with ⟨rfl, rfl⟩ | ⟨-, hold⟩
    · have hbefore : CreatedEntry layout req.hashValue
          ((st.server.table.lookup req.hashValue).getD {}) := by
        cases hlookup : st.server.table.lookup req.hashValue with
        | none => exact CreatedEntry.empty
        | some entry => exact (h.objects _ _ hlookup).1
      refine ⟨hbefore.insert ⟨hvalid.2 _, hvalid.1.symm, rfl, rfl, rfl⟩, ?_⟩
      exact append_ne_nil_of_right_ne_nil _ (cons_ne_nil _ _)
    · exact h.objects key entry hold
  containers key cont hcont := by
    rw [insertMetadata_of_new hnew] at hcont
    exact h.containers key cont hcont
  dataServerRegions := h.dataServerRegions
  transferCheckpoint := h.transferCheckpoint

theorem CreatedState.createContainer (h : CreatedState layout st) {contName : Bytes}
    {contId : UInt64} (hfits : layout.container.Fits { contId := contId, contName := contName }) :
    CreatedState layout
      { st with
        server :=
          { st.server with
            containers := st.server.containers.insert (getHashByName contName)
              { contId := contId, contName := contName }
            idSeq := idSeq } } where
  objects := h.objects
  containers key cont hcont := by
    rcases lookup_insert_eq_some_iff.mp hcont with ⟨rfl, rfl⟩ | ⟨-, hold⟩
    · exact ⟨hfits, rfl, rfl, rfl⟩
    · exact h.containers key cont hold
  dataServerRegions := h.dataServerRegions
  transferCheckpoint := h.transferCheckpoint

theorem CreatedObject.restored (h : CreatedObject layout key m) : m.restored = m := by
  have hsort : sortRegions (m.regions.map StorageEntry.restored) = m.regions := by
    simp [h.regions, sortRegions]
  rw [Metadata.restored, hsort]
  cases m
  cases h.mark
  rfl

theorem CreatedObject.storable (h : CreatedObject layout key m) : m.Storable layout where
  fits := h.fits
  kvtags_lt := by simp [h.kvtags]
  kvtags tag htag := by simp [h.kvtags] at htag
  regions_lt := by simp [h.regions]
  regions e he := by simp [h.regions] at he
  hists e he := by simp [h.regions] at he

theorem CreatedContainer.forget (h : CreatedContainer layout key cont) :
    cont.forget = cont := by
  cases cont
  cases h.objIds
  cases h.kvtags
  rfl

theorem CreatedEntry.map_restored (h : CreatedEntry layout key entry) :
    entry.metadata.map Metadata.restored = entry.metadata :=
  (map_congr_left fun m hm => (h.objects m hm).restored).trans (map_id _)

theorem length_metadata_le {s : ObjectServer B} {pair : Σ _ : UInt32, HashEntry B}
    (h : pair ∈ s.table.entries) : pair.2.metadata.length ≤ s.ids.length := by
  have hmem : pair.2.metadata.map Metadata.objId ∈
      s.table.entries.map fun pair => pair.2.metadata.map Metadata.objId :=
    mem_map.mpr ⟨pair, h, rfl⟩
  have hsub : (pair.2.metadata.map Metadata.objId).Sublist s.ids :=
    (sublist_flatten_of_mem hmem).trans (sublist_append_left _ _)
  rw [← length_map Metadata.objId]
  exact hsub.length_le

theorem length_containers_le (s : ObjectServer B) : s.containers.entries.length ≤ s.ids.length := by
  rw [ObjectServer.ids, allValues, allValues]
  simp

theorem CreatedState.length_entries_le (h : CreatedState layout st) :
    st.server.table.entries.length ≤ st.server.ids.length := by
  rw [ObjectServer.ids, length_append, allValues, length_flatMap]
  refine le_trans ?_ (Nat.le_add_right _ _)
  refine le_trans (le_of_eq (length_map _).symm) (length_le_sum_of_one_le _ ?_)
  intro len hlen
  obtain ⟨pair, hpair, rfl⟩ := mem_map.mp hlen
  rw [length_map]
  exact length_pos_iff.mpr (h.objects pair.1 pair.2 (AList.mem_lookup_iff.mpr hpair)).2

theorem CreatedState.storable (h : CreatedState layout st) (hlt : st.server.ids.length < 2 ^ 31) :
    st.Storable layout where
  containers_lt := (length_containers_le st.server).trans_lt hlt
  containers pair hpair := (h.containers pair.1 pair.2 (AList.mem_lookup_iff.mpr hpair)).fits
  contKeys pair hpair := (h.containers pair.1 pair.2 (AList.mem_lookup_iff.mpr hpair)).hash
  entries_lt := h.length_entries_le.trans_lt hlt
  entries pair hpair := by
    obtain ⟨hentry, hne⟩ := h.objects pair.1 pair.2 (AList.mem_lookup_iff.mpr hpair)
    exact ⟨hentry.nObj, hne, (length_metadata_le hpair).trans_lt hlt,
      fun m hm => (hentry.objects m hm).storable⟩
  keys pair hpair := by
    obtain ⟨hentry, hne⟩ := h.objects pair.1 pair.2 (AList.mem_lookup_iff.mpr hpair)
    obtain ⟨m, ms, hlist⟩ := exists_cons_of_ne_nil hne
    rw [HashEntry.firstName, hlist]
    exact (hentry.objects m (by simp [hlist])).hash
  dataServerRegions_lt := by simp [h.dataServerRegions]
  dataServerRegions r hr := by simp [h.dataServerRegions] at hr
  transferCheckpoint_lt := by simp [h.transferCheckpoint]

theorem CreatedState.restored (h : CreatedState layout st) (hlt : st.server.ids.length < 2 ^ 31)
    (idSeq : UInt64) : CreatedState layout (st.restored ops idSeq) where
  objects key entry hentry := by
    rw [lookup_restored (h.storable hlt), Option.map_eq_some_iff] at hentry
    obtain ⟨old, hold, rfl⟩ := hentry
    obtain ⟨hentry, hne⟩ := h.objects key old hold
    rw [hentry.map_restored]
    refine ⟨CreatedEntry.empty.foldl_insert hentry.objects, ?_⟩
    rw [metadata_foldl_insert]
    exact hne
  containers key cont hcont := by
    rw [lookup_restored_container (h.storable hlt), Option.map_eq_some_iff] at hcont
    obtain ⟨old, hold, rfl⟩ := hcont
    have hcont := h.containers key old hold
    rw [hcont.forget]
    exact hcont
  dataServerRegions := h.dataServerRegions
  transferCheckpoint := h.transferCheckpoint

theorem ids_restored (h : st.Storable layout) (idSeq : UInt64) :
    (st.restored ops idSeq).server.ids.Perm st.server.ids := by
  have hobjects := allValues_perm_of_map
    (fun entry : HashEntry B => entry.metadata.map Metadata.objId) _ (lookup_restored h ops idSeq)
  have hconts := allValues_perm_of_map (fun cont : Container => [cont.contId]) _
    (lookup_restored_container h ops idSeq)
  refine List.Perm.append (hobjects.trans (List.Perm.of_eq ?_)) hconts
  refine congrArg (allValues · st.server.table) (funext fun entry => ?_)
  rw [metadata_foldl_insert, nil_append, map_map]
  rfl

end Tables

/-! ## Numbers -/

def idNumber (rank j : Nat) : UInt64 := UInt64.ofNat (serverIdIntervel * (rank + 1) + j)

def idNumbers (rank m : Nat) : List UInt64 := (List.range m).map (idNumber rank)

section Numbers

variable {rank j m : Nat}

theorem serverIdIntervel_lt : serverIdIntervel < 2 ^ 31 := by decide

theorem toNat_idNumber (hrank : rank < 2 ^ 31) (hj : j ≤ serverIdIntervel) :
    (idNumber rank j).toNat = serverIdIntervel * (rank + 1) + j := by
  rw [idNumber, toNat_ofNat']
  refine Nat.mod_eq_of_lt ?_
  simp only [serverIdIntervel] at *
  omega

theorem idNumber_succ : idNumber rank j + 1 = idNumber rank (j + 1) := by
  exact (ofNat_add _ 1).symm

theorem idNumbers_succ (m : Nat) :
    (idNumbers rank (m + 1)).Perm (idNumber rank m :: idNumbers rank m) := by
  rw [idNumbers, range_succ, map_append]
  exact perm_append_comm

theorem length_idNumbers (m : Nat) : (idNumbers rank m).length = m := by
  rw [idNumbers, length_map, length_range]

theorem mem_idNumbers {id : UInt64} :
    id ∈ idNumbers rank m ↔ ∃ j < m, idNumber rank j = id := by
  simp [idNumbers]

theorem nodup_idNumbers (hrank : rank < 2 ^ 31) (hm : m ≤ serverIdIntervel) :
    (idNumbers rank m).Nodup := by
  refine List.Nodup.map_on ?_ nodup_range
  intro a ha b hb heq
  rw [mem_range] at ha hb
  have hnat := congrArg toNat heq
  rw [toNat_idNumber hrank (by omega), toNat_idNumber hrank (by omega)] at hnat
  omega

theorem forall_idNumbers_lt_iff (hrank : rank < 2 ^ 31) {c : Nat} (hm : m ≤ serverIdIntervel)
    (hc : c ≤ m) : (∀ id ∈ idNumbers rank m, id < idNumber rank c) ↔ c = m := by
  constructor
  · intro h
    by_contra hne
    exact absurd (h _ (mem_idNumbers.mpr ⟨c, by omega, rfl⟩)) (UInt64.lt_irrefl _)
  · rintro rfl id hid
    obtain ⟨j, hj, rfl⟩ := mem_idNumbers.mp hid
    rw [UInt64.lt_iff_toNat_lt, toNat_idNumber hrank (by omega), toNat_idNumber hrank hm]
    omega

end Numbers

/-! ## The invariant -/

/-- What is known of a server that has given away at most `k` ids. -/
structure NumberedServer (layout : StructLayout) (rank k : Nat) (s : SavingServer B) : Prop where
  created : CreatedState layout s.state
  ids : ∃ m c, c ≤ m ∧ m ≤ k ∧ s.state.server.ids.Perm (idNumbers rank m) ∧
    s.state.server.idSeq = idNumber rank c
  file : ∀ bytes, s.file = some bytes → ∃ st : CheckpointState B,
    bytes = checkpoint layout st ∧ CreatedState layout st ∧
      ∃ m ≤ k, st.server.ids.Perm (idNumbers rank m)

section Invariant

variable {layout : StructLayout} {ops : BloomOps B} {rank k : Nat} {s : SavingServer B}

theorem NumberedServer.started (rank k : Nat) :
    NumberedServer (B := B) layout rank k { state := .started rank } where
  created := CreatedState.started rank
  ids := ⟨0, 0, Nat.le_refl 0, Nat.zero_le k, List.Perm.refl [], rfl⟩
  file bytes hbytes := by cases hbytes

section

variable (h : NumberedServer layout rank k s)
include h

theorem NumberedServer.mono {k' : Nat} (hk : k ≤ k') : NumberedServer layout rank k' s where
  created := h.created
  ids := by
    obtain ⟨m, c, hc, hm, hrest⟩ := h.ids
    exact ⟨m, c, hc, hm.trans hk, hrest⟩
  file bytes hbytes := by
    obtain ⟨st, heq, hcreated, m, hm, hperm⟩ := h.file bytes hbytes
    exact ⟨st, heq, hcreated, m, hm.trans hk, hperm⟩

section

variable (hrank : rank < 2 ^ 31) (hk : k ≤ serverIdIntervel)
include hrank hk

theorem NumberedServer.counter (habove : ∀ id ∈ s.state.server.ids, id < s.state.server.idSeq) :
    ∃ m ≤ k, s.state.server.ids.Perm (idNumbers rank m) ∧
      s.state.server.idSeq = idNumber rank m := by
  obtain ⟨m, c, hc, hm, hperm, hseq⟩ := h.ids
  rw [hseq] at habove
  have heq : c = m := (forall_idNumbers_lt_iff hrank (hm.trans hk) hc).mp
    fun id hid => habove id (hperm.mem_iff.mpr hid)
  exact ⟨m, hm, hperm, heq ▸ hseq⟩

theorem NumberedServer.lt_of_notMem (hnot : s.state.server.idSeq ∉ s.state.server.ids) :
    ∀ id ∈ s.state.server.ids, id < s.state.server.idSeq := by
  obtain ⟨m, c, hc, hm, hperm, hseq⟩ := h.ids
  rw [hseq] at hnot ⊢
  have heq : c = m := by
    by_contra hne
    exact hnot (hperm.mem_iff.mpr (mem_idNumbers.mpr ⟨c, by omega, rfl⟩))
  intro id hid
  exact (forall_idNumbers_lt_iff hrank (hm.trans hk) hc).mpr heq id (hperm.mem_iff.mp hid)

theorem NumberedServer.create (habove : ∀ id ∈ s.state.server.ids, id < s.state.server.idSeq)
    {server : ObjectServer B} (hcreated : CreatedState layout { s.state with server })
    (hids : server.ids.Perm (s.state.server.idSeq :: s.state.server.ids))
    (hseq : server.idSeq = s.state.server.idSeq + 1) :
    NumberedServer layout rank (k + 1) { s with state.server := server } where
  created := hcreated
  ids := by
    obtain ⟨m, hm, hperm, hcounter⟩ := h.counter hrank hk habove
    refine ⟨m + 1, m + 1, Nat.le_refl _, Nat.succ_le_succ hm, ?_, ?_⟩
    · refine hids.trans ?_
      rw [hcounter]
      exact (hperm.cons _).trans (idNumbers_succ m).symm
    · exact hseq.trans (by rw [hcounter, idNumber_succ])
  file := (h.mono (Nat.le_succ k)).file

end

theorem NumberedServer.checkpoint :
    NumberedServer layout rank k { s with file := some (Pdc.checkpoint layout s.state) } where
  created := h.created
  ids := h.ids
  file bytes hbytes := by
    obtain ⟨m, c, -, hm, hperm, -⟩ := h.ids
    exact ⟨s.state, (Option.some.inj hbytes).symm, h.created, m, hm, hperm⟩

end

theorem state_restart_of_none (h : s.file = none) :
    (savingStep layout ops rank s .restart).state = .started rank := by
  simp only [savingStep, h, Option.bind_none, Option.map_none, Option.getD_none]

theorem state_restart_of_some {bytes rest : Bytes} {st : CheckpointState B}
    (h : s.file = some bytes)
    (hread : Pdc.restart layout ops (initialIdSeq rank) bytes = some (st, rest)) :
    (savingStep layout ops rank s .restart).state = st := by
  simp only [savingStep, h, Option.bind_some, hread, Option.map_some, Option.getD_some]

theorem NumberedServer.state_restart (h : NumberedServer layout rank k s)
    (hk : k ≤ serverIdIntervel) (ops : BloomOps B) :
    (savingStep layout ops rank s .restart).state = .started rank ∨
      ∃ st : CheckpointState B, CreatedState layout st ∧ st.server.ids.length < 2 ^ 31 ∧
        (∃ m ≤ k, st.server.ids.Perm (idNumbers rank m)) ∧
        (savingStep layout ops rank s .restart).state = st.restored ops (initialIdSeq rank) := by
  cases hfile : s.file with
  | none => exact .inl (state_restart_of_none hfile)
  | some bytes =>
    right
    obtain ⟨st, rfl, hcreated, m, hm, hperm⟩ := h.file bytes hfile
    have hlt : st.server.ids.length < 2 ^ 31 := by
      rw [hperm.length_eq, length_idNumbers]
      exact (hm.trans hk).trans_lt serverIdIntervel_lt
    exact ⟨st, hcreated, hlt, ⟨m, hm, hperm⟩, state_restart_of_some hfile
      (reads_checkpoint (hcreated.storable hlt) ops (initialIdSeq rank)).run_eq⟩

theorem NumberedServer.restart (h : NumberedServer layout rank k s) (hk : k ≤ serverIdIntervel) :
    NumberedServer layout rank k (savingStep layout ops rank s .restart) where
  created := by
    rcases h.state_restart hk ops with hstate | ⟨st, hcreated, hlt, -, hstate⟩
    · rw [hstate]
      exact CreatedState.started rank
    · rw [hstate]
      exact hcreated.restored hlt _
  ids := by
    rcases h.state_restart hk ops with hstate | ⟨st, hcreated, hlt, ⟨m, hm, hperm⟩, hstate⟩
    · rw [hstate]
      exact ⟨0, 0, Nat.le_refl 0, Nat.zero_le k, List.Perm.refl [], rfl⟩
    · rw [hstate]
      exact ⟨m, 0, Nat.zero_le m, hm, (ids_restored (hcreated.storable hlt) _).trans hperm, rfl⟩
  file := h.file

/-! ## Steps -/

theorem ids_savingStep_of_new (hvalid : ev.Valid layout)
    (hnew : ev.isNew ops s.state.server = true) :
    (savingStep layout ops rank s ev).state.server.ids.Perm
      (s.state.server.idSeq :: s.state.server.ids) := by
  cases ev with
  | createObject req =>
    show (insertMetadataToHashTable ops s.state.server req).1.ids.Perm _
    rw [insertMetadata_of_new hnew]
    exact ids_insert_object
  | createContainer contName =>
    simp only [savingStep, createContainer_of_new hvalid.1 hnew]
    exact ids_insert_container (Option.isNone_iff_eq_none.mp hnew)
  | checkpoint => cases hnew
  | restart => cases hnew

theorem NumberedServer.step_of_new (h : NumberedServer layout rank k s) (hrank : rank < 2 ^ 31)
    (hk : k ≤ serverIdIntervel) (hvalid : ev.Valid layout)
    (hnew : ev.isNew ops s.state.server = true)
    (habove : ∀ id ∈ s.state.server.ids, id < s.state.server.idSeq) :
    NumberedServer layout rank (k + 1) (savingStep layout ops rank s ev) := by
  have hids : (savingStep layout ops rank s ev).state.server.ids.Perm
      (s.state.server.idSeq :: s.state.server.ids) := ids_savingStep_of_new hvalid hnew
  cases ev with
  | createObject req =>
    refine h.create hrank hk habove (h.created.createObject hvalid hnew) hids ?_
    rw [insertMetadata_of_new hnew]
  | createContainer contName =>
    simp only [savingStep, createContainer_of_new hvalid.1 hnew] at hids ⊢
    exact h.create hrank hk habove (h.created.createContainer (hvalid.2 _)) hids rfl
  | checkpoint => cases hnew
  | restart => cases hnew

theorem NumberedServer.step_of_not_new (h : NumberedServer layout rank k s)
    (hk : k ≤ serverIdIntervel) (hnew : ev.isNew ops s.state.server = false) :
    NumberedServer layout rank k (savingStep layout ops rank s ev) := by
  cases ev with
  | createObject req =>
    rw [savingStep, insertMetadata_of_not_new hnew]
    exact h
  | createContainer contName =>
    obtain ⟨contId, hcont⟩ := createContainer_of_not_new hnew
    rw [savingStep, hcont]
    exact h
  | checkpoint => exact h.checkpoint
  | restart => exact h.restart hk

end Invariant

/-! ## Several servers -/

section Servers

variable {layout : StructLayout} {ops : BloomOps B} {n : Nat} {w : Fin n → SavingServer B}
  {ev : Fin n × ServerEvent} {k : Fin n → Nat}

theorem idsCreated_append (i : Fin n) (events events' : List (Fin n × ServerEvent)) :
    idsCreated layout ops i w (events ++ events') = idsCreated layout ops i w events +
        idsCreated layout ops i (run (serversStep layout ops) w events) events' := by
  induction events generalizing w with
  | nil => simp [idsCreated]
  | cons ev events ih =>
    rw [cons_append, idsCreated, idsCreated, ih, run_cons, Nat.add_assoc]

theorem idsCreated_le_of_isPrefix (i : Fin n) {pre events : List (Fin n × ServerEvent)}
    (h : pre <+: events) : idsCreated layout ops i w pre ≤ idsCreated layout ops i w events := by
  obtain ⟨post, rfl⟩ := h
  rw [idsCreated_append]
  exact Nat.le_add_right _ _

theorem idsUnique_of_numbered (hn : n < 2 ^ 31)
    (hk : ∀ i, k i ≤ serverIdIntervel) (h : ∀ i : Fin n, NumberedServer layout i (k i) (w i)) :
    IdsUnique w := by
  have hrank : ∀ i : Fin n, i.val < 2 ^ 31 := fun i => i.isLt.trans hn
  have hmem : ∀ i : Fin n, ∀ id ∈ (w i).state.server.ids,
      ∃ j < serverIdIntervel, id.toNat = serverIdIntervel * (i + 1) + j := by
    intro i id hid
    obtain ⟨m, c, -, hm, hperm, -⟩ := (h i).ids
    obtain ⟨j, hj, rfl⟩ := mem_idNumbers.mp (hperm.mem_iff.mp hid)
    have hlt : j < serverIdIntervel := hj.trans_le (hm.trans (hk i))
    exact ⟨j, hlt, toNat_idNumber (hrank i) hlt.le⟩
  rw [IdsUnique, nodup_flatMap]
  constructor
  · intro i _
    obtain ⟨m, c, -, hm, hperm, -⟩ := (h i).ids
    exact hperm.nodup_iff.mpr (nodup_idNumbers (hrank i) (hm.trans (hk i)))
  · refine (nodup_finRange n).imp fun {i i'} hne id hid hid' => hne ?_
    -- an id tells in whose interval it is
    obtain ⟨j, hj, heq⟩ := hmem i id hid
    obtain ⟨j', hj', heq'⟩ := hmem i' id hid'
    refine Fin.ext ?_
    simp only [serverIdIntervel] at *
    omega

theorem counterAbove_of_idsUnique {k : Nat} (hn : n < 2 ^ 31)
    (hk : k ≤ serverIdIntervel) (h : NumberedServer layout ev.1 k (w ev.1))
    (hvalid : ev.2.Valid layout) (hunique : IdsUnique (serversStep layout ops w ev)) :
    CounterAbove ops w ev := by
  intro hnew
  refine h.lt_of_notMem (ev.1.isLt.trans hn) hk ?_
  have hnodup := (nodup_flatMap.mp hunique).1 ev.1 (mem_finRange ev.1)
  rw [serversStep, Function.update_self,
    (ids_savingStep_of_new hvalid hnew).nodup_iff, nodup_cons] at hnodup
  exact hnodup.1

theorem numbered_serversStep (hn : n < 2 ^ 31)
    (hk : ∀ i, k i ≤ serverIdIntervel) (h : ∀ i : Fin n, NumberedServer layout i (k i) (w i))
    (hvalid : ev.2.Valid layout) (habove : CounterAbove ops w ev) (i : Fin n) :
    NumberedServer layout i (k i + idsCreated layout ops i w [ev])
      (serversStep layout ops w ev i) := by
  by_cases heq : ev.1 = i
  · subst heq
    rw [serversStep]
    cases hnew : ev.2.isNew ops (w ev.1).state.server with
    | true =>
      have hstep := (h ev.1).step_of_new (ev.1.isLt.trans hn) (hk ev.1) hvalid hnew (habove hnew)
      simpa [idsCreated, hnew] using hstep
    | false =>
      have hstep := (h ev.1).step_of_not_new (hk ev.1) hnew
      simpa [idsCreated, hnew] using hstep
  · rw [serversStep, Function.update_of_ne (Ne.symm heq)]
    exact (h i).mono (Nat.le_add_right _ _)

end Servers

/-- At every moment of a run of servers that were started without checkpoints, the ids are
different. -/
def IdsAlwaysUnique (layout : StructLayout) (ops : BloomOps B) (n : Nat)
    (events : List (Fin n × ServerEvent)) : Prop :=
  ∀ pre, pre <+: events → IdsUnique (run (serversStep layout ops) (startedServers n) pre)

/-- Whatever number of servers are started and whatever they create, save and restore: at
every moment all ids on them are different, just if the counter of a server is above all
ids it has whenever it makes a new one. -/
theorem idsUnique_iff_counterAbove (layout : StructLayout) (ops : BloomOps B) (n : Nat)
    (hn : n < 2 ^ 31) (events : List (Fin n × ServerEvent))
    (hvalid : ∀ ev ∈ events, ev.2.Valid layout)
    (hfew : ∀ i, idsCreated layout ops i (startedServers n) events < serverIdIntervel) :
    IdsAlwaysUnique layout ops n events ↔
      Along (serversStep layout ops) (CounterAbove ops) (startedServers n) events := by
  have hcount : ∀ pre, pre <+: events → ∀ i : Fin n,
      idsCreated layout ops i (startedServers n) pre ≤ serverIdIntervel :=
    fun pre hpre i => (idsCreated_le_of_isPrefix i hpre).trans (hfew i).le
  refine Along.forall_isPrefix_iff_of_invariant (I := fun pre w => ∀ i : Fin n,
      NumberedServer layout i (idsCreated layout ops i (startedServers n) pre) (w i)) ?_ ?_ ?_
  · exact fun i => NumberedServer.started i _
  · exact fun pre hpre hnumbered => idsUnique_of_numbered hn (hcount pre hpre) hnumbered
  · intro pre ev post heq hnumbered
    have hpre : pre <+: events := ⟨ev :: post, heq.symm⟩
    have hev : ev.2.Valid layout := hvalid ev (by simp [heq])
    refine ⟨counterAbove_of_idsUnique hn (hcount pre hpre ev.1) (hnumbered ev.1) hev, ?_⟩
    intro habove i
    rw [idsCreated_append]
    exact numbered_serversStep hn (hcount pre hpre) hnumbered hev habove i

def letterImage : StructImage Container fun cont cont' => cont' = cont.forget where
  size := 9
  Fits cont := ∃ contId c, cont = { contId := contId, contName := [c] }
  image cont := cont.contName ++ u64Bytes cont.contId
  ofImage bs :=
    { contId := ((readU64 (bs.drop 1)).map Prod.fst).getD 0, contName := bs.take 1 }
  length_image := by
    rintro _ ⟨contId, c, rfl⟩
    simp
  kept := by
    rintro _ ⟨contId, c, rfl⟩
    have hread := (Reads.u64 contId).run_eq
    simp [hread, Container.forget, Pointer.forget]

def letterLayout : StructLayout := { savedLayout with container := letterImage }

theorem valid_letter (c : UInt8) : (ServerEvent.createContainer [c]).Valid letterLayout :=
  ⟨by simp [addrMax], fun contId => ⟨contId, c, rfl⟩⟩

/-- Two servers make a container each, and the first one makes another one and is
restarted. -/
def restartAfter : List (Fin 2 × ServerEvent) :=
  [(⟨0, Nat.two_pos⟩, .createContainer [97]), (⟨1, Nat.one_lt_two⟩, .createContainer [98]),
    (⟨0, Nat.two_pos⟩, .createContainer [99]), (⟨0, Nat.two_pos⟩, .checkpoint),
    (⟨0, Nat.two_pos⟩, .restart)]

theorem valid_restartAfter : ∀ ev ∈ restartAfter, ev.2.Valid letterLayout := by
  simp only [restartAfter, forall_mem_cons]
  exact ⟨valid_letter 97, valid_letter 98, valid_letter 99, trivial, trivial, by simp⟩

theorem idsAlwaysUnique_restartAfter : IdsAlwaysUnique letterLayout exactBloom 2 restartAfter := by
  refine (idsUnique_iff_counterAbove letterLayout exactBloom 2 (by simp) restartAfter
    valid_restartAfter ?_).mpr ?_
  · decide +kernel
  · -- only the first server has an id before it makes a container, its second one
    exact ⟨fun _ _ hid => absurd hid not_mem_nil, fun _ _ hid => absurd hid not_mem_nil,
      fun _ id hid => of_decide_eq_true
        (all_eq_true.mp (by decide +kernel : all _ (fun id => decide (id < _)) = true) id hid),
      fun hnew => absurd hnew Bool.false_ne_true, fun hnew => absurd hnew Bool.false_ne_true,
      trivial⟩

/-- One server makes a container, is restarted, and makes another one. -/
def createAfterRestart : List (Fin 1 × ServerEvent) :=
  [.createContainer [97], .checkpoint, .restart, .createContainer [98]].map fun ev =>
    (⟨0, Nat.one_pos⟩, ev)

theorem not_idsAlwaysUnique_createAfterRestart :
    ¬IdsAlwaysUnique letterLayout exactBloom 1 createAfterRestart := by
  intro h
  have hunique := h createAfterRestart (prefix_refl _)
  rw [IdsUnique] at hunique
  revert hunique
  decide +kernel

end Pdc
