import Pdc.Proofs.DataIo

/-!
# Batches of reads and writes

The clients of a node send their requests in batches, all of them writes or all
of them reads. A batch is complete when there are as many requests as the
clients have announced; its last request starts the work.

After a batch of writes the storage has the data asked for last under each key,
`lastWritten`. A batch of reads exposes it, as long as what has been read once is
not written again: a read that has been made keeps its buffer, and when it is
made anew it goes to the place it was found at before, because only reads from
the first new one on are looked up. Besides, everything that is read has to have
been written, or the whole list fails, and the look-up has room for 32 reads of
an object.
-/

namespace Pdc

open List Lib

variable {info : IoInfo} {lists lists' : List IoList} {fs : FileServer} {access : Access}
  {b : List IoInfo} {n : Nat}

/-! ## Batches -/

/-- What a request asks to be written. -/
def IoInfo.puts (info : IoInfo) : List (MapOp IoKey Bytes) :=
  if info.ioType = .write then [.put info.key info.shm] else []

noncomputable def lastWritten (bs : List (List IoInfo)) : Written :=
  mapAfter (bs.flatten.flatMap IoInfo.puts)

/-- A request for a region of an object the server knows. -/
structure IoInfo.Valid (lists : StorageLists) (info : IoInfo) : Prop where
  known : (lists info.objId).isSome
  box : info.region.info.Box
  length : info.ioType = .write → info.shm.length = (getRegionSize info.region.info).toNat

/-- Requests of one kind, as many as each of them announces. -/
structure CompleteBatch (access : Access) (b : List IoInfo) : Prop where
  ne_nil : b ≠ []
  ioType : ∀ info ∈ b, info.ioType = access
  count : ∀ info ∈ b, info.nbufferRequest * info.nclient = b.length

/-- A batch is handled. There is no state afterwards if the source leaves it undefined. -/
def batchStep (cfg : IoConfig) (s : Option IoServer) (b : List IoInfo) : Option IoServer :=
  s.bind fun s => b.foldlM (dataIoViaShm cfg) s

/-! ## Counting -/

section Counting

variable (cfg : IoConfig) {q : IoQueue} {b : List IoInfo}

theorem run_receive_num : (run (IoQueue.receive cfg) q b).num = q.num + b.length := by
  induction b generalizing q with
  | nil => rfl
  | cons info b ih =>
    rw [run_cons, ih, length_cons]
    show q.num + 1 + b.length = _
    omega

theorem run_receive_total (hq : q.total = 0 ∨ q.total = n)
    (hcount : ∀ info ∈ b, info.nbufferRequest * info.nclient = n) (hb : b ≠ []) :
    (run (IoQueue.receive cfg) q b).total = n := by
  induction b generalizing q with
  | nil => exact absurd rfl hb
  | cons info b ih =>
    rw [forall_mem_cons] at hcount
    have htotal : (q.receive cfg info).total = n := by
      show (if q.total = 0 then info.nbufferRequest * info.nclient else q.total) = n
      split
      · exact hcount.1
      · next hne => exact hq.resolve_left hne
    cases b with
    | nil => exact htotal
    | cons info' b => exact ih (.inr htotal) hcount.2 (cons_ne_nil info' b)

theorem gathered (hq : q.total = 0 ∧ q.num = 0) (hb : CompleteBatch access b)
    {pre : List IoInfo} (hpre : pre <+: b) (hne : pre ≠ []) :
    (run (IoQueue.receive cfg) q pre).num = pre.length ∧
      (run (IoQueue.receive cfg) q pre).total = b.length ∧ b.length ≠ 0 := by
  have hlen : b.length ≠ 0 := fun hzero => hb.ne_nil (length_eq_zero_iff.mp hzero)
  refine ⟨?_, ?_, hlen⟩
  · rw [run_receive_num, hq.2, Nat.zero_add]
  · exact run_receive_total cfg (.inl hq.1)
      (fun info hinfo => hb.count info (hpre.subset hinfo)) hne

end Counting

section Gathering

variable (cfg : IoConfig) {s : IoServer} {b : List IoInfo}

def IoServer.queue (s : IoServer) : Access → IoQueue
  | .read => s.reads
  | .write => s.writes
  | .na => {}

def IoServer.receive (s : IoServer) (info : IoInfo) : IoServer :=
  match info.ioType with
  | .read => { s with reads := s.reads.receive cfg info }
  | .write => { s with writes := s.writes.receive cfg info }
  | .na => s

def IoServer.Enough (access : Access) (s : IoServer) : Prop :=
  match access with
  | .read => s.reads.num = s.reads.total ∧ s.reads.total ≠ 0
  | .write => s.writes.total ≤ s.writes.num ∧ s.writes.total ≠ 0
  | .na => False

def IoServer.start (s : IoServer) (info : IoInfo) : Option IoServer :=
  match info.ioType with
  | .read => s.startReading info.cachePercentage
  | .write => s.startWriting cfg
  | .na => some s

theorem dataIoViaShm_of_enough (h : (s.receive cfg info).Enough info.ioType) :
    dataIoViaShm cfg s info = (s.receive cfg info).start cfg info := by
  unfold IoServer.receive IoServer.start dataIoViaShm at *
  cases hio : info.ioType with
  | na => rfl
  | read =>
    rw [hio] at h
    exact if_pos h
  | write =>
    rw [hio] at h
    exact if_pos h

theorem dataIoViaShm_of_not_enough (h : ¬(s.receive cfg info).Enough info.ioType) :
    dataIoViaShm cfg s info = some (s.receive cfg info) := by
  unfold IoServer.receive dataIoViaShm at *
  cases hio : info.ioType with
  | na => rfl
  | read =>
    rw [hio] at h
    exact if_neg h
  | write =>
    rw [hio] at h
    exact if_neg h

def IoServer.withQueue (s : IoServer) (q : IoQueue) : Access → IoServer
  | .read => { s with reads := q }
  | .write => { s with writes := q }
  | .na => s

theorem run_receive (h : ∀ info ∈ b, info.ioType = access) :
    run (IoServer.receive cfg) s b =
      s.withQueue (run (IoQueue.receive cfg) (s.queue access) b) access := by
  induction b generalizing s with
  | nil => cases access <;> rfl
  | cons info b ih =>
    rw [forall_mem_cons] at h
    rw [run_cons, ih h.2, IoServer.receive, h.1]
    cases access <;> rfl

theorem foldlM_batch {as : List IoInfo} {a : IoInfo}
    (hb : CompleteBatch access (as ++ [a])) (haccess : access = .read ∨ access = .write)
    (hq : (s.queue access).total = 0 ∧ (s.queue access).num = 0) :
    (as ++ [a]).foldlM (dataIoViaShm cfg) s =
      (run (IoServer.receive cfg) s (as ++ [a])).start cfg a := by
  have henough : ∀ pre, pre <+: as ++ [a] → pre ≠ [] →
      ((run (IoServer.receive cfg) s pre).Enough access ↔ pre.length = (as ++ [a]).length) := by
    intro pre hpre hne
    obtain ⟨hnum, htotal, hlen⟩ := gathered cfg hq hb hpre hne
    have hle := hpre.length_le
    have htypes := fun info hinfo => hb.ioType info (hpre.subset hinfo)
    rw [run_receive cfg htypes]
    rcases haccess with rfl | rfl
    · simp only [IoServer.Enough, IoServer.withQueue, hnum, htotal]
      omega
    · simp only [IoServer.Enough, IoServer.withQueue, hnum, htotal]
      omega
  refine foldlM_gather (IoServer.receive cfg) (IoServer.Enough access)
    (fun s info => s.start cfg info) (fun info hinfo s hnot => ?_) (fun s hgo => ?_)
    (fun pre hpre hne hgo => ?_) ?_
  · refine dataIoViaShm_of_not_enough cfg ?_
    rw [hb.ioType info (mem_append_left [a] hinfo)]
    exact hnot
  · refine dataIoViaShm_of_enough cfg ?_
    rw [hb.ioType a (mem_append_right as mem_cons_self)]
    exact hgo
  · have hlen := (henough pre (hpre.trans (prefix_append as [a])) hne).mp hgo
    have hle := hpre.length_le
    rw [length_append, length_singleton] at hlen
    omega
  · exact (henough (as ++ [a]) (prefix_refl _) hb.ne_nil).mpr rfl

end Gathering

/-! ## A batch of writes -/

/-- The writes that are waiting. Where there is none the storage has what was asked for. -/
structure WriteQueue (s : FileServer) (T W : Written) (lists : List IoList) : Prop where
  wf : ListsWF lists
  elts : ∀ elt ∈ eltsOf lists, WriteElt s.lists T elt
  settled : ∀ k, W k = T k ∨ ∃ elt ∈ eltsOf lists, elt.isIoDone = false ∧ elt.key = k

section Writes

variable (cfg : IoConfig) {s : FileServer} {T W : Written} {q : IoQueue}

theorem writeElt_request (hwrite : info.ioType = .write) (hinfo : info.Valid s.lists)
    (hT : T info.key = some info.shm) : WriteElt s.lists T info.request where
  access := hwrite
  known := fun _ => hinfo.known
  asked := fun _ => by
    rw [request_key]
    exact hT
  dataSize := fun _ => rfl
  size := fun _ => by
    rw [request_region]
    exact hinfo.box.size
  length := fun _ => by
    rw [request_region]
    exact hinfo.length hwrite

theorem WriteQueue.receive (h : WriteQueue s T W q.lists) (hwrite : info.ioType = .write)
    (hinfo : info.Valid s.lists) :
    WriteQueue s (mapStep T (.put info.key info.shm)) W (q.receive cfg info).lists := by
  have hread : info.ioType ≠ .read := by
    rw [hwrite]
    exact fun heq => nomatch heq
  have hmem : ∀ elt, elt ∈ eltsOf (q.receive cfg info).lists ↔
      elt = info.request ∨ (elt ∈ eltsOf q.lists ∧ elt.key ≠ info.key) :=
    fun elt => mem_receive_write cfg h.wf hread
  refine ⟨listsWF_receive cfg h.wf info, fun elt helt => ?_, fun k => ?_⟩
  · rcases (hmem elt).mp helt with rfl | ⟨hold, hne⟩
    · exact writeElt_request hwrite hinfo (mapStep_put_self _ _ _)
    · refine { h.elts elt hold with asked := fun hdone => ?_ }
      rw [mapStep_put_of_ne T info.shm hne.symm]
      exact (h.elts elt hold).asked hdone
  · by_cases hk : info.key = k
    · exact .inr ⟨info.request, (hmem _).mpr (.inl rfl), rfl, (request_key info).trans hk⟩
    · rw [mapStep_put_of_ne T info.shm hk]
      refine (h.settled k).imp id fun hwaiting => ?_
      obtain ⟨elt, helt, hdone, hkey⟩ := hwaiting
      exact ⟨elt, (hmem elt).mpr (.inr ⟨helt, fun heq => hk (heq.symm.trans hkey)⟩), hdone, hkey⟩

theorem flatMap_puts_cons (hwrite : info.ioType = .write) (b : List IoInfo) :
    (info :: b).flatMap IoInfo.puts = .put info.key info.shm :: b.flatMap IoInfo.puts := by
  rw [flatMap_cons, IoInfo.puts, if_pos hwrite]
  rfl

theorem WriteQueue.run (h : WriteQueue s T W q.lists)
    (hwrite : ∀ info ∈ b, info.ioType = .write) (hvalid : ∀ info ∈ b, info.Valid s.lists) :
    WriteQueue s ((b.flatMap IoInfo.puts).foldl mapStep T) W
      (Lib.run (IoQueue.receive cfg) q b).lists := by
  induction b generalizing q T with
  | nil => exact h
  | cons info b ih =>
    rw [forall_mem_cons] at hwrite hvalid
    rw [flatMap_puts_cons hwrite.1]
    exact ih (h.receive cfg hwrite.1 hvalid.1) hwrite.2 hvalid.2

/-- The lists after they have been written. -/
structure WritesMade (lists : List IoList) : Prop where
  wf : ListsWF lists
  made : ∀ elt ∈ eltsOf lists, WriteDone elt

theorem ListsWF.of_forall₂ (hwf : ListsWF lists)
    (h : List.Forall₂ (fun list list' => list'.objId = list.objId ∧
      (list.regions ≠ [] → list'.regions ≠ []) ∧
      ∀ elt' ∈ list'.regions, ∃ elt ∈ list.regions, elt'.key = elt.key) lists lists') :
    ListsWF lists' := by
  have hids : lists'.map IoList.objId = lists.map IoList.objId :=
    map_eq_of_forall₂ h fun _ _ hpair => hpair.1
  have hback := forall₂_exists_left h
  refine ⟨hids ▸ hwf.nodup, fun list' hlist' elt' helt' => ?_, fun list' hlist' => ?_⟩
  · obtain ⟨list, hlist, hid, -, hall⟩ := hback list' hlist'
    obtain ⟨elt, helt, hkey⟩ := hall elt' helt'
    have hobj : elt'.objId = elt.objId := congrArg Prod.fst hkey
    rw [hobj, hwf.objId list hlist elt helt, hid]
  · obtain ⟨list, hlist, -, hne, -⟩ := hback list' hlist'
    exact hne (hwf.ne_nil list hlist)

theorem WriteQueue.start {s : IoServer} (h : WriteQueue s.fs T W s.writes.lists)
    (hs : StoresMap s.fs W) :
    ∃ fs lists, s.startWriting cfg = some { s with fs, writes := { lists } } ∧
      StoresMap fs T ∧ Follows s.fs fs ∧ WritesMade lists := by
  obtain ⟨fs, lists, W', hwrite, hW', hadv, hfollows, hall⟩ :=
    writeLists_eq cfg h.wf.ne_nil hs h.elts
  have hT : W' = T := by
    funext k
    rcases hadv k with heq | ⟨heq, hnone⟩
    · exact heq
    · rcases h.settled k with hk | ⟨elt, helt, hdone, hkey⟩
      · exact heq.trans hk
      · exact absurd hkey (hnone elt helt hdone)
  refine ⟨fs, lists, ?_, hT ▸ hW', hfollows, h.wf.of_forall₂ ?_, fun elt' helt' => ?_⟩
  · rw [IoServer.startWriting, hwrite]
    rfl
  · refine hall.imp fun list list' hpair => ⟨hpair.1, fun _ => hpair.2.1, ?_⟩
    exact fun elt' helt' => (hpair.2.2 elt' helt').2
  · obtain ⟨list', hlist', hmem⟩ := mem_eltsOf.mp helt'
    obtain ⟨list, -, -, -, hmade⟩ := forall₂_exists_left hall list' hlist'
    exact (hmade elt' hmem).1

end Writes

/-! ## A batch of reads -/

/-- The reads a server keeps, each region of an object once and all of them written. -/
structure ReadQueue (files : Bytes → Option Bytes) (T : Written) (lists : List IoList) : Prop where
  wf : ListsWF lists
  nodup : ∀ list ∈ lists, (list.regions.map IoRegion.region).Nodup
  elts : ∀ elt ∈ eltsOf lists, ReadElt files T elt
  stored : ∀ elt ∈ eltsOf lists, (T elt.key).isSome

section Reads

variable (cfg : IoConfig) {files : Bytes → Option Bytes} {T : Written} {q : IoQueue}

theorem readElt_request (hread : info.ioType = .read) (hbox : info.region.info.Box) :
    ReadElt files T info.request where
  access := hread
  box := by
    rw [request_region]
    exact hbox
  notClosed := rfl
  notInBB := rfl
  dataSize := .inl rfl
  made := fun hdone => nomatch hdone

theorem nodup_add_read (hread : info.ioType = .read) {list : IoList}
    (h : (list.regions.map IoRegion.region).Nodup) :
    ((list.add info).regions.map IoRegion.region).Nodup := by
  rw [IoList.add, if_pos hread]
  split
  · exact h
  · next hnew =>
    rw [map_append, nodup_append]
    refine ⟨h, nodup_singleton _, fun r hr r' hr' heq => hnew ?_⟩
    obtain ⟨elt, helt, rfl⟩ := mem_map.mp hr
    refine any_eq_true.mpr ⟨elt, helt, isSameRegionList_iff.mpr ?_⟩
    exact ((mem_singleton.mp hr') ▸ heq).symm

theorem ReadQueue.receive (h : ReadQueue files T q.lists) (hread : info.ioType = .read)
    (hbox : info.region.info.Box) (hstored : (T info.key).isSome) :
    ReadQueue files T (q.receive cfg info).lists := by
  have hmem : ∀ elt ∈ eltsOf (q.receive cfg info).lists,
      elt ∈ eltsOf q.lists ∨ elt = info.request :=
    fun elt helt => ((mem_receive_read cfg h.wf hread).mp helt).imp id And.left
  refine ⟨listsWF_receive cfg h.wf info, fun list hlist => ?_, fun elt helt => ?_,
    fun elt helt => ?_⟩
  · obtain ⟨before, old, after, hlists, -, hothers, -, hold, -⟩ := receive_lists cfg h.wf info
    rw [hlists, mem_append, mem_cons, or_left_comm, ← mem_append] at hlist
    rcases hlist with rfl | hother
    · refine nodup_add_read hread ?_
      rcases hold with hmem | hnil
      · exact h.nodup old hmem
      · rw [hnil]
        exact nodup_nil
    · exact h.nodup list (hothers list hother).1
  · rcases hmem elt helt with hold | rfl
    · exact h.elts elt hold
    · exact readElt_request hread hbox
  · rcases hmem elt helt with hold | rfl
    · exact h.stored elt hold
    · rw [request_key]
      exact hstored

theorem ReadQueue.run (h : ReadQueue files T q.lists) (hread : ∀ info ∈ b, info.ioType = .read)
    (hbox : ∀ info ∈ b, info.region.info.Box) (hstored : ∀ info ∈ b, (T info.key).isSome) :
    ReadQueue files T (Lib.run (IoQueue.receive cfg) q b).lists :=
  foldlRecOn (motive := fun q : IoQueue => ReadQueue files T q.lists) b _ h fun _ hq info hinfo =>
    hq.receive cfg (hread info hinfo) (hbox info hinfo) (hstored info hinfo)

theorem key_mem_run_receive (hwf : ListsWF q.lists)
    (hread : ∀ info ∈ b, info.ioType = .read) (k : IoKey) :
    k ∈ (eltsOf (Lib.run (IoQueue.receive cfg) q b).lists).map IoRegion.key ↔
      k ∈ (eltsOf q.lists).map IoRegion.key ∨ k ∈ b.map IoInfo.key := by
  induction b generalizing q with
  | nil => exact (or_iff_left not_mem_nil).symm
  | cons info b ih =>
    rw [forall_mem_cons] at hread
    have hstep : k ∈ (eltsOf (q.receive cfg info).lists).map IoRegion.key ↔
        k ∈ (eltsOf q.lists).map IoRegion.key ∨ k = info.key := by
      simp only [mem_map, mem_receive_read cfg hwf hread.1]
      constructor
      · rintro ⟨elt, hold | ⟨rfl, -⟩, rfl⟩
        · exact .inl ⟨elt, hold, rfl⟩
        · exact .inr (request_key info)
      · rintro (⟨elt, hold, rfl⟩ | rfl)
        · exact ⟨elt, .inl hold, rfl⟩
        · by_cases hany : ∃ e ∈ eltsOf q.lists, e.key = info.key
          · obtain ⟨e, he, hkey⟩ := hany
            exact ⟨e, .inl he, hkey⟩
          · refine ⟨info.request, .inr ⟨rfl, fun e he hkey => hany ⟨e, he, hkey⟩⟩, ?_⟩
            exact request_key info
    rw [run_cons, ih (listsWF_receive cfg hwf info) hread.2, hstep, map_cons, mem_cons, or_assoc]

theorem ReadQueue.of_forall₂ (hq : ReadQueue files T lists)
    (h : List.Forall₂ (fun list list' => list'.objId = list.objId ∧
      list'.regions.map IoRegion.key = list.regions.map IoRegion.key ∧
      ∀ elt' ∈ list'.regions, elt'.isIoDone = true ∧ ReadElt files T elt') lists lists') :
    ReadQueue files T lists' ∧ (∀ elt' ∈ eltsOf lists', elt'.isIoDone = true) ∧
      (eltsOf lists').map IoRegion.key = (eltsOf lists).map IoRegion.key := by
  have hkeys : (eltsOf lists').map IoRegion.key = (eltsOf lists).map IoRegion.key := by
    rw [eltsOf, eltsOf, map_flatMap, map_flatMap, flatMap_def, flatMap_def,
      map_eq_of_forall₂ h fun _ _ hpair => hpair.2.1]
  have hmade : ∀ elt' ∈ eltsOf lists', elt'.isIoDone = true ∧ ReadElt files T elt' := by
    intro elt' helt'
    obtain ⟨list', hlist', hmem⟩ := mem_eltsOf.mp helt'
    obtain ⟨list, -, -, -, hall⟩ := forall₂_exists_left h list' hlist'
    exact hall elt' hmem
  refine ⟨⟨hq.wf.of_forall₂ (h.imp fun list list' hpair => ?_), fun list' hlist' => ?_,
    fun elt' helt' => (hmade elt' helt').2, fun elt' helt' => ?_⟩,
    fun elt' helt' => (hmade elt' helt').1, hkeys⟩
  · obtain ⟨hid, hsame, -⟩ := hpair
    refine ⟨hid, fun hne hnil => ?_, fun elt' helt' => ?_⟩
    · rw [hnil] at hsame
      exact hne (map_eq_nil_iff.mp hsame.symm)
    · have hmem : elt'.key ∈ list.regions.map IoRegion.key := hsame ▸ mem_map_of_mem helt'
      obtain ⟨elt, helt, hkey⟩ := mem_map.mp hmem
      exact ⟨elt, helt, hkey.symm⟩
  · obtain ⟨list, hlist, -, hsame, -⟩ := forall₂_exists_left h list' hlist'
    have hregions := congrArg (List.map Prod.snd) hsame
    rw [map_map, map_map] at hregions
    exact hregions ▸ hq.nodup list hlist
  · have hmem : elt'.key ∈ (eltsOf lists).map IoRegion.key := hkeys ▸ mem_map_of_mem helt'
    obtain ⟨elt, helt, hsame⟩ := mem_map.mp hmem
    rw [← hsame]
    exact hq.stored elt helt

theorem ReadQueue.start {s : IoServer} (hT : MapWF T) (h : ReadQueue s.fs.files T s.reads.lists)
    (hs : StoresMap s.fs T)
    (hlen : ∀ list ∈ s.reads.lists, list.regions.length ≤ serverMaxProcPerNode)
    (cachePercentage : Nat) :
    ∃ fs lists, s.startReading cachePercentage = some { s with fs, reads := { lists } } ∧
      fs.files = s.fs.files ∧ fs.lists = s.fs.lists ∧ ReadQueue s.fs.files T lists ∧
      (∀ elt ∈ eltsOf lists, elt.isIoDone = true) ∧
      (eltsOf lists).map IoRegion.key = (eltsOf s.reads.lists).map IoRegion.key := by
  have hcache : StoresMap (s.fs.startCache (s.reads.total * cachePercentage / 100)) T :=
    hs.congr rfl rfl
  obtain ⟨fs, lists, hread, hfiles, hlists, hall⟩ := readLists_eq hT cachePercentage hcache
    h.wf.ne_nil h.wf.objId hlen h.stored h.elts
  obtain ⟨hqueue, hdone, hkeys⟩ := h.of_forall₂ hall
  refine ⟨fs, lists, ?_, hfiles, hlists, hqueue, hdone, hkeys⟩
  rw [IoServer.startReading, hread]
  rfl

end Reads

/-! ## Runs -/

/-- The regions of an object that have been read, and those a batch asks for. -/
def regionsRead (s : IoServer) (b : List IoInfo) (o : UInt64) : List RegionInfo :=
  (((eltsOf s.reads.lists).map IoRegion.key ++ b.map IoInfo.key).filter fun k => k.1 = o).map
    Prod.snd

/-- A batch does not write what has been read, and reads what has been written, not more
than 32 different regions of an object in all. -/
structure IoBatchFits (s : IoServer) (b : List IoInfo) : Prop where
  unread : ∀ info ∈ b, info.ioType = .write →
    info.key ∉ (eltsOf s.reads.lists).map IoRegion.key
  written : ∀ info ∈ b, info.ioType = .read → ∃ entries,
    s.fs.lists info.objId = some entries ∧
      info.region.info ∈ entries.map StorageEntry.region
  room : ∀ info ∈ b, info.ioType = .read → ∀ o,
    (regionsRead s b o).dedup.length ≤ serverMaxProcPerNode

/-- A server between batches. -/
structure SettledAfter (known : UInt64 → Bool) (bs : List (List IoInfo)) (s : IoServer) : Prop where
  stores : StoresMap s.fs (lastWritten bs)
  known : ∀ o, (s.fs.lists o).isSome = known o
  writes : WritesMade s.writes.lists
  reads : ReadQueue s.fs.files (lastWritten bs) s.reads.lists
  writesIdle : s.writes.total = 0 ∧ s.writes.num = 0
  readsIdle : s.reads.total = 0 ∧ s.reads.num = 0

/-- The reads for a key are ready and have the data. -/
def Exposes (s : IoServer) (k : IoKey) (data : Option Bytes) : Prop :=
  (∃ elt ∈ eltsOf s.reads.lists, elt.key = k) ∧
    ∀ elt ∈ eltsOf s.reads.lists, elt.key = k → elt.isDataReady = 1 ∧ data = some elt.buf

section Runs

variable (cfg : IoConfig) {s : IoServer} {bs : List (List IoInfo)} {b : List IoInfo} {T : Written}
  {k : IoKey}

theorem lastWritten_append (bs : List (List IoInfo)) (b : List IoInfo) :
    lastWritten (bs ++ [b]) = (b.flatMap IoInfo.puts).foldl mapStep (lastWritten bs) := by
  rw [lastWritten, flatten_append, flatten_singleton, flatMap_append, mapAfter, foldl_append]
  rfl

theorem lastWritten_append_reads (h : ∀ info ∈ b, info.ioType = .read) :
    lastWritten (bs ++ [b]) = lastWritten bs := by
  have hnil : b.flatMap IoInfo.puts = [] := by
    rw [flatMap_eq_nil_iff]
    intro info hinfo
    rw [IoInfo.puts, h info hinfo]
    rfl
  rw [lastWritten_append, hnil]
  rfl

theorem foldl_puts_of_notMem (h : ∀ info ∈ b, info.key ≠ k) :
    (b.flatMap IoInfo.puts).foldl mapStep T k = T k := by
  induction b generalizing T with
  | nil => rfl
  | cons info b ih =>
    rw [forall_mem_cons] at h
    rw [flatMap_cons, foldl_append, ih h.2, IoInfo.puts]
    split
    · exact mapStep_put_of_ne T info.shm h.1
    · rfl

theorem exists_of_lastWritten {d : Bytes} (h : lastWritten bs k = some d) :
    ∃ info ∈ bs.flatten, info.ioType = .write ∧ info.key = k ∧ info.shm = d := by
  obtain ⟨before, after, hsplit, -⟩ := mapAfter_eq_some_iff.mp h
  have hmem : MapOp.put k d ∈ bs.flatten.flatMap IoInfo.puts := by
    rw [hsplit]
    exact mem_append_right before mem_cons_self
  obtain ⟨info, hinfo, hput⟩ := mem_flatMap.mp hmem
  rw [IoInfo.puts] at hput
  split at hput
  · next hwrite =>
    obtain ⟨hkey, hshm⟩ := MapOp.put.inj (mem_singleton.mp hput)
    exact ⟨info, hinfo, hwrite, hkey.symm, hshm.symm⟩
  · simp at hput

theorem mapWF_lastWritten {lists : StorageLists} (hvalid : ∀ info ∈ bs.flatten, info.Valid lists)
    (hapart : ∀ info ∈ bs.flatten, ∀ info' ∈ bs.flatten, info.objId = info'.objId →
      info.region.info ≠ info'.region.info → info.region.info.Apart info'.region.info) :
    MapWF (lastWritten bs) := by
  refine ⟨fun {o r d} h => ?_, fun {o r d} h => ?_, fun {o r r' d d'} h h' hne => ?_⟩
  · obtain ⟨info, hinfo, -, hkey, -⟩ := exists_of_lastWritten h
    obtain rfl : info.region.info = r := congrArg Prod.snd hkey
    exact (hvalid info hinfo).box
  · obtain ⟨info, hinfo, hwrite, hkey, rfl⟩ := exists_of_lastWritten h
    obtain rfl : info.region.info = r := congrArg Prod.snd hkey
    exact (hvalid info hinfo).length hwrite
  · obtain ⟨info, hinfo, -, hkey, -⟩ := exists_of_lastWritten h
    obtain ⟨info', hinfo', -, hkey', -⟩ := exists_of_lastWritten h'
    obtain rfl : info.region.info = r := congrArg Prod.snd hkey
    obtain rfl : info'.region.info = r' := congrArg Prod.snd hkey'
    have hobj : info.objId = info'.objId :=
      (congrArg Prod.fst hkey : info.objId = o).trans (congrArg Prod.fst hkey').symm
    exact hapart info hinfo info' hinfo' hobj hne

theorem ReadQueue.follows {files files' : Bytes → Option Bytes} {T' : Written}
    (h : ReadQueue files T lists) (hgrows : Grows files files')
    (hsame : ∀ elt ∈ eltsOf lists, T' elt.key = T elt.key) : ReadQueue files' T' lists := by
  refine ⟨h.wf, h.nodup, fun elt helt => ?_, fun elt helt => ?_⟩
  · refine { h.elts elt helt with made := fun hdone => ?_ }
    obtain ⟨hready, hbuf, e, hoverlaps, hregion, hholds⟩ := (h.elts elt helt).made hdone
    exact ⟨hready, (hsame elt helt).trans hbuf, e, hoverlaps, hregion, hholds.mono hgrows⟩
  · rw [hsame elt helt]
    exact h.stored elt helt

variable {known : UInt64 → Bool}

theorem SettledAfter.write (h : SettledAfter known bs s) (hb : CompleteBatch .write b)
    (hvalid : ∀ info ∈ b, info.Valid s.fs.lists) (hfits : IoBatchFits s b) :
    ∃ s', b.foldlM (dataIoViaShm cfg) s = some s' ∧ SettledAfter known (bs ++ [b]) s' := by
  have hqueue : WriteQueue s.fs (lastWritten bs) (lastWritten bs) s.writes.lists := by
    refine ⟨h.writes.wf, fun elt helt => ?_, fun k => .inl rfl⟩
    have hnot : elt.isIoDone ≠ false := by
      rw [(h.writes.made elt helt).done]
      exact fun heq => nomatch heq
    exact ⟨(h.writes.made elt helt).access, fun hf => absurd hf hnot, fun hf => absurd hf hnot,
      fun hf => absurd hf hnot, fun hf => absurd hf hnot, fun hf => absurd hf hnot⟩
  have hgathered := hqueue.run cfg hb.ioType hvalid
  rw [← lastWritten_append] at hgathered
  obtain ⟨as, a, rfl⟩ := (eq_nil_or_concat' b).resolve_left hb.ne_nil
  obtain ⟨fs, lists, hstart, hstores, hfollows, hmade⟩ := WriteQueue.start cfg
    (s := { s with writes := Lib.run (IoQueue.receive cfg) s.writes (as ++ [a]) })
    hgathered h.stores
  refine ⟨{ s with fs, writes := { lists } }, ?_, hstores, fun o => ?_, hmade, ?_, ⟨rfl, rfl⟩,
    h.readsIdle⟩
  · rw [foldlM_batch cfg hb (.inr rfl) h.writesIdle, run_receive cfg hb.ioType,
      IoServer.start, hb.ioType a (mem_append_right as mem_cons_self)]
    exact hstart
  · exact (hfollows.known o).trans (h.known o)
  · refine h.reads.follows hfollows.grows fun elt helt => ?_
    rw [lastWritten_append]
    refine foldl_puts_of_notMem fun info hinfo heq => ?_
    exact hfits.unread info hinfo (hb.ioType info hinfo) (heq ▸ mem_map_of_mem helt)

theorem StoresMap.isSome_of_mem (h : StoresMap fs T) {o : UInt64}
    {entries : List StorageEntry} (hlist : fs.lists o = some entries) {r : RegionInfo}
    (hr : r ∈ entries.map StorageEntry.region) : (T (o, r)).isSome := by
  obtain ⟨e, he, rfl⟩ := mem_map.mp hr
  obtain ⟨d, hd, -⟩ := h.of_mem hlist he
  rw [hd]
  rfl

theorem length_le_of_room (hwf : ListsWF s.reads.lists)
    (hlists : lists = (Lib.run (IoQueue.receive cfg) s.reads b).lists)
    (hread : ∀ info ∈ b, info.ioType = .read) (hroom : ∀ o, (regionsRead s b o).dedup.length ≤ n)
    (hlistsWF : ListsWF lists) (hnodup : ∀ list ∈ lists, (list.regions.map IoRegion.region).Nodup) :
    ∀ list ∈ lists, list.regions.length ≤ n := by
  intro list hlist
  have hsubset : list.regions.map IoRegion.region ⊆ (regionsRead s b list.objId).dedup := by
    intro r hr
    obtain ⟨elt, helt, rfl⟩ := mem_map.mp hr
    rw [mem_dedup, regionsRead, mem_map]
    have hkey : elt.key ∈ (eltsOf lists).map IoRegion.key :=
      mem_map_of_mem (mem_eltsOf.mpr ⟨list, hlist, helt⟩)
    rw [hlists, key_mem_run_receive cfg hwf hread, ← mem_append] at hkey
    refine ⟨elt.key, mem_filter.mpr ⟨hkey, ?_⟩, rfl⟩
    exact decide_eq_true (hlistsWF.objId list hlist elt helt)
  have hle := ((hnodup list hlist).subperm hsubset).length_le
  rw [length_map] at hle
  exact hle.trans (hroom list.objId)

theorem SettledAfter.read (h : SettledAfter known bs s) (hmap : MapWF (lastWritten bs))
    (hb : CompleteBatch .read b) (hbox : ∀ info ∈ b, info.region.info.Box)
    (hfits : IoBatchFits s b) :
    ∃ s', b.foldlM (dataIoViaShm cfg) s = some s' ∧ SettledAfter known (bs ++ [b]) s' ∧
      ∀ info ∈ b, Exposes s' info.key (lastWritten bs info.key) := by
  have hstored : ∀ info ∈ b, (lastWritten bs info.key).isSome := by
    intro info hinfo
    obtain ⟨entries, hlist, hregion⟩ := hfits.written info hinfo (hb.ioType info hinfo)
    exact h.stores.isSome_of_mem hlist hregion
  have hgathered := h.reads.run cfg hb.ioType hbox hstored
  have hroom : ∀ o, (regionsRead s b o).dedup.length ≤ serverMaxProcPerNode := by
    obtain ⟨info, hinfo⟩ := exists_mem_of_ne_nil b hb.ne_nil
    exact hfits.room info hinfo (hb.ioType info hinfo)
  have hlen := length_le_of_room cfg h.reads.wf rfl hb.ioType hroom hgathered.wf hgathered.nodup
  obtain ⟨as, a, rfl⟩ := (eq_nil_or_concat' b).resolve_left hb.ne_nil
  obtain ⟨fs, lists, hstart, hfiles, hlists, hqueue, hdone, hkept⟩ := ReadQueue.start
    (s := { s with reads := Lib.run (IoQueue.receive cfg) s.reads (as ++ [a]) }) hmap
    hgathered h.stores hlen a.cachePercentage
  refine ⟨{ s with fs, reads := { lists } }, ?_, ?_,
    fun info hinfo => ⟨?_, fun elt helt hkey => ?_⟩⟩
  · rw [foldlM_batch cfg hb (.inl rfl) h.readsIdle, run_receive cfg hb.ioType,
      IoServer.start, hb.ioType a (mem_append_right as mem_cons_self)]
    exact hstart
  · rw [← hfiles] at hqueue
    refine ⟨?_, fun o => ?_, h.writes, ?_, h.writesIdle, ⟨rfl, rfl⟩⟩
    · rw [lastWritten_append_reads hb.ioType]
      exact h.stores.congr hfiles hlists
    · show (fs.lists o).isSome = known o
      rw [hlists]
      exact h.known o
    · rw [lastWritten_append_reads hb.ioType]
      exact hqueue
  · refine mem_map.mp (hkept ▸ ?_)
    exact (key_mem_run_receive cfg h.reads.wf hb.ioType info.key).mpr (.inr (mem_map_of_mem hinfo))
  · obtain ⟨hready, hbuf, -⟩ := (hqueue.elts elt helt).made (hdone elt helt)
    rw [← hkey]
    exact ⟨hready, hbuf⟩

theorem settledAfter_nil (hempty : ∀ o entries, fs.lists o = some entries → entries = []) :
    SettledAfter (fun o => (fs.lists o).isSome) [] { fs } where
  stores := by
    refine ⟨fun o r hsome => absurd hsome Bool.false_ne_true, fun o entries hlist => ?_⟩
    obtain rfl := hempty o entries hlist
    exact ⟨fun _ => none, Slots.nil, fun _ => .none⟩
  known := fun _ => rfl
  writes := ⟨listsWF_nil, fun _ hmem => absurd hmem not_mem_nil⟩
  reads := ⟨listsWF_nil, by simp,
    fun _ hmem => absurd hmem not_mem_nil, fun _ hmem => absurd hmem not_mem_nil⟩
  writesIdle := ⟨rfl, rfl⟩
  readsIdle := ⟨rfl, rfl⟩

theorem IoInfo.Valid.of_known {lists : StorageLists} (h : info.Valid lists)
    (hs : SettledAfter (fun o => (lists o).isSome) bs s) : info.Valid s.fs.lists :=
  ⟨(hs.known info.objId).trans h.known, h.box, h.length⟩

theorem settledAfter_run (hempty : ∀ o entries, fs.lists o = some entries → entries = [])
    (hcomplete : ∀ b ∈ bs, CompleteBatch .write b ∨ CompleteBatch .read b)
    (hvalid : ∀ info ∈ bs.flatten, info.Valid fs.lists)
    (hapart : ∀ info ∈ bs.flatten, ∀ info' ∈ bs.flatten, info.objId = info'.objId →
      info.region.info ≠ info'.region.info → info.region.info.Apart info'.region.info)
    (hfits : Along (batchStep cfg) (fun os b => ∀ s, os = some s →
      IoBatchFits s b) (some { fs }) bs) :
    ∃ s, run (batchStep cfg) (some { fs }) bs = some s ∧
      SettledAfter (fun o => (fs.lists o).isSome) bs s := by
  induction bs using List.reverseRecOn with
  | nil => exact ⟨{ fs }, rfl, settledAfter_nil hempty⟩
  | append_singleton bs b ih =>
    rw [Along.append] at hfits
    rw [forall_mem_append] at hcomplete
    have hflatten : ∀ info ∈ bs.flatten, info ∈ (bs ++ [b]).flatten := by
      intro info hinfo
      rw [flatten_append]
      exact mem_append_left _ hinfo
    have hlast : ∀ info ∈ b, info ∈ (bs ++ [b]).flatten := by
      intro info hinfo
      rw [flatten_append, flatten_singleton]
      exact mem_append_right _ hinfo
    have hvalid' := fun info hinfo => hvalid info (hflatten info hinfo)
    have hapart' := fun info hinfo info' hinfo' =>
      hapart info (hflatten info hinfo) info' (hflatten info' hinfo')
    obtain ⟨s, hrun, hs⟩ := ih hcomplete.1 hvalid' hapart' hfits.1
    have hfit : IoBatchFits s b := hfits.2.1 s hrun
    have hstep : run (batchStep cfg) (some { fs }) (bs ++ [b]) = b.foldlM (dataIoViaShm cfg) s := by
      rw [run_append, hrun]
      rfl
    rw [hstep]
    rcases hcomplete.2 b mem_cons_self with hb | hb
    · exact hs.write cfg hb (fun info hinfo => (hvalid info (hlast info hinfo)).of_known hs) hfit
    · obtain ⟨s', hs', hafter, -⟩ := hs.read cfg (mapWF_lastWritten hvalid' hapart') hb
        (fun info hinfo => (hvalid info (hlast info hinfo)).box) hfit
      exact ⟨s', hs', hafter⟩

end Runs

/-- After batches that fit, a batch of reads exposes the data that was written last. -/
theorem exposesLastWritten_of_batchesFit (cfg : IoConfig) (fs : FileServer)
    (hempty : ∀ o entries, fs.lists o = some entries → entries = [])
    (bs : List (List IoInfo)) (b : List IoInfo)
    (hcomplete : ∀ b' ∈ bs, CompleteBatch .write b' ∨ CompleteBatch .read b')
    (hb : CompleteBatch .read b)
    (hvalid : ∀ info ∈ (bs ++ [b]).flatten, info.Valid fs.lists)
    (hapart : ∀ info ∈ bs.flatten, ∀ info' ∈ bs.flatten, info.objId = info'.objId →
      info.region.info ≠ info'.region.info → info.region.info.Apart info'.region.info)
    (hfits : Along (batchStep cfg) (fun os b => ∀ s, os = some s → IoBatchFits s b) (some { fs })
      (bs ++ [b])) :
    ∃ s, run (batchStep cfg) (some { fs }) (bs ++ [b]) = some s ∧
      ∀ info ∈ b, Exposes s info.key (lastWritten bs info.key) := by
  rw [Along.append] at hfits
  rw [flatten_append, flatten_singleton, forall_mem_append] at hvalid
  obtain ⟨s, hrun, hs⟩ := settledAfter_run cfg hempty hcomplete hvalid.1 hapart hfits.1
  obtain ⟨s', hs', -, hexposes⟩ := hs.read cfg (mapWF_lastWritten hvalid.1 hapart) hb
    (fun info hinfo => (hvalid.2 info hinfo).box) (hfits.2.1 s hrun)
  refine ⟨s', ?_, hexposes⟩
  rw [run_append, hrun]
  exact hs'

/-- Bytes of a one-dimensional object, in a batch of one request. -/
def oneRequest (ioType : Access) (start : UInt64) (data : Bytes) : IoInfo where
  ioType := ioType
  nclient := 1
  nbufferRequest := 1
  objId := 7
  region := lineTransfer start data.length.toUInt64
  shm := data
  one_le_ndim := one_le_ndim_lineTransfer start data.length.toUInt64
  ndim_le_four := ndim_lineTransfer_le_four start data.length.toUInt64

def plainConfig : IoConfig where
  rank := 0
  writeToBBPercentage := 0
  dataPath := [46]
  bbDataPath := none

def readKeys (s : IoServer) : List IoKey := (eltsOf s.reads.lists).map IoRegion.key

def storedRegions (s : IoServer) : List RegionInfo :=
  ((s.fs.lists 7).getD []).map StorageEntry.region

theorem ioBatchFits_oneRequest {os : Option IoServer} (keys : List IoKey)
    (regions : List RegionInfo) (hkeys : os.map readKeys = some keys)
    (hregions : os.map storedRegions = some regions)
    (hunread : info.ioType = .write → info.key ∉ keys)
    (hwritten : info.ioType = .read → info.objId = 7 ∧ info.region.info ∈ regions)
    (hroom : keys.length + 1 ≤ serverMaxProcPerNode) : ∀ s, os = some s → IoBatchFits s [info] := by
  rintro s rfl
  obtain rfl : readKeys s = keys := Option.some.inj hkeys
  obtain rfl : storedRegions s = regions := Option.some.inj hregions
  refine ⟨?_, ?_, ?_⟩
  · rw [forall_mem_singleton]
    exact hunread
  · rw [forall_mem_singleton]
    intro hread
    obtain ⟨hobj, hmem⟩ := hwritten hread
    rw [storedRegions] at hmem
    cases hlist : s.fs.lists 7 with
    | none =>
      rw [hlist] at hmem
      simp at hmem
    | some entries =>
      rw [hlist] at hmem
      exact ⟨entries, by rw [hobj, hlist], hmem⟩
  · rw [forall_mem_singleton]
    intro _ o
    refine Nat.le_trans ?_ hroom
    calc (regionsRead s [info] o).dedup.length ≤ (regionsRead s [info] o).length :=
          (dedup_sublist _).length_le
      _ ≤ (readKeys s ++ [info].map IoInfo.key).length := by
          rw [regionsRead, length_map]
          exact length_filter_le _ _
      _ = (readKeys s).length + 1 := by rw [length_append]; rfl

theorem completeBatch_oneRequest (ioType : Access) (start : UInt64) (data : Bytes) :
    CompleteBatch ioType [oneRequest ioType start data] :=
  ⟨cons_ne_nil _ _, by simp [oneRequest], by simp [oneRequest]⟩

/-- A region is read, and another one is written and read. -/
theorem exposesLastWritten_two_regions :
    ∃ s, run (batchStep plainConfig) (some { fs := { lists := emptyObject } })
        ([[oneRequest .write 0 [1, 2]], [oneRequest .read 0 [0, 0]],
          [oneRequest .write 2 [3, 4]]] ++ [[oneRequest .read 2 [0, 0]]]) = some s ∧
      ∀ info ∈ [oneRequest .read 2 [0, 0]], Exposes s info.key
        (lastWritten [[oneRequest .write 0 [1, 2]], [oneRequest .read 0 [0, 0]],
          [oneRequest .write 2 [3, 4]]] info.key) := by
  have hbox₀ : (lineTransfer 0 2).info.Box := ⟨by decide, by decide, by decide, by decide⟩
  have hbox₂ : (lineTransfer 2 2).info.Box := ⟨by decide, by decide, by decide, by decide⟩
  refine exposesLastWritten_of_batchesFit plainConfig { lists := emptyObject }
    eq_nil_of_emptyObject _ _ (by simp [completeBatch_oneRequest])
    (completeBatch_oneRequest .read 2 [0, 0]) ?_
    (by unfold RegionInfo.Apart; decide +kernel) ?_
  · simp only [cons_append, nil_append, flatten_cons, flatten_nil,
      forall_mem_cons, not_mem_nil, false_implies, implies_true, and_true]
    exact ⟨⟨rfl, hbox₀, fun _ => rfl⟩, ⟨rfl, hbox₀, fun _ => rfl⟩, ⟨rfl, hbox₂, fun _ => rfl⟩,
      ⟨rfl, hbox₂, fun _ => rfl⟩⟩
  · refine ⟨ioBatchFits_oneRequest [] [] ?_ ?_ ?_ ?_ ?_,
      ioBatchFits_oneRequest [] [(lineTransfer 0 2).info] ?_ ?_ ?_ ?_ ?_,
      ioBatchFits_oneRequest [(7, (lineTransfer 0 2).info)] [(lineTransfer 0 2).info]
        ?_ ?_ ?_ ?_ ?_,
      ioBatchFits_oneRequest [(7, (lineTransfer 0 2).info)]
        [(lineTransfer 0 2).info, (lineTransfer 2 2).info] ?_ ?_ ?_ ?_ ?_, trivial⟩
    all_goals decide +kernel

def exposedData (s : IoServer) : List Bytes := (eltsOf s.reads.lists).map IoRegion.buf

/-- A region is written, read, written again and read again: the second read exposes the
data of the first write. -/
theorem not_exposes_rewritten :
    ¬∃ s, run (batchStep plainConfig) (some { fs := { lists := emptyObject } })
        [[oneRequest .write 0 [1, 2]], [oneRequest .read 0 [0, 0]], [oneRequest .write 0 [3, 4]],
          [oneRequest .read 0 [0, 0]]] = some s ∧
      Exposes s (oneRequest .read 0 [0, 0]).key
        (lastWritten [[oneRequest .write 0 [1, 2]], [oneRequest .read 0 [0, 0]],
          [oneRequest .write 0 [3, 4]]] (oneRequest .read 0 [0, 0]).key) := by
  rintro ⟨s, hrun, ⟨elt, helt, hkey⟩, hall⟩
  have hdata : (run (batchStep plainConfig) (some { fs := { lists := emptyObject } })
      [[oneRequest .write 0 [1, 2]], [oneRequest .read 0 [0, 0]], [oneRequest .write 0 [3, 4]],
        [oneRequest .read 0 [0, 0]]]).map exposedData = some [[1, 2]] := by
    decide +kernel
  have hlast : lastWritten ([[oneRequest .write 0 [1, 2]], [oneRequest .read 0 [0, 0]]] ++
      [[oneRequest .write 0 [3, 4]]]) (oneRequest .read 0 [0, 0]).key = some [3, 4] := by
    exact mapStep_put_self _ _ _
  rw [hrun, Option.map_some, Option.some.injEq] at hdata
  have hmem : elt.buf ∈ [[(1 : UInt8), 2]] := hdata ▸ mem_map_of_mem helt
  have hbuf : some [(3 : UInt8), 4] = some elt.buf := hlast.symm.trans (hall elt helt hkey).2
  rw [mem_singleton.mp hmem] at hbuf
  exact absurd hbuf (by decide)

end Pdc
