import Pdc.Commons.Dart

/-!
# Exact queries and deletions reach what was inserted

An insert puts a form of a keyword at its base node or at its alternative one, as
the load of the servers wants it. A query and a deletion compute both nodes from
the same letters, so one of the two is the node of the insert. A deletion takes all
replicas of both; a query takes the replica with the same number of each, and the
number comes from a counter of requests. The counter is an `int`, and the test
that is to keep it from being negative comes before it is raised.
-/

namespace Pdc

open List Lib

variable {sfxTree : Bool} {key : Bytes}

/-! ## Passes -/

theorem foldlM_collect {ι α S : Type} {f : S → ι → Option (List α)} {is : List ι} {out : List α}
    {s : S} {res : List α × S} :
    is.foldlM (fun (acc : List α × S) i => (f acc.2 i).map fun part => (acc.1 ++ part, acc.2))
        (out, s) = some res ↔
      (∀ i ∈ is, (f s i).isSome) ∧ res = (out ++ is.flatMap fun i => (f s i).getD [], s) := by
  induction is generalizing out with
  | nil =>
    rw [foldlM_nil, flatMap_nil, append_nil, Option.pure_def, Option.some.injEq]
    exact ⟨fun h => ⟨fun i hi => absurd hi not_mem_nil, h.symm⟩, fun h => h.2.symm⟩
  | cons i is ih =>
    rw [foldlM_cons, forall_mem_cons, flatMap_cons]
    cases f s i with
    | none => simp
    | some part => simp [ih]

namespace Dart

variable {d : Dart} {word : Bytes} {base : UInt64} {cb : Option ServerInfo}

def serverIdOf (d : Dart) (vnodeId : UInt64) : UInt64 :=
  vnodeId / UInt64.ofInt d.numVnodePerServer % UInt64.ofNat d.numServer

theorem getServerIdByVnodeId_eq (h : d.numVnodePerServer ≠ 0) (vnodeId : UInt64) :
    d.getServerIdByVnodeId vnodeId = some (d.serverIdOf vnodeId) := if_neg h

theorem numVnodePerServer_ne_zero {vnodeId serverId : UInt64}
    (h : d.getServerIdByVnodeId vnodeId = some serverId) : d.numVnodePerServer ≠ 0 := by
  intro hzero
  rw [getServerIdByVnodeId, if_pos hzero] at h
  cases h

/-- Whatever the callback answers, the node is the base node or the one that is taken without
a callback. -/
theorem getReconciledVnodeId_cases {vnode : UInt64}
    (h : d.getReconciledVnodeId base word cb = some vnode) :
    d.numVnodePerServer ≠ 0 ∧ ∃ alter, d.getReconciledVnodeId base word none = some alter ∧
        (vnode = base ∨ vnode = alter) := by
  rw [getReconciledVnodeId, Option.bind_eq_bind, Option.bind_eq_some_iff] at h
  obtain ⟨serverId, hserver, h⟩ := h
  refine ⟨numVnodePerServer_ne_zero hserver, ?_⟩
  rw [getReconciledVnodeId, hserver, Option.bind_eq_bind, Option.bind_some]
  split at h
  next hheight => exact ⟨base, if_pos hheight, .inl (Option.some.inj h).symm⟩
  next hheight =>
    rw [Option.bind_eq_some_iff] at h
    obtain ⟨alter, halter, h⟩ := h
    rw [Option.bind_eq_some_iff] at h
    obtain ⟨alterServer, halterServer, h⟩ := h
    refine ⟨alter, ?_, ?_⟩
    · rw [if_neg hheight, halter, Option.bind_some, halterServer, Option.bind_some]
    · cases cb with
      | none => exact .inr (Option.some.inj h).symm
      | some info =>
        rw [← Option.some.inj h]
        split
        · exact .inr rfl
        · exact .inl rfl

theorem getServerIdsForInsert_cases {ids : List UInt64}
    (h : d.getServerIdsForInsert word cb = some ids) :
    d.numVnodePerServer ≠ 0 ∧ ∃ base alter,
        d.replicasOfToken word = some (d.getReplicaNodeIds base, d.getReplicaNodeIds alter) ∧
          (ids = d.getReplicaNodeIds base ∨ ids = d.getReplicaNodeIds alter) := by
  rw [getServerIdsForInsert, Option.bind_eq_bind, Option.bind_eq_some_iff] at h
  obtain ⟨base, hbase, h⟩ := h
  rw [Option.bind_eq_some_iff] at h
  obtain ⟨vnode, hvnode, h⟩ := h
  obtain ⟨hper, alter, halter, hor⟩ := getReconciledVnodeId_cases hvnode
  refine ⟨hper, base, alter, ?_, ?_⟩
  · rw [replicasOfToken, hbase, Option.bind_eq_bind, Option.bind_some, halter, Option.bind_some]
  rw [← Option.some.inj h]
  rcases hor with rfl | rfl
  · exact .inl rfl
  · exact .inr rfl

@[simp] theorem length_getReplicaNodeIds (master : UInt64) :
    (d.getReplicaNodeIds master).length = d.replicationFactor := by simp [getReplicaNodeIds]

end Dart

/-! ## What is returned -/

section Results

variable {sfxTree : Bool} {d : Dart} {key : Bytes} {opType : DartOpType}
  {cb : Option (Nat → ServerInfo)} {iter : Nat}

def hashResult (d : Dart) (tok : Bytes) (iter : Nat) (id : UInt64) : IndexHashResult where
  serverId := (d.serverIdOf id).toUInt32
  key := tok
  virtualNodeId := id
  isSuffix := decide (0 < iter)

theorem hashResults_eq (h : d.numVnodePerServer ≠ 0) (tok : Bytes) (iter : Nat)
    (ids : List UInt64) : hashResults d tok iter ids = some (ids.map (hashResult d tok iter)) := by
  rw [hashResults]
  simp only [Dart.getServerIdByVnodeId_eq h, Option.map_some]
  exact mapM_pure

/-- What one pass of a write gives. -/
def formResults (sfxTree : Bool) (d : Dart) (key : Bytes) (opType : DartOpType)
    (cb : Option (Nat → ServerInfo)) (iter : Nat) : Option (List IndexHashResult) := do
  let tok := tokOf sfxTree key iter
  let ids ←
    if opType = .insert then d.getServerIdsForInsert tok (cb.map (· iter))
    else (d.replicasOfToken tok).map fun reps => reps.1 ++ reps.2
  hashResults d tok iter ids

theorem getServerIdsForQuery_delete (d : Dart) (token : Bytes) :
    getServerIdsForQuery sfxTree d token .delete =
      (d.replicasOfToken token).map fun reps => (reps.1 ++ reps.2, d) := by
  have haffix : isAffixQuery sfxTree .delete = false := by cases sfxTree <;> rfl
  rw [getServerIdsForQuery, if_neg (by decide), if_neg (by simp), if_neg (by simp [haffix])]
  cases d.replicasOfToken token <;> rfl

theorem hashStep_of_write (hwrite : isIndexWriteOp opType = true)
    (s : List IndexHashResult × Dart) (iter : Nat) :
    hashStep sfxTree key opType cb s iter =
      (formResults sfxTree s.2 key opType cb iter).map fun part => (s.1 ++ part, s.2) := by
  rw [hashStep, formResults]
  cases opType with
  | insert =>
    cases s.2.getServerIdsForInsert (tokOf sfxTree key iter) (cb.map (· iter)) with
    | none => rfl
    | some ids =>
      simp only [Option.map_some, Option.bind_eq_bind, Option.bind_some]
      cases hashResults s.2 (tokOf sfxTree key iter) iter ids <;> rfl
  | delete =>
    simp only [reduceCtorEq, if_false, getServerIdsForQuery_delete]
    cases s.2.replicasOfToken (tokOf sfxTree key iter) with
    | none => rfl
    | some reps =>
      simp only [Option.map_some, Option.bind_eq_bind, Option.bind_some]
      cases hashResults s.2 (tokOf sfxTree key iter) iter (reps.1 ++ reps.2) <;> rfl
  | exactQuery => cases hwrite
  | prefixQuery => cases hwrite
  | suffixQuery => cases hwrite
  | infixQuery => cases hwrite
  | rangeQuery => cases hwrite

theorem dartHash_of_write (hwrite : isIndexWriteOp opType = true)
    {res : List IndexHashResult × Dart} :
    dartHash sfxTree d key opType cb = some res ↔ (∀ iter < loopCount sfxTree key opType,
        (formResults sfxTree d key opType cb iter).isSome) ∧
      res = ((List.range (loopCount sfxTree key opType)).flatMap fun iter =>
        (formResults sfxTree d key opType cb iter).getD [], d) := by
  have hstep : hashStep sfxTree key opType cb = fun s iter =>
      (formResults sfxTree s.2 key opType cb iter).map fun part => (s.1 ++ part, s.2) :=
    funext fun s => funext fun iter => hashStep_of_write hwrite s iter
  rw [dartHash, hstep, foldlM_collect (f := fun d iter => formResults sfxTree d key opType cb iter)]
  simp only [mem_range, nil_append]

theorem formResults_insert (h : (formResults sfxTree d key .insert cb iter).isSome) :
    ∃ ids, d.getServerIdsForInsert (tokOf sfxTree key iter) (cb.map (· iter)) = some ids ∧
      formResults sfxTree d key .insert cb iter =
        some (ids.map (hashResult d (tokOf sfxTree key iter) iter)) := by
  rw [formResults] at h ⊢
  cases hids : d.getServerIdsForInsert (tokOf sfxTree key iter) (cb.map (· iter)) with
  | none =>
    rw [hids] at h
    cases h
  | some ids =>
    obtain ⟨hper, -⟩ := Dart.getServerIdsForInsert_cases hids
    exact ⟨ids, rfl, hashResults_eq hper _ _ _⟩

/-- An insert in parts: for each form the nodes it is put at, and nothing else. -/
structure InsertedAt (sfxTree : Bool) (d : Dart) (key : Bytes) (cb : Option (Nat → ServerInfo))
    (ins : List IndexHashResult) (iter : Nat) (ids : List UInt64) : Prop where
  nodes : d.getServerIdsForInsert (tokOf sfxTree key iter) (cb.map (· iter)) = some ids
  mem : ∀ id ∈ ids, hashResult d (tokOf sfxTree key iter) iter id ∈ ins

variable {ins : List IndexHashResult} {d' : Dart}

theorem exists_insertedAt (h : dartHash sfxTree d key .insert cb = some (ins, d'))
    (hiter : iter < loopCount sfxTree key .insert) :
    ∃ ids, InsertedAt sfxTree d key cb ins iter ids := by
  obtain ⟨hforms, hres⟩ := (dartHash_of_write rfl).mp h
  obtain ⟨ids, hids, hform⟩ := formResults_insert (hforms iter hiter)
  refine ⟨ids, hids, fun id hid => ?_⟩
  rw [(Prod.mk.inj hres).1, mem_flatMap]
  refine ⟨iter, mem_range.mpr hiter, ?_⟩
  rw [hform]
  exact mem_map_of_mem hid

theorem exists_of_mem_insert (h : dartHash sfxTree d key .insert cb = some (ins, d'))
    {r : IndexHashResult} (hr : r ∈ ins) :
    ∃ iter < loopCount sfxTree key .insert, ∃ ids, InsertedAt sfxTree d key cb ins iter ids ∧
      ∃ id ∈ ids, r = hashResult d (tokOf sfxTree key iter) iter id := by
  obtain ⟨hforms, hres⟩ := (dartHash_of_write rfl).mp h
  rw [(Prod.mk.inj hres).1, mem_flatMap] at hr
  obtain ⟨iter, hiter, hr⟩ := hr
  rw [mem_range] at hiter
  obtain ⟨ids, hat⟩ := exists_insertedAt h hiter
  obtain ⟨ids', hids', hform⟩ := formResults_insert (hforms iter hiter)
  rw [hform, Option.getD_some, mem_map] at hr
  obtain ⟨id, hid, rfl⟩ := hr
  have hsame : ids' = ids := Option.some.inj (hids'.symm.trans hat.nodes)
  exact ⟨iter, hiter, ids, hat, id, hsame ▸ hid, rfl⟩

def Dart.withCount (d : Dart) (clientRequestCount : Int32) : Dart := { d with clientRequestCount }

theorem dartHash_insert_withCount {count : Int32}
    (h : dartHash sfxTree (d.withCount count) key .insert cb = some (ins, d')) :
    dartHash sfxTree d key .insert cb = some (ins, d) := by
  obtain ⟨hforms, hres⟩ := (dartHash_of_write rfl).mp h
  exact (dartHash_of_write rfl).mpr ⟨hforms, Prod.ext (Prod.mk.inj hres).1 rfl⟩

theorem dartHash_delete (h : dartHash sfxTree d key .insert cb = some (ins, d')) :
    ∃ del, dartHash sfxTree d key .delete none = some (del, d) ∧ ∀ r ∈ ins, r ∈ del := by
  have hforms : ∀ iter < loopCount sfxTree key .delete, ∀ ids,
      InsertedAt sfxTree d key cb ins iter ids →
        ∃ part, formResults sfxTree d key .delete none iter = some part ∧
          ∀ id ∈ ids, hashResult d (tokOf sfxTree key iter) iter id ∈ part := by
    intro iter hiter ids hat
    obtain ⟨hper, base, alter, hreps, hor⟩ := Dart.getServerIdsForInsert_cases hat.nodes
    have hform : formResults sfxTree d key .delete none iter =
        hashResults d (tokOf sfxTree key iter) iter
          (d.getReplicaNodeIds base ++ d.getReplicaNodeIds alter) := by
      rw [formResults, hreps]
      rfl
    refine ⟨_, hform.trans (hashResults_eq hper _ _ _), fun id hid => mem_map_of_mem ?_⟩
    rcases hor with rfl | rfl
    · exact mem_append_left _ hid
    · exact mem_append_right _ hid
  refine ⟨_, (dartHash_of_write rfl).mpr ⟨fun iter hiter => ?_, rfl⟩, fun r hr => ?_⟩
  · obtain ⟨ids, hat⟩ := exists_insertedAt h hiter
    obtain ⟨part, hpart, -⟩ := hforms iter hiter ids hat
    exact Option.isSome_of_eq_some hpart
  · obtain ⟨iter, hiter, ids, hat, id, hid, rfl⟩ := exists_of_mem_insert h hr
    obtain ⟨part, hpart, hmem⟩ := hforms iter hiter ids hat
    refine mem_flatMap.mpr ⟨iter, mem_range.mpr hiter, ?_⟩
    rw [hpart]
    exact hmem id hid

/-! ## Queries -/

/-- A query that is sent to one replica of each of the two nodes. -/
structure TwoChoices (sfxTree : Bool) (d : Dart) (token : Bytes) (opType : DartOpType) : Prop where
  not_write : isIndexWriteOp opType = false
  not_middle : ¬(sfxTree = false ∧ opType = .infixQuery)
  not_short : ¬(token.length < d.dartTreeHeight ∧ isAffixQuery sfxTree opType = true)

def Dart.counted (d : Dart) : Dart :=
  { d with
    clientRequestCount := (if d.clientRequestCount < 0 then 0 else d.clientRequestCount) + 1 }

def Dart.repIndex (d : Dart) : Nat :=
  d.counted.clientRequestCount.toNatClampNeg % d.replicationFactor

theorem Dart.repIndex_lt (d : Dart) : d.repIndex < d.replicationFactor :=
  Nat.mod_lt _ d.one_le_replicationFactor

theorem Dart.clientRequestCountIncr_eq (d : Dart) :
    d.clientRequestCountIncr =
      if d.clientRequestCount = Int32.maxValue then none else some d.counted := by
  rw [Dart.clientRequestCountIncr]
  by_cases hneg : d.clientRequestCount < 0
  · have hne : d.clientRequestCount ≠ Int32.maxValue := by
      intro hmax
      rw [hmax] at hneg
      exact absurd hneg (by decide)
    rw [if_neg hne]
    simp only [hneg, if_true, Dart.counted]
    rfl
  · simp only [hneg, if_false, Dart.counted]

def Dart.replica (d : Dart) (master : UInt64) (r : Nat) : UInt64 :=
  if r = 0 then master
  else (master + UInt64.ofNat r * (d.numVnode / UInt64.ofNat d.alphabetSize)) % d.numVnode

theorem Dart.getReplicaNodeIds_eq (d : Dart) (master : UInt64) :
    d.getReplicaNodeIds master = (List.range d.replicationFactor).map (d.replica master) := rfl

theorem Dart.getElem?_getReplicaNodeIds (d : Dart) (master : UInt64) {r : Nat}
    (h : r < d.replicationFactor) :
    (d.getReplicaNodeIds master)[r]? = some (d.replica master r) := by
  rw [Dart.getReplicaNodeIds_eq, getElem?_map, getElem?_range h]
  rfl

/-- The one or two nodes a query is sent to. -/
def Dart.chosen (d : Dart) (base alter : UInt64) : List UInt64 :=
  if d.replica base d.repIndex ≠ d.replica alter d.repIndex then
    [d.replica base d.repIndex, d.replica alter d.repIndex]
  else [d.replica base d.repIndex]

theorem Dart.mem_chosen {base alter id : UInt64} :
    id ∈ d.chosen base alter ↔
      id = d.replica base d.repIndex ∨ id = d.replica alter d.repIndex := by
  rw [Dart.chosen]
  split
  next => simp
  next h =>
    rw [not_not] at h
    simp [h]

variable {token : Bytes} {base alter : UInt64}

theorem getServerIdsForQuery_two (h : TwoChoices sfxTree d token opType)
    (hreps : d.replicasOfToken token = some (d.getReplicaNodeIds base, d.getReplicaNodeIds alter)) :
    getServerIdsForQuery sfxTree d token opType =
      if d.clientRequestCount = Int32.maxValue then none
      else some (d.chosen base alter, d.counted) := by
  have hinsert : opType ≠ .insert := fun heq => by simpa [heq, isIndexWriteOp] using h.not_write
  have hdelete : opType ≠ .delete := fun heq => by simpa [heq, isIndexWriteOp] using h.not_write
  rw [getServerIdsForQuery, if_neg hinsert, if_neg h.not_middle, if_neg h.not_short, hreps]
  simp only [if_neg hdelete, Dart.clientRequestCountIncr_eq]
  split
  next => rfl
  next =>
    have hindex : d.counted.clientRequestCount.toNatClampNeg %
        (d.getReplicaNodeIds base).length = d.repIndex := by
      rw [Dart.length_getReplicaNodeIds, Dart.repIndex]
    simp only [Option.bind_eq_bind, Option.bind_some, hindex,
      d.getElem?_getReplicaNodeIds _ d.repIndex_lt]
    rfl

theorem dartHash_of_read (h : isIndexWriteOp opType = false) :
    dartHash sfxTree d token opType cb = (getServerIdsForQuery sfxTree d token opType).bind fun p =>
        (hashResults p.2 token 0 p.1).map fun results => (results, p.2) := by
  have hinsert : opType ≠ .insert := fun heq => by simp [heq, isIndexWriteOp] at h
  have hone : loopCount sfxTree token opType = 1 := by simp [loopCount, h]
  have htok : tokOf sfxTree token 0 = token := by simp [tokOf]
  rw [dartHash, hone]
  show (hashStep sfxTree token opType cb ([], d) 0).bind some = _
  rw [Option.bind_fun_some, hashStep]
  simp only [if_neg hinsert, htok, nil_append, Option.bind_eq_bind]
  refine congrArg _ (funext fun p => ?_)
  cases hashResults p.2 token 0 p.1 <;> rfl

theorem dartHash_two (h : TwoChoices sfxTree d token opType) (hper : d.numVnodePerServer ≠ 0)
    (hreps : d.replicasOfToken token = some (d.getReplicaNodeIds base, d.getReplicaNodeIds alter)) :
    dartHash sfxTree d token opType cb =
      if d.clientRequestCount = Int32.maxValue then none
      else some ((d.chosen base alter).map (hashResult d token 0), d.counted) := by
  rw [dartHash_of_read h.not_write, getServerIdsForQuery_two h hreps]
  split
  next => rfl
  next =>
    rw [Option.bind_some, hashResults_eq (d := d.counted) hper]
    rfl

end Results

/-! ## Exact queries and deletions -/

/-- A query for a token is sent to at most two nodes, and one of them is a node at which the form
of a key was inserted. -/
def RoutedTo (sfxTree : Bool) (d : Dart) (token : Bytes) (opType : DartOpType)
    (ins : List IndexHashResult) (tok : Bytes) (iter : Nat) : Prop :=
  ∃ out d', dartHash sfxTree d token opType none = some (out, d') ∧ out.length ≤ 2 ∧
    ∃ q ∈ out, ∃ r ∈ ins,
      r.key = tok ∧ r.isSuffix = decide (0 < iter) ∧ q.virtualNodeId = r.virtualNodeId

section RoutedTo

variable {sfxTree : Bool} {d d' : Dart} {key token : Bytes} {opType : DartOpType}
  {cb : Option (Nat → ServerInfo)} {ins : List IndexHashResult} {iter : Nat}

theorem routedTo_of_replicas_eq (hins : dartHash sfxTree d key .insert cb = some (ins, d'))
    (hiter : iter < loopCount sfxTree key .insert) (htwo : TwoChoices sfxTree d token opType)
    (hcount : d.clientRequestCount ≠ Int32.maxValue)
    (h : d.replicasOfToken token = d.replicasOfToken (tokOf sfxTree key iter)) :
    RoutedTo sfxTree d token opType ins (tokOf sfxTree key iter) iter := by
  obtain ⟨ids, hat⟩ := exists_insertedAt hins hiter
  obtain ⟨hper, base, alter, hreps, hor⟩ := Dart.getServerIdsForInsert_cases hat.nodes
  have hnode : ∃ master, (master = base ∨ master = alter) ∧ ids = d.getReplicaNodeIds master := by
    rcases hor with h | h
    · exact ⟨base, .inl rfl, h⟩
    · exact ⟨alter, .inr rfl, h⟩
  obtain ⟨master, hmaster, rfl⟩ := hnode
  have hchosen : d.replica master d.repIndex ∈ d.chosen base alter := by
    rw [Dart.mem_chosen]
    rcases hmaster with rfl | rfl
    · exact .inl rfl
    · exact .inr rfl
  exact ⟨_, _, (dartHash_two htwo hper (h.trans hreps)).trans (if_neg hcount),
    by rw [length_map, Dart.chosen]; split <;> simp, _, mem_map_of_mem hchosen, _,
    hat.mem _ (mem_map_of_mem (mem_range.mpr d.repIndex_lt)), rfl, rfl, rfl⟩

theorem clientRequestCount_ne_of_routedTo {tok : Bytes} (htwo : TwoChoices sfxTree d token opType)
    (h : RoutedTo sfxTree d token opType ins tok iter) :
    d.clientRequestCount ≠ Int32.maxValue := by
  intro hmax
  obtain ⟨out, d'', hout, -⟩ := h
  have hinsert : opType ≠ .insert := fun heq => by simpa [heq, isIndexWriteOp] using htwo.not_write
  have hdelete : opType ≠ .delete := fun heq => by simpa [heq, isIndexWriteOp] using htwo.not_write
  have hincr : d.clientRequestCountIncr = none := by
    rw [Dart.clientRequestCountIncr_eq, if_pos hmax]
  rw [dartHash_of_read htwo.not_write, getServerIdsForQuery, if_neg hinsert, if_neg htwo.not_middle,
    if_neg htwo.not_short, hincr] at hout
  simp only [if_neg hdelete] at hout
  cases hreps : d.replicasOfToken token with
  | none =>
    rw [hreps] at hout
    cases hout
  | some reps =>
    rw [hreps] at hout
    cases hout

end RoutedTo

/-- An exact query for each form of a key gets to a node of the insert, and a deletion to all
of them. -/
def ExactRouted (sfxTree : Bool) (d : Dart) (key : Bytes) (ins : List IndexHashResult) : Prop :=
  (∀ iter < loopCount sfxTree key .insert,
    RoutedTo sfxTree d (tokOf sfxTree key iter) .exactQuery ins (tokOf sfxTree key iter) iter) ∧
  ∃ del d', dartHash sfxTree d key .delete none = some (del, d') ∧ ∀ r ∈ ins, r ∈ del

theorem twoChoices_exactQuery (sfxTree : Bool) (d : Dart) (token : Bytes) :
    TwoChoices sfxTree d token .exactQuery where
  not_write := rfl
  not_middle := by simp
  not_short := by cases sfxTree <;> simp [isAffixQuery]

theorem loopCount_insert_pos (h : key ≠ []) :
    0 < loopCount sfxTree key .insert := by
  cases sfxTree with
  | true => exact length_pos_iff.mpr h
  | false => exact Nat.two_pos

/-- What was inserted, with whatever answers about the load, is found by exact queries and by
deletions, just if the counter of requests can be raised. -/
theorem exactRouted_iff (sfxTree : Bool) (d d' : Dart) (key : Bytes) (hkey : key ≠ [])
    (cb : Option (Nat → ServerInfo)) (ins : List IndexHashResult) (count : Int32)
    (hins : dartHash sfxTree (d.withCount count) key .insert cb = some (ins, d')) :
    ExactRouted sfxTree d key ins ↔ d.clientRequestCount ≠ Int32.maxValue := by
  have hins := dartHash_insert_withCount hins
  constructor
  · rintro ⟨hexact, -⟩
    exact clientRequestCount_ne_of_routedTo (twoChoices_exactQuery _ _ _)
      (hexact 0 (loopCount_insert_pos hkey))
  · intro hcount
    refine ⟨fun iter hiter => ?_, ?_⟩
    · exact routedTo_of_replicas_eq hins hiter (twoChoices_exactQuery _ _ _) hcount rfl
    · obtain ⟨del, hdel, hmem⟩ := dartHash_delete hins
      exact ⟨del, d, hdel, hmem⟩

/-! ## The space with the default settings -/

/-- The space for four servers, after some number of requests. -/
def defaultSpace (clientRequestCount : Int32) : Dart where
  alphabetSize := 27
  dartTreeHeight := 4
  replicationFactor := 3
  clientRequestCount
  numServer := 4
  numVnode := 531441
  one_le_alphabetSize := Nat.succ_pos 26
  alphabetSize_lt := by decide
  one_le_dartTreeHeight := Nat.succ_pos 3
  dartTreeHeight_lt := by decide
  one_le_replicationFactor := Nat.succ_pos 2
  replicationFactor_lt := by decide
  one_le_numServer := Nat.succ_pos 3
  numServer_lt := by decide

def inserted (sfxTree : Bool) (d : Dart) (key : Bytes) (cb : Option (Nat → ServerInfo)) :
    List IndexHashResult := ((dartHash sfxTree d key .insert cb).map Prod.fst).getD []

theorem dartHash_insert_eq {d : Dart}
    {cb : Option (Nat → ServerInfo)} (h : (dartHash sfxTree d key .insert cb).isSome) :
    dartHash sfxTree d key .insert cb = some (inserted sfxTree d key cb, d) := by
  obtain ⟨⟨ins, d'⟩, hins⟩ := Option.isSome_iff_exists.mp h
  obtain ⟨-, hres⟩ := (dartHash_of_write rfl).mp hins
  rw [inserted, hins, (Prod.mk.inj hres).2]
  rfl

def sameLoad : Option (Nat → ServerInfo) := some fun _ _ _ => (0, 0)

theorem exactRouted_first_request :
    ExactRouted false (defaultSpace 0) [97, 98]
      (inserted false (defaultSpace 0) [97, 98] sameLoad) :=
  (exactRouted_iff false (defaultSpace 0) (defaultSpace 0) [97, 98] (cons_ne_nil _ _)
    sameLoad _ 0 (dartHash_insert_eq (by decide +kernel))).mpr (by decide)

/-- The request after as many as an `int` can count has no outcome. -/
theorem not_exactRouted_last_request :
    (dartHash false (defaultSpace Int32.maxValue) [97, 98] .insert sameLoad).isSome ∧
    ¬ExactRouted false (defaultSpace Int32.maxValue) [97, 98]
      (inserted false (defaultSpace Int32.maxValue) [97, 98] sameLoad) := by
  refine ⟨by decide +kernel, fun h => ?_⟩
  obtain ⟨out, d', hout, -⟩ := h.1 0 Nat.two_pos
  have hnone : (dartHash false (defaultSpace Int32.maxValue) [97, 98] .exactQuery none).isNone := by
    decide +kernel
  have htok : tokOf false [97, 98] 0 = [97, 98] := rfl
  rw [htok] at hout
  rw [hout] at hnone
  cases hnone

end Pdc
