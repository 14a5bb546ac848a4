import Pdc.Proofs.Dart

/-!
# Queries for parts of keywords

A query that is not for a whole keyword is routed in three ways. One for something in
the middle goes to all servers, and one for a short beginning to the servers of the
region of its first letter; a beginning that has at least as many letters as the tree
is high goes to two virtual nodes, as if it were the keyword.

In the first two cases the ids of servers are treated as ids of virtual nodes
afterwards, and divided by the number of virtual nodes of a server once more. The
servers that are asked are therefore a range at the lower end of all servers. An
insert puts a keyword at its base node or at its alternative one, whatever the
load wants, so the replicas of both have to get into that range. In the third case
the nodes are those of the keyword if the letter behind the leaves is part of the
beginning.
-/

namespace Pdc

open Lib List

variable {serverId : UInt32}

theorem toNat_ofInt (x : Int) : (UInt64.ofInt x).toNat = (x % 2 ^ 64).toNat := by
  rw [UInt64.ofInt, UInt64.toNat_ofNat']
  omega

theorem fitsInt_intOf (x : UInt64) : FitsInt (intOf x) := by
  have hlt : intOf x < (((2 ^ 32 : Nat) : Int) + 1) / 2 := Int.bmod_lt (by decide)
  have hle : -(((2 ^ 32 : Nat) : Int) / 2) ≤ intOf x := Int.le_bmod (by decide)
  rw [FitsInt]
  omega

namespace Dart

variable {d : Dart}

/-- The number of virtual nodes of a server, as it is divided by. -/
def perServer (d : Dart) : Nat := (UInt64.ofInt d.numVnodePerServer).toNat

theorem perServer_pos (h : d.numVnodePerServer ≠ 0) : 0 < d.perServer := by
  have hfits : FitsInt d.numVnodePerServer := fitsInt_intOf _
  rw [FitsInt] at hfits
  rw [perServer, toNat_ofInt]
  omega

theorem toNat_serverIdOf (d : Dart) (vnodeId : UInt64) :
    (d.serverIdOf vnodeId).toNat = vnodeId.toNat / d.perServer % d.numServer := by
  have hlt : d.numServer < 2 ^ 64 := d.numServer_lt.trans (by decide)
  rw [serverIdOf, UInt64.toNat_mod, UInt64.toNat_div, UInt64.toNat_ofNat', Nat.mod_eq_of_lt hlt,
    perServer]

theorem toNat_serverIdOf_lt (d : Dart) (vnodeId : UInt64) :
    (d.serverIdOf vnodeId).toNat < d.numServer := by
  rw [toNat_serverIdOf]
  exact Nat.mod_lt _ d.one_le_numServer

/-- The server that is asked when the id of a server is taken for that of a virtual node. -/
theorem toNat_serverIdOf_ofNat {i : Nat} (h : i < d.numServer) :
    (d.serverIdOf (UInt64.ofNat i)).toUInt32.toNat = i / d.perServer := by
  have hi : i < 2 ^ 31 := h.trans d.numServer_lt
  have hdiv : i / d.perServer ≤ i := Nat.div_le_self i d.perServer
  rw [UInt64.toNat_toUInt32, toNat_serverIdOf, UInt64.toNat_ofNat',
    Nat.mod_eq_of_lt (a := i) (by omega), Nat.mod_eq_of_lt (hdiv.trans_lt h),
    Nat.mod_eq_of_lt (by omega)]

theorem exists_serverIdOf_iff (hper : d.numVnodePerServer ≠ 0) {first last : Nat}
    (hlast : last < d.numServer) :
    (∃ i, first ≤ i ∧ i ≤ last ∧ (d.serverIdOf (UInt64.ofNat i)).toUInt32 = serverId) ↔
      first ≤ last ∧ first / d.perServer ≤ serverId.toNat ∧
        serverId.toNat ≤ last / d.perServer := by
  have hpos := perServer_pos hper
  constructor
  · rintro ⟨i, hfirst, hi, rfl⟩
    rw [toNat_serverIdOf_ofNat (hi.trans_lt hlast)]
    exact ⟨hfirst.trans hi, Nat.div_le_div_right hfirst, Nat.div_le_div_right hi⟩
  · rintro ⟨hle, hlow, hhigh⟩
    -- the first id that leads to the server
    refine ⟨max first (serverId.toNat * d.perServer), le_max_left _ _, ?_, ?_⟩
    · exact max_le hle ((Nat.le_div_iff_mul_le hpos).mp hhigh)
    · have hmax : max first (serverId.toNat * d.perServer) ≤ last :=
        max_le hle ((Nat.le_div_iff_mul_le hpos).mp hhigh)
      rw [← UInt32.toNat_inj, toNat_serverIdOf_ofNat (hmax.trans_lt hlast)]
      refine le_antisymm ?_ ?_
      · rcases le_total first (serverId.toNat * d.perServer) with h | h
        · rw [max_eq_right h, Nat.mul_div_cancel _ hpos]
        · rw [max_eq_left h]
          exact hlow
      · rw [Nat.le_div_iff_mul_le hpos]
        exact le_max_right _ _

end Dart

/-! ## Broadcasts -/

section Broadcast

variable {sfxTree : Bool} {d : Dart} {token : Bytes} {opType : DartOpType}

/-- A query that is sent to a range of servers. -/
def IsBroadcast (sfxTree : Bool) (d : Dart) (token : Bytes) (opType : DartOpType) : Prop :=
  (sfxTree = false ∧ opType = .infixQuery) ∨
    (token.length < d.dartTreeHeight ∧ isAffixQuery sfxTree opType = true)

/-- The first and the last of the ids a broadcast computes: all servers, or those of the first and
the last virtual node of the region of the token's first letter. -/
def broadcastRange (sfxTree : Bool) (d : Dart) (token : Bytes) (opType : DartOpType) : Nat × Nat :=
  if sfxTree = false ∧ opType = .infixQuery then (0, d.numServer - 1)
  else
    ((d.serverIdOf (UInt64.ofInt (d.tokenRegionStart token))).toNat,
      (d.serverIdOf (UInt64.ofInt (d.tokenRegionStart token + d.regionSize - 1))).toNat)

/-- The servers that are asked in the end: the range is divided by the number of virtual nodes
of a server. -/
def Asked (sfxTree : Bool) (d : Dart) (token : Bytes) (opType : DartOpType) (serverId : UInt32) :
    Prop :=
  let range := broadcastRange sfxTree d token opType
  range.1 ≤ range.2 ∧ range.1 / d.perServer ≤ serverId.toNat ∧
    serverId.toNat ≤ range.2 / d.perServer

/-- Servers have virtual nodes, and the region of the token is within an `int`. -/
structure BroadcastDefined (sfxTree : Bool) (d : Dart) (token : Bytes) (opType : DartOpType) :
    Prop where
  numVnodePerServer : d.numVnodePerServer ≠ 0
  region : ¬(sfxTree = false ∧ opType = .infixQuery) →
    FitsInt (d.tokenRegionStart token) ∧ FitsInt (d.tokenRegionStart token + d.regionSize)

theorem not_write_of_isBroadcast (h : IsBroadcast sfxTree d token opType) :
    isIndexWriteOp opType = false := by
  rcases h with ⟨-, rfl⟩ | ⟨-, haffix⟩
  · rfl
  · cases opType <;> cases sfxTree <;> first | rfl | cases haffix

theorem hashResults_of_zero (h : d.numVnodePerServer = 0) {ids : List UInt64} (hids : ids ≠ []) :
    hashResults d token 0 ids = none := by
  obtain ⟨id, ids, rfl⟩ := exists_cons_of_ne_nil hids
  have hnone : d.getServerIdByVnodeId id = none := if_pos h
  rw [hashResults, mapM_cons, hnone]
  rfl

theorem broadcastRange_lt (sfxTree : Bool) (d : Dart) (token : Bytes) (opType : DartOpType) :
    (broadcastRange sfxTree d token opType).2 < d.numServer := by
  rw [broadcastRange]
  split
  · exact Nat.sub_lt d.one_le_numServer Nat.one_pos
  · exact d.toNat_serverIdOf_lt _

def broadcastIds (sfxTree : Bool) (d : Dart) (token : Bytes) (opType : DartOpType) : List UInt64 :=
  let range := broadcastRange sfxTree d token opType
  (List.range' range.1 (range.2 + 1 - range.1)).map UInt64.ofNat

theorem getServerIdsForQuery_middle (htree : sfxTree = false) :
    getServerIdsForQuery sfxTree d token .infixQuery =
      some (broadcastIds sfxTree d token .infixQuery, d) := by
  rw [getServerIdsForQuery, if_neg (by decide), if_pos ⟨htree, rfl⟩, broadcastIds, broadcastRange,
    if_pos ⟨htree, rfl⟩, range_eq_range', Nat.sub_add_cancel d.one_le_numServer, Nat.sub_zero]

theorem getServerIdsForQuery_short (h : IsBroadcast sfxTree d token opType)
    (hmiddle : ¬(sfxTree = false ∧ opType = .infixQuery)) :
    getServerIdsForQuery sfxTree d token opType = (d.serversOfRegion token).map (·, d) := by
  have hwrite := not_write_of_isBroadcast h
  have hinsert : opType ≠ .insert := fun heq => by simp [heq, isIndexWriteOp] at hwrite
  rw [getServerIdsForQuery, if_neg hinsert, if_neg hmiddle, if_pos (h.resolve_left hmiddle)]

theorem serversOfRegion_eq (hper : d.numVnodePerServer ≠ 0)
    (hmiddle : ¬(sfxTree = false ∧ opType = .infixQuery))
    (hfits : FitsInt (d.tokenRegionStart token) ∧
      FitsInt (d.tokenRegionStart token + d.regionSize)) :
    d.serversOfRegion token = some (broadcastIds sfxTree d token opType) := by
  rw [Dart.serversOfRegion, if_neg (by simp [hfits]), Dart.getServerIdByVnodeId_eq hper,
    Dart.getServerIdByVnodeId_eq hper, broadcastIds, broadcastRange, if_neg hmiddle]
  rfl

theorem dartHash_broadcast (h : IsBroadcast sfxTree d token opType)
    (hdefined : BroadcastDefined sfxTree d token opType) :
    dartHash sfxTree d token opType none =
      some ((broadcastIds sfxTree d token opType).map (hashResult d token 0), d) := by
  have hids : getServerIdsForQuery sfxTree d token opType =
      some (broadcastIds sfxTree d token opType, d) := by
    by_cases hmiddle : sfxTree = false ∧ opType = .infixQuery
    · rw [hmiddle.2]
      exact getServerIdsForQuery_middle hmiddle.1
    · rw [getServerIdsForQuery_short h hmiddle,
        serversOfRegion_eq hdefined.numVnodePerServer hmiddle (hdefined.region hmiddle)]
      rfl
  rw [dartHash_of_read (not_write_of_isBroadcast h), hids, Option.bind_some,
    hashResults_eq hdefined.numVnodePerServer]
  rfl

theorem broadcastDefined_of_isSome (h : IsBroadcast sfxTree d token opType)
    {res : List IndexHashResult × Dart} (hres : dartHash sfxTree d token opType none = some res) :
    BroadcastDefined sfxTree d token opType := by
  rw [dartHash_of_read (not_write_of_isBroadcast h), Option.bind_eq_some_iff] at hres
  obtain ⟨⟨ids, d'⟩, hids, hres⟩ := hres
  by_cases hmiddle : sfxTree = false ∧ opType = .infixQuery
  · refine ⟨fun hzero => ?_, fun hnot => absurd hmiddle hnot⟩
    rw [hmiddle.2, getServerIdsForQuery, if_neg (by decide), if_pos ⟨hmiddle.1, rfl⟩] at hids
    obtain ⟨rfl, rfl⟩ := Prod.mk.inj (Option.some.inj hids)
    have hne : (range d.numServer).map UInt64.ofNat ≠ [] := by
      have := d.one_le_numServer
      simp
      omega
    rw [hashResults_of_zero hzero hne] at hres
    cases hres
  · rw [getServerIdsForQuery_short h hmiddle, Option.map_eq_some_iff] at hids
    obtain ⟨ids', hids', -⟩ := hids
    rw [Dart.serversOfRegion] at hids'
    split at hids'
    next => cases hids'
    next hfits =>
      rw [not_or, not_not, not_not] at hfits
      rw [Option.bind_eq_bind, Option.bind_eq_some_iff] at hids'
      obtain ⟨serverStart, hstart, -⟩ := hids'
      exact ⟨Dart.numVnodePerServer_ne_zero hstart, fun _ => hfits⟩

theorem exists_broadcast_iff (hper : d.numVnodePerServer ≠ 0) :
    (∃ q ∈ (broadcastIds sfxTree d token opType).map (hashResult d token 0),
      q.serverId = serverId) ↔ Asked sfxTree d token opType serverId := by
  rw [Asked, ← Dart.exists_serverIdOf_iff hper (broadcastRange_lt sfxTree d token opType)]
  simp only [broadcastIds, map_map, mem_map, mem_range'_1, Function.comp_apply]
  constructor
  · rintro ⟨q, ⟨i, hi, rfl⟩, rfl⟩
    exact ⟨i, by omega, by omega, rfl⟩
  · rintro ⟨i, hfirst, hlast, rfl⟩
    exact ⟨_, ⟨i, by omega, rfl⟩, rfl⟩

/-- A key that has been inserted after some number of requests, and what was returned for it. -/
structure InsertedKey (sfxTree : Bool) (d : Dart) where
  key : Bytes
  cb : Option (Nat → ServerInfo)
  count : Int32
  ins : List IndexHashResult
  ne_nil : key ≠ []
  inserted : dartHash sfxTree (d.withCount count) key .insert cb = some (ins, d.withCount count)

/-- The forms of a key that a query searches and matches. The token of a suffix query is the
reversed suffix. -/
def MatchesForm (sfxTree : Bool) (opType : DartOpType) (token key : Bytes) (iter : Nat) : Prop :=
  match opType with
  | .prefixQuery => iter = 0 ∧ token <+: key
  | .suffixQuery => iter = 1 ∧ token <+: key.reverse
  | .infixQuery =>
    if sfxTree then iter < key.length ∧ token <+: key.drop iter else iter = 0 ∧ token <:+: key
  | _ => False

/-- Of the servers a form of a key was inserted at, one has a property. -/
def InsertedKey.OnServer (k : InsertedKey sfxTree d) (iter : Nat) (P : UInt32 → Prop) : Prop :=
  ∃ r ∈ k.ins, r.key = tokOf sfxTree k.key iter ∧ r.isSuffix = decide (0 < iter) ∧ P r.serverId

/-- For every key that matches, and however it was inserted, a broadcast gets to a server at which
the key is, in a form that matches. -/
def BroadcastComplete (sfxTree : Bool) (d : Dart) (keys : Set Bytes) (token : Bytes)
    (opType : DartOpType) : Prop :=
  ∃ out d', dartHash sfxTree d token opType none = some (out, d') ∧
    ∀ k : InsertedKey sfxTree d, k.key ∈ keys →
      (∃ iter, MatchesForm sfxTree opType token k.key iter) →
        ∃ iter, MatchesForm sfxTree opType token k.key iter ∧
          k.OnServer iter fun serverId => ∃ q ∈ out, q.serverId = serverId

/-! ## Where an insert puts a key -/

/-- The base node of a word and its alternative node, which is the base node again if the tree
has one level. -/
def Dart.nodesOf (d : Dart) (word : Bytes) : List UInt64 :=
  (d.getBaseVirtualNodeIdByString word).elim [] fun base =>
    base :: (d.getReconciledVnodeId base word none).toList

/-- A replica of a node is on one of the servers that are asked. -/
def ReplicaAsked (sfxTree : Bool) (d : Dart) (token : Bytes) (opType : DartOpType)
    (vnode : UInt64) : Prop :=
  ∃ r < d.replicationFactor, Asked sfxTree d token opType
    (d.serverIdOf (d.replica vnode r)).toUInt32

namespace Dart

variable {word : Bytes} {vnode base alter : UInt64}

theorem exists_mem_nodesOf {cb : Option ServerInfo} {ids : List UInt64}
    (h : d.getServerIdsForInsert word cb = some ids) :
    ∃ vnode ∈ d.nodesOf word, ids = d.getReplicaNodeIds vnode := by
  rw [getServerIdsForInsert, Option.bind_eq_bind, Option.bind_eq_some_iff] at h
  obtain ⟨base, hbase, h⟩ := h
  rw [Option.bind_eq_some_iff] at h
  obtain ⟨vnode, hvnode, h⟩ := h
  obtain ⟨-, alter, halter, hor⟩ := getReconciledVnodeId_cases hvnode
  refine ⟨vnode, ?_, (Option.some.inj h).symm⟩
  rw [nodesOf, hbase, Option.elim_some, halter, Option.toList_some, mem_cons, mem_singleton]
  exact hor

theorem getReconciledVnodeId_some (h : d.getReconciledVnodeId base word none = some alter) :
    ∃ serverId alterServer, ∀ info : ServerInfo, d.getReconciledVnodeId base word (some info) =
      some (if (info serverId alterServer).2 < (info serverId alterServer).1 then alter
        else base) := by
  rw [getReconciledVnodeId, Option.bind_eq_bind, Option.bind_eq_some_iff] at h
  obtain ⟨serverId, hserver, h⟩ := h
  simp only [getReconciledVnodeId, hserver, Option.bind_eq_bind, Option.bind_some]
  split at h
  next hheight =>
    obtain rfl := Option.some.inj h
    refine ⟨0, 0, fun info => ?_⟩
    rw [if_pos hheight, ite_self]
  next hheight =>
    rw [Option.bind_eq_some_iff] at h
    obtain ⟨alter', halter, h⟩ := h
    rw [Option.bind_eq_some_iff] at h
    obtain ⟨alterServer, halterServer, h⟩ := h
    obtain rfl := Option.some.inj h
    refine ⟨serverId.toUInt32, alterServer.toUInt32, fun info => ?_⟩
    rw [if_neg hheight, halter, Option.bind_some, halterServer, Option.bind_some]

/-- Each of the two nodes is the one of the insert for some answer about the loads: the base node
if they are equal, the other one if its server has less. -/
theorem exists_load {ids : List UInt64} (h : d.getServerIdsForInsert word none = some ids)
    (hvnode : vnode ∈ d.nodesOf word) :
    ∃ info, d.getServerIdsForInsert word (some info) = some (d.getReplicaNodeIds vnode) := by
  rw [getServerIdsForInsert, Option.bind_eq_bind, Option.bind_eq_some_iff] at h
  obtain ⟨base, hbase, h⟩ := h
  rw [Option.bind_eq_some_iff] at h
  obtain ⟨alter, halter, -⟩ := h
  obtain ⟨serverId, alterServer, hinfo⟩ := getReconciledVnodeId_some halter
  rw [nodesOf, hbase, Option.elim_some, halter, Option.toList_some, mem_cons,
    mem_singleton] at hvnode
  have hload : ∃ info, d.getReconciledVnodeId base word (some info) = some vnode := by
    rcases hvnode with rfl | rfl
    · refine ⟨fun _ _ => (0, 0), (hinfo _).trans ?_⟩
      exact congrArg some (if_neg (show ¬(0 : Int64) < 0 by decide))
    · refine ⟨fun _ _ => (1, 0), (hinfo _).trans ?_⟩
      exact congrArg some (if_pos (show (0 : Int64) < 1 by decide))
  obtain ⟨info, hload⟩ := hload
  refine ⟨info, ?_⟩
  rw [getServerIdsForInsert, hbase, Option.bind_eq_bind, Option.bind_some, hload, Option.bind_some]

end Dart

theorem tokOf_inj {key : Bytes} {iter iter' : Nat} (hiter : iter < loopCount sfxTree key .insert)
    (hiter' : iter' < loopCount sfxTree key .insert)
    (htok : tokOf sfxTree key iter = tokOf sfxTree key iter')
    (hsuffix : decide (0 < iter) = decide (0 < iter')) : iter = iter' := by
  rw [decide_eq_decide] at hsuffix
  cases sfxTree with
  | true =>
    have hlen := congrArg length htok
    change (key.drop iter).length = (key.drop iter').length at hlen
    rw [length_drop, length_drop] at hlen
    change iter < key.length at hiter
    change iter' < key.length at hiter'
    omega
  | false =>
    change iter < 2 at hiter
    change iter' < 2 at hiter'
    omega

theorem not_suffix_of_isBroadcast (h : IsBroadcast sfxTree d token opType) :
    sfxTree = true → opType ≠ .suffixQuery := by
  rintro rfl rfl
  simp [IsBroadcast, isAffixQuery] at h

/-- In suffix tree mode there are no reversed forms that a suffix query could search. -/
theorem lt_loopCount_of_matches {key : Bytes} (hkey : key ≠ []) {iter : Nat}
    (h : sfxTree = true → opType ≠ .suffixQuery)
    (hmatch : MatchesForm sfxTree opType token key iter) :
    iter < loopCount sfxTree key .insert := by
  have hpos : 0 < loopCount sfxTree key .insert := loopCount_insert_pos hkey
  cases opType with
  | prefixQuery => exact hmatch.1.symm ▸ hpos
  | suffixQuery =>
    cases sfxTree with
    | false => exact hmatch.1.symm ▸ Nat.one_lt_two
    | true => exact absurd rfl (h rfl)
  | infixQuery =>
    cases sfxTree with
    | false => exact hmatch.1.symm ▸ hpos
    | true => exact hmatch.1
  | insert => cases hmatch
  | exactQuery => cases hmatch
  | delete => cases hmatch
  | rangeQuery => cases hmatch

/-- The loads can be such that every form of a key is at a node of one's choice. -/
theorem exists_insertedKey {key : Bytes} (hkey : key ≠ [])
    (hins : (dartHash sfxTree d key .insert none).isSome) {node : Nat → UInt64}
    (hnode : ∀ iter < loopCount sfxTree key .insert,
      node iter ∈ d.nodesOf (tokOf sfxTree key iter)) :
    ∃ k : InsertedKey sfxTree d, k.key = key ∧ ∀ iter < loopCount sfxTree key .insert, ∀ P,
      k.OnServer iter P →
        ∃ r < d.replicationFactor, P (d.serverIdOf (d.replica (node iter) r)).toUInt32 := by
  obtain ⟨⟨ins, d'⟩, hins⟩ := Option.isSome_iff_exists.mp hins
  have hload : ∀ iter < loopCount sfxTree key .insert, ∃ info : ServerInfo,
      d.getServerIdsForInsert (tokOf sfxTree key iter) (some info) =
        some (d.getReplicaNodeIds (node iter)) := by
    intro iter hiter
    obtain ⟨ids, hat⟩ := exists_insertedAt hins hiter
    exact Dart.exists_load hat.nodes (hnode iter hiter)
  choose! info hinfo using hload
  have hforms : ∀ iter < loopCount sfxTree key .insert,
      (formResults sfxTree d key .insert (some info) iter).isSome := by
    intro iter hiter
    have hids := hinfo iter hiter
    obtain ⟨hper, -⟩ := Dart.getServerIdsForInsert_cases hids
    simp [formResults, hids, hashResults_eq hper]
  have hinserted : dartHash sfxTree d key .insert (some info) = some _ :=
    (dartHash_of_write rfl).mpr ⟨hforms, rfl⟩
  refine ⟨⟨key, some info, d.clientRequestCount, _, hkey, hinserted⟩, rfl, ?_⟩
  rintro iter hiter P ⟨r, hr, hrkey, hrsuffix, hP⟩
  obtain ⟨iter', hiter', ids, hat, id, hid, rfl⟩ := exists_of_mem_insert hinserted hr
  obtain rfl : iter' = iter := tokOf_inj hiter' hiter hrkey hrsuffix
  obtain rfl := Option.some.inj (hat.nodes.symm.trans (hinfo iter' hiter'))
  rw [Dart.getReplicaNodeIds_eq, mem_map] at hid
  obtain ⟨i, hi, rfl⟩ := hid
  exact ⟨i, mem_range.mp hi, hP⟩

/-- A broadcast gets to all keys that match, whatever the loads were, just if it has an outcome
and both nodes of a form of each of them have a replica on one of the few servers that are
asked. -/
theorem broadcastComplete_iff (sfxTree : Bool) (d : Dart) (keys : Set Bytes) (token : Bytes)
    (opType : DartOpType) (h : IsBroadcast sfxTree d token opType)
    (hkeys : ∀ key ∈ keys, key ≠ [] ∧ (dartHash sfxTree d key .insert none).isSome) :
    BroadcastComplete sfxTree d keys token opType ↔ BroadcastDefined sfxTree d token opType ∧
        ∀ key ∈ keys, (∃ iter, MatchesForm sfxTree opType token key iter) →
          ∃ iter, MatchesForm sfxTree opType token key iter ∧
            ∀ vnode ∈ d.nodesOf (tokOf sfxTree key iter),
              ReplicaAsked sfxTree d token opType vnode := by
  constructor
  · rintro ⟨out, d', hout, hcomplete⟩
    have hdefined := broadcastDefined_of_isSome h hout
    rw [dartHash_broadcast h hdefined] at hout
    obtain ⟨rfl, -⟩ := Prod.mk.inj (Option.some.inj hout)
    refine ⟨hdefined, fun key hkey hmatch => ?_⟩
    by_contra hno
    push Not at hno
    -- Each form that matches has a node that is not asked, and the loads take it there.
    have hnodes : ∀ iter < loopCount sfxTree key .insert, ∃ node,
        node ∈ d.nodesOf (tokOf sfxTree key iter) ∧
          (MatchesForm sfxTree opType token key iter →
            ¬ReplicaAsked sfxTree d token opType node) := by
      intro iter hiter
      by_cases hform : MatchesForm sfxTree opType token key iter
      · obtain ⟨node, hnode, hnot⟩ := hno iter hform
        exact ⟨node, hnode, fun _ => hnot⟩
      · obtain ⟨⟨ins, d'⟩, hins⟩ := Option.isSome_iff_exists.mp (hkeys key hkey).2
        obtain ⟨ids, hat⟩ := exists_insertedAt hins hiter
        obtain ⟨node, hnode, -⟩ := Dart.exists_mem_nodesOf hat.nodes
        exact ⟨node, hnode, fun hmatch => absurd hmatch hform⟩
    choose! node hnode using hnodes
    obtain ⟨k, rfl, hk⟩ := exists_insertedKey (hkeys _ hkey).1 (hkeys _ hkey).2
      fun iter hiter => (hnode iter hiter).1
    obtain ⟨iter, hiter, hserver⟩ := hcomplete k hkey hmatch
    have hlt := lt_loopCount_of_matches k.ne_nil (not_suffix_of_isBroadcast h) hiter
    obtain ⟨r, hr, hasked⟩ := hk iter hlt _ hserver
    exact (hnode iter hlt).2 hiter
      ⟨r, hr, (exists_broadcast_iff hdefined.numVnodePerServer).mp hasked⟩
  · rintro ⟨hdefined, hnodes⟩
    refine ⟨_, d, dartHash_broadcast h hdefined, fun k hk hmatch => ?_⟩
    obtain ⟨iter, hiter, hasked⟩ := hnodes k.key hk hmatch
    obtain ⟨ids, hat⟩ := exists_insertedAt (dartHash_insert_withCount k.inserted)
      (lt_loopCount_of_matches k.ne_nil (not_suffix_of_isBroadcast h) hiter)
    obtain ⟨vnode, hvnode, rfl⟩ := Dart.exists_mem_nodesOf hat.nodes
    obtain ⟨r, hr, hserver⟩ := hasked vnode hvnode
    exact ⟨iter, hiter, _, hat.mem _ (mem_map_of_mem (mem_range.mpr hr)), rfl, rfl,
      (exists_broadcast_iff hdefined.numVnodePerServer).mpr hserver⟩

end Broadcast

/-- A key of one letter in the space with the default settings. Both its base node and its
alternative node have a replica among the virtual nodes of server 0, which is the one that is
asked. -/
theorem broadcastComplete_first_server :
    BroadcastComplete false (defaultSpace 0) {[114]} [114] .infixQuery := by
  refine (broadcastComplete_iff false (defaultSpace 0) _ [114] .infixQuery (.inl ⟨rfl, rfl⟩)
    ?_).mpr ⟨⟨by decide +kernel, fun h => absurd ⟨rfl, rfl⟩ h⟩, ?_⟩
  · rintro _ rfl
    exact ⟨cons_ne_nil _ _, by decide +kernel⟩
  · rintro _ rfl -
    refine ⟨0, ⟨rfl, infix_refl _⟩, ?_⟩
    have hnodes : (defaultSpace 0).nodesOf (tokOf false [114] 0) = [122640, 505527] := by
      decide +kernel
    rw [hnodes, forall_mem_cons, forall_mem_singleton]
    exact ⟨⟨0, by decide, by decide +kernel, by decide +kernel, by decide +kernel⟩,
      2, by decide, by decide +kernel, by decide +kernel, by decide +kernel⟩

theorem insert_defaultSpace : (dartHash false (defaultSpace 0) [118] .insert sameLoad).isSome := by
  decide +kernel

/-- The key is on server 1, and a query for it in the middle of keys asks server 0 four times. -/
theorem not_broadcastComplete_defaultSpace :
    ¬BroadcastComplete false (defaultSpace 0) {[118]} [118] .infixQuery := by
  rintro ⟨out, d', hout, hkeys⟩
  have hins := dartHash_insert_eq insert_defaultSpace
  obtain ⟨iter, -, r, hr, -, -, q, hq, hserver⟩ :=
    hkeys ⟨[118], sameLoad, 0, _, cons_ne_nil _ _, hins⟩ rfl ⟨0, rfl, infix_refl _⟩
  obtain ⟨rfl, -⟩ := Prod.mk.inj (Option.some.inj hout)
  have hone : ∀ r ∈ inserted false (defaultSpace 0) [118] sameLoad, r.serverId = 1 := by
    decide +kernel
  have hzero : ∀ q ∈ (broadcastIds false (defaultSpace 0) [118] .infixQuery).map
      (hashResult (defaultSpace 0) [118] 0), q.serverId = 0 := by
    decide +kernel
  rw [hone r hr, hzero q hq] at hserver
  exact absurd hserver (by decide)

end Pdc
