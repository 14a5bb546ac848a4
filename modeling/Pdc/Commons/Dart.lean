import Pdc.Lib.Codec

/-!
# Where keywords are indexed (`dart_core.c`)

DART is a tree of fixed height whose leaves are virtual nodes. The first letters
of a keyword lead to its base node; three letters around the height of the leaves
and the first one give an alternative node in another part of the tree. A keyword is
inserted at that one of the two whose server has fewer keywords, and at replicas
of it. A query is sent to one replica of each of the two.

A write is made for a keyword and for the other forms it can be found by: its
reversed form, or all its suffixes if the suffix tree mode is on. A query that has
too few letters to get to a leaf is sent to a range of servers.

Strings are the lists of their bytes, without the zero at the end, and a `char` is
signed. There is no outcome where the code divides by zero or an `int` overflows.
After the end of a string the loop over the letters goes on reading, but does not
use what it reads.
-/

namespace Pdc

open Lib

/-- Conversion to `int`. -/
def intOf (x : UInt64) : Int := Int.bmod x.toNat (2 ^ 32)

/-- A result that an `int` can have. -/
def FitsInt (x : Int) : Prop := -2 ^ 31 ≤ x ∧ x < 2 ^ 31

instance decidableFitsInt (x : Int) : Decidable (FitsInt x) :=
  inferInstanceAs (Decidable (_ ∧ _))

/-- A character of a string. -/
def charAt (str : Bytes) (i : Nat) : Int := (str.getD i 0).toInt8.toInt

/-- `uint32_pow`. -/
def uint32Pow (base : UInt32) : Nat → UInt32
  | 0 => 1
  | pow + 1 => base * uint32Pow base pow

/-- `dart_op_type_t`. -/
inductive DartOpType where
  | insert
  | exactQuery
  | prefixQuery
  | suffixQuery
  | infixQuery
  | delete
  | rangeQuery
  deriving DecidableEq

/-- `is_index_write_op`. -/
def isIndexWriteOp (opType : DartOpType) : Bool :=
  opType == .insert || opType == .delete

/-- `DART`. -/
structure Dart where
  alphabetSize : Nat
  dartTreeHeight : Nat
  replicationFactor : Nat
  clientRequestCount : Int32
  numServer : Nat
  numVnode : UInt64
  one_le_alphabetSize : 1 ≤ alphabetSize
  alphabetSize_lt : alphabetSize < 2 ^ 31
  one_le_dartTreeHeight : 1 ≤ dartTreeHeight
  dartTreeHeight_lt : dartTreeHeight < 2 ^ 31
  one_le_replicationFactor : 1 ≤ replicationFactor
  replicationFactor_lt : replicationFactor < 2 ^ 31
  one_le_numServer : 1 ≤ numServer
  numServer_lt : numServer < 2 ^ 31

/-- The answers of `get_server_info_callback`: the numbers of words on the two servers that are
asked about. They may be different each time. -/
abbrev ServerInfo := UInt32 → UInt32 → Int64 × Int64

namespace Dart

variable (d : Dart)

/-- `num_vnode_per_server`. -/
def numVnodePerServer : Int := intOf (d.numVnode / UInt64.ofNat d.numServer)

/-- `get_server_id_by_vnode_id`. -/
def getServerIdByVnodeId (vnodeId : UInt64) : Option UInt64 :=
  if d.numVnodePerServer = 0 then none
  else some (vnodeId / UInt64.ofInt d.numVnodePerServer % UInt64.ofNat d.numServer)

/-- `dart_client_request_count_incr`. -/
def clientRequestCountIncr : Option Dart :=
  let count := if d.clientRequestCount < 0 then 0 else d.clientRequestCount
  if count = Int32.maxValue then none else some { d with clientRequestCount := count + 1 }

/-! ## Virtual nodes -/

/-- The variables of the loop over the letters. -/
structure BaseLoop where
  metEnd : Bool := false
  index : UInt64 := 0
  rst : UInt64 := 0

/-- One pass, for the letter at `i`. A string that has ended counts as if it went on with its
last letter. -/
def baseStep (str : Bytes) (s : BaseLoop) (i : Nat) : BaseLoop :=
  let metEnd := s.metEnd || charAt str i == 0
  let index :=
    if metEnd then s.index else UInt64.ofInt (charAt str i) % UInt64.ofNat d.alphabetSize
  let pow := uint32Pow (UInt32.ofNat d.alphabetSize) (d.dartTreeHeight - (i + 1))
  { metEnd, index, rst := s.rst + index * pow.toUInt64 }

/-- `get_base_virtual_node_id_by_string`. The index of a letter is not set for an empty
string. -/
def getBaseVirtualNodeIdByString (str : Bytes) : Option UInt64 :=
  if str = [] ∨ d.numVnode = 0 then none
  else some (((List.range d.dartTreeHeight).foldl (d.baseStep str) {}).rst % d.numVnode)

/-- The index of a character in the alphabet. -/
def indexOf (word : Bytes) (i : Nat) : Int := (charAt word i).tmod d.alphabetSize

def postLeafIndex (word : Bytes) : Int :=
  if word.length ≤ d.dartTreeHeight then 0 else d.indexOf word d.dartTreeHeight

/-- Where the leaf character is: the last one of a word that is not longer than the tree is
high. -/
def lastCIndex (word : Bytes) : Nat := min word.length d.dartTreeHeight - 1

def preLeafIndex (word : Bytes) : Int :=
  if word.length ≤ 1 then 0 else d.indexOf word (d.lastCIndex word - 1)

def leafIndex (word : Bytes) : Int := d.indexOf word (d.lastCIndex word)

def regionSize : Int := intOf (d.numVnode / UInt64.ofNat d.alphabetSize)

def subRegionSize : Int := d.regionSize.tdiv d.alphabetSize

/-- A product of less than the region size. -/
def majorOffset (word : Bytes) : Int :=
  (d.leafIndex word + d.preLeafIndex word + d.postLeafIndex word).tmod d.alphabetSize *
    d.subRegionSize

def minorOffset (word : Bytes) : Int :=
  (d.postLeafIndex word - d.leafIndex word - d.preLeafIndex word).natAbs

def regionOffset (baseVnodeIdx : UInt64) (word : Bytes) : UInt64 :=
  (baseVnodeIdx + UInt64.ofInt (d.majorOffset word) - UInt64.ofInt (d.minorOffset word)) %
    UInt64.ofInt d.regionSize

/-- Where the region of the alternative node starts. -/
def regionStart (word : Bytes) : Int :=
  (charAt word 0 + (d.alphabetSize / 2 : Nat)).tmod d.alphabetSize * d.regionSize

/-- The alternative node of a tree that has more than one level. -/
def alternativeVnodeId (baseVnodeIdx : UInt64) (word : Bytes) : Option UInt64 :=
  if d.regionSize = 0 ∨ ¬FitsInt (d.regionStart word) then none
  else
    some ((baseVnodeIdx + UInt64.ofInt (d.regionStart word) + d.regionOffset baseVnodeIdx word) %
      d.numVnode)

/-- `get_reconciled_vnode_id_with_power_of_two_choice_rehashing_2`. -/
def getReconciledVnodeId (baseVnodeIdx : UInt64) (word : Bytes) (getServerCb : Option ServerInfo) :
    Option UInt64 := do
  let serverId ← d.getServerIdByVnodeId baseVnodeIdx
  if d.dartTreeHeight ≤ 1 then some baseVnodeIdx
  else
    let reconciledVnodeIdx ← d.alternativeVnodeId baseVnodeIdx word
    let reconcileServerId ← d.getServerIdByVnodeId reconciledVnodeIdx
    match getServerCb with
    | none => some reconciledVnodeIdx
    | some info =>
      let counts := info serverId.toUInt32 reconcileServerId.toUInt32
      some (if counts.2 < counts.1 then reconciledVnodeIdx else baseVnodeIdx)

/-- `get_replica_node_ids`, of virtual nodes. -/
def getReplicaNodeIds (masterNodeId : UInt64) : List UInt64 :=
  let vnodeDistance := d.numVnode / UInt64.ofNat d.alphabetSize
  (List.range d.replicationFactor).map fun r =>
    if r = 0 then masterNodeId
    else (masterNodeId + UInt64.ofNat r * vnodeDistance) % d.numVnode

/-! ## Routing -/

/-- `get_server_ids_for_insert`. -/
def getServerIdsForInsert (keyword : Bytes) (getServerCb : Option ServerInfo) :
    Option (List UInt64) := do
  let baseVirtualNodeId ← d.getBaseVirtualNodeIdByString keyword
  let alterVirtualNodeId ← d.getReconciledVnodeId baseVirtualNodeId keyword getServerCb
  some (d.getReplicaNodeIds alterVirtualNodeId)

/-- Where the region of a token's first letter starts. -/
def tokenRegionStart (token : Bytes) : Int := d.indexOf token 0 * d.regionSize

/-- The servers of the region of a token. -/
def serversOfRegion (token : Bytes) : Option (List UInt64) :=
  if ¬FitsInt (d.tokenRegionStart token) ∨ ¬FitsInt (d.tokenRegionStart token + d.regionSize) then
    none
  else do
    let serverStart ← d.getServerIdByVnodeId (UInt64.ofInt (d.tokenRegionStart token))
    let serverEnd ← d.getServerIdByVnodeId
      (UInt64.ofInt (d.tokenRegionStart token + d.regionSize - 1))
    some ((List.range' serverStart.toNat (serverEnd.toNat + 1 - serverStart.toNat)).map
      UInt64.ofNat)

/-- The replicas of the two nodes a token can be at. -/
def replicasOfToken (token : Bytes) : Option (List UInt64 × List UInt64) := do
  let baseVirtualNodeId ← d.getBaseVirtualNodeIdByString token
  let reconciledVnodeId ← d.getReconciledVnodeId baseVirtualNodeId token none
  some (d.getReplicaNodeIds baseVirtualNodeId, d.getReplicaNodeIds reconciledVnodeId)

end Dart

section Routing

variable (sfxTree : Bool)

/-- A query that is sent to a range of servers if its token is short. -/
def isAffixQuery (opType : DartOpType) : Bool :=
  opType == .prefixQuery || opType == if sfxTree then .infixQuery else .suffixQuery

/-- `get_server_ids_for_query`. -/
def getServerIdsForQuery (d : Dart) (token : Bytes) (opType : DartOpType) :
    Option (List UInt64 × Dart) :=
  if opType = .insert then some ([], d)
  else if sfxTree = false ∧ opType = .infixQuery then
    some ((List.range d.numServer).map UInt64.ofNat, d)
  else if token.length < d.dartTreeHeight ∧ isAffixQuery sfxTree opType then
    (d.serversOfRegion token).map (·, d)
  else do
    let (baseReplicas, alterReplicas) ← d.replicasOfToken token
    if opType = .delete then some (baseReplicas ++ alterReplicas, d)
    else
      let d ← d.clientRequestCountIncr
      let repIndex := d.clientRequestCount.toNatClampNeg % baseReplicas.length
      let base ← baseReplicas[repIndex]?
      let alter ← alterReplicas[repIndex]?
      some (if base ≠ alter then [base, alter] else [base], d)

/-- `index_hash_result_t`. -/
structure IndexHashResult where
  serverId : UInt32
  key : Bytes
  virtualNodeId : UInt64
  isSuffix : Bool
  deriving DecidableEq

/-- How many forms of a key are looked up. -/
def loopCount (key : Bytes) (opType : DartOpType) : Nat :=
  if isIndexWriteOp opType then if sfxTree then key.length else 2 else 1

/-- A form of a key. -/
def tokOf (key : Bytes) (iter : Nat) : Bytes :=
  if sfxTree then key.drop iter else if 0 < iter then key.reverse else key

/-- The result for each of the ids. -/
def hashResults (d : Dart) (tok : Bytes) (iter : Nat) (ids : List UInt64) :
    Option (List IndexHashResult) :=
  ids.mapM fun id => (d.getServerIdByVnodeId id).map fun serverId =>
    { serverId := serverId.toUInt32
      key := tok
      virtualNodeId := id
      isSuffix := decide (0 < iter) }

/-- One pass of `DART_hash`. -/
def hashStep (key : Bytes) (opType : DartOpType) (getServerCb : Option (Nat → ServerInfo))
    (s : List IndexHashResult × Dart) (iter : Nat) : Option (List IndexHashResult × Dart) := do
  let tok := tokOf sfxTree key iter
  let (ids, d) ←
    if opType = .insert then
      (s.2.getServerIdsForInsert tok (getServerCb.map (· iter))).map (·, s.2)
    else getServerIdsForQuery sfxTree s.2 tok opType
  let results ← hashResults d tok iter ids
  some (s.1 ++ results, d)

/-- `DART_hash`: what is returned, and the space with its request count. The callback may give
other answers in each pass. -/
def dartHash (d : Dart) (key : Bytes) (opType : DartOpType)
    (getServerCb : Option (Nat → ServerInfo)) : Option (List IndexHashResult × Dart) :=
  (List.range (loopCount sfxTree key opType)).foldlM (hashStep sfxTree key opType getServerCb)
    ([], d)

end Routing

end Pdc
