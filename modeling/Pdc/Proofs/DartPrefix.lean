import Mathlib.Algebra.Order.Ring.GeomSum
import Mathlib.Data.Nat.ModEq
import Pdc.Proofs.DartAffix

/-!
# Queries for long beginnings of keywords

The nodes of a word depend on its first letters, on as many as the tree is high, and
on the one behind them, which counts as zero for a word that has no more. A beginning
with at least one letter more than the tree is high has the nodes of the keyword. One
with just as many letters has the base node of the keyword, but its alternative node
is computed without the letter that follows.

Two nodes that are replicas of one another are at the same place of their regions. The
place of the alternative node, seen from the base node, is the region offset, so a
query for a beginning misses a keyword at its alternative node if the offset of the
keyword is neither zero nor that of the beginning. There are such keywords in all
spaces but the smallest ones.
-/

namespace Pdc

open List Lib

variable {sfxTree : Bool} {token word key : Bytes} {d : Dart} {base : UInt64} {n len i x a m : Nat}

theorem charAt_append (h : i < token.length) (rest : Bytes) :
    charAt (token ++ rest) i = charAt token i := by
  rw [charAt, charAt, getD_eq_getElem?_getD, getD_eq_getElem?_getD, getElem?_append_left h]

namespace Dart

variable {d : Dart} {word word' : Bytes} {base : UInt64}

/-! ## What the nodes depend on -/

theorem getBaseVirtualNodeIdByString_congr (hword : word ≠ []) (hword' : word' ≠ [])
    (h : ∀ i < d.dartTreeHeight, charAt word i = charAt word' i) :
    d.getBaseVirtualNodeIdByString word = d.getBaseVirtualNodeIdByString word' := by
  have hstep : ∀ s, ∀ i ∈ range d.dartTreeHeight,
      d.baseStep word s i = d.baseStep word' s i := by
    intro s i hi
    rw [baseStep, baseStep, h i (mem_range.mp hi)]
  rw [getBaseVirtualNodeIdByString, getBaseVirtualNodeIdByString, foldl_ext _ _ _ hstep]
  simp [hword, hword']

theorem getReconciledVnodeId_congr
    (h : 1 < d.dartTreeHeight → d.alternativeVnodeId base word = d.alternativeVnodeId base word') :
    d.getReconciledVnodeId base word none = d.getReconciledVnodeId base word' none := by
  rw [getReconciledVnodeId, getReconciledVnodeId]
  by_cases hheight : d.dartTreeHeight ≤ 1
  · simp only [if_pos hheight]
  · rw [h (by omega)]

theorem replicasOfToken_eq_bind (d : Dart) (word : Bytes) :
    d.replicasOfToken word = (d.getBaseVirtualNodeIdByString word).bind fun base =>
        (d.getReconciledVnodeId base word none).map fun alter =>
          (d.getReplicaNodeIds base, d.getReplicaNodeIds alter) := by
  refine Option.bind_congr fun base _ => ?_
  rw [Option.map_eq_bind]
  rfl

theorem replicasOfToken_congr (hword : word ≠ []) (hword' : word' ≠ [])
    (h : ∀ i < d.dartTreeHeight, charAt word i = charAt word' i)
    (hoffset : 1 < d.dartTreeHeight → ∀ base, d.getBaseVirtualNodeIdByString word = some base →
      d.regionOffset base word = d.regionOffset base word') :
    d.replicasOfToken word = d.replicasOfToken word' := by
  rw [replicasOfToken_eq_bind, replicasOfToken_eq_bind,
    ← getBaseVirtualNodeIdByString_congr hword hword' h]
  refine Option.bind_congr fun base hbase => ?_
  have hreconciled : d.getReconciledVnodeId base word none =
      d.getReconciledVnodeId base word' none :=
    getReconciledVnodeId_congr fun hheight => by
      rw [alternativeVnodeId, alternativeVnodeId, hoffset hheight base hbase, regionStart,
        regionStart, h 0 d.one_le_dartTreeHeight]
  rw [hreconciled]

theorem indices_of_long (hlen : d.dartTreeHeight ≤ word.length) (htwo : 2 ≤ word.length) :
    d.leafIndex word = d.indexOf word (d.dartTreeHeight - 1) ∧
      d.preLeafIndex word = d.indexOf word (d.dartTreeHeight - 2) := by
  have hlast : d.lastCIndex word = d.dartTreeHeight - 1 := by rw [lastCIndex, min_eq_right hlen]
  refine ⟨by rw [leafIndex, hlast], ?_⟩
  rw [preLeafIndex, if_neg (by omega), hlast]
  rfl

theorem regionOffset_congr (hlen : d.dartTreeHeight < word.length)
    (hlen' : d.dartTreeHeight < word'.length)
    (h : ∀ i ≤ d.dartTreeHeight, charAt word i = charAt word' i) :
    d.regionOffset base word = d.regionOffset base word' := by
  have hindex : ∀ i ≤ d.dartTreeHeight, d.indexOf word i = d.indexOf word' i := by
    intro i hi
    rw [indexOf, indexOf, h i hi]
  have hone := d.one_le_dartTreeHeight
  have hpost : d.postLeafIndex word = d.postLeafIndex word' := by
    rw [postLeafIndex, postLeafIndex, if_neg (by omega), if_neg (by omega), hindex _ le_rfl]
  obtain ⟨hleaf, hpre⟩ := indices_of_long hlen.le (by omega)
  obtain ⟨hleaf', hpre'⟩ := indices_of_long hlen'.le (by omega)
  rw [regionOffset, regionOffset, majorOffset, majorOffset, minorOffset, minorOffset, hpost, hleaf,
    hleaf', hpre, hpre', hindex _ (by omega), hindex _ (by omega)]

end Dart

/-! ## Beginnings that are long enough -/

/-- Every query for a beginning with this number of letters gets to a node of each key it
matches. -/
def LongAffixRouted (sfxTree : Bool) (d : Dart) (len : Nat) : Prop :=
  ∀ (k : InsertedKey sfxTree d) (iter : Nat) (token : Bytes) (opType : DartOpType),
    isAffixQuery sfxTree opType = true → MatchesForm sfxTree opType token k.key iter →
      token.length = len → RoutedTo sfxTree d token opType k.ins (tokOf sfxTree k.key iter) iter

section Routed

variable {sfxTree : Bool} {d : Dart} {token : Bytes} {opType : DartOpType} {iter : Nat}

theorem twoChoices_of_long (haffix : isAffixQuery sfxTree opType = true)
    (hlen : d.dartTreeHeight ≤ token.length) : TwoChoices sfxTree d token opType where
  not_write := by cases opType <;> cases sfxTree <;> first | rfl | cases haffix
  not_middle := by
    rintro ⟨rfl, rfl⟩
    cases haffix
  not_short := fun h => absurd h.1 (by omega)

theorem isPrefix_tokOf (haffix : isAffixQuery sfxTree opType = true)
    (hkey : key ≠ []) (h : MatchesForm sfxTree opType token key iter) :
    iter < loopCount sfxTree key .insert ∧ token <+: tokOf sfxTree key iter := by
  refine ⟨lt_loopCount_of_matches hkey (by rintro rfl rfl; cases haffix) h, ?_⟩
  cases opType with
  | prefixQuery =>
    obtain ⟨rfl, hbegins⟩ := h
    rw [tokOf]
    simpa using hbegins
  | suffixQuery =>
    obtain ⟨rfl, hbegins⟩ := h
    cases sfxTree with
    | false => exact hbegins
    | true => cases haffix
  | infixQuery =>
    cases sfxTree with
    | false => cases haffix
    | true => exact h.2
  | insert => cases h
  | exactQuery => cases h
  | delete => cases h
  | rangeQuery => cases h

end Routed

/-! ## Spaces -/

/-- A space as it is set up: the virtual nodes are the leaves of the tree, there are at least as
many as servers, and an `int` can count them. -/
structure Dart.Space (d : Dart) : Prop where
  numVnode : d.numVnode.toNat = d.alphabetSize ^ d.dartTreeHeight
  numVnode_lt : d.numVnode.toNat < 2 ^ 31
  numServer_le : d.numServer ≤ d.numVnode.toNat

theorem intOf_of_lt {x : UInt64} (h : x.toNat < 2 ^ 31) : intOf x = x.toNat :=
  Int.bmod_eq_of_le (by omega) (by omega)

theorem toNat_ofNat_div (x : UInt64) (h : n < 2 ^ 31) :
    (x / UInt64.ofNat n).toNat = x.toNat / n := by
  have hlt : n < 2 ^ 64 := h.trans (by decide)
  rw [UInt64.toNat_div, UInt64.toNat_ofNat', Nat.mod_eq_of_lt hlt]

theorem Dart.numVnodePerServer_eq (h : d.numVnode.toNat < 2 ^ 31) :
    d.numVnodePerServer = (d.numVnode.toNat / d.numServer : Nat) := by
  have hdiv := toNat_ofNat_div d.numVnode d.numServer_lt
  have hlt := (Nat.div_le_self d.numVnode.toNat d.numServer).trans_lt h
  rw [numVnodePerServer, intOf_of_lt (hdiv ▸ hlt), hdiv]

/-- The virtual nodes of a region, and of a sub-region. -/
def Dart.distance (d : Dart) : Nat := d.alphabetSize ^ (d.dartTreeHeight - 1)

def Dart.subDistance (d : Dart) : Nat := d.alphabetSize ^ (d.dartTreeHeight - 2)

theorem Dart.pow_dartTreeHeight (d : Dart) :
    d.alphabetSize ^ d.dartTreeHeight = d.alphabetSize * d.distance := by
  rw [distance, ← Nat.pow_succ', Nat.succ_eq_add_one, Nat.sub_add_cancel d.one_le_dartTreeHeight]

theorem Dart.distance_pos (d : Dart) : 0 < d.distance := Nat.pow_pos d.one_le_alphabetSize

theorem Dart.subDistance_pos (d : Dart) : 0 < d.subDistance := Nat.pow_pos d.one_le_alphabetSize

theorem Dart.distance_eq (d : Dart) (h : 2 ≤ d.dartTreeHeight) :
    d.distance = d.alphabetSize * d.subDistance := by
  rw [distance, subDistance, ← Nat.pow_succ']
  congr 1
  omega

namespace Dart.Space

variable {d : Dart} (h : d.Space)

include h

theorem toNat_distance : (d.numVnode / UInt64.ofNat d.alphabetSize).toNat = d.distance := by
  rw [toNat_ofNat_div _ d.alphabetSize_lt, h.numVnode, d.pow_dartTreeHeight,
    Nat.mul_div_cancel_left _ d.one_le_alphabetSize]

theorem mul_distance_lt : d.alphabetSize * d.distance < 2 ^ 31 := by
  rw [← d.pow_dartTreeHeight, ← h.numVnode]
  exact h.numVnode_lt

theorem distance_lt : d.distance < 2 ^ 31 :=
  (Nat.le_mul_of_pos_left _ d.one_le_alphabetSize).trans_lt h.mul_distance_lt

theorem regionSize_eq : d.regionSize = (d.distance : Nat) := by
  rw [regionSize, intOf_of_lt (by rw [h.toNat_distance]; exact h.distance_lt), h.toNat_distance]

theorem subRegionSize_eq (hheight : 2 ≤ d.dartTreeHeight) :
    d.subRegionSize = (d.subDistance : Nat) := by
  have hdiv : d.distance / d.alphabetSize = d.subDistance := by
    rw [d.distance_eq hheight, Nat.mul_div_cancel_left _ d.one_le_alphabetSize]
  rw [subRegionSize, h.regionSize_eq, ← Int.ofNat_tdiv, hdiv]

theorem numVnodePerServer_ne_zero : d.numVnodePerServer ≠ 0 := by
  have hpos := Nat.div_pos h.numServer_le d.one_le_numServer
  rw [numVnodePerServer_eq h.numVnode_lt]
  omega

theorem numVnode_ne_zero : d.numVnode ≠ 0 := by
  intro hzero
  have hpos : 0 < d.numVnode.toNat := h.numVnode ▸ Nat.pow_pos d.one_le_alphabetSize
  rw [hzero] at hpos
  exact absurd hpos (by decide)

theorem fitsInt_regionStart (word : Bytes) : FitsInt (d.regionStart word) := by
  have hpos : (0 : Int) < d.alphabetSize := by exact_mod_cast d.one_le_alphabetSize
  have hmul : (d.alphabetSize : Int) * (d.distance : Nat) < 2 ^ 31 := by
    exact_mod_cast h.mul_distance_lt
  rw [regionStart, h.regionSize_eq, FitsInt]
  generalize charAt word 0 + (d.alphabetSize / 2 : Nat) = x
  have hlt := Int.tmod_lt_of_pos x hpos
  have hgt := Int.lt_tmod_of_pos x hpos
  have hsize : (0 : Int) < (d.distance : Nat) := by
    exact_mod_cast d.distance_pos
  have hhigh := Int.mul_lt_mul_of_pos_right hlt hsize
  have hlow := Int.mul_lt_mul_of_pos_right hgt hsize
  rw [Int.neg_mul] at hlow
  omega

theorem alternativeVnodeId_eq (base : UInt64) (word : Bytes) :
    d.alternativeVnodeId base word =
      some ((base + UInt64.ofInt (d.regionStart word) + d.regionOffset base word) %
        d.numVnode) := by
  have hpos := d.distance_pos
  rw [alternativeVnodeId, if_neg]
  rintro (hzero | hfits)
  · rw [h.regionSize_eq] at hzero
    omega
  · exact hfits (h.fitsInt_regionStart word)

theorem toNat_regionOffset (base : UInt64) (word : Bytes) :
    ((d.regionOffset base word).toNat : Int) =
      (base.toNat + d.majorOffset word - d.minorOffset word) % 2 ^ 64 % (d.distance : Nat) := by
  have hsize : (UInt64.ofInt d.regionSize).toNat = d.distance := by
    have hlt := h.distance_lt
    rw [h.regionSize_eq, toNat_ofInt]
    omega
  have hsum : ((base + UInt64.ofInt (d.majorOffset word) -
      UInt64.ofInt (d.minorOffset word)).toNat : Int) =
        (base.toNat + d.majorOffset word - d.minorOffset word) % 2 ^ 64 := by
    rw [UInt64.toNat_sub, UInt64.toNat_add, toNat_ofInt, toNat_ofInt]
    omega
  rw [regionOffset, UInt64.toNat_mod, hsize, Int.natCast_emod, hsum]

theorem regionOffset_lt (base : UInt64) (word : Bytes) :
    (d.regionOffset base word).toNat < d.distance := by
  have hpos : (0 : Int) < (d.distance : Nat) := by
    exact_mod_cast d.distance_pos
  have hlt := Int.emod_lt_of_pos
    ((base.toNat + d.majorOffset word - d.minorOffset word) % 2 ^ 64) hpos
  rw [← h.toNat_regionOffset] at hlt
  exact_mod_cast hlt

theorem regionOffset_of_sum {v k : Nat}
    (hv : base.toNat + d.majorOffset word - d.minorOffset word = (v + k * d.distance : Nat))
    (hlt : v < d.distance) (hk : k < 2 ^ 31) :
    (d.regionOffset base word).toNat = v := by
  have hdistance := h.distance_lt
  have hmul : k * d.distance < 2 ^ 31 * 2 ^ 31 :=
    Nat.mul_lt_mul'' hk hdistance
  have hmod : (v + k * d.distance) % d.distance = v := by
    rw [Nat.add_mul_mod_self_right, Nat.mod_eq_of_lt hlt]
  have hword : ((v + k * d.distance : Nat) : Int) % 2 ^ 64 = (v + k * d.distance : Nat) :=
    Int.emod_eq_of_lt (by omega) (by omega)
  have hoffset := h.toNat_regionOffset base word
  rw [hv, hword, ← Int.natCast_emod, hmod] at hoffset
  exact_mod_cast hoffset

theorem regionOffset_of_one (hone : d.alphabetSize = 1) (base : UInt64) (word : Bytes) :
    d.regionOffset base word = 0 := by
  have hlt := h.regionOffset_lt base word
  rw [distance, hone, Nat.one_pow] at hlt
  exact UInt64.toNat_inj.mp (by rw [Nat.lt_one_iff.mp hlt]; rfl)

theorem regionOffset_of_two (htwo : d.alphabetSize = 2) (hheight : d.dartTreeHeight = 2)
    (base : UInt64) (word : Bytes) :
    ((d.regionOffset base word).toNat : Int) = base.toNat % 2 := by
  have hsub : d.subRegionSize = 1 := by
    rw [h.subRegionSize_eq (by omega), subDistance, hheight]
    rfl
  have hmajor : d.majorOffset word =
      (d.leafIndex word + d.preLeafIndex word + d.postLeafIndex word).tmod 2 := by
    rw [majorOffset, hsub, Int.mul_one, htwo]
    rfl
  have hdiv := Int.mul_tdiv_add_tmod
    (d.leafIndex word + d.preLeafIndex word + d.postLeafIndex word) 2
  rw [h.toNat_regionOffset, minorOffset, distance, htwo, hheight]
  omega

theorem exists_base (hword : word ≠ []) :
    ∃ base, d.getBaseVirtualNodeIdByString word = some base :=
  ⟨_, if_neg (by simp [hword, h.numVnode_ne_zero])⟩

end Dart.Space

namespace Dart

variable {d : Dart} {base alter : UInt64} {word : Bytes}

theorem getReconciledVnodeId_of_low (hper : d.numVnodePerServer ≠ 0)
    (hheight : d.dartTreeHeight ≤ 1)
    (cb : Option ServerInfo) : d.getReconciledVnodeId base word cb = some base := by
  rw [getReconciledVnodeId, getServerIdByVnodeId_eq hper, Option.bind_eq_bind, Option.bind_some,
    if_pos hheight]

theorem getReconciledVnodeId_of_alter (hper : d.numVnodePerServer ≠ 0)
    (hheight : ¬d.dartTreeHeight ≤ 1) (halter : d.alternativeVnodeId base word = some alter)
    {cb : Option ServerInfo} (hcb : ∀ info ∈ cb, ∀ id id', (info id id').2 < (info id id').1) :
    d.getReconciledVnodeId base word cb = some alter := by
  rw [getReconciledVnodeId, getServerIdByVnodeId_eq hper, Option.bind_eq_bind, Option.bind_some,
    if_neg hheight, halter, Option.bind_some, getServerIdByVnodeId_eq hper]
  cases cb with
  | none => rfl
  | some info => exact congrArg some (if_pos (hcb info rfl _ _))

end Dart

/-- A beginning is long enough, or the space too small for the letter behind the leaves to
matter. -/
def LongEnough (d : Dart) (len : Nat) : Prop :=
  d.dartTreeHeight < len ∨ d.dartTreeHeight = 1 ∨ d.alphabetSize = 1 ∨
    (d.alphabetSize = 2 ∧ d.dartTreeHeight = 2)

theorem longAffixRouted_of_offset
    (hlen : d.dartTreeHeight ≤ len) (hcount : d.clientRequestCount ≠ Int32.maxValue)
    (hoffset : 1 < d.dartTreeHeight → ∀ base token rest, token.length = len →
      d.regionOffset base token = d.regionOffset base (token ++ rest)) :
    LongAffixRouted sfxTree d len := by
  rintro k iter token opType haffix hmatch rfl
  obtain ⟨hiter, rest, hrest⟩ := isPrefix_tokOf haffix k.ne_nil hmatch
  refine routedTo_of_replicas_eq (dartHash_insert_withCount k.inserted) hiter
    (twoChoices_of_long haffix hlen) hcount ?_
  have hone := d.one_le_dartTreeHeight
  have hne : token ≠ [] := length_pos_iff.mp (by omega)
  rw [← hrest]
  exact Dart.replicasOfToken_congr hne (append_ne_nil_of_left_ne_nil hne rest)
    (fun i hi => (charAt_append (by omega) rest).symm)
    fun hheight base _ => hoffset hheight base token rest rfl

theorem regionOffset_append (hlen : d.dartTreeHeight < token.length)
    (base : UInt64) (rest : Bytes) :
    d.regionOffset base token = d.regionOffset base (token ++ rest) := by
  refine Dart.regionOffset_congr hlen ?_ fun i hi => (charAt_append (by omega) rest).symm
  rw [length_append]
  omega

theorem longAffixRouted_of_longEnough (h : d.Space)
    (hlen : d.dartTreeHeight ≤ len) (hcount : d.clientRequestCount ≠ Int32.maxValue)
    (hlong : LongEnough d len) : LongAffixRouted sfxTree d len := by
  refine longAffixRouted_of_offset hlen hcount fun hheight base token rest htoken => ?_
  rcases hlong with hlong | hlong | hlong | ⟨htwo, hlow⟩
  · exact regionOffset_append (by omega) base rest
  · omega
  · rw [h.regionOffset_of_one hlong, h.regionOffset_of_one hlong]
  · have htoken := h.regionOffset_of_two htwo hlow base token
    have hword := h.regionOffset_of_two htwo hlow base (token ++ rest)
    exact UInt64.toNat_inj.mp (by omega)

/-! ## Beginnings that are too short -/

namespace Dart.Space

variable {d : Dart} (h : d.Space)

include h

theorem distance_dvd : d.distance ∣ d.numVnode.toNat := by
  rw [h.numVnode, d.pow_dartTreeHeight]
  exact Nat.dvd_mul_left _ _

theorem replica_mod {master : UInt64} (hmaster : master.toNat < d.numVnode.toNat) {r : Nat}
    (hr : r < d.replicationFactor) :
    (d.replica master r).toNat % d.distance = master.toNat % d.distance := by
  rw [replica]
  split
  next => rfl
  next =>
    have hr' : r < 2 ^ 31 := hr.trans d.replicationFactor_lt
    have hnode := h.numVnode_lt
    have hmul : r * d.distance < 2 ^ 31 * 2 ^ 31 :=
      Nat.mul_lt_mul'' hr' h.distance_lt
    have hsum : (master + UInt64.ofNat r * (d.numVnode / UInt64.ofNat d.alphabetSize)).toNat =
        master.toNat + r * d.distance := by
      rw [UInt64.toNat_add, UInt64.toNat_mul, h.toNat_distance, UInt64.toNat_ofNat',
        Nat.mod_eq_of_lt (show r < 2 ^ 64 by omega),
        Nat.mod_eq_of_lt (show r * d.distance < 2 ^ 64 by omega)]
      exact Nat.mod_eq_of_lt (by omega)
    rw [UInt64.toNat_mod, hsum, Nat.mod_mod_of_dvd _ h.distance_dvd, Nat.add_mul_mod_self_right]

theorem exists_regionStart (hfirst : 0 ≤ charAt word 0) :
    ∃ i < d.alphabetSize, d.regionStart word = (i * d.distance : Nat) := by
  have hpos : (0 : Int) < d.alphabetSize := by exact_mod_cast d.one_le_alphabetSize
  have hsum : 0 ≤ charAt word 0 + (d.alphabetSize / 2 : Nat) := by omega
  obtain ⟨i, hi⟩ := Int.eq_ofNat_of_zero_le (Int.tmod_nonneg (d.alphabetSize : Int) hsum)
  refine ⟨i, ?_, ?_⟩
  · have hlt := Int.tmod_lt_of_pos (charAt word 0 + (d.alphabetSize / 2 : Nat)) hpos
    rw [hi] at hlt
    exact_mod_cast hlt
  · rw [regionStart, hi, h.regionSize_eq]
    exact (Int.natCast_mul i _).symm

theorem alter_mod {alter : UInt64} (hbase : base.toNat < d.numVnode.toNat)
    (hfirst : 0 ≤ charAt word 0) (halter : d.alternativeVnodeId base word = some alter) :
    alter.toNat < d.numVnode.toNat ∧ alter.toNat % d.distance =
        (base.toNat + (d.regionOffset base word).toNat) % d.distance := by
  rw [h.alternativeVnodeId_eq, Option.some.injEq] at halter
  obtain ⟨i, hi, hstart⟩ := h.exists_regionStart hfirst
  have hlt := h.numVnode_lt
  have hoffset := h.regionOffset_lt base word
  have hdistance := h.distance_lt
  have hmul : i * d.distance < 2 ^ 31 :=
    (Nat.mul_le_mul_right _ hi.le).trans_lt h.mul_distance_lt
  have hsum : (base + UInt64.ofInt (d.regionStart word) + d.regionOffset base word).toNat =
      base.toNat + i * d.distance + (d.regionOffset base word).toNat := by
    rw [UInt64.toNat_add, UInt64.toNat_add, toNat_ofInt]
    omega
  rw [← halter, UInt64.toNat_mod, hsum, Nat.mod_mod_of_dvd _ h.distance_dvd]
  refine ⟨Nat.mod_lt _ (by omega), ?_⟩
  rw [Nat.add_right_comm, Nat.add_mul_mod_self_right]

theorem base_lt (hbase : d.getBaseVirtualNodeIdByString word = some base) :
    base.toNat < d.numVnode.toNat := by
  rw [getBaseVirtualNodeIdByString] at hbase
  split at hbase
  next => cases hbase
  next =>
    have hpos : 0 < d.numVnode.toNat := h.numVnode ▸ Nat.pow_pos d.one_le_alphabetSize
    rw [← Option.some.inj hbase]
    exact Nat.mod_lt _ hpos

end Dart.Space

/-- An answer that is for the alternative node. -/
def PrefersAlter (cb : Option (Nat → ServerInfo)) : Prop :=
  ∀ info ∈ cb, ∀ iter id id', (info iter id id').2 < (info iter id id').1

theorem eq_of_add_mod_eq {b : Nat} (ha : a < m) (hb : b < m)
    (h : (x + a) % m = (x + b) % m) : a = b := by
  have hmod : a % m = b % m := Nat.ModEq.add_left_cancel' x h
  rwa [Nat.mod_eq_of_lt ha, Nat.mod_eq_of_lt hb] at hmod

section Missed

variable {sfxTree : Bool} {d : Dart} {key token : Bytes} {cb : Option (Nat → ServerInfo)}
  {base alter : UInt64}

theorem PrefersAlter.at (hcb : PrefersAlter cb) (iter : Nat) :
    ∀ info ∈ cb.map (· iter), ∀ id id', (info id id').2 < (info id id').1 := by
  intro info hinfo
  obtain ⟨f, hf, rfl⟩ := Option.map_eq_some_iff.mp hinfo
  exact hcb f hf iter

theorem Dart.getServerIdsForInsert_of_alter {info : Option ServerInfo}
    (hper : d.numVnodePerServer ≠ 0) (hheight : ¬d.dartTreeHeight ≤ 1)
    (hbase : d.getBaseVirtualNodeIdByString key = some base)
    (halter : d.alternativeVnodeId base key = some alter)
    (hinfo : ∀ f ∈ info, ∀ id id', (f id id').2 < (f id id').1) :
    d.getServerIdsForInsert key info = some (d.getReplicaNodeIds alter) := by
  rw [Dart.getServerIdsForInsert, hbase, Option.bind_eq_bind, Option.bind_some,
    Dart.getReconciledVnodeId_of_alter hper hheight halter hinfo, Option.bind_some]

theorem tokOf_ne_nil (hkey : key ≠ []) {iter : Nat} (h : iter < loopCount sfxTree key .insert) :
    tokOf sfxTree key iter ≠ [] := by
  cases sfxTree with
  | true =>
    have hlen : iter < key.length := h
    exact drop_eq_nil_iff.not.mpr (by omega)
  | false =>
    rw [tokOf]
    split
    · contradiction
    · split
      · simpa using hkey
      · exact hkey

theorem Dart.Space.insert_isSome (h : d.Space) (hkey : key ≠ []) (hcb : PrefersAlter cb) :
    (dartHash sfxTree d key .insert cb).isSome := by
  have hper := h.numVnodePerServer_ne_zero
  refine Option.isSome_of_eq_some ((dartHash_of_write rfl).mpr ⟨fun iter hiter => ?_, rfl⟩)
  obtain ⟨base, hbase⟩ := h.exists_base (tokOf_ne_nil hkey hiter)
  have hids : ∃ ids,
      d.getServerIdsForInsert (tokOf sfxTree key iter) (cb.map (· iter)) = some ids := by
    by_cases hheight : d.dartTreeHeight ≤ 1
    · refine ⟨d.getReplicaNodeIds base, ?_⟩
      rw [Dart.getServerIdsForInsert, hbase, Option.bind_eq_bind, Option.bind_some,
        Dart.getReconciledVnodeId_of_low hper hheight, Option.bind_some]
    · exact ⟨_, Dart.getServerIdsForInsert_of_alter hper hheight hbase
        (h.alternativeVnodeId_eq _ _) (hcb.at iter)⟩
  obtain ⟨ids, hids⟩ := hids
  have hform : formResults sfxTree d key .insert cb iter =
      hashResults d (tokOf sfxTree key iter) iter ids := by
    rw [formResults, hids]
    rfl
  rw [hform, hashResults_eq hper]
  rfl

/-- A query for the first letters of a key, as many as the tree is high, misses the key at its
alternative node, if its offset is neither zero nor that of the letters. -/
theorem not_routedTo_of_offset (h : d.Space) (hheight : ¬d.dartTreeHeight ≤ 1)
    (hbegins : token <+: key) (hlen : token.length = d.dartTreeHeight)
    (hfirst : 0 ≤ charAt token 0) (hbase : d.getBaseVirtualNodeIdByString token = some base)
    (hzero : d.regionOffset base key ≠ 0)
    (hne : d.regionOffset base key ≠ d.regionOffset base token)
    {ins : List IndexHashResult} (hins : dartHash sfxTree d key .insert cb = some (ins, d))
    (hcb : PrefersAlter cb) : ¬RoutedTo sfxTree d token .prefixQuery ins key 0 := by
  have hper := h.numVnodePerServer_ne_zero
  obtain ⟨rest, rfl⟩ := hbegins
  have hnil : token ≠ [] := length_pos_iff.mp (by omega)
  have hchar : ∀ i < d.dartTreeHeight, charAt token i = charAt (token ++ rest) i :=
    fun i hi => (charAt_append (by omega) rest).symm
  have hbaseKey : d.getBaseVirtualNodeIdByString (token ++ rest) = some base := by
    rw [← Dart.getBaseVirtualNodeIdByString_congr hnil (append_ne_nil_of_left_ne_nil hnil rest)
      hchar]
    exact hbase
  obtain ⟨alterToken, halterToken⟩ : ∃ alter, d.alternativeVnodeId base token = some alter :=
    ⟨_, h.alternativeVnodeId_eq _ _⟩
  obtain ⟨alterKey, halterKey⟩ : ∃ alter, d.alternativeVnodeId base (token ++ rest) = some alter :=
    ⟨_, h.alternativeVnodeId_eq _ _⟩
  have hreps : d.replicasOfToken token =
      some (d.getReplicaNodeIds base, d.getReplicaNodeIds alterToken) := by
    rw [Dart.replicasOfToken_eq_bind, hbase, Option.bind_some,
      Dart.getReconciledVnodeId_of_alter hper hheight halterToken (by simp), Option.map_some]
  rintro ⟨out, d', hout, -, q, hq, r, hr, -, hsuffix, hnode⟩
  -- the node of the key is a replica of its alternative node
  obtain ⟨iter, hiter, ids, hat, id, hid, rfl⟩ := exists_of_mem_insert hins hr
  have hiterZero : iter = 0 := by
    have hnot : ¬0 < iter := by simpa [hashResult] using hsuffix
    omega
  subst hiterZero
  have htok : tokOf sfxTree (token ++ rest) 0 = token ++ rest := by simp [tokOf]
  have hnodes := hat.nodes
  rw [htok, Dart.getServerIdsForInsert_of_alter hper hheight hbaseKey halterKey (hcb.at 0),
    Option.some.injEq] at hnodes
  rw [← hnodes, Dart.getReplicaNodeIds_eq, mem_map] at hid
  obtain ⟨i, hi, rfl⟩ := hid
  -- the node of the query is a replica of one of the nodes of the letters
  rw [dartHash_two (twoChoices_of_long (by cases sfxTree <;> rfl) hlen.ge) hper hreps] at hout
  split at hout
  next => cases hout
  next =>
    obtain ⟨rfl, -⟩ := Prod.mk.inj (Option.some.inj hout)
    obtain ⟨node, hchosen, rfl⟩ := mem_map.mp hq
    have hsame : node = d.replica alterKey i := hnode
    have hbaseLt := h.base_lt hbase
    obtain ⟨hkeyLt, hkeyMod⟩ := h.alter_mod hbaseLt
      (by rw [← hchar 0 d.one_le_dartTreeHeight]; exact hfirst) halterKey
    obtain ⟨htokenLt, htokenMod⟩ := h.alter_mod hbaseLt hfirst halterToken
    have hplace := congrArg (·.toNat % d.distance) hsame
    have hkeyOffset := h.regionOffset_lt base (token ++ rest)
    have htokenOffset := h.regionOffset_lt base token
    simp only [h.replica_mod hkeyLt (mem_range.mp hi), hkeyMod] at hplace
    rcases Dart.mem_chosen.mp hchosen with rfl | rfl
    · rw [h.replica_mod hbaseLt d.repIndex_lt] at hplace
      have hoffset := eq_of_add_mod_eq d.distance_pos hkeyOffset hplace
      exact hzero (UInt64.toNat_inj.mp hoffset.symm)
    · rw [h.replica_mod htokenLt d.repIndex_lt, htokenMod] at hplace
      have hoffset := eq_of_add_mod_eq htokenOffset hkeyOffset hplace
      exact hne (UInt64.toNat_inj.mp hoffset.symm)

end Missed

/-! ## Keys that are missed -/

theorem uint32Pow_ofNat (a k : Nat) : uint32Pow (UInt32.ofNat a) k = UInt32.ofNat (a ^ k) := by
  induction k with
  | zero => rfl
  | succ k ih => rw [uint32Pow, ih, ← UInt32.ofNat_mul, Nat.pow_succ']

theorem charAt_replicate (c : UInt8) (h : i < n) :
    charAt (replicate n c) i = c.toInt8.toInt := by
  rw [charAt, getD_eq_getElem?_getD, getElem?_replicate, if_pos h, Option.getD_some]

theorem toInt_ofNat_of_lt (h : n < 128) : (UInt8.ofNat n).toInt8.toInt = n := by
  rw [UInt8.toInt8_ofNat', Int8.toInt_ofNat_of_lt h]

theorem ofInt_mod_ofNat (hn : n < 2 ^ 31) (ha : a < 2 ^ 31) :
    UInt64.ofInt (n : Int) % UInt64.ofNat a = UInt64.ofNat (n % a) := by
  have hle := Nat.mod_le n a
  rw [← UInt64.toNat_inj, UInt64.toNat_mod, toNat_ofInt, UInt64.toNat_ofNat', UInt64.toNat_ofNat',
    Nat.mod_eq_of_lt (show a < 2 ^ 64 by omega), Nat.mod_eq_of_lt (show n % a < 2 ^ 64 by omega)]
  congr 1
  omega

structure Letters (d : Dart) (str : Bytes) (letter : Nat → Nat) : Prop where
  charAt : ∀ i < d.dartTreeHeight, charAt str i = letter i
  pos : ∀ i < d.dartTreeHeight, 0 < letter i
  lt : ∀ i < d.dartTreeHeight, letter i < 128

namespace Letters

variable {d : Dart} {str : Bytes} {letter : Nat → Nat} (hs : d.Space) (h : Letters d str letter)

include hs h

theorem foldl_baseStep (hm : m ≤ d.dartTreeHeight) :
    ((range m).foldl (d.baseStep str) {}).metEnd = false ∧
      ((range m).foldl (d.baseStep str) {}).rst = UInt64.ofNat (∑ i ∈ Finset.range m,
          letter i % d.alphabetSize * d.alphabetSize ^ (d.dartTreeHeight - 1 - i)) := by
  induction m with
  | zero => exact ⟨rfl, rfl⟩
  | succ m ih =>
    obtain ⟨hend, hrst⟩ := ih (by omega)
    have hlt := h.lt m hm
    have hpos := h.pos m hm
    have hpow : (uint32Pow (UInt32.ofNat d.alphabetSize) (d.dartTreeHeight - (m + 1))).toUInt64 =
          UInt64.ofNat (d.alphabetSize ^ (d.dartTreeHeight - 1 - m)) := by
      have hle : d.alphabetSize ^ (d.dartTreeHeight - 1 - m) ≤ d.distance :=
        Nat.pow_le_pow_right d.one_le_alphabetSize (by omega)
      have hdistance := hs.distance_lt
      rw [show d.dartTreeHeight - (m + 1) = d.dartTreeHeight - 1 - m by omega, uint32Pow_ofNat,
        ← UInt64.toNat_inj, UInt32.toNat_toUInt64, UInt32.toNat_ofNat', UInt64.toNat_ofNat']
      omega
    have hmet : (((range m).foldl (d.baseStep str) {}).metEnd ||
        Pdc.charAt str m == 0) = false := by
      rw [hend, h.charAt m hm]
      simp
      omega
    have hindex : UInt64.ofInt (Pdc.charAt str m) % UInt64.ofNat d.alphabetSize =
        UInt64.ofNat (letter m % d.alphabetSize) := by
      rw [h.charAt m hm, ofInt_mod_ofNat (by omega) d.alphabetSize_lt]
    rw [range_succ, foldl_append, foldl_cons, Dart.baseStep, hmet, Finset.sum_range_succ, hrst,
      hpow, hindex, UInt64.ofNat_add, UInt64.ofNat_mul]
    exact ⟨rfl, rfl⟩

theorem base_eq (hx : ∑ i ∈ Finset.range d.dartTreeHeight,
      letter i % d.alphabetSize * d.alphabetSize ^ (d.dartTreeHeight - 1 - i) = x)
    (hlt : x < d.numVnode.toNat) (hstr : str ≠ []) :
    ∃ base, d.getBaseVirtualNodeIdByString str = some base ∧ base.toNat = x := by
  refine ⟨_, if_neg (by simp [hstr, hs.numVnode_ne_zero]), ?_⟩
  have hnode := hs.numVnode_lt
  rw [(h.foldl_baseStep hs le_rfl).2, hx, UInt64.toNat_mod, UInt64.toNat_ofNat',
    Nat.mod_eq_of_lt (show x < 2 ^ 64 by omega), Nat.mod_eq_of_lt hlt]

end Letters

/-- The offsets of letters and of the same letters with one more behind the leaves. -/
structure OffsetsOf (d : Dart) (token key : Bytes) (pre leaf post : Int) : Prop where
  majorToken : d.majorOffset token = (leaf + pre).tmod d.alphabetSize * d.subRegionSize
  minorToken : d.minorOffset token = (-leaf - pre).natAbs
  majorKey : d.majorOffset key = (leaf + pre + post).tmod d.alphabetSize * d.subRegionSize
  minorKey : d.minorOffset key = (post - leaf - pre).natAbs

theorem offsetsOf_append (hheight : 2 ≤ d.dartTreeHeight)
    (hlen : token.length = d.dartTreeHeight) (c : UInt8) :
    OffsetsOf d token (token ++ [c]) (d.indexOf token (d.dartTreeHeight - 2))
      (d.indexOf token (d.dartTreeHeight - 1)) (c.toInt8.toInt.tmod d.alphabetSize) := by
  have hlenKey : (token ++ [c]).length = d.dartTreeHeight + 1 := by simp [hlen]
  have hindex : ∀ i < d.dartTreeHeight, d.indexOf (token ++ [c]) i = d.indexOf token i := by
    intro i hi
    rw [Dart.indexOf, Dart.indexOf, charAt_append (by omega)]
  obtain ⟨hleaf, hpre⟩ := Dart.indices_of_long hlen.ge (by omega)
  have hlong : d.dartTreeHeight ≤ (token ++ [c]).length := by omega
  obtain ⟨hleafKey, hpreKey⟩ := Dart.indices_of_long hlong (by omega)
  rw [hindex _ (by omega)] at hleafKey hpreKey
  have hpost : d.postLeafIndex token = 0 := if_pos hlen.le
  have hpostKey : d.postLeafIndex (token ++ [c]) = c.toInt8.toInt.tmod d.alphabetSize := by
    rw [Dart.postLeafIndex, Dart.indexOf, charAt, ← hlen]
    simp
  constructor
  · rw [Dart.majorOffset, hleaf, hpre, hpost, Int.add_zero]
  · rw [Dart.minorOffset, hleaf, hpre, hpost, Int.zero_sub]
  · rw [Dart.majorOffset, hleafKey, hpreKey, hpostKey]
  · rw [Dart.minorOffset, hleafKey, hpreKey, hpostKey]

/-- Letters that lead to a key with one letter more only by luck. -/
structure MissesKey (d : Dart) (token : Bytes) (c : UInt8) (base : UInt64) : Prop where
  length_eq : token.length = d.dartTreeHeight
  first_nonneg : 0 ≤ charAt token 0
  base_eq : d.getBaseVirtualNodeIdByString token = some base
  offset_ne_zero : d.regionOffset base (token ++ [c]) ≠ 0
  offset_ne : d.regionOffset base (token ++ [c]) ≠ d.regionOffset base token

section Families

variable {d : Dart} (h : d.Space) (hheight : 2 ≤ d.dartTreeHeight)

/-- The letter that counts as zero, and before the leaf the last one of the alphabet. -/
def wrapToken (d : Dart) : Bytes :=
  List.replicate (d.dartTreeHeight - 1) (UInt8.ofNat d.alphabetSize) ++
    [UInt8.ofNat (d.alphabetSize - 1)]

theorem length_wrapToken (d : Dart) : (wrapToken d).length = d.dartTreeHeight := by
  have hone := d.one_le_dartTreeHeight
  simp [wrapToken]
  omega

theorem letters_wrapToken (htwo : 2 ≤ d.alphabetSize) (hlt : d.alphabetSize < 128) :
    Letters d (wrapToken d) fun i =>
      if i < d.dartTreeHeight - 1 then d.alphabetSize else d.alphabetSize - 1 where
  charAt := by
    intro i hi
    split
    next hlow =>
      rw [wrapToken, charAt_append (by simpa using hlow), charAt_replicate _ hlow,
        toInt_ofNat_of_lt hlt]
    next hlow =>
      have hlast : (wrapToken d).getD i 0 = UInt8.ofNat (d.alphabetSize - 1) := by
        obtain rfl : i = d.dartTreeHeight - 1 := by omega
        simp [wrapToken, getD_eq_getElem?_getD]
      rw [charAt, hlast, toInt_ofNat_of_lt (by omega)]
  pos := by
    intro i _
    split <;> omega
  lt := by
    intro i _
    split <;> omega

include h hheight

theorem base_wrapToken (htwo : 2 ≤ d.alphabetSize) (hlt : d.alphabetSize < 128) :
    ∃ base, d.getBaseVirtualNodeIdByString (wrapToken d) = some base ∧
      base.toNat = d.alphabetSize - 1 := by
  have hlen := length_wrapToken d
  have hsum : ∑ i ∈ Finset.range d.dartTreeHeight,
      (if i < d.dartTreeHeight - 1 then d.alphabetSize else d.alphabetSize - 1) % d.alphabetSize *
        d.alphabetSize ^ (d.dartTreeHeight - 1 - i) = d.alphabetSize - 1 := by
    obtain ⟨n, hn⟩ : ∃ n, d.dartTreeHeight = n + 1 := ⟨d.dartTreeHeight - 1, by omega⟩
    rw [hn, Finset.sum_range_succ, Finset.sum_eq_zero]
    · simp [Nat.mod_eq_of_lt (show d.alphabetSize - 1 < d.alphabetSize by omega)]
    · intro i hi
      simp [Finset.mem_range.mp hi]
  have hnode : d.alphabetSize - 1 < d.numVnode.toNat := by
    have hle := Nat.le_mul_of_pos_right d.alphabetSize d.distance_pos
    rw [h.numVnode, d.pow_dartTreeHeight]
    omega
  exact (letters_wrapToken htwo hlt).base_eq h hsum hnode (length_pos_iff.mp (by omega))

omit h in
theorem offsets_wrapToken (htwo : 2 ≤ d.alphabetSize) (hlt : d.alphabetSize < 128) :
    OffsetsOf d (wrapToken d) (wrapToken d ++ [1]) 0 (d.alphabetSize - 1 : Nat) 1 := by
  have hletters := letters_wrapToken htwo hlt
  have hpre : d.indexOf (wrapToken d) (d.dartTreeHeight - 2) = 0 := by
    rw [Dart.indexOf, hletters.charAt _ (by omega), if_pos (by omega), Int.tmod_self]
  have hleaf : d.indexOf (wrapToken d) (d.dartTreeHeight - 1) = (d.alphabetSize - 1 : Nat) := by
    rw [Dart.indexOf, hletters.charAt _ (by omega), if_neg (by omega),
      Int.tmod_eq_of_lt (by omega) (by omega)]
  have hpost : (1 : UInt8).toInt8.toInt.tmod d.alphabetSize = 1 :=
    Int.tmod_eq_of_lt (by decide) (by rw [show (1 : UInt8).toInt8.toInt = 1 from rfl]; omega)
  have hoffsets := offsetsOf_append hheight (length_wrapToken d) 1
  rwa [hpre, hleaf, hpost] at hoffsets

theorem exists_misses_wrapToken (htwo : 2 ≤ d.alphabetSize) (hlt : d.alphabetSize < 128)
    (hsmall : ¬(d.alphabetSize = 2 ∧ d.dartTreeHeight = 2)) :
    ∃ base, MissesKey d (wrapToken d) 1 base := by
  obtain ⟨base, hbase, hx⟩ := base_wrapToken h hheight htwo hlt
  have hoffsets := offsets_wrapToken hheight htwo hlt
  have hsub := h.subRegionSize_eq hheight
  have hregion := d.distance_eq hheight
  have htoken : (d.regionOffset base (wrapToken d)).toNat =
      (d.alphabetSize - 1) * d.subDistance := by
    refine h.regionOffset_of_sum (k := 0) ?_ ?_ (by decide)
    · rw [hoffsets.majorToken, hoffsets.minorToken, hsub, Int.add_zero,
        Int.tmod_eq_of_lt (by omega) (by omega)]
      omega
    · rw [hregion]
      exact Nat.mul_lt_mul_of_pos_right (by omega) d.subDistance_pos
  have hkey : (d.regionOffset base (wrapToken d ++ [1])).toNat = 1 := by
    refine h.regionOffset_of_sum (k := 0) ?_ ?_ (by decide)
    · have hwrap : ((d.alphabetSize - 1 : Nat) : Int) + 0 + 1 = d.alphabetSize := by omega
      rw [hoffsets.majorKey, hoffsets.minorKey, hwrap, Int.tmod_self]
      omega
    · rw [hregion]
      exact htwo.trans (Nat.le_mul_of_pos_right _ d.subDistance_pos)
  refine ⟨base, length_wrapToken d, ?_, hbase, ?_, ?_⟩
  · rw [(letters_wrapToken htwo hlt).charAt 0 (by omega)]
    omega
  · intro hzero
    rw [hzero] at hkey
    exact absurd hkey (by decide)
  · intro hsame
    rw [hsame, htoken] at hkey
    -- one sub-region of one node: two letters and two levels
    have hletter := Nat.eq_one_of_mul_eq_one_right hkey
    have hsize := Nat.eq_one_of_mul_eq_one_left hkey
    have hlow : d.dartTreeHeight - 2 = 0 := by
      by_contra hne
      exact absurd hsize (Nat.one_lt_pow hne (by omega)).ne'
    omega

/-- The base node of a letter that is everywhere: a node of the second region and the second
sub-region. -/
theorem base_replicate (hbig : 128 ≤ d.alphabetSize) :
    ∃ base rest, d.getBaseVirtualNodeIdByString (replicate d.dartTreeHeight 1) = some base ∧
      rest < d.subDistance ∧
      base.toNat = rest + d.subDistance + d.distance := by
  have hletters : Letters d (replicate d.dartTreeHeight 1) fun _ => 1 := by
    refine ⟨fun i hi => ?_, fun _ _ => Nat.one_pos, fun _ _ => by decide⟩
    rw [charAt_replicate _ hi]
    rfl
  have hmod : 1 % d.alphabetSize = 1 := Nat.mod_eq_of_lt (by omega)
  have hsum : ∑ i ∈ Finset.range d.dartTreeHeight,
      1 % d.alphabetSize * d.alphabetSize ^ (d.dartTreeHeight - 1 - i) =
        ∑ i ∈ Finset.range (d.dartTreeHeight - 2), d.alphabetSize ^ i +
          d.subDistance + d.distance := by
    obtain ⟨n, hn⟩ : ∃ n, d.dartTreeHeight = n + 2 := ⟨d.dartTreeHeight - 2, by omega⟩
    simp only [hmod, Nat.one_mul]
    rw [Finset.sum_range_reflect (fun i => d.alphabetSize ^ i), Dart.subDistance, Dart.distance,
      hn, Finset.sum_range_succ, Finset.sum_range_succ]
    rfl
  have hrest : ∑ i ∈ Finset.range (d.dartTreeHeight - 2), d.alphabetSize ^ i < d.subDistance :=
    Nat.geomSum_lt (by omega) fun i hi => Finset.mem_range.mp hi
  have hsub : 128 * d.subDistance ≤ d.distance := by
    rw [d.distance_eq hheight]
    exact Nat.mul_le_mul_right _ hbig
  have hregion : 128 * d.distance ≤ d.numVnode.toNat := by
    rw [h.numVnode, d.pow_dartTreeHeight]
    exact Nat.mul_le_mul_right _ hbig
  have hnil : replicate d.dartTreeHeight (1 : UInt8) ≠ [] := by
    simp
    omega
  obtain ⟨base, hbase, hx⟩ := hletters.base_eq h hsum (by omega) hnil
  exact ⟨base, _, hbase, hrest, hx⟩

omit h in
theorem offsets_replicate (hbig : 128 ≤ d.alphabetSize) :
    OffsetsOf d (replicate d.dartTreeHeight 1) (replicate d.dartTreeHeight 1 ++ [1])
      1 1 1 := by
  have hone : (1 : UInt8).toInt8.toInt.tmod d.alphabetSize = 1 :=
    Int.tmod_eq_of_lt (by decide) (by rw [show (1 : UInt8).toInt8.toInt = 1 from rfl]; omega)
  have hindex : ∀ i < d.dartTreeHeight, d.indexOf (replicate d.dartTreeHeight 1) i = 1 := by
    intro i hi
    rw [Dart.indexOf, charAt_replicate _ hi, hone]
  have hlen : (replicate d.dartTreeHeight (1 : UInt8)).length = d.dartTreeHeight :=
    length_replicate
  have hoffsets := offsetsOf_append hheight hlen 1
  rwa [hindex _ (by omega), hindex _ (by omega), hone] at hoffsets

theorem exists_misses_replicate (hbig : 128 ≤ d.alphabetSize) :
    ∃ base, MissesKey d (replicate d.dartTreeHeight 1) 1 base := by
  obtain ⟨base, rest, hbase, hrest, hx⟩ := base_replicate h hheight hbig
  have hoffsets := offsets_replicate hheight hbig
  have hsub := h.subRegionSize_eq hheight
  have hregion : 128 * d.subDistance ≤ d.distance := by
    rw [d.distance_eq hheight]
    exact Nat.mul_le_mul_right _ hbig
  have htwo : Int.tmod (1 + 1) d.alphabetSize = 2 := Int.tmod_eq_of_lt (by decide) (by omega)
  have hthree : Int.tmod (1 + 1 + 1) d.alphabetSize = 3 :=
    Int.tmod_eq_of_lt (by decide) (by omega)
  have htoken : (d.regionOffset base (replicate d.dartTreeHeight 1)).toNat =
      rest + 3 * d.subDistance - 2 := by
    refine h.regionOffset_of_sum (k := 1) ?_ (by omega) (by decide)
    rw [hoffsets.majorToken, hoffsets.minorToken, htwo]
    omega
  have hkey : (d.regionOffset base (replicate d.dartTreeHeight 1 ++ [1])).toNat =
      rest + 4 * d.subDistance - 1 := by
    refine h.regionOffset_of_sum (k := 1) ?_ (by omega) (by decide)
    rw [hoffsets.majorKey, hoffsets.minorKey, hthree]
    omega
  refine ⟨base, length_replicate, ?_, hbase, ?_, ?_⟩
  · rw [charAt_replicate _ (by omega)]
    decide
  · intro hzero
    rw [hzero] at hkey
    have hnone : (0 : UInt64).toNat = 0 := rfl
    omega
  · intro hsame
    rw [hsame] at hkey
    omega

/-- In all but the smallest spaces there are keys that a query for their first letters misses. -/
theorem exists_misses (halphabet : 2 ≤ d.alphabetSize)
    (hsmall : ¬(d.alphabetSize = 2 ∧ d.dartTreeHeight = 2)) :
    ∃ token base, MissesKey d token 1 base := by
  rcases lt_or_ge d.alphabetSize 128 with hlt | hbig
  · exact ⟨_, exists_misses_wrapToken h hheight halphabet hlt hsmall⟩
  · exact ⟨_, exists_misses_replicate h hheight hbig⟩

end Families

/-! ## Queries for long beginnings -/

/-- All servers of base nodes have more words than those of alternative ones. -/
def alterLoad : Option (Nat → ServerInfo) := some fun _ _ _ => (1, 0)

theorem prefersAlter_alterLoad : PrefersAlter alterLoad := by
  rintro info ⟨⟩ iter id id'
  exact (by decide : (0 : Int64) < 1)

def insertedAlter (sfxTree : Bool) {d : Dart} (h : d.Space) (key : Bytes) (hkey : key ≠ []) :
    InsertedKey sfxTree d where
  key
  cb := alterLoad
  count := d.clientRequestCount
  ins := inserted sfxTree d key alterLoad
  ne_nil := hkey
  inserted := dartHash_insert_eq (h.insert_isSome hkey prefersAlter_alterLoad)

theorem matchesForm_prefixQuery (h : token <+: key) :
    MatchesForm sfxTree .prefixQuery token key 0 := ⟨rfl, h⟩

theorem isAffixQuery_prefixQuery (sfxTree : Bool) : isAffixQuery sfxTree .prefixQuery = true := by
  cases sfxTree <;> rfl

theorem MissesKey.not_longAffixRouted (hspace : d.Space) (hheight : 2 ≤ d.dartTreeHeight)
    {c : UInt8} (h : MissesKey d token c base) : ¬LongAffixRouted sfxTree d d.dartTreeHeight := by
  intro hrouted
  have hnil : token ++ [c] ≠ [] := by simp
  have hreach := hrouted (insertedAlter sfxTree hspace (token ++ [c]) hnil) 0 token .prefixQuery
    (isAffixQuery_prefixQuery sfxTree) (matchesForm_prefixQuery (prefix_append _ _))
    h.length_eq
  have htok : tokOf sfxTree (insertedAlter sfxTree hspace (token ++ [c]) hnil).key 0 =
      token ++ [c] := by simp [tokOf, insertedAlter]
  rw [htok] at hreach
  exact not_routedTo_of_offset hspace (by omega) (prefix_append _ _) h.length_eq
    h.first_nonneg h.base_eq h.offset_ne_zero h.offset_ne
    (dartHash_insert_withCount (insertedAlter sfxTree hspace _ hnil).inserted)
    prefersAlter_alterLoad hreach

theorem count_ne_of_longAffixRouted (h : d.Space)
    (hlen : d.dartTreeHeight ≤ len) (hrouted : LongAffixRouted sfxTree d len) :
    d.clientRequestCount ≠ Int32.maxValue := by
  have hone := d.one_le_dartTreeHeight
  have hkey : replicate len (1 : UInt8) ≠ [] := by
    simp
    omega
  exact clientRequestCount_ne_of_routedTo
    (twoChoices_of_long (isAffixQuery_prefixQuery sfxTree) (by simpa using hlen))
    (hrouted (insertedAlter sfxTree h _ hkey) 0 (replicate len 1) .prefixQuery
      (isAffixQuery_prefixQuery sfxTree) (matchesForm_prefixQuery (prefix_refl _)) (by simp))

/-- Queries for beginnings that are longer than the tree is high get to the keys they match, in
every space whose counter of requests can be raised. In a space as it is set up, beginnings with
as many letters as the tree is high do so just if the space is one of the smallest. -/
theorem longAffixRouted_iff (sfxTree : Bool) (d : Dart) (len : Nat)
    (hlen : d.dartTreeHeight ≤ len) :
    (d.clientRequestCount ≠ Int32.maxValue → d.dartTreeHeight < len →
      LongAffixRouted sfxTree d len) ∧
    (d.Space → (LongAffixRouted sfxTree d len ↔
      d.clientRequestCount ≠ Int32.maxValue ∧ LongEnough d len)) := by
  refine ⟨fun hcount hlong => ?_, fun h => ⟨fun hrouted => ?_, fun ⟨hcount, hlong⟩ => ?_⟩⟩
  · exact longAffixRouted_of_offset hlen hcount fun _ base token rest htoken =>
      regionOffset_append (by omega) base rest
  · refine ⟨count_ne_of_longAffixRouted h hlen hrouted, ?_⟩
    by_contra hshort
    simp only [LongEnough, not_or] at hshort
    obtain ⟨hle, hhigh, hone, hsmall⟩ := hshort
    obtain rfl : len = d.dartTreeHeight := by omega
    have hheight := d.one_le_dartTreeHeight
    have halphabet := d.one_le_alphabetSize
    obtain ⟨token, base, hmiss⟩ := exists_misses h (by omega) (by omega) hsmall
    exact hmiss.not_longAffixRouted h (by omega) hrouted
  · exact longAffixRouted_of_longEnough h hlen hcount hlong

theorem space_defaultSpace : (defaultSpace 0).Space where
  numVnode := by decide +kernel
  numVnode_lt := by decide +kernel
  numServer_le := by decide +kernel

theorem longAffixRouted_five_letters : LongAffixRouted false (defaultSpace 0) 5 :=
  (longAffixRouted_iff false (defaultSpace 0) 5 (by decide)).1 (by decide) (by decide)

theorem misses_edcb : MissesKey (defaultSpace 0) [101, 100, 99, 98] 97 408014 where
  length_eq := rfl
  first_nonneg := by decide
  base_eq := by decide +kernel
  offset_ne_zero := by decide +kernel
  offset_ne := by decide +kernel

/-- A query for `edcb*` misses the alternative node of `edcba`. -/
theorem not_longAffixRouted_four_letters : ¬LongAffixRouted false (defaultSpace 0) 4 :=
  misses_edcb.not_longAffixRouted space_defaultSpace (by decide)

end Pdc
