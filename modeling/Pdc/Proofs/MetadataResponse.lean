import Mathlib.Algebra.Order.BigOperators.Group.List
import Pdc.Client.MetadataQuery
import Pdc.Proofs.MetadataServer

/-!
# Answers of the metadata server

The server writes, for each request in turn, how many stored regions it
overlaps and then one record for each. The client reads records one after
another and starts on the next request when it has read as many as were
announced. It does not expect to be told zero: a request that overlaps
nothing makes it read the following bytes as a record of that request.

The server counts the bytes it is going to write in a first pass. That pass
leaves out the counter of a request on an object it does not know, which the
second pass writes.

`metadataResponse_iff` says that these are the only two ways the answer can go
wrong.
-/

namespace Pdc

open List Lib

variable {q : MetadataRequest} {r : RegionMetadata} {pkgs : List RegionPkg}
  {qs rest : List MetadataRequest} (objs : List ObjMetadata) (requests : List MetadataRequest)
  (k index : Nat) {i : Nat} {pkg : RegionPkg}

/-! ## What should be answered -/

/-- The stored regions a request overlaps, clipped to it, in stored order. -/
def overlapsOf (objs : List ObjMetadata) (q : MetadataRequest) : List RegionMetadata :=
  (registered objs q.objId).filterMap fun r =>
    (regionOverlapDetect q.ndim r.region q.region).map fun ov =>
      { region := ov, dataServerId := r.dataServerId }

def recordBytes (r : RegionMetadata) : Bytes :=
  u32Bytes r.dataServerId ++ (u64sBytes r.region.offset ++ u64sBytes r.region.size)

theorem regionOverlapDetect_isSome (ndim : Nat) (a b : Region) :
    (regionOverlapDetect ndim a b).isSome = checkOverlap ndim a b := by
  rw [regionOverlapDetect]
  split
  next h => rw [h]; rfl
  next h => rw [Bool.not_eq_true _ |>.mp h]; rfl

theorem length_regionOverlapDetect {ndim : Nat} {a b ov : Region}
    (h : regionOverlapDetect ndim a b = some ov) :
    ov.offset.length = ndim ∧ ov.size.length = ndim := by
  rw [regionOverlapDetect] at h
  split at h
  · rw [Option.some.injEq] at h
    subst h
    exact ⟨by simp, by simp⟩
  · simp at h

theorem coords_overlapsOf {objs : List ObjMetadata} (hr : r ∈ overlapsOf objs q) :
    r.region.offset.length = q.ndim ∧ r.region.size.length = q.ndim := by
  rw [overlapsOf, mem_filterMap] at hr
  obtain ⟨x, _, hx⟩ := hr
  obtain ⟨ov, hov, rfl⟩ := Option.map_eq_some_iff.mp hx
  exact length_regionOverlapDetect hov

theorem transferRequestCounter_eq {temp : ObjMetadata} (h : findMetadata objs q.objId = some temp) :
    transferRequestCounter q temp = (overlapsOf objs q).length := by
  rw [transferRequestCounter, overlapsOf, registered, h, length_filterMap_eq_countP]
  simp only [Option.isSome_map, regionOverlapDetect_isSome]

theorem overlapsOf_of_none (h : findMetadata objs q.objId = none) : overlapsOf objs q = [] := by
  rw [overlapsOf, registered, h]
  rfl

theorem queryBufEntry_eq (q : MetadataRequest) (counter : Nat) :
    queryBufEntry objs q counter = intBytes counter ++ (overlapsOf objs q).flatMap recordBytes := by
  rw [queryBufEntry, overlapsOf, registered]
  cases findMetadata objs q.objId with
  | none => rfl
  | some temp =>
    obtain ⟨ndim, objId, regions⟩ := temp
    refine congrArg (intBytes counter ++ ·) ?_
    simp only
    induction regions with
    | nil => rfl
    | cons r rest ih =>
      rw [flatMap_cons, filterMap_cons, ih, overlapRecord]
      cases regionOverlapDetect q.ndim r.region q.region with
      | none => simp
      | some ov => simp [recordBytes]

/-! ## The first pass -/

def overlapTotal (objs : List ObjMetadata) (requests : List MetadataRequest) : Nat :=
  (requests.map fun q => (overlapsOf objs q).length).sum

def entryBytes (objs : List ObjMetadata) (q : MetadataRequest) : Bytes :=
  intBytes (overlapsOf objs q).length ++ (overlapsOf objs q).flatMap recordBytes

theorem queryBufSizes_counters :
    (queryBufSizes objs requests).2 =
      (requests.map fun q => (overlapsOf objs q).length, overlapTotal objs requests) := by
  induction requests with
  | nil => rfl
  | cons q rest ih =>
    rw [overlapTotal] at ih ⊢
    rw [queryBufSizes, map_cons, sum_cons]
    cases hfind : findMetadata objs q.objId with
    | none => simp only [ih, overlapsOf_of_none objs hfind, length_nil, Nat.zero_add]
    | some temp => simp only [ih, transferRequestCounter_eq objs hfind, Nat.add_comm]

theorem length_recordBytes {objs : List ObjMetadata} (hr : r ∈ overlapsOf objs q) :
    (recordBytes r).length = 4 + 8 * q.ndim * 2 := by
  obtain ⟨hoff, hsize⟩ := coords_overlapsOf hr
  rw [recordBytes, length_append, length_append, length_u32Bytes, length_u64sBytes,
    length_u64sBytes, hoff, hsize]
  omega

theorem length_entryBytes (q : MetadataRequest) :
    (entryBytes objs q).length = 4 + (overlapsOf objs q).length * (4 + 8 * q.ndim * 2) := by
  rw [entryBytes, length_append, length_intBytes,
    length_flatMap_of_const fun r hr => length_recordBytes hr]

theorem queryBuf_eq :
    (queryBuf objs requests).1 =
      intBytes (overlapTotal objs requests) ++ requests.flatMap (entryBytes objs) := by
  have hzip : ∀ l : List MetadataRequest,
      (l.zip (l.map fun q => (overlapsOf objs q).length)).flatMap
        (fun p => queryBufEntry objs p.1 p.2) = l.flatMap (entryBytes objs) := by
    intro l
    induction l with
    | nil => rfl
    | cons q l ih =>
      rw [map_cons, zip_cons_cons, flatMap_cons, flatMap_cons, ih, entryBytes, ← queryBufEntry_eq]
  have hcounters := queryBufSizes_counters objs requests
  rw [queryBuf]
  generalize queryBufSizes objs requests = sizes at hcounters ⊢
  obtain ⟨size, counters, total⟩ := sizes
  simp only [Prod.mk.injEq] at hcounters
  rw [hcounters.1, hcounters.2]
  exact congrArg (intBytes (overlapTotal objs requests) ++ ·) (hzip requests)

theorem queryBufSizes_size :
    (queryBuf objs requests).1.length = (queryBuf objs requests).2 +
      4 * requests.countP (fun q => (findMetadata objs q.objId).isNone) := by
  rw [queryBuf_eq, length_append, length_intBytes]
  rw [show (queryBuf objs requests).2 = (queryBufSizes objs requests).1 from rfl]
  induction requests with
  | nil => rfl
  | cons q rest ih =>
    rw [flatMap_cons, length_append, length_entryBytes, queryBufSizes, countP_cons]
    cases hfind : findMetadata objs q.objId with
    | none =>
      simp only [overlapsOf_of_none objs hfind, length_nil, Nat.zero_mul, Option.isNone_none,
        if_true]
      omega
    | some temp =>
      simp only [transferRequestCounter_eq objs hfind, Option.isNone_some, Bool.false_eq_true,
        if_false]
      omega

/-! ## The client's loop -/

def pkgOf (q : MetadataRequest) (request : Nat) (index : Int) (r : RegionMetadata) : RegionPkg where
  request := request
  index := index
  dataServerId := r.dataServerId
  remoteOffset := r.region.offset
  remoteSize := r.region.size
  subOffset := subOffset q r.region.offset

/-- The packages of a request's last overlaps, when it has `n` in all. -/
def pkgsOf (q : MetadataRequest) (request : Nat) (n : Int) : List RegionMetadata → List RegionPkg
  | [] => []
  | r :: rs => pkgOf q request (n - (rs.length + 1 : Nat)) r :: pkgsOf q request n rs

theorem readPkg_reads {requests : List MetadataRequest} (hq : requests[i]? = some q)
    (index : Int) (hr : r.region.offset.length = q.ndim ∧ r.region.size.length = q.ndim) :
    Reads (readPkg requests i index) (recordBytes r) (pkgOf q i index r) := by
  have hoff := Reads.u64s r.region.offset
  have hsize := Reads.u64s r.region.size
  rw [hr.1] at hoff
  rw [hr.2] at hsize
  rw [readPkg, hq]
  exact (Reads.u32 _).bind (hoff.bind (hsize.map _))

/-- What the loop does once it knows its counter: take one record and go on. -/
def unpackNext (requests : List MetadataRequest) (k : Nat) (counter : Int)
    (index localRequest : Nat) (nObjServers : Int) : Reader (List RegionPkg) := do
  let pkg ← readPkg requests localRequest (nObjServers - counter)
  let pkgs ← unpackLoop requests k (counter - 1)
    (if counter - 1 = 0 then index + 1 else index) localRequest nObjServers
  pure (pkg :: pkgs)

theorem unpackLoop_succ {counter : Int} (hc : counter ≠ 0) (requests : List MetadataRequest)
    (k index localRequest : Nat) (nObjServers : Int) :
    unpackLoop requests (k + 1) counter index localRequest nObjServers =
      unpackNext requests k counter index localRequest nObjServers := by
  rw [unpackLoop, if_neg hc]
  rfl

theorem unpackLoop_succ_zero (localRequest : Nat) (nObjServers : Int) :
    unpackLoop requests (k + 1) 0 index localRequest nObjServers =
      (do let counter ← readInt
          unpackNext requests k counter index index counter) := by
  rw [unpackLoop, if_pos rfl]
  simp [unpackNext]

theorem unpackLoop_zero (localRequest : Nat) (nObjServers : Int) :
    unpackLoop requests k 0 index localRequest nObjServers = unpackLoop requests k 0 index 0 0 := by
  cases k with
  | zero => rfl
  | succ k => rw [unpackLoop_succ_zero, unpackLoop_succ_zero]

def prepend (pkgs : List RegionPkg) (res : Option (List RegionPkg × Bytes)) :
    Option (List RegionPkg × Bytes) :=
  res.map fun (out, rest) => (pkgs ++ out, rest)

theorem unpackNext_append {requests : List MetadataRequest} (hq : requests[i]? = some q)
    (hr : r.region.offset.length = q.ndim ∧ r.region.size.length = q.ndim) (k : Nat)
    (counter n : Int) (index : Nat) (tail : Bytes) :
    unpackNext requests k counter index i n (recordBytes r ++ tail) =
      prepend [pkgOf q i (n - counter) r] (unpackLoop requests k (counter - 1)
        (if counter - 1 = 0 then index + 1 else index) i n tail) := by
  have hread := readPkg_reads hq (n - counter) hr
  rw [unpackNext, hread.bind_append, bind_apply]
  cases unpackLoop requests k (counter - 1) (if counter - 1 = 0 then index + 1 else index) i n
    tail <;> rfl

theorem unpackLoop_records {requests : List MetadataRequest} {i : Nat} {q : MetadataRequest}
    (hq : requests[i]? = some q) (n : Int) (k : Nat) (tail : Bytes) :
    ∀ {r : RegionMetadata} {rs : List RegionMetadata},
    (∀ x ∈ r :: rs, x.region.offset.length = q.ndim ∧ x.region.size.length = q.ndim) →
    unpackNext requests (rs.length + k) (rs.length + 1 : Nat) i i n
        ((r :: rs).flatMap recordBytes ++ tail) =
      prepend (pkgsOf q i n (r :: rs)) (unpackLoop requests k 0 (i + 1) 0 0 tail) := by
  intro r rs
  induction rs generalizing r with
  | nil =>
    intro hcoords
    rw [flatMap_cons, flatMap_nil, append_nil, unpackNext_append hq (hcoords r mem_cons_self)]
    simp only [length_nil, Nat.zero_add, Nat.cast_one, sub_self, if_true]
    rw [unpackLoop_zero]
    simp [pkgsOf]
  | cons x rs ih =>
    intro hcoords
    rw [flatMap_cons, append_assoc, unpackNext_append hq (hcoords r mem_cons_self)]
    have hpred : ((((x :: rs).length + 1 : Nat) : Int) - 1) = ((rs.length + 1 : Nat) : Int) := by
      simp
    have hne : ((rs.length + 1 : Nat) : Int) ≠ 0 := by omega
    rw [hpred, if_neg hne, length_cons,
      show rs.length + 1 + k = rs.length + k + 1 by omega, unpackLoop_succ hne,
      ih fun y hy => hcoords y (mem_cons_of_mem _ hy)]
    cases unpackLoop requests k 0 (i + 1) 0 0 tail with
    | none => rfl
    | some res => simp [prepend, pkgsOf]

/-! ## Whole answers -/

def pkgsFrom (objs : List ObjMetadata) : Nat → List MetadataRequest → List RegionPkg
  | _, [] => []
  | i, q :: rest =>
    pkgsOf q i (overlapsOf objs q).length (overlapsOf objs q) ++ pkgsFrom objs (i + 1) rest

theorem prepend_prepend (ps qs : List RegionPkg) (res : Option (List RegionPkg × Bytes)) :
    prepend ps (prepend qs res) = prepend (ps ++ qs) res := by
  cases res with
  | none => rfl
  | some res => simp [prepend]

theorem unpackLoop_requests {objs : List ObjMetadata} {requests : List MetadataRequest} (k : Nat)
    (tail : Bytes) : ∀ {qs after : List MetadataRequest} {i : Nat},
    requests.drop i = qs ++ after →
    (∀ q ∈ qs, overlapsOf objs q ≠ [] ∧ (overlapsOf objs q).length < 2 ^ 31) →
    unpackLoop requests (overlapTotal objs qs + k) 0 i 0 0
        (qs.flatMap (entryBytes objs) ++ tail) =
      prepend (pkgsFrom objs i qs) (unpackLoop requests k 0 (i + qs.length) 0 0 tail) := by
  intro qs
  induction qs with
  | nil =>
    intro after i _ _
    rw [flatMap_nil, nil_append, overlapTotal, map_nil, sum_nil,
      Nat.zero_add, length_nil, Nat.add_zero]
    cases unpackLoop requests k 0 i 0 0 tail with
    | none => rfl
    | some res => simp [prepend, pkgsFrom]
  | cons q qs ih =>
    intro after i hdrop hqs
    rw [forall_mem_cons] at hqs
    obtain ⟨r, rs, hrs⟩ := exists_cons_of_ne_nil hqs.1.1
    have hget : requests[i]? = some q := by
      rw [← Nat.add_zero i, ← getElem?_drop, hdrop]
      rfl
    have hdrop' : requests.drop (i + 1) = qs ++ after := by
      rw [← tail_drop, hdrop]
      rfl
    have hcount : Reads readInt (intBytes (overlapsOf objs q).length)
        (overlapsOf objs q).length := by
      exact Reads.int (by omega) (by omega)
    have htotal : overlapTotal objs (q :: qs) + k =
        rs.length + (overlapTotal objs qs + k) + 1 := by
      rw [overlapTotal, map_cons, sum_cons, hrs, length_cons, overlapTotal]
      omega
    have hrecords := @unpackLoop_records requests i q hget (overlapsOf objs q).length
      (overlapTotal objs qs + k) (qs.flatMap (entryBytes objs) ++ tail) r rs
      (fun x hx => coords_overlapsOf (hrs ▸ hx))
    have hbytes : (q :: qs).flatMap (entryBytes objs) ++ tail =
        intBytes (overlapsOf objs q).length ++ ((overlapsOf objs q).flatMap recordBytes ++
          (qs.flatMap (entryBytes objs) ++ tail)) := by
      rw [flatMap_cons, entryBytes]
      simp only [append_assoc]
    rw [htotal, unpackLoop_succ_zero, hbytes, hcount.bind_append]
    rw [← hrs] at hrecords
    rw [show (overlapsOf objs q).length = rs.length + 1 by rw [hrs,
      length_cons]] at hrecords ⊢
    rw [hrecords, ih hdrop' hqs.2, prepend_prepend, pkgsFrom,
      show (overlapsOf objs q).length = rs.length + 1 by rw [hrs, length_cons],
      length_cons, Nat.add_assoc i 1, Nat.add_comm 1]

/-! ## Attribution -/

/-- What a package says of a data server. -/
def RegionPkg.overlap (pkg : RegionPkg) : RegionMetadata where
  region := { offset := pkg.remoteOffset, size := pkg.remoteSize }
  dataServerId := pkg.dataServerId

/-- The packages of each request are its overlaps, in stored order. -/
def Attributed (objs : List ObjMetadata) (requests : List MetadataRequest)
    (pkgs : List RegionPkg) : Prop :=
  ∀ p ∈ requests.zipIdx,
    (pkgs.filter fun pkg => pkg.request = p.2).map RegionPkg.overlap = overlapsOf objs p.1

theorem request_of_mem_pkgsOf {n : Int} {rs : List RegionMetadata}
    (h : pkg ∈ pkgsOf q i n rs) : pkg.request = i := by
  induction rs with
  | nil => simp [pkgsOf] at h
  | cons r rs ih =>
    rw [pkgsOf, mem_cons] at h
    obtain rfl | h := h
    · rfl
    · exact ih h

theorem overlap_pkgsOf (q : MetadataRequest) (i : Nat) (n : Int) (rs : List RegionMetadata) :
    (pkgsOf q i n rs).map RegionPkg.overlap = rs := by
  induction rs with
  | nil => rfl
  | cons r rs ih => rw [pkgsOf, map_cons, ih]; rfl

theorem request_of_mem_pkgsFrom {objs : List ObjMetadata} :
    ∀ {qs : List MetadataRequest} {i : Nat}, pkg ∈ pkgsFrom objs i qs → i ≤ pkg.request := by
  intro qs
  induction qs with
  | nil => intro i h; simp [pkgsFrom] at h
  | cons q qs ih =>
    intro i h
    rw [pkgsFrom, mem_append] at h
    obtain h | h := h
    · rw [request_of_mem_pkgsOf h]
    · have hle := ih h
      omega

theorem attributed_pkgsFrom :
    ∀ (qs : List MetadataRequest) (i : Nat), ∀ p ∈ qs.zipIdx i,
      ((pkgsFrom objs i qs).filter fun pkg => pkg.request = p.2).map RegionPkg.overlap =
        overlapsOf objs p.1 := by
  intro qs
  induction qs with
  | nil => intro i p hp; simp at hp
  | cons q qs ih =>
    intro i p hp
    rw [zipIdx_cons, mem_cons] at hp
    rw [pkgsFrom, filter_append, map_append]
    obtain rfl | hp := hp
    · have hself : (pkgsOf q i (overlapsOf objs q).length (overlapsOf objs q)).filter
          (fun pkg => pkg.request = i) = pkgsOf q i (overlapsOf objs q).length (overlapsOf objs q)
            :=
        filter_eq_self.mpr fun pkg hpkg => by simpa using request_of_mem_pkgsOf hpkg
      have hrest : (pkgsFrom objs (i + 1) qs).filter (fun pkg => pkg.request = i) = [] :=
        filter_eq_nil_iff.mpr fun pkg hpkg => by
          have hle := request_of_mem_pkgsFrom hpkg
          simp only [decide_eq_true_eq]
          omega
      rw [hself, hrest, overlap_pkgsOf, map_nil, append_nil]
    · have hlt : i + 1 ≤ p.2 := le_snd_of_mem_zipIdx hp
      have hself : (pkgsOf q i (overlapsOf objs q).length (overlapsOf objs q)).filter
          (fun pkg => pkg.request = p.2) = [] :=
        filter_eq_nil_iff.mpr fun pkg hpkg => by
          have heq := request_of_mem_pkgsOf hpkg
          simp only [decide_eq_true_eq]
          omega
      rw [hself, map_nil, nil_append, ih (i + 1) p hp]

theorem pkgsFrom_append : ∀ (qs qs' : List MetadataRequest) (i : Nat),
    pkgsFrom objs i (qs ++ qs') = pkgsFrom objs i qs ++ pkgsFrom objs (i + qs.length) qs' := by
  intro qs
  induction qs with
  | nil => intro qs' i; rfl
  | cons q qs ih =>
    intro qs' i
    rw [cons_append, pkgsFrom, pkgsFrom, ih, append_assoc, length_cons,
      Nat.add_right_comm, Nat.add_assoc]

theorem pkgsFrom_of_none {objs : List ObjMetadata} : ∀ {qs : List MetadataRequest} {i : Nat},
    (∀ q ∈ qs, overlapsOf objs q = []) → pkgsFrom objs i qs = [] := by
  intro qs
  induction qs with
  | nil => intro i _; rfl
  | cons q qs ih =>
    intro i h
    rw [forall_mem_cons] at h
    rw [pkgsFrom, h.1, ih h.2]
    rfl

theorem countP_request_succ (pkgs : List RegionPkg) (i : Nat) :
    (pkgs.countP fun pkg => pkg.request = i) + (pkgs.countP fun pkg => i + 1 ≤ pkg.request) =
      pkgs.countP fun pkg => i ≤ pkg.request := by
  induction pkgs with
  | nil => rfl
  | cons pkg pkgs ih =>
    simp only [countP_cons, decide_eq_true_eq]
    split <;> split <;> split <;> omega

theorem overlapTotal_le_of_attributed {objs : List ObjMetadata} {requests : List MetadataRequest}
    (h : Attributed objs requests pkgs) : overlapTotal objs requests ≤ pkgs.length := by
  have hcount : ∀ (qs : List MetadataRequest) (i : Nat), (∀ p ∈ qs.zipIdx i,
      (pkgs.filter fun pkg => pkg.request = p.2).map RegionPkg.overlap = overlapsOf objs p.1) →
      overlapTotal objs qs ≤ pkgs.countP fun pkg => i ≤ pkg.request := by
    intro qs
    induction qs with
    | nil => intro i _; simp [overlapTotal]
    | cons q qs ih =>
      intro i hall
      rw [zipIdx_cons, forall_mem_cons] at hall
      have hlen : (overlapsOf objs q).length = pkgs.countP fun pkg => pkg.request = i := by
        rw [← hall.1, length_map, countP_eq_length_filter]
      have hrest := ih (i + 1) hall.2
      rw [overlapTotal, map_cons, sum_cons, hlen, ← countP_request_succ]
      rw [overlapTotal] at hrest
      omega
  exact (hcount requests 0 h).trans countP_le_length

/-! ## When the answer is right -/

/-- Requests either come with those that overlap something first, or some
request that overlaps nothing has one that does behind it. -/
theorem requests_cases :
    (∃ qs rest, requests = qs ++ rest ∧ (∀ q ∈ qs, overlapsOf objs q ≠ []) ∧
      ∀ q ∈ rest, overlapsOf objs q = []) ∨
    ∃ qs z rest, requests = qs ++ z :: rest ∧ (∀ q ∈ qs, overlapsOf objs q ≠ []) ∧
      overlapsOf objs z = [] ∧ ∃ q ∈ rest, overlapsOf objs q ≠ [] := by
  have hqs : ∀ q ∈ requests.takeWhile (overlapsOf objs · ≠ []), overlapsOf objs q ≠ [] :=
    fun q hq => of_decide_eq_true (all_eq_true.mp all_takeWhile q hq)
  have happend := takeWhile_append_dropWhile (p := (overlapsOf objs · ≠ [])) (l := requests)
  cases hdrop : requests.dropWhile (overlapsOf objs · ≠ []) with
  | nil =>
    rw [hdrop] at happend
    exact .inl ⟨_, [], happend.symm, hqs, by simp⟩
  | cons z rest =>
    rw [hdrop] at happend
    have hz : overlapsOf objs z = [] := by
      have hhead := head_dropWhile_not (overlapsOf objs · ≠ []) (hdrop ▸ cons_ne_nil z rest)
      simpa only [hdrop, head_cons, decide_eq_false_iff_not, not_not] using hhead
    by_cases hrest : ∃ q ∈ rest, overlapsOf objs q ≠ []
    · exact .inr ⟨_, z, rest, happend.symm, hqs, hz, hrest⟩
    · refine .inl ⟨_, z :: rest, happend.symm, hqs, ?_⟩
      rw [forall_mem_cons]
      exact ⟨hz, by simpa using hrest⟩

theorem overlapTotal_append (qs qs' : List MetadataRequest) :
    overlapTotal objs (qs ++ qs') = overlapTotal objs qs + overlapTotal objs qs' := by
  simp [overlapTotal]

theorem length_le_overlapTotal (hq : q ∈ qs) : (overlapsOf objs q).length ≤ overlapTotal objs qs :=
  single_le_sum (by simp) _ (mem_map_of_mem hq)

theorem unpack_eq {total : Nat} (htotal : total < 2 ^ 31) (requests : List MetadataRequest)
    (tail : Bytes) :
    unpackRegionMetadataQuery (intBytes total ++ tail) requests =
      (unpackLoop requests total 0 0 0 0 tail).map Prod.fst := by
  have hsize : Reads readInt (intBytes total) total := Reads.int (by omega) (by omega)
  rw [unpackRegionMetadataQuery, hsize.bind_append, Int.toNat_natCast]

theorem unpackLoop_of_zero {requests : List MetadataRequest} {k : Nat} {tail rest : Bytes}
    (h : unpackLoop requests (k + 1) 0 i 0 0 (intBytes (0 : Nat) ++ tail) = some (pkgs, rest)) :
    ∃ pkg ∈ pkgs, pkg.request = i := by
  have hzero : Reads readInt (intBytes (0 : Nat)) (0 : Nat) := Reads.int (by omega) (by omega)
  rw [unpackLoop_succ_zero, hzero.bind_append, unpackNext] at h
  obtain ⟨pkg, cs, hpkg, h⟩ := bind_eq_some.mp h
  obtain ⟨pkgs', ds, _, h⟩ := bind_eq_some.mp h
  obtain ⟨rfl, _⟩ := pure_eq_some.mp h
  refine ⟨pkg, mem_cons_self, ?_⟩
  rw [readPkg] at hpkg
  cases hq : requests[i]? with
  | none =>
    rw [hq] at hpkg
    exact absurd hpkg failure_ne_some
  | some q =>
    rw [hq] at hpkg
    obtain ⟨server, _, _, hpkg⟩ := bind_eq_some.mp hpkg
    obtain ⟨offset, _, _, hpkg⟩ := bind_eq_some.mp hpkg
    obtain ⟨size, es, _, hpkg⟩ := bind_eq_some.mp hpkg
    rw [← (pure_eq_some.mp hpkg).1]

theorem unpackLoop_length {requests : List MetadataRequest} :
    ∀ {k i l : Nat} {counter n : Int} {bs rest : Bytes} {pkgs : List RegionPkg},
      unpackLoop requests k counter i l n bs = some (pkgs, rest) → pkgs.length = k := by
  intro k
  induction k with
  | zero =>
    intro i l counter n bs rest pkgs h
    obtain ⟨rfl, _⟩ := pure_eq_some.mp h
    rfl
  | succ k ih =>
    intro i l counter n bs rest pkgs h
    obtain ⟨_, _, _, h⟩ := bind_eq_some.mp h
    obtain ⟨pkg, _, _, h⟩ := bind_eq_some.mp h
    obtain ⟨pkgs', ds, hloop, h⟩ := bind_eq_some.mp h
    obtain ⟨rfl, _⟩ := pure_eq_some.mp h
    rw [length_cons, ih hloop]

theorem length_unpack {buf : Bytes} {requests : List MetadataRequest}
    (h : unpackRegionMetadataQuery buf requests = some pkgs) : pkgs.length < 2 ^ 31 := by
  rw [unpackRegionMetadataQuery, Option.map_eq_some_iff] at h
  obtain ⟨⟨pkgs', rest⟩, h, rfl⟩ := h
  obtain ⟨size, cs, hsize, hloop⟩ := bind_eq_some.mp h
  obtain ⟨m, ds, _, hpure⟩ := bind_eq_some.mp hsize
  obtain ⟨rfl, _⟩ := pure_eq_some.mp hpure
  have hlt := Int.bmod_lt (x := m) (m := 2 ^ 32) (by decide)
  rw [unpackLoop_length hloop]
  omega

theorem unpack_queryBuf {objs : List ObjMetadata} (htotal : overlapTotal objs (qs ++ rest) < 2 ^ 31)
    (hqs : ∀ q ∈ qs, overlapsOf objs q ≠ []) (hrest : ∀ q ∈ rest, overlapsOf objs q = []) :
    unpackRegionMetadataQuery (queryBuf objs (qs ++ rest)).1 (qs ++ rest) =
      some (pkgsFrom objs 0 (qs ++ rest)) := by
  have hzero : overlapTotal objs rest = 0 := by
    refine sum_eq_zero fun n hn => ?_
    obtain ⟨q, hq, rfl⟩ := mem_map.mp hn
    rw [hrest q hq, length_nil]
  rw [overlapTotal_append, hzero] at htotal
  have hloop := @unpackLoop_requests objs (qs ++ rest) 0 (rest.flatMap (entryBytes objs))
    qs rest 0 rfl fun q hq => ⟨hqs q hq, lt_of_le_of_lt (length_le_overlapTotal objs hq) htotal⟩
  rw [queryBuf_eq, overlapTotal_append, hzero, unpack_eq htotal, flatMap_append, hloop,
    pkgsFrom_append, pkgsFrom_of_none hrest]
  rfl

/-- A request that overlaps nothing, with one behind it that does, is given a
package. -/
theorem not_attributed_of_gap {objs : List ObjMetadata}
    {z : MetadataRequest} (hqs : ∀ q ∈ qs, overlapsOf objs q ≠ []) (hz : overlapsOf objs z = [])
    (hrest : ∃ q ∈ rest, overlapsOf objs q ≠ [])
    (hpkgs : unpackRegionMetadataQuery (queryBuf objs (qs ++ z :: rest)).1 (qs ++ z :: rest) =
      some pkgs)
    : ¬ Attributed objs (qs ++ z :: rest) pkgs := by
  intro hattr
  have htotal := lt_of_le_of_lt (overlapTotal_le_of_attributed hattr) (length_unpack hpkgs)
  have hmore : ∃ k, overlapTotal objs (qs ++ z :: rest) = overlapTotal objs qs + (k + 1) := by
    obtain ⟨q, hq, hne⟩ := hrest
    have hle := length_le_overlapTotal objs (mem_cons_of_mem z hq)
    have hpos := length_pos_of_ne_nil hne
    refine ⟨overlapTotal objs (z :: rest) - 1, ?_⟩
    rw [overlapTotal_append]
    omega
  obtain ⟨k, hk⟩ := hmore
  have hloop := @unpackLoop_requests objs (qs ++ z :: rest) (k + 1)
    ((z :: rest).flatMap (entryBytes objs)) qs (z :: rest) 0 rfl fun q hq =>
      ⟨hqs q hq, by have hle := length_le_overlapTotal objs hq; omega⟩
  rw [queryBuf_eq, unpack_eq htotal, hk, flatMap_append, hloop, Option.map_eq_some_iff] at hpkgs
  obtain ⟨⟨_, rest'⟩, hres, rfl⟩ := hpkgs
  rw [prepend, Option.map_eq_some_iff] at hres
  obtain ⟨⟨out, rest''⟩, hout, heq⟩ := hres
  rw [Prod.mk.injEq] at heq
  rw [flatMap_cons, entryBytes, hz, flatMap_nil, append_nil, length_nil, Nat.zero_add] at hout
  obtain ⟨pkg, hpkg, hrequest⟩ := unpackLoop_of_zero hout
  have hmem : (z, qs.length) ∈ (qs ++ z :: rest).zipIdx := by
    rw [mk_mem_zipIdx_iff_getElem?]
    simp
  have hnil := hattr _ hmem
  rw [hz, map_eq_nil_iff, filter_eq_nil_iff] at hnil
  refine hnil pkg ?_ (by simpa using hrequest)
  rw [← heq.1]
  exact mem_append_right _ hpkg

/-- The answer is written into exactly the bytes allocated for it, and the
client attributes to each request the stored regions it overlaps, if and only
if every request is on a known object, the overlaps can be counted by an
`int`, and behind a request that overlaps nothing there is none that overlaps
something. -/
theorem metadataResponse_iff (objs : List ObjMetadata) (requests : List MetadataRequest) :
    ((queryBuf objs requests).1.length = (queryBuf objs requests).2 ∧
      ∃ pkgs, unpackRegionMetadataQuery (queryBuf objs requests).1 requests = some pkgs ∧
        Attributed objs requests pkgs) ↔
    (∀ q ∈ requests, findMetadata objs q.objId ≠ none) ∧ overlapTotal objs requests < 2 ^ 31 ∧
      requests.Pairwise fun q q' => overlapsOf objs q = [] → overlapsOf objs q' = [] := by
  have hsize : (queryBuf objs requests).1.length = (queryBuf objs requests).2 ↔
      ∀ q ∈ requests, findMetadata objs q.objId ≠ none := by
    rw [queryBufSizes_size, Nat.add_eq_left, Nat.mul_eq_zero, countP_eq_zero]
    simp
  rw [hsize]
  refine and_congr_right fun _ => ?_
  obtain ⟨qs, rest, rfl, hqs, hrest⟩ | ⟨qs, z, rest, rfl, hqs, hz, q, hq, hne⟩ :=
    requests_cases objs requests
  · constructor
    · intro ⟨pkgs, hpkgs, hattr⟩
      refine ⟨lt_of_le_of_lt (overlapTotal_le_of_attributed hattr) (length_unpack hpkgs), ?_⟩
      rw [pairwise_append]
      refine ⟨?_, ?_, fun q _ q' hq' _ => hrest q' hq'⟩
      · exact pairwise_of_forall_mem_list fun q hq _ _ h => absurd h (hqs q hq)
      · exact pairwise_of_forall_mem_list fun _ _ q' hq' _ => hrest q' hq'
    · intro ⟨htotal, _⟩
      exact ⟨_, unpack_queryBuf htotal hqs hrest, attributed_pkgsFrom objs _ 0⟩
  · refine iff_of_false ?_ ?_
    · intro ⟨pkgs, hpkgs, hattr⟩
      exact not_attributed_of_gap hqs hz ⟨q, hq, hne⟩ hpkgs hattr
    · intro ⟨_, hpair⟩
      rw [pairwise_append, pairwise_cons] at hpair
      exact hne (hpair.2.1.1 q hq hz)

def oneRegion : List ObjMetadata :=
  [{ ndim := 1, objId := 7, regions := [{ region := ⟨[0], [10]⟩, dataServerId := 0 }] }]

def readAt (offset : UInt64) : MetadataRequest where
  objId := 7
  dataServerId := 0
  regionPartition := .regionDynamic
  ndim := 1
  unit := 4
  region := ⟨[offset], [5]⟩

/-- A read outside the stored region, then one inside it: the one package goes
to the first. -/
theorem metadataResponse_misattributed :
    overlapsOf oneRegion (readAt 20) = [] ∧
    overlapsOf oneRegion (readAt 0) = [{ region := ⟨[0], [5]⟩, dataServerId := 0 }] ∧
    (unpackRegionMetadataQuery (queryBuf oneRegion [readAt 20, readAt 0]).1
      [readAt 20, readAt 0]).map (fun pkgs => pkgs.map RegionPkg.request) = some [0] := by
  decide +kernel

end Pdc
