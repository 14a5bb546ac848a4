import Mathlib.Data.Nat.ModEq
import Pdc.Proofs.MetadataServer

/-!
# Dynamic placement is balanced

A new region goes to a data server that has the fewest bytes. Afterwards that
server has at most the region more than any other one, and the others have not come
further apart, so no two servers differ by more than the largest region.

The counts are `uint64_t`s. A region, or the bytes of a server, of 2 to the 64th
bytes or more are only known modulo that number, and the bound does not survive
it. As long as some server can count the new region in addition to what it has, so
can the one it goes to.
-/

namespace Pdc

open List Lib

variable {q : MetadataRequest} {bytes : List UInt64}

/-- The bytes of the region of a request. -/
def MetadataRequest.regBytes (q : MetadataRequest) : Nat :=
  q.unit.toNat * ((range q.ndim).map fun i => q.region.size[i]!.toNat).prod

/-- The bytes of the largest region. -/
def largestRegion (qs : List MetadataRequest) : Nat :=
  (qs.map MetadataRequest.regBytes).max?.getD 0

/-- A new region that is placed dynamically and that a server has room to count. -/
structure PlacesNew (s : MetadataServer) (q : MetadataRequest) : Prop where
  dynamic : q.regionPartition = .regionDynamic
  new : ∀ r ∈ registered s.objs q.objId, ¬ detectRegionContained q.ndim q.region r.region
  room : ∃ b ∈ s.dataServerBytes, b.toNat + q.regBytes < 2 ^ 64

theorem toNat_totalRegSize (h : q.regBytes < 2 ^ 64) :
    (totalRegSize q.ndim q.unit q.region).toNat = q.regBytes := by
  have hfold : ∀ (l : List Nat) (unit : UInt64),
      (l.foldl (fun total i => total * q.region.size[i]!) unit).toNat ≡
        unit.toNat * (l.map fun i => q.region.size[i]!.toNat).prod [MOD 2 ^ 64] := by
    intro l
    induction l with
    | nil => intro unit; simp [Nat.ModEq.refl]
    | cons i l ih =>
      intro unit
      rw [map_cons, prod_cons, ← mul_assoc]
      refine (ih _).trans (Nat.ModEq.mul_right _ ?_)
      exact Nat.mod_modEq _ _
  exact Nat.ModEq.eq_of_lt_of_lt (hfold _ _) (UInt64.toNat_lt _) h

theorem minBytesServer_spec (hbytes : bytes ≠ []) :
    minBytesServer bytes < bytes.length ∧ ∀ x ∈ bytes, bytes[minBytesServer bytes]! ≤ x := by
  -- after `k` turns of the loop the first `k + 1` servers have been looked at
  have hloop : ∀ k < bytes.length, ∃ server, (range' 1 k).foldl (fun best i =>
      if best.1 > bytes[i]! then (bytes[i]!, i) else best) (bytes[0]!, 0) =
        (bytes[server]!, server) ∧ server < bytes.length ∧
        ∀ i ≤ k, bytes[server]! ≤ bytes[i]! := by
    intro k
    induction k with
    | zero => exact fun h => ⟨0, rfl, h, fun i hi => Nat.le_zero.mp hi ▸ UInt64.le_refl _⟩
    | succ k ih =>
      intro hk
      obtain ⟨server, heq, hlt, hle⟩ := ih (by omega)
      rw [range'_1_concat, foldl_append, heq, Nat.add_comm 1]
      by_cases hmin : bytes[server]! > bytes[k + 1]!
      · refine ⟨k + 1, if_pos hmin, hk, fun i hi => ?_⟩
        rcases Nat.le_succ_iff.mp hi with hi | rfl
        · exact UInt64.le_trans (UInt64.le_of_lt hmin) (hle i hi)
        · exact UInt64.le_refl _
      · refine ⟨server, if_neg hmin, hlt, fun i hi => ?_⟩
        rcases Nat.le_succ_iff.mp hi with hi | rfl
        · exact hle i hi
        · exact UInt64.not_lt.mp hmin
  have hpos := length_pos_of_ne_nil hbytes
  obtain ⟨server, heq, hlt, hle⟩ := hloop (bytes.length - 1) (by omega)
  rw [show minBytesServer bytes = server from congrArg Prod.snd heq]
  refine ⟨hlt, fun x hx => ?_⟩
  obtain ⟨i, hi, rfl⟩ := getElem_of_mem hx
  rw [← getElem!_pos bytes i hi]
  exact hle i (by omega)

/-- One registration. -/
def MetadataServer.register (s : MetadataServer) (q : MetadataRequest) : MetadataServer :=
  (transferRequestMetadataQueryAppend s q).1

/-- A server with the fewest bytes gets the region. -/
theorem PlacesNew.dataServerBytes_eq {s : MetadataServer} (h : PlacesNew s q) :
    ∃ m ∈ s.dataServerBytes, (∀ x ∈ s.dataServerBytes, m.toNat ≤ x.toNat) ∧
      ∃ i m', m'.toNat = m.toNat + q.regBytes ∧
        (s.register q).dataServerBytes = s.dataServerBytes.set i m' := by
  obtain ⟨b, hb, hroom⟩ := h.room
  obtain ⟨hlt, hmin⟩ := minBytesServer_spec (ne_nil_of_mem hb)
  have hnone : (registered s.objs q.objId).find?
      (fun r => detectRegionContained q.ndim q.region r.region) = none :=
    find?_eq_none.mpr h.new
  have hle := UInt64.le_iff_toNat_le.mp (hmin b hb)
  refine ⟨s.dataServerBytes[minBytesServer s.dataServerBytes]!, ?_,
    fun x hx => UInt64.le_iff_toNat_le.mp (hmin x hx), minBytesServer s.dataServerBytes,
    s.dataServerBytes[minBytesServer s.dataServerBytes]! + totalRegSize q.ndim q.unit q.region,
    ?_, ?_⟩
  · rw [getElem!_pos s.dataServerBytes _ hlt]
    exact getElem_mem hlt
  · rw [UInt64.toNat_add, toNat_totalRegSize (by omega), Nat.mod_eq_of_lt (by omega)]
  · rw [MetadataServer.register, transferRequestMetadataQueryAppend, hnone]
    simp [transferRequestMetadataRegAppend, h.dynamic]

/-- In a run of registrations, no server has more bytes than another one and the largest region
together. -/
theorem dynamic_placement_balanced (pdcServerSize : Nat) (qs : List MetadataRequest)
    (h : Along MetadataServer.register PlacesNew (MetadataServer.init pdcServerSize) qs) :
    ∀ a ∈ (run .register (MetadataServer.init pdcServerSize) qs).dataServerBytes,
    ∀ b ∈ (run .register (MetadataServer.init pdcServerSize) qs).dataServerBytes,
      a.toNat ≤ b.toNat + largestRegion qs := by
  have hlargest : ∀ q ∈ qs, q.regBytes ≤ largestRegion qs :=
    fun q hq => le_max?_getD_of_mem (mem_map_of_mem hq)
  refine Along.invariant_nil (I := fun _ s => ∀ a ∈ s.dataServerBytes, ∀ b ∈ s.dataServerBytes,
    a.toNat ≤ b.toNat + largestRegion qs) ?_ ?_ (Along.and_mem hlargest h)
  · intro _ s q hI ⟨hq, hreg⟩ a ha b hb
    obtain ⟨m, hm, hmin, i, m', hm', hset⟩ := hreg.dataServerBytes_eq
    rw [hset] at ha hb
    -- only `m'` is new, and it is at least `m`
    obtain hold | rfl := mem_or_eq_of_mem_set ha
    · obtain hold' | rfl := mem_or_eq_of_mem_set hb
      · exact hI a hold b hold'
      · have hle := hI a hold m hm
        omega
    · obtain hold' | rfl := mem_or_eq_of_mem_set hb
      · have hle := hmin b hold'
        omega
      · omega
  · intro a ha b hb
    simp [eq_of_mem_replicate ha]

/-- A region of so many bytes, in an object of its own. -/
def regionOfBytes (objId size : UInt64) : MetadataRequest where
  objId
  dataServerId := 0
  regionPartition := .regionDynamic
  ndim := 1
  unit := 1
  region := ⟨[0], [size]⟩

theorem dynamic_placement_two :
    (run .register (MetadataServer.init 2)
      [regionOfBytes 1 10, regionOfBytes 2 3]).dataServerBytes = [10, 3] ∧
    (10 : UInt64).toNat ≤ (3 : UInt64).toNat + largestRegion [regionOfBytes 1 10,
      regionOfBytes 2 3] :=
  ⟨by decide +kernel, dynamic_placement_balanced 2 [regionOfBytes 1 10, regionOfBytes 2 3]
    ⟨⟨rfl, by decide, 0, by decide, by decide⟩, ⟨rfl, by decide +kernel, 0, by decide +kernel,
      by decide +kernel⟩, trivial⟩ 10 (by decide +kernel) 3 (by decide +kernel)⟩

/-- On two servers, after regions of 2 to the 63rd bytes, of as many, of one less and of as many
again, the count of the second server starts from zero again. -/
theorem dynamic_placement_wraps :
    (run .register (MetadataServer.init 2) [regionOfBytes 1 0x8000000000000000,
      regionOfBytes 2 0x8000000000000000, regionOfBytes 3 0x7fffffffffffffff,
      regionOfBytes 4 0x8000000000000000]).dataServerBytes = [0xffffffffffffffff, 0] ∧
    largestRegion [regionOfBytes 1 0x8000000000000000, regionOfBytes 2 0x8000000000000000,
      regionOfBytes 3 0x7fffffffffffffff, regionOfBytes 4 0x8000000000000000] = 2 ^ 63 := by
  decide +kernel

end Pdc
