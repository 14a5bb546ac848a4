import Pdc.Lib.Run
import Pdc.Server.MetadataQuery

/-!
# What the metadata server has registered

The regions registered for an object, and what registering another one does
to them: nothing if one of them contains it, and otherwise it becomes the
last. The objects a server has built up this way are well formed, as long as
the requests on an object agree on its number of dimensions.
-/

namespace Pdc

open Lib List

variable {objId : UInt64}

theorem findMetadata_cons (temp : ObjMetadata) (rest : List ObjMetadata) (objId : UInt64) :
    findMetadata (temp :: rest) objId =
      if temp.objId = objId then some temp else findMetadata rest objId := by
  rw [findMetadata, find?_cons]
  by_cases h : temp.objId = objId
  · simp [h]
  · rw [if_neg h, show (temp.objId == objId) = false by simpa using h]
    rfl

theorem registered_cons_self (temp : ObjMetadata) (h : temp.objId = objId)
    (rest : List ObjMetadata) : registered (temp :: rest) objId = temp.regions := by
  rw [registered, findMetadata_cons, if_pos h]

theorem registered_cons_of_ne (temp : ObjMetadata) (h : temp.objId ≠ objId)
    (rest : List ObjMetadata) : registered (temp :: rest) objId = registered rest objId := by
  rw [registered, findMetadata_cons, if_neg h, registered]

theorem registered_addRegion (ndim : Nat) (objId : UInt64) (r : RegionMetadata)
    (objs : List ObjMetadata) (id : UInt64) :
    registered (addRegion ndim objId r objs) id =
      registered objs id ++ if id = objId then [r] else [] := by
  induction objs with
  | nil =>
    rw [addRegion]
    by_cases h : id = objId
    · rw [registered_cons_self _ h.symm, if_pos h]
      rfl
    · rw [registered_cons_of_ne _ (Ne.symm h), if_neg h]
      rfl
  | cons temp rest ih =>
    rw [addRegion]
    by_cases htemp : temp.objId = objId
    · rw [if_pos htemp]
      by_cases h : id = objId
      · have hid : temp.objId = id := htemp.trans h.symm
        rw [registered_cons_self temp hid, if_pos h]
        exact registered_cons_self { temp with regions := temp.regions ++ [r] } hid _
      · have hne : temp.objId ≠ id := fun he => h (he.symm.trans htemp)
        rw [registered_cons_of_ne temp hne, if_neg h, append_nil]
        exact registered_cons_of_ne { temp with regions := temp.regions ++ [r] } hne _
    · rw [if_neg htemp]
      by_cases hid : temp.objId = id
      · have hne : id ≠ objId := fun he => htemp (hid.trans he)
        rw [registered_cons_self temp hid, registered_cons_self temp hid, if_neg hne,
          append_nil]
      · rw [registered_cons_of_ne temp hid, registered_cons_of_ne temp hid, ih]

/-- Registering a request: a registered region contains it and nothing
changes, or its region becomes the object's last, on some server. -/
theorem queryAppend_cases (s : MetadataServer) (q : MetadataRequest) :
    ((transferRequestMetadataQueryAppend s q).1 = s ∧
      ∃ r ∈ registered s.objs q.objId, detectRegionContained q.ndim q.region r.region = true) ∨
    ∃ server : UInt32, (transferRequestMetadataQueryAppend s q).1.objs =
      addRegion q.ndim q.objId { region := q.region, dataServerId := server } s.objs := by
  rw [transferRequestMetadataQueryAppend]
  cases hfind : (registered s.objs q.objId).find?
      (fun r => detectRegionContained q.ndim q.region r.region) with
  | some r =>
    have hmem := mem_of_find?_eq_some hfind
    exact .inl ⟨rfl, r, hmem, by simpa using find?_some hfind⟩
  | none =>
    have hregion : ∃ server, (transferRequestMetadataRegAppend s.dataServerBytes q).1 =
        { region := q.region, dataServerId := server } := by
      rw [transferRequestMetadataRegAppend]
      split
      · exact ⟨_, rfl⟩
      · exact ⟨_, rfl⟩
    obtain ⟨server, hserver⟩ := hregion
    refine .inr ⟨server, ?_⟩
    rw [← hserver]

/-! ## Well-formed objects -/

/-- At least one region, each with a coordinate for every dimension. -/
structure ObjMetadata.WF (temp : ObjMetadata) : Prop where
  ndim_lt : temp.ndim < 2 ^ 31
  regions_ne : temp.regions ≠ []
  coords : ∀ r ∈ temp.regions,
    r.region.offset.length = temp.ndim ∧ r.region.size.length = temp.ndim

/-- A request as a client sends it, when `dims` gives the dimensions of the
objects. -/
structure MetadataRequest.WF (dims : UInt64 → Nat) (q : MetadataRequest) : Prop where
  ndim_eq : q.ndim = dims q.objId
  ndim_lt : q.ndim < 2 ^ 31
  coords : q.region.offset.length = q.ndim ∧ q.region.size.length = q.ndim

end Pdc
