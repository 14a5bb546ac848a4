import Pdc.Client.Query
import Pdc.Proofs.StaticPartition
import Mathlib.Algebra.Order.BigOperators.Group.List

/-!
# Scatter and gather

A write cuts the request's buffer into one buffer for each data server, and a
read puts the servers' buffers back together. Whatever order the buffers come
back in, each cell of the request is written by the one part that has it, with
the value it was cut out with, so the whole is the buffer that was cut up.

The buffer of a part is allocated with a size that the source multiplies by
the element size twice. It is large enough as long as that product does not
wrap: the element size is that of one of the types, so at most eight, and no
buffer in memory is so long that eight times its length needs more than 64
bits.
-/

namespace Pdc

open List Lib

variable {buf : List UInt8}

namespace Region

theorem exists_index {n : Nat} {r : Region} {k : Nat} (hk : k < r.count n) :
    ∃ c ∈ r.cells n, r.index n c = k := by
  rw [count, ← foldl_map] at hk
  obtain ⟨l, hl, hlt, rfl⟩ := exists_rowMajor hk
  have hlen : l.length = n := by
    rw [← length_map Prod.snd, hl, length_map, length_range]
  have hsnd (i : Fin n) : (l.get (i.cast hlen.symm)).2 = r.len i := by
    have h : (l.map Prod.snd)[(i : Nat)]? = ((List.range n).map r.len)[(i : Nat)]? := by rw [hl]
    rw [getElem?_map, getElem?_map, getElem?_range i.isLt,
      getElem?_eq_getElem (by rw [hlen]; exact i.isLt)] at h
    injection h
  refine ⟨fun i => r.off i + (l.get (i.cast hlen.symm)).1, ?_, ?_⟩
  · rw [mem_cells]
    intro i
    have h := hlt _ (l.get_mem (i.cast hlen.symm))
    rw [hsnd] at h
    omega
  · rw [index]
    congr 1
    refine ext_getElem (by simp [hlen]) fun i h₁ h₂ => ?_
    have h := hsnd ⟨i, hlen ▸ h₂⟩
    simp only [getElem_map, getElem_finRange, Nat.add_sub_cancel_left]
    exact Prod.ext rfl h.symm

theorem count_eq_prod (n : Nat) (r : Region) : r.count n = ((List.range n).map r.len).prod := by
  rw [prod_eq_foldl, foldl_map]
  rfl

theorem Inside.count_le {n : Nat} {r ov : Region} (h : ov.Inside n r) : ov.count n ≤ r.count n := by
  rw [count_eq_prod, count_eq_prod]
  refine prod_le_prod' fun j hj => ?_
  have hj := h j (mem_range.mp hj)
  omega

end Region

/-! ## The buffer of a part -/

theorem staticRegionSize_toNat (n : Nat) (unit : UInt64) (r : Region) :
    (staticRegionSize n unit r).toNat = r.count n * unit.toNat % 2 ^ 64 := by
  rw [staticRegionSize, toNat_foldl_mul, Region.count_eq_prod, Nat.mul_comm]
  rfl

section Buffers

variable {n : Nat} {unit : UInt64} {r ov : Region}

/-- A part and a buffer that holds the cells the part has of `buf`. -/
structure Carries (n unit : Nat) (r : Region) (buf : List UInt8) (part : StaticPart × List UInt8) :
    Prop where
  inside : part.1.output.Inside n r
  sub : ∀ j < n, (part.1.subOffset[j]!).toNat = part.1.output.off j - r.off j
  sized : part.1.output.count n * unit ≤ part.2.length
  elem_eq : ∀ c ∈ part.1.output.cells n,
    elem unit part.2 (part.1.output.index n c) = elem unit buf (r.index n c)

theorem alloc_toNat (n : Nat) (unit : UInt64) (ov : Region) :
    (staticRegionSize n unit ov * unit).toNat = ov.count n * unit.toNat * unit.toNat % 2 ^ 64 := by
  rw [UInt64.toNat_mul, staticRegionSize_toNat, Nat.mod_mul_mod]

section

variable (hn : n = 1 ∨ n = 2 ∨ n = 3) (h : ov.Inside n r) {sub : List UInt64}
  (hsub : ∀ j < n, (sub[j]!).toNat = ov.off j - r.off j)
include hn h hsub

theorem length_staticOutputBuf (buf : List UInt8) :
    (staticOutputBuf buf n unit .write r ov sub).length =
      ov.count n * unit.toNat * unit.toNat % 2 ^ 64 := by
  rw [staticOutputBuf, if_pos rfl, memcpySubregion_write hn h hsub, length_memcpyOverlapSubregion,
    length_replicate, alloc_toNat]

theorem staticOutputBuf_elem (hbuf : buf.length = r.count n * unit.toNat)
    (halloc : ov.count n * unit.toNat ≤ ov.count n * unit.toNat * unit.toNat % 2 ^ 64)
    {c : Fin n → ℕ} (hc : c ∈ ov.cells n) :
    elem unit.toNat (staticOutputBuf buf n unit .write r ov sub) (ov.index n c) =
      elem unit.toNat buf (r.index n c) := by
  rw [staticOutputBuf, memcpySubregion_write hn h hsub]
  exact (memcpyOverlapSubregion_elem hn h (Region.Inside.refl n ov) hbuf.ge
    (by rw [length_replicate, alloc_toNat]; exact halloc) hc).1 hc

end

/-! ## Putting the parts together -/

theorem gatherPart_elem {unit : Nat} (hn : n = 1 ∨ n = 2 ∨ n = 3) {newBuf : List UInt8}
    (hnew : newBuf.length = r.count n * unit) {part : StaticPart × List UInt8}
    (hpart : Carries n unit r buf part) :
    (memcpySubregion n unit .read newBuf r.size part.2 part.1.subOffset
        part.1.output.size).1.length = newBuf.length ∧
      ∀ c ∈ r.cells n, (c ∈ part.1.output.cells n →
          elem unit (memcpySubregion n unit .read newBuf r.size part.2 part.1.subOffset
            part.1.output.size).1 (r.index n c) = elem unit buf (r.index n c)) ∧
        (c ∉ part.1.output.cells n →
          elem unit (memcpySubregion n unit .read newBuf r.size part.2 part.1.subOffset
            part.1.output.size).1 (r.index n c) = elem unit newBuf (r.index n c)) := by
  rw [memcpySubregion_read hn hpart.inside hpart.sub]
  refine ⟨length_memcpyOverlapSubregion .., fun c hc => ?_⟩
  obtain ⟨htake, hkeep⟩ := memcpyOverlapSubregion_elem hn
    (Region.Inside.refl n part.1.output) hpart.inside hpart.sized hnew.ge hc
  exact ⟨fun hov => (htake hov).trans (hpart.elem_eq c hov), hkeep⟩

/-- The parts in whatever order: a cell of some part has its value, whether or
not other parts have it too. -/
theorem gatherParts_elem (hn : n = 1 ∨ n = 2 ∨ n = 3) :
    ∀ {parts : List (StaticPart × List UInt8)} {newBuf : List UInt8},
      newBuf.length = r.count n * unit.toNat →
      (∀ part ∈ parts, Carries n unit.toNat r buf part) →
      (gatherParts n unit newBuf r.size parts).length = newBuf.length ∧ ∀ c ∈ r.cells n,
          (elem unit.toNat newBuf (r.index n c) = elem unit.toNat buf (r.index n c) ∨
            ∃ part ∈ parts, c ∈ part.1.output.cells n) →
          elem unit.toNat (gatherParts n unit newBuf r.size parts) (r.index n c) =
            elem unit.toNat buf (r.index n c) := by
  intro parts
  induction parts with
  | nil =>
    intro newBuf _ _
    exact ⟨rfl, fun c _ hc => hc.resolve_right (by simp)⟩
  | cons part parts ih =>
    intro newBuf hnew hparts
    rw [forall_mem_cons] at hparts
    obtain ⟨hlen, hput⟩ := gatherPart_elem hn hnew hparts.1
    obtain ⟨hlen', hrest⟩ := ih (hlen.trans hnew) hparts.2
    refine ⟨hlen'.trans hlen, fun c hc hcase => hrest c hc ?_⟩
    by_cases hov : c ∈ part.1.output.cells n
    · exact .inl ((hput c hc).1 hov)
    · rw [(hput c hc).2 hov]
      refine hcase.imp_right fun hpart => ?_
      obtain ⟨q, hq, hcq⟩ := hpart
      rcases mem_cons.mp hq with rfl | hq
      · exact absurd hcq hov
      · exact ⟨q, hq, hcq⟩

end Buffers

/-! ## The identity -/

/-- The parts of a write with their buffers, as the data servers are sent them. -/
def scatterParts (num : Nat) (buf : List UInt8) (n : Nat) (unit : UInt64) (objDims : List UInt64)
    (r : Region) : List (StaticPart × List UInt8) :=
  (staticRegionPartition num buf n unit .write objDims r true).map fun p =>
    (p, p.outputBuf.getD [])

/-- The parts' buffers hold the parts, and put back together, whatever order the
parts come back in and whatever was in the buffer, they are the buffer that was
cut up. -/
def ScatterGathers (num : Nat) (buf : List UInt8) (n : Nat) (unit : UInt64) (objDims : List UInt64)
    (r : Region) : Prop :=
  (∀ part ∈ scatterParts num buf n unit objDims r,
      part.1.output.count n * unit.toNat ≤ part.2.length) ∧
    ∀ newBuf : List UInt8, newBuf.length = r.count n * unit.toNat →
      ∀ parts : List (StaticPart × List UInt8), parts.Perm (scatterParts num buf n unit objDims r) →
        gatherParts n unit newBuf r.size parts = buf

section Identity

variable {num n : Nat} {unit : UInt64} {objDims : List UInt64} {r : Region}
  (hnum : 0 < num) (hlt : num < 2 ^ 31) (hn : n = 1 ∨ n = 2 ∨ n = 3) (hr : r.InObject n objDims)

section Server

variable {i : Nat} (hi : i < num)
include hnum hlt hn hr hi

theorem carries_of_noWrap (hbuf : buf.length = r.count n * unit.toNat)
    (hreach : Reached num n objDims r i)
    (hwrap : r.count n * unit.toNat * unit.toNat < 2 ^ 64) :
    Carries n unit.toNat r buf
      (staticPartOf num n objDims buf unit .write r true i,
        staticOutputBuf buf n unit .write r (serverPart num n objDims r i).1
          (serverPart num n objDims r i).2) := by
  have hn0 : 0 < n := by omega
  have hin := serverPart_inside hnum hlt hn0 hr.noWrap hi hreach
  have hsub : ∀ j < n, ((serverPart num n objDims r i).2[j]!).toNat =
      (serverPart num n objDims r i).1.off j - r.off j := by
    intro j hj
    have h := serverPart_subOffset hnum hlt hn0 hr.noWrap hi hreach hj
    omega
  have halloc : (serverPart num n objDims r i).1.count n * unit.toNat ≤
      (serverPart num n objDims r i).1.count n * unit.toNat * unit.toNat % 2 ^ 64 := by
    have hle : (serverPart num n objDims r i).1.count n * unit.toNat * unit.toNat ≤
        r.count n * unit.toNat * unit.toNat := by gcongr; exact hin.count_le
    rw [Nat.mod_eq_of_lt (hle.trans_lt hwrap)]
    rcases Nat.eq_zero_or_pos unit.toNat with hzero | hpos
    · rw [hzero, Nat.mul_zero, Nat.mul_zero]
    · exact Nat.le_mul_of_pos_right _ hpos
  exact {
    inside := hin
    sub := hsub
    sized := by rw [length_staticOutputBuf hn hin hsub]; exact halloc
    elem_eq := fun c hc => staticOutputBuf_elem hn hin hsub hbuf halloc hc }

end Server

include hnum hlt hn hr in
theorem scatterGathers_of_noWrap (hbuf : buf.length = r.count n * unit.toNat)
    (hwrap : r.count n * unit.toNat * unit.toNat < 2 ^ 64) :
    ScatterGathers num buf n unit objDims r := by
  have hcarries : ∀ part ∈ scatterParts num buf n unit objDims r,
      Carries n unit.toNat r buf part := by
    intro part hpart
    obtain ⟨p, hp, rfl⟩ := mem_map.mp hpart
    obtain ⟨i, hi, hreach, rfl⟩ := mem_staticRegionPartition.mp hp
    exact carries_of_noWrap hnum hlt hn hr hi hbuf hreach hwrap
  refine ⟨fun part hpart => (hcarries part hpart).sized, fun newBuf hnew parts hperm => ?_⟩
  obtain ⟨hlen, helem⟩ := gatherParts_elem hn hnew fun part hpart =>
    hcarries part (hperm.mem_iff.mp hpart)
  refine ext_elem (hlen.trans hnew) hbuf fun k hk => ?_
  obtain ⟨c, hc, rfl⟩ := Region.exists_index hk
  obtain ⟨p, hp, hcp⟩ := (staticRegionPartition_cells hnum hlt (show 0 < n by omega) hr buf unit
    .write true c).mpr hc
  exact helem c hc (.inr ⟨_, hperm.mem_iff.mpr (mem_map.mpr ⟨p, hp, rfl⟩), hcp⟩)

include hnum hlt hn hr in
/-- What is cut up for the servers and put back together is the buffer that was
cut up. The element size is the one `PDCregion_transfer_create` takes from the
type of the object. -/
theorem scatterGathers_of_type (type : CVarType) {buf : List UInt8}
    (hbuf : buf.length = r.count n * getVarTypeSize type) (hsize : buf.length < 2 ^ 61) :
    ScatterGathers num buf n (.ofNat (getVarTypeSize type)) objDims r := by
  have hunit : getVarTypeSize type ≤ 8 := by cases type <;> decide
  have htoNat : (UInt64.ofNat (getVarTypeSize type)).toNat = getVarTypeSize type :=
    UInt64.toNat_ofNat_of_lt (by rw [UInt64.size]; omega)
  refine scatterGathers_of_noWrap hnum hlt hn hr (by rw [htoNat]; exact hbuf) ?_
  rw [htoNat, ← hbuf]
  calc buf.length * getVarTypeSize type ≤ buf.length * 8 := Nat.mul_le_mul_left _ hunit
    _ < 2 ^ 64 := by omega

end Identity

/-- Three servers and five rows of a 7 × 2 object of 16-bit numbers. -/
theorem scatterGathers_of_type_three :
    Region.InObject 2 [7, 2] ⟨[1, 0], [5, 2]⟩ ∧
      ScatterGathers 3 ((List.range 20).map UInt8.ofNat) 2 2 [7, 2] ⟨[1, 0], [5, 2]⟩ :=
  ⟨by decide, scatterGathers_of_type (by decide) (by decide) (by decide) (by decide) .int16
    (by decide) (by decide)⟩

end Pdc
