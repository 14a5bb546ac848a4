import Pdc.Proofs.RegionCells

/-!
# Bringing a copy up to date

Everything that keeps data in this system keeps it as regions with buffers,
and everything that moves data does the same two steps: compute the overlap
of two regions, and if there is one copy it from one buffer into the other.
`refresh` is those two steps. A write refreshes the copies it overlaps, a
read is the caller's buffer refreshed from the copies it overlaps, and the
servers, the cache and the client differ in which copies they visit.

In the terms of `Lib.Copies`, a region with a buffer of its size is a patch,
and `refresh` is `Refreshed`.
-/

namespace Pdc

open Lib List

/-- How regions and buffers of an `n`-dimensional object of `unit`-byte
elements spell patches. -/
def boxLayout (n unit : Nat) : Layout Region (List UInt8) (Fin n → ℕ) (List UInt8) where
  cells r := r.cells n
  value r b c := elem unit b (r.index n c)
  Sized r b := r.NoWrap n ∧ b.length = r.count n * unit

def boxPatch (n unit : Nat) (r : Region) (b : List UInt8) : Patch (Fin n → ℕ) (List UInt8) :=
  (boxLayout n unit).patch r b

@[simp] theorem boxPatch_cells (n unit : Nat) (r : Region) (b : List UInt8) :
    (boxPatch n unit r b).cells = r.cells n := rfl

@[simp] theorem boxPatch_value (n unit : Nat) (r : Region) (b : List UInt8) (c : Fin n → ℕ) :
    (boxPatch n unit r b).value c = elem unit b (r.index n c) := rfl

/-- A region of an `n`-dimensional object together with a buffer of its size:
the data of a write, or the destination of a read. -/
structure Transfer (n unit : Nat) where
  region : Region
  buf : List UInt8
  noWrap : region.NoWrap n
  length_buf : buf.length = region.count n * unit

def Transfer.patch {n unit : Nat} (t : Transfer n unit) : Patch (Fin n → ℕ) (List UInt8) :=
  boxPatch n unit t.region t.buf

@[simp] theorem Transfer.patch_cells {n unit : Nat} (t : Transfer n unit) :
    t.patch.cells = t.region.cells n := rfl

/-- The buffer `b` of region `r` after the overlap with `(r₀, b₀)` has been
copied into it. -/
def refresh (n unit : Nat) (r₀ : Region) (b₀ : List UInt8) (r : Region) (b : List UInt8) :
    List UInt8 :=
  match regionOverlapDetect n r₀ r with
  | none => b
  | some ov => memcpyOverlapSubregion n unit b₀ r₀ b r ov

@[simp] theorem length_refresh (n unit : Nat) (r₀ : Region) (b₀ : List UInt8) (r : Region)
    (b : List UInt8) : (refresh n unit r₀ b₀ r b).length = b.length := by
  unfold refresh
  split
  · rfl
  · exact length_memcpyOverlapSubregion ..

theorem checkOverlap_comm (n : Nat) (a b : Region) : checkOverlap n a b = checkOverlap n b a := by
  unfold checkOverlap
  congr 1
  funext i
  exact Bool.or_comm _ _

theorem regionOverlapDetect_comm (n : Nat) (a b : Region) :
    regionOverlapDetect n a b = regionOverlapDetect n b a := by
  have hmax : ∀ x y : UInt64, (if y < x then x else y) = if x < y then y else x := by
    intro x y
    simp only [UInt64.lt_iff_toNat_lt, ← UInt64.toNat_inj]
    split <;> split <;> omega
  have hmin : ∀ x y : UInt64, (if y < x then y else x) = if x < y then x else y := by
    intro x y
    simp only [UInt64.lt_iff_toNat_lt, ← UInt64.toNat_inj]
    split <;> split <;> omega
  unfold regionOverlapDetect
  rw [checkOverlap_comm n b a]
  simp only [hmax (a.offset[_]!), hmin (a.offset[_]! + a.size[_]!)]

section

variable {n unit : Nat} {r₀ r : Region} {b₀ b : List UInt8}

theorem refreshed_refresh (hn : n = 1 ∨ n = 2 ∨ n = 3) (h₀ : r₀.NoWrap n) (h : r.NoWrap n)
    (hb₀ : b₀.length = r₀.count n * unit) (hb : b.length = r.count n * unit) :
    Refreshed (boxPatch n unit r₀ b₀) (boxPatch n unit r b)
      (boxPatch n unit r (refresh n unit r₀ b₀ r b)) := by
  refine ⟨rfl, fun c hc => ?_⟩
  unfold refresh
  split
  · next hov =>
    exact ⟨fun hw => absurd hc (regionOverlapDetect_none h₀ h hov hw), fun _ => rfl⟩
  · next ov hov =>
    obtain ⟨hin₀, hin⟩ := regionOverlapDetect_inside h₀ h hov
    have hcells := regionOverlapDetect_cells h₀ h hov
    obtain ⟨htake, hkeep⟩ := memcpyOverlapSubregion_elem hn hin₀ hin hb₀.ge hb.ge hc
    constructor
    · intro hw
      exact htake (by rw [hcells]; exact ⟨hw, hc⟩)
    · intro hw
      exact hkeep (by rw [hcells]; exact fun hmem => hw hmem.1)

end

theorem foldl_refresh_elem {n unit : Nat} (hn : n = 1 ∨ n = 2 ∨ n = 3) {r : Region}
    (h : r.NoWrap n) {c : Fin n → ℕ} (hc : c ∈ r.cells n) {v : List UInt8} :
    ∀ {srcs : List (Region × List UInt8)} {b : List UInt8}, b.length = r.count n * unit →
      (∀ p ∈ srcs, p.1.NoWrap n ∧ p.2.length = p.1.count n * unit) →
      (∀ p ∈ srcs, c ∈ p.1.cells n → elem unit p.2 (p.1.index n c) = v) →
      ((∃ p ∈ srcs, c ∈ p.1.cells n) →
        elem unit (srcs.foldl (fun b p => refresh n unit p.1 p.2 r b) b) (r.index n c) = v) ∧
      ((∀ p ∈ srcs, c ∉ p.1.cells n) →
        elem unit (srcs.foldl (fun b p => refresh n unit p.1 p.2 r b) b) (r.index n c) =
          elem unit b (r.index n c)) := by
  intro srcs
  induction srcs with
  | nil =>
    intro b _ _ _
    refine ⟨?_, fun _ => rfl⟩
    rintro ⟨p, hp, _⟩
    cases hp
  | cons p srcs ih =>
    intro b hb hsized hagree
    obtain ⟨hp, hpb⟩ := hsized p (by simp)
    obtain ⟨hwrite, hkeep⟩ := (refreshed_refresh hn hp h hpb hb).2 c hc
    simp only [boxPatch_cells, boxPatch_value] at hwrite hkeep
    obtain ⟨hsome, hnone⟩ := @ih (refresh n unit p.1 p.2 r b) (by rw [length_refresh, hb])
      (fun q hq => hsized q (mem_cons_of_mem _ hq))
      (fun q hq => hagree q (mem_cons_of_mem _ hq))
    rw [foldl_cons]
    -- Whether the first copy counts depends on whether a later one holds the cell.
    by_cases hlater : ∃ q ∈ srcs, c ∈ q.1.cells n
    · refine ⟨fun _ => hsome hlater, fun hall => ?_⟩
      obtain ⟨q, hq, hqc⟩ := hlater
      exact absurd hqc (hall q (mem_cons_of_mem _ hq))
    · have hlater' : ∀ q ∈ srcs, c ∉ q.1.cells n := fun q hq hqc => hlater ⟨q, hq, hqc⟩
      constructor
      · rintro ⟨q, hq, hqc⟩
        rcases mem_cons.mp hq with rfl | hq
        · rw [hnone hlater', hwrite hqc, hagree q (by simp) hqc]
        · exact absurd hqc (hlater' q hq)
      · intro hall
        rw [hnone hlater', hkeep (hall p (by simp))]

end Pdc
