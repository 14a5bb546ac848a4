import Pdc.Lib.Run
import Mathlib.Data.Set.Basic

/-!
# An array kept as overlapping copies

An array is a partial function from cells to values. A `Patch` is a set of
cells with a value for each: it is what a write carries, and it is also what
a stored copy of part of the array amounts to. `lastWrite` is the array a
history of writes describes, and `lastWrite_eq_some_iff` is its meaning, the
value of the latest write that covers the cell.

A store that keeps several copies of the same cells is right when they are
coherent, every copy agreeing with the array on every cell it covers.
Coherence is what `Coherent.write` carries across a write: it asks that each
copy afterwards is an earlier copy refreshed where the write covers it, or a
copy made of the write itself. Nothing is assumed about how the copies
overlap or whether they share memory.

`KeyedStore.ArrayAt` packages the other side: any store that behaves as the
array, whatever it keeps inside.
-/

namespace Pdc.Lib

open List Option

open Classical

variable {C V : Type*}

/-- A set of cells and what each of them holds. -/
structure Patch (C V : Type*) where
  cells : Set C
  value : C → V

variable {m : C → Option V} {p w : Patch C V} {c : C} {hist copies' copies : List (Patch C V)}

/-- The array with a patch laid over it. -/
noncomputable def overlay (m : C → Option V) (p : Patch C V) : C → Option V :=
  fun c => if c ∈ p.cells then some (p.value c) else m c

theorem overlay_of_mem (h : c ∈ p.cells) : overlay m p c = some (p.value c) := if_pos h

theorem overlay_of_not_mem (h : c ∉ p.cells) : overlay m p c = m c := if_neg h

/-- What each cell holds after a history of writes, the oldest first, on an
array nothing had been written to. -/
noncomputable def lastWrite (hist : List (Patch C V)) : C → Option V :=
  hist.foldl overlay fun _ => none

theorem lastWrite_append_singleton (hist : List (Patch C V)) (p : Patch C V) :
    lastWrite (hist ++ [p]) = overlay (lastWrite hist) p := by
  rw [lastWrite, foldl_append]
  rfl

theorem lastWrite_last (hist : List (Patch C V)) (h : c ∈ p.cells) :
    lastWrite (hist ++ [p]) c = some (p.value c) := by
  rw [lastWrite_append_singleton, overlay_of_mem h]

theorem lastWrite_eq_some_iff {v : V} :
    lastWrite hist c = some v ↔
      ∃ before p after, hist = before ++ p :: after ∧ c ∈ p.cells ∧ p.value c = v ∧
        ∀ q ∈ after, c ∉ q.cells := by
  have hlast := run_eq_iff_last overlay hist (f := fun m => m c) (fun _ _ => overlay_of_mem)
    (fun _ _ => overlay_of_not_mem) (s := fun _ => none) (some_ne_none v).symm
  simp only [some.injEq] at hlast
  exact hlast

/-! ## Coherence -/

/-- Every copy agrees with the array on every cell it covers. -/
def Coherent (copies : List (Patch C V)) (m : C → Option V) : Prop :=
  ∀ p ∈ copies, ∀ c ∈ p.cells, m c = some (p.value c)

/-- Every cell the array holds is covered by a copy. -/
def Covered (copies : List (Patch C V)) (m : C → Option V) : Prop :=
  ∀ c v, m c = some v → ∃ p ∈ copies, c ∈ p.cells

/-- `p'` is the copy `p` brought up to date with the write `w`. -/
def Refreshed (w p p' : Patch C V) : Prop :=
  p'.cells = p.cells ∧ ∀ c ∈ p.cells,
    (c ∈ w.cells → p'.value c = w.value c) ∧ (c ∉ w.cells → p'.value c = p.value c)

/-- `p'` is a copy of cells the write itself supplied. -/
def Supplied (w p' : Patch C V) : Prop :=
  p'.cells ⊆ w.cells ∧ ∀ c ∈ p'.cells, p'.value c = w.value c

theorem Coherent.write (h : Coherent copies m)
    (hstep : ∀ p' ∈ copies', (∃ p ∈ copies, Refreshed w p p') ∨ Supplied w p') :
    Coherent copies' (overlay m w) := by
  intro p' hp' c hc
  rcases hstep p' hp' with ⟨p, hp, hcells, hval⟩ | ⟨hsub, hval⟩
  · rw [hcells] at hc
    by_cases hw : c ∈ w.cells
    · rw [overlay_of_mem hw, (hval c hc).1 hw]
    · rw [overlay_of_not_mem hw, (hval c hc).2 hw, h p hp c hc]
  · rw [overlay_of_mem (hsub hc), hval c hc]

theorem Covered.write (h : Covered copies m)
    (hkeep : ∀ p ∈ copies, ∃ p' ∈ copies', p.cells ⊆ p'.cells)
    (hnew : ∃ p' ∈ copies', w.cells ⊆ p'.cells) : Covered copies' (overlay m w) := by
  intro c v hv
  by_cases hw : c ∈ w.cells
  · obtain ⟨p', hp', hsub⟩ := hnew
    exact ⟨p', hp', hsub hw⟩
  · rw [overlay_of_not_mem hw] at hv
    obtain ⟨p, hp, hc⟩ := h c v hv
    obtain ⟨p', hp', hsub⟩ := hkeep p hp
    exact ⟨p', hp', hsub hc⟩

/-- Laying coherent copies over another array, in any order, puts the array
they agree with on every cell they cover and leaves the rest alone. -/
theorem foldl_overlay_coherent :
    ∀ {copies : List (Patch C V)} {m₀ : C → Option V} {c : C}, Coherent copies m →
      copies.foldl overlay m₀ c = if ∃ p ∈ copies, c ∈ p.cells then m c else m₀ c := by
  intro copies
  induction copies with
  | nil => intro m₀ c _; simp
  | cons p copies ih =>
    intro m₀ c h
    rw [foldl_cons, ih fun q hq => h q (mem_cons_of_mem _ hq)]
    by_cases hlater : ∃ q ∈ copies, c ∈ q.cells
    · obtain ⟨q, hq, hc⟩ := hlater
      rw [if_pos ⟨q, hq, hc⟩, if_pos ⟨q, mem_cons_of_mem _ hq, hc⟩]
    · rw [if_neg hlater]
      by_cases hc : c ∈ p.cells
      · rw [if_pos ⟨p, by simp, hc⟩, overlay_of_mem hc, h p (by simp) c hc]
      · rw [overlay_of_not_mem hc, if_neg]
        rintro ⟨q, hq, hqc⟩
        rcases mem_cons.mp hq with rfl | hq
        · exact hc hqc
        · exact hlater ⟨q, hq, hqc⟩

theorem foldl_overlay_congr : ∀ {ps : List (Patch C V)} {m m' : C → Option V},
    (m c = m' c ∨ ∃ p ∈ ps, c ∈ p.cells) → ps.foldl overlay m c = ps.foldl overlay m' c := by
  intro ps
  induction ps with
  | nil =>
    intro m m' h
    exact h.resolve_right (by simp)
  | cons p ps ih =>
    intro m m' h
    refine ih ?_
    by_cases hc : c ∈ p.cells
    · exact .inl (by rw [overlay_of_mem hc, overlay_of_mem hc])
    · rw [overlay_of_not_mem hc, overlay_of_not_mem hc]
      refine h.imp_right fun ⟨q, hq, hqc⟩ => ?_
      obtain rfl | hq := mem_cons.mp hq
      · exact absurd hqc hc
      · exact ⟨q, hq, hqc⟩

theorem foldl_overlay_of_not_mem : ∀ {ps : List (Patch C V)} {m : C → Option V},
    (∀ p ∈ ps, c ∉ p.cells) → ps.foldl overlay m c = m c := by
  intro ps
  induction ps with
  | nil => intro m _; rfl
  | cons p ps ih =>
    intro m h
    rw [forall_mem_cons] at h
    rw [foldl_cons, ih h.2, overlay_of_not_mem h.1]

theorem lastWrite_append (hist ps : List (Patch C V)) :
    lastWrite (hist ++ ps) = ps.foldl overlay (lastWrite hist) := by
  rw [lastWrite, foldl_append]
  rfl

theorem foldl_overlay_filter {α : Type*} {f : α → Bool} {g : α → Patch C V} :
    ∀ {as : List α} {m : C → Option V}, (∀ a ∈ as, c ∈ (g a).cells → f a = true) →
      ((as.filter f).map g).foldl overlay m c = (as.map g).foldl overlay m c := by
  intro as
  induction as with
  | nil => intro m _; rfl
  | cons a as ih =>
    intro m h
    rw [forall_mem_cons] at h
    rw [filter_cons, map_cons, foldl_cons]
    split
    · rw [map_cons, foldl_cons, ih h.2]
    · next hf =>
      have hc : c ∉ (g a).cells := fun hc => hf (h.1 hc)
      rw [ih h.2]
      exact foldl_overlay_congr (.inl (overlay_of_not_mem hc).symm)

theorem foldl_overlay_isSome : ∀ {ps : List (Patch C V)} {m : C → Option V},
    ((m c).isSome ∨ ∃ p ∈ ps, c ∈ p.cells) → (ps.foldl overlay m c).isSome := by
  intro ps
  induction ps with
  | nil =>
    intro m h
    exact h.resolve_right (by simp)
  | cons p ps ih =>
    intro m h
    refine ih ?_
    by_cases hc : c ∈ p.cells
    · exact .inl (by rw [overlay_of_mem hc]; rfl)
    · rw [overlay_of_not_mem hc]
      refine h.imp_right fun ⟨q, hq, hqc⟩ => ?_
      obtain rfl | hq := mem_cons.mp hq
      · exact absurd hqc hc
      · exact ⟨q, hq, hqc⟩

theorem lastWrite_isSome_iff : (lastWrite hist c).isSome ↔ ∃ p ∈ hist, c ∈ p.cells := by
  refine ⟨fun h => ?_, fun h => foldl_overlay_isSome (.inr h)⟩
  obtain ⟨v, hv⟩ := isSome_iff_exists.mp h
  obtain ⟨before, p, after, rfl, hc, -⟩ := lastWrite_eq_some_iff.mp hv
  exact ⟨p, by simp, hc⟩

theorem lastWrite_replace {before after : List (Patch C V)} {p' : Patch C V}
    (hcells : p'.cells = p.cells) (hafter : ∀ q ∈ after, ∀ c ∈ q.cells, c ∉ p.cells) :
    lastWrite (before ++ p' :: after) = overlay (lastWrite (before ++ p :: after)) p' := by
  funext c
  rw [lastWrite_append, lastWrite_append, foldl_cons]
  by_cases hc : c ∈ p'.cells
  · have hnot : ∀ q ∈ after, c ∉ q.cells := fun q hq hcq =>
      hafter q hq c hcq (hcells ▸ hc)
    rw [foldl_overlay_of_not_mem hnot, overlay_of_mem hc, overlay_of_mem hc]
  · rw [overlay_of_not_mem hc]
    refine foldl_overlay_congr (.inl ?_)
    rw [overlay_of_not_mem hc, overlay_of_not_mem (hcells ▸ hc)]

/-! ## Stores -/

/-- How regions and buffers spell patches: the cells of a region, the value a
buffer gives each of them, and when a buffer has the region's size. -/
structure Layout (R B C V : Type*) where
  cells : R → Set C
  value : R → B → C → V
  Sized : R → B → Prop

/-- The patch a region and a buffer spell. -/
def Layout.patch {R B C V : Type*} (L : Layout R B C V) (r : R) (b : B) : Patch C V :=
  ⟨L.cells r, L.value r b⟩

/-- A store of regions under keys. Nothing is said yet about what it keeps. -/
structure KeyedStore (K R B : Type*) where
  State : Type
  write : State → K → R → B → State
  read : State → K → R → B → B

/-- The store behaves as an array under the key `k`: its states stand for
arrays, a write under `k` overlays the array, a write under another key does
not touch it, and a read fills in every cell the array holds. -/
structure KeyedStore.ArrayAt {K R B C V : Type*} (S : KeyedStore K R B) (k : K)
    (L : Layout R B C V) where
  Rep : S.State → (C → Option V) → Prop
  write : ∀ {s m r b}, Rep s m → L.Sized r b → Rep (S.write s k r b) (overlay m (L.patch r b))
  write_other : ∀ {s m k' r b}, k' ≠ k → Rep s m → Rep (S.write s k' r b) m
  read : ∀ {s m r b c v}, Rep s m → L.Sized r b → c ∈ L.cells r → m c = some v →
    L.value r (S.read s k r b) c = v

end Pdc.Lib
