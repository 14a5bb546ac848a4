import Mathlib.Data.List.Nodup

/-!
# Singly linked lists in a heap

A heap maps addresses to cells, a cell being a value and a pointer to the next
one. `Seg heap p xs q` says that following the pointers from `p` one meets the
cells `xs`, each with its address, and arrives at `q`. A list is a segment that
ends in a null pointer.

A segment only depends on its own cells (`Seg.update_iff`), segments can be
joined (`seg_append`), and a pointer leads to one list only (`Seg.unique`).
-/

namespace Pdc.Lib

variable {A V : Type*}

/-- A cell of a list. -/
structure Cell (A V : Type*) where
  value : V
  next : Option A
  deriving DecidableEq, Repr

variable {heap : A → Option (Cell A V)} {p q : Option A} {xs ys : List (A × V)} {a : A}

/-- The cells from `p` up to `q`. -/
def Seg (heap : A → Option (Cell A V)) : Option A → List (A × V) → Option A → Prop
  | p, [], q => p = q
  | p, (a, v) :: xs, q => p = some a ∧ ∃ next, heap a = some ⟨v, next⟩ ∧ Seg heap next xs q

@[simp] theorem seg_nil : Seg heap p [] q ↔ p = q := Iff.rfl

theorem seg_cons {v : V} :
    Seg heap p ((a, v) :: xs) q ↔
      p = some a ∧ ∃ next, heap a = some ⟨v, next⟩ ∧ Seg heap next xs q := Iff.rfl

theorem seg_append :
    Seg heap p (xs ++ ys) q ↔ ∃ r, Seg heap p xs r ∧ Seg heap r ys q := by
  induction xs generalizing p with
  | nil => simp
  | cons x xs ih =>
    obtain ⟨a, v⟩ := x
    constructor
    · rintro ⟨hp, next, hcell, hrest⟩
      obtain ⟨r, hxs, hys⟩ := ih.mp hrest
      exact ⟨r, ⟨hp, next, hcell, hxs⟩, hys⟩
    · rintro ⟨r, ⟨hp, next, hcell, hxs⟩, hys⟩
      exact ⟨hp, next, hcell, ih.mpr ⟨r, hxs, hys⟩⟩

theorem Seg.cell_ne_none (h : Seg heap p xs q) (ha : a ∈ xs.map Prod.fst) :
    heap a ≠ none := by
  induction xs generalizing p with
  | nil => cases ha
  | cons x xs ih =>
    obtain ⟨b, v⟩ := x
    obtain ⟨-, next, hcell, hrest⟩ := h
    rw [List.map_cons, List.mem_cons] at ha
    rcases ha with rfl | ha
    · rw [hcell]
      exact Option.some_ne_none _
    · exact ih hrest ha

theorem Seg.unique (hxs : Seg heap p xs none) (hys : Seg heap p ys none) :
    xs = ys := by
  induction xs generalizing p ys with
  | nil =>
    cases ys with
    | nil => rfl
    | cons y ys => exact absurd (hxs.symm.trans hys.1) (by simp)
  | cons x xs ih =>
    obtain ⟨a, v⟩ := x
    obtain ⟨rfl, next, hcell, hrest⟩ := hxs
    cases ys with
    | nil => exact absurd hys (by simp)
    | cons y ys =>
      obtain ⟨b, w⟩ := y
      obtain ⟨hab, next', hcell', hrest'⟩ := hys
      obtain rfl : a = b := Option.some.inj hab
      rw [hcell] at hcell'
      obtain ⟨rfl, rfl⟩ : v = w ∧ next = next' := by
        injection Option.some.inj hcell' with hv hn
        exact ⟨hv, hn⟩
      rw [ih hrest hrest']

theorem Seg.update_iff [DecidableEq A] {cell : Option (Cell A V)} (ha : a ∉ xs.map Prod.fst) :
    Seg (Function.update heap a cell) p xs q ↔ Seg heap p xs q := by
  induction xs generalizing p with
  | nil => exact Iff.rfl
  | cons x xs ih =>
    obtain ⟨b, v⟩ := x
    rw [List.map_cons, List.mem_cons, not_or] at ha
    rw [seg_cons, seg_cons, Function.update_of_ne (Ne.symm ha.1)]
    simp only [ih ha.2]

end Pdc.Lib
