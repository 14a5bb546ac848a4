import Mathlib.Data.List.Basic
import Mathlib.Tactic.Ring

/-!
# Packed buffers

A buffer is a list, a pointer into it is a position, and the two primitives
everything below is made of are `slice`, which reads a run of entries, and
`memcpy`, which overwrites one. `memcpy` never changes a length: a copy that
would leave the destination is not a copy the callers make, and keeping the
length makes every later statement about positions unconditional in it.

A buffer of fixed-width elements is the same list read `unit` entries at a
time. `elem unit l k` is element `k`, and `elem_memcpy` says what a copy of
whole elements does to each of them; after it, nothing above this file has
to mention bytes.

Strided copies are folds of `memcpy` over a list of rows. `copyRows_elem` is
the one induction they need. It asks for no disjointness: whenever every row
that covers an element would fetch it from the same place, the order of the
rows is irrelevant, and that is what a row-major layout provides.
-/

namespace Pdc.Lib

open List Option

variable {α : Type*}

variable {l dst src r l' : List α} {off n s m d k unit len off' : Nat}

/-- The `n` entries of `l` from `off` on, fewer when `l` runs out. -/
def slice (l : List α) (off n : Nat) : List α := (l.drop off).take n

theorem slice_getElem? (l : List α) (off n k : Nat) :
    (slice l off n)[k]? = if k < n then l[off + k]? else none := by
  rw [slice, getElem?_take]
  split
  · rw [getElem?_drop]
  · rfl

theorem length_slice (h : off + n ≤ l.length) : (slice l off n).length = n := by
  simp only [slice, length_take, length_drop]
  omega

theorem slice_eq_self (h : l.length = n) : slice l 0 n = l := by
  rw [slice, drop_zero, ← h, take_length]

theorem slice_slice {n' : Nat} (h : off' + n' ≤ n) :
    slice (slice l off n) off' n' = slice l (off + off') n' := by
  refine ext_getElem? fun k => ?_
  simp only [slice_getElem?]
  split
  · next hk => rw [if_pos (by omega), Nat.add_assoc]
  · rfl

theorem slice_append_slice (h : m ≤ n) (hb : s + n ≤ l.length) :
    slice l s m ++ slice l (s + m) (n - m) = slice l s n := by
  refine ext_getElem? fun k => ?_
  have hlen : (slice l s m).length = m := length_slice (by omega)
  rcases Nat.lt_or_ge k m with hk | hk
  · rw [getElem?_append_left (by omega), slice_getElem?, slice_getElem?, if_pos hk,
      if_pos (by omega)]
  · rw [getElem?_append_right (by omega), slice_getElem?, slice_getElem?]
    by_cases hn : k < n
    · rw [if_pos (by omega), if_pos hn]
      congr 1
      omega
    · rw [if_neg (by omega), if_neg hn]

theorem slice_append_left (h : off + n ≤ l.length) :
    slice (l ++ r) off n = slice l off n := by
  rw [slice, slice, drop_append_of_le_length (by omega),
    take_append_of_le_length (by rw [length_drop]; omega)]

theorem slice_append_right (l r : List α) : slice (l ++ r) l.length r.length = r := by
  rw [slice, drop_left, take_length]

theorem slice_congr (h : ∀ k, k < n → l[off + k]? = l'[off' + k]?) :
    slice l off n = slice l' off' n := by
  refine ext_getElem? fun k => ?_
  simp only [slice_getElem?]
  split
  · next hk => exact h k hk
  · rfl

/-- `memcpy(dst + d, src + s, n)`. -/
def memcpy (dst : List α) (d : Nat) (src : List α) (s n : Nat) : List α :=
  dst.mapIdx fun k b => if d ≤ k ∧ k < d + n then src.getD (s + (k - d)) b else b

@[simp] theorem length_memcpy (dst : List α) (d : Nat) (src : List α) (s n : Nat) :
    (memcpy dst d src s n).length = dst.length := by
  simp [memcpy]

theorem memcpy_getElem?_of_not (h : ¬(d ≤ k ∧ k < d + n)) :
    (memcpy dst d src s n)[k]? = dst[k]? := by
  rw [memcpy, getElem?_mapIdx]
  simp only [if_neg h]
  exact map_id_apply

theorem memcpy_getElem?_of_mem (hd : d + n ≤ dst.length) (hs : s + n ≤ src.length) (h₁ : d ≤ k)
    (h₂ : k < d + n) : (memcpy dst d src s n)[k]? = src[s + (k - d)]? := by
  have hk : k < dst.length := by omega
  have hsrc : s + (k - d) < src.length := by omega
  rw [memcpy, getElem?_mapIdx, getElem?_eq_getElem hk]
  simp only [map_some, if_pos (And.intro h₁ h₂)]
  rw [getD_eq_getElem?_getD, getElem?_eq_getElem hsrc, getD_some]

theorem memcpy_getElem?_of_src {v : α} (hk : k < dst.length) (h₁ : d ≤ k) (h₂ : k < d + n)
    (hv : src[s + (k - d)]? = some v) : (memcpy dst d src s n)[k]? = some v := by
  rw [memcpy, getElem?_mapIdx, getElem?_eq_getElem hk]
  simp only [map_some, if_pos (And.intro h₁ h₂)]
  rw [getD_eq_getElem?_getD, hv, getD_some]

theorem memcpy_zero (dst : List α) (d : Nat) (src : List α) (s : Nat) :
    memcpy dst d src s 0 = dst := by
  refine ext_getElem? fun k => memcpy_getElem?_of_not ?_
  omega

theorem length_foldl {β : Type*} {g : List α → β → List α} (hg : ∀ l x, (g l x).length = l.length) :
    ∀ (xs : List β) (l : List α), (xs.foldl g l).length = l.length := by
  intro xs
  induction xs with
  | nil => intro l; rfl
  | cons x xs ih => intro l; rw [foldl_cons, ih, hg]

theorem memcpy_congr_src {src' : List α} {s' : Nat} (h : ∀ k, k < n → src[s + k]? = src'[s' + k]?) :
    memcpy dst d src s n = memcpy dst d src' s' n := by
  refine ext_getElem? fun k => ?_
  simp only [memcpy, getElem?_mapIdx]
  congr 1
  funext b
  split
  · next hk => rw [getD_eq_getElem?_getD, getD_eq_getElem?_getD, h _ (by omega)]
  · rfl

theorem slice_memcpy {dst : List α} {d : Nat} {src : List α} {s n : Nat}
    (hd : d + n ≤ dst.length) (hs : s + n ≤ src.length) :
    slice (memcpy dst d src s n) d n = slice src s n := by
  refine slice_congr fun k hk => ?_
  rw [memcpy_getElem?_of_mem hd hs (by omega) (by omega)]
  congr 1
  omega

theorem memcpy_full (hd : dst.length = n) (hs : s + n ≤ src.length) :
    memcpy dst 0 src s n = slice src s n := by
  rw [← @slice_memcpy _ dst 0 src s n (by omega) hs, slice_eq_self (by rw [length_memcpy, hd])]

theorem slice_memcpy_of_disjoint (h : off + m ≤ d ∨ d + n ≤ off) :
    slice (memcpy dst d src s n) off m = slice dst off m := by
  refine slice_congr fun k hk => memcpy_getElem?_of_not ?_
  omega

/-- Filling a buffer from the front: what is already there stays, the rest moves
up to the next piece. -/
theorem memcpy_append_front {front back src : List α} (h : src.length ≤ back.length) :
    memcpy (front ++ back) front.length src 0 src.length =
      front ++ (src ++ back.drop src.length) := by
  refine ext_getElem? fun k => ?_
  rcases Nat.lt_or_ge k front.length with hk | hk
  · rw [memcpy_getElem?_of_not (by omega), getElem?_append_left hk, getElem?_append_left hk]
  · rw [getElem?_append_right hk]
    rcases Nat.lt_or_ge k (front.length + src.length) with hk' | hk'
    · rw [memcpy_getElem?_of_mem (by rw [length_append]; omega) (by omega) hk hk',
        getElem?_append_left (by omega), Nat.zero_add]
    · rw [memcpy_getElem?_of_not (by omega), getElem?_append_right hk,
        getElem?_append_right (by omega), getElem?_drop]
      congr 1
      omega

theorem memcpy_slice_src (hd : d + n ≤ dst.length) (hs : s + n ≤ m) (hm : off + m ≤ src.length) :
    memcpy dst d (slice src off m) s n = memcpy dst d src (off + s) n := by
  refine ext_getElem? fun k => ?_
  by_cases hk : d ≤ k ∧ k < d + n
  · rw [memcpy_getElem?_of_mem hd (by rw [length_slice hm]; exact hs) hk.1 hk.2,
      memcpy_getElem?_of_mem hd (by omega) hk.1 hk.2, slice_getElem?, if_pos (by omega),
      Nat.add_assoc]
  · rw [memcpy_getElem?_of_not hk, memcpy_getElem?_of_not hk]

theorem memcpy_memcpy_adjacent (hd : d + (n + m) ≤ dst.length) (hs : s + (n + m) ≤ src.length) :
    memcpy (memcpy dst d src s n) (d + n) src (s + n) m = memcpy dst d src s (n + m) := by
  refine ext_getElem? fun k => ?_
  by_cases hk : d ≤ k ∧ k < d + (n + m)
  · rw [memcpy_getElem?_of_mem hd hs hk.1 hk.2]
    by_cases hm : d + n ≤ k ∧ k < d + n + m
    · rw [memcpy_getElem?_of_mem (by simp only [length_memcpy]; omega) (by omega) hm.1 hm.2]
      congr 1
      omega
    · rw [memcpy_getElem?_of_not hm, memcpy_getElem?_of_mem (by omega) (by omega) hk.1 (by omega)]
  · rw [memcpy_getElem?_of_not hk, memcpy_getElem?_of_not (by omega),
      memcpy_getElem?_of_not (by omega)]

theorem foldl_memcpy_contiguous :
    ∀ {m : Nat} {dst : List α}, d + m * n ≤ dst.length → s + m * n ≤ src.length →
      (range m).foldl (fun f k => memcpy f (d + k * n) src (s + k * n) n) dst =
        memcpy dst d src s (m * n) := by
  intro m
  induction m with
  | zero => intro dst _ _; rw [Nat.zero_mul, memcpy_zero]; rfl
  | succ m ih =>
    intro dst hd hs
    rw [Nat.add_mul, Nat.one_mul] at *
    rw [range_succ, foldl_append, ih (by omega) (by omega), foldl_cons,
      foldl_nil, memcpy_memcpy_adjacent (by omega) (by omega)]

/-- Pieces gathered into a block and copied out in one go might as well have
been copied to where the block goes. -/
theorem memcpy_gather {tmp : List α} {σ : Nat → Nat} :
    ∀ {m : Nat} {dst : List α}, d + m * n ≤ dst.length → m * n ≤ tmp.length →
      (∀ k < m, σ k + n ≤ src.length) →
      memcpy dst d ((range m).foldl (fun b k => memcpy b (k * n) src (σ k) n) tmp) 0 (m * n) =
        (range m).foldl (fun f k => memcpy f (d + k * n) src (σ k) n) dst := by
  intro m
  induction m with
  | zero => intro dst _ _ _; rw [Nat.zero_mul, memcpy_zero]; rfl
  | succ m ih =>
    intro dst hd ht hσ
    have hm := hσ m (by omega)
    rw [Nat.add_mul, Nat.one_mul] at *
    simp only [range_succ, foldl_append, foldl_cons, foldl_nil]
    rw [← ih (by omega) (by omega) fun k hk => hσ k (by omega)]
    generalize hblock : (range m).foldl (fun b k => memcpy b (k * n) src (σ k) n) tmp = block
    have hlen : block.length = tmp.length := by
      rw [← hblock]
      exact length_foldl (fun b k => length_memcpy b _ src _ n) _ _
    -- The last piece is copied out of the block's end, the others out of its start.
    rw [← memcpy_memcpy_adjacent (by omega) (by rw [length_memcpy]; omega), Nat.zero_add]
    have hstart : ∀ k, k < m * n → (memcpy block (m * n) src (σ m) n)[0 + k]? = block[0 + k]? :=
      fun k hk => memcpy_getElem?_of_not (by omega)
    have hend : ∀ k, k < n → (memcpy block (m * n) src (σ m) n)[m * n + k]? = src[σ m + k]? := by
      intro k hk
      rw [memcpy_getElem?_of_mem (by omega) hm (by omega) (by omega), Nat.add_sub_cancel_left]
    rw [memcpy_congr_src hstart, memcpy_congr_src hend]

/-! ## Editing a window of a buffer

A read-modify-write loads a window, edits the copy and stores it back. The
edit might as well have been made in place. -/

theorem memcpy_window {l : List α} {off m d : Nat} {src : List α} {s n : Nat}
    (hm : off + m ≤ l.length) (hd : d + n ≤ m) (hs : s + n ≤ src.length) :
    memcpy l off (memcpy (slice l off m) d src s n) 0 m = memcpy l (off + d) src s n := by
  have hlen : (memcpy (slice l off m) d src s n).length = m := by
    rw [length_memcpy, length_slice hm]
  refine ext_getElem? fun k => ?_
  by_cases hk : off ≤ k ∧ k < off + m
  · rw [memcpy_getElem?_of_mem hm (by omega) hk.1 hk.2]
    by_cases hin : off + d ≤ k ∧ k < off + d + n
    · rw [memcpy_getElem?_of_mem (by rw [length_slice hm]; exact hd) hs (by omega) (by omega),
        memcpy_getElem?_of_mem (by omega) hs hin.1 hin.2]
      congr 1
      omega
    · rw [memcpy_getElem?_of_not (by omega), memcpy_getElem?_of_not hin, slice_getElem?,
        if_pos (by omega)]
      congr 1
      omega
  · rw [memcpy_getElem?_of_not hk, memcpy_getElem?_of_not (by omega)]

theorem memcpy_self_window (hm : off + m ≤ l.length) : memcpy l off (slice l off m) 0 m = l := by
  have h := @memcpy_window _ l off m 0 l 0 0 hm (by omega) (by omega)
  rw [memcpy_zero, memcpy_zero] at h
  exact h

theorem memcpy_memcpy_same {a b : List α} (hm : off + m ≤ l.length) (ha : a.length = m)
    (hb : b.length = m) : memcpy (memcpy l off a 0 m) off b 0 m = memcpy l off b 0 m := by
  refine ext_getElem? fun k => ?_
  by_cases hk : off ≤ k ∧ k < off + m
  · rw [memcpy_getElem?_of_mem (by simp only [length_memcpy]; exact hm) (by omega) hk.1 hk.2,
      memcpy_getElem?_of_mem hm (by omega) hk.1 hk.2]
  · rw [memcpy_getElem?_of_not hk, memcpy_getElem?_of_not hk, memcpy_getElem?_of_not hk]

/-! ## Elements -/

/-- Element `k` of a buffer of `unit`-wide elements. -/
def elem (unit : Nat) (l : List α) (k : Nat) : List α := slice l (k * unit) unit

theorem elem_append_left (hk : (k + 1) * unit ≤ l.length) :
    elem unit (l ++ r) k = elem unit l k := by
  rw [Nat.add_mul, Nat.one_mul] at hk
  exact slice_append_left hk

theorem elem_append_right (hl : l.length = n * unit) (hk : n ≤ k) :
    elem unit (l ++ r) k = elem unit r (k - n) := by
  have hle : n * unit ≤ k * unit := Nat.mul_le_mul_right unit hk
  rw [elem, elem, slice, slice, drop_append, drop_eq_nil_of_le (by omega),
    nil_append, hl, Nat.sub_mul]

theorem elem_slice (hk : (k + 1) * unit ≤ m) :
    elem unit (slice l off m) k = slice l (off + k * unit) unit := by
  rw [elem, slice_slice (by rw [Nat.add_mul, Nat.one_mul] at hk; exact hk)]

theorem elem_slice_elems (hk : k < m) :
    elem unit (slice l (off * unit) (m * unit)) k = elem unit l (off + k) := by
  rw [elem_slice (Nat.mul_le_mul_right unit hk), elem, Nat.add_mul]

theorem ext_elem (hl : l.length = n * unit) (hl' : l'.length = n * unit)
    (h : ∀ k < n, elem unit l k = elem unit l' k) : l = l' := by
  refine ext_getElem? fun j => ?_
  rcases Nat.lt_or_ge j (n * unit) with hj | hj
  · have hunit : 0 < unit := Nat.pos_of_mul_pos_left (Nat.zero_lt_of_lt hj)
    have hk := congrArg (fun e => e[j % unit]?) (h (j / unit) (Nat.div_lt_of_lt_mul (by
      rwa [Nat.mul_comm])))
    simp only [elem, slice_getElem?, if_pos (Nat.mod_lt j hunit), Nat.div_add_mod'] at hk
    exact hk
  · rw [getElem?_eq_none (by omega), getElem?_eq_none (by omega)]

theorem elem_memcpy (hd : (d + n) * unit ≤ dst.length) (hs : (s + n) * unit ≤ src.length) :
    elem unit (memcpy dst (d * unit) src (s * unit) (n * unit)) k =
      if d ≤ k ∧ k < d + n then elem unit src (s + (k - d)) else elem unit dst k := by
  rw [Nat.add_mul] at hd hs
  split
  · next hk =>
    have hlo : d * unit ≤ k * unit := Nat.mul_le_mul_right unit hk.1
    have hhi : (k + 1) * unit ≤ (d + n) * unit := Nat.mul_le_mul_right unit hk.2
    have hsrc : (s + (k - d)) * unit + d * unit = s * unit + k * unit := by
      rw [← Nat.add_mul, ← Nat.add_mul, Nat.add_assoc, Nat.sub_add_cancel hk.1]
    rw [Nat.add_mul, Nat.add_mul] at hhi
    refine slice_congr fun b hb => ?_
    rw [memcpy_getElem?_of_mem hd hs (by omega) (by omega)]
    congr 1
    omega
  · next hk =>
    refine slice_memcpy_of_disjoint ?_
    rcases Nat.lt_or_ge k d with hlt | hge
    · have hle : (k + 1) * unit ≤ d * unit := Nat.mul_le_mul_right unit hlt
      rw [Nat.add_mul, Nat.one_mul] at hle
      exact Or.inl hle
    · have hle : (d + n) * unit ≤ k * unit := Nat.mul_le_mul_right unit (by omega)
      rw [Nat.add_mul] at hle
      exact Or.inr hle

/-! ## Rows -/

/-- A strided copy: each pair of element positions `(d, s)` moves a run of
`len` elements from `s` in `src` to `d` in the destination. -/
def copyRows (unit len : Nat) (src : List α) (rows : List (Nat × Nat)) (dst : List α) : List α :=
  rows.foldl (fun b row => memcpy b (row.1 * unit) src (row.2 * unit) (len * unit)) dst

@[simp] theorem copyRows_nil (unit len : Nat) (src dst : List α) :
    copyRows unit len src [] dst = dst := rfl

@[simp] theorem copyRows_cons (unit len : Nat) (src : List α) (row : Nat × Nat)
    (rows : List (Nat × Nat)) (dst : List α) :
    copyRows unit len src (row :: rows) dst =
      copyRows unit len src rows (memcpy dst (row.1 * unit) src (row.2 * unit) (len * unit)) :=
  rfl

/-- Every row stays inside both buffers. -/
def RowsFit (unit len : Nat) (src dst : List α) (rows : List (Nat × Nat)) : Prop :=
  ∀ row ∈ rows, (row.1 + len) * unit ≤ dst.length ∧ (row.2 + len) * unit ≤ src.length

/-- A strided copy, element by element: if every row that covers element `k`
fetches it from element `σ` of the source, then so does the whole copy. -/
theorem copyRows_elem {σ : Nat} :
    ∀ {rows : List (Nat × Nat)} {dst : List α}, RowsFit unit len src dst rows →
      (∀ row ∈ rows, row.1 ≤ k → k < row.1 + len → row.2 + (k - row.1) = σ) →
      elem unit (copyRows unit len src rows dst) k =
        if ∃ row ∈ rows, row.1 ≤ k ∧ k < row.1 + len then elem unit src σ
        else elem unit dst k := by
  intro rows
  induction rows with
  | nil => intro dst _ _; simp
  | cons row rows ih =>
    intro dst hfit hσ
    have hrow := hfit row (by simp)
    rw [copyRows_cons, ih (fun r hr => by
        rw [length_memcpy]; exact hfit r (mem_cons_of_mem _ hr))
      (fun r hr => hσ r (mem_cons_of_mem _ hr)), elem_memcpy hrow.1 hrow.2]
    by_cases hlater : ∃ r ∈ rows, r.1 ≤ k ∧ k < r.1 + len
    · obtain ⟨r, hr, hk⟩ := hlater
      rw [if_pos ⟨r, hr, hk⟩, if_pos ⟨r, mem_cons_of_mem _ hr, hk⟩]
    · rw [if_neg hlater]
      by_cases hk : row.1 ≤ k ∧ k < row.1 + len
      · rw [if_pos hk, if_pos ⟨row, by simp, hk⟩, hσ row (by simp) hk.1 hk.2]
      · rw [if_neg hk, if_neg]
        rintro ⟨r, hr, hk'⟩
        rcases mem_cons.mp hr with rfl | hr
        · exact hk hk'
        · exact hlater ⟨r, hr, hk'⟩

theorem copyRows_slice_src (hm : off + m ≤ src.length) :
    ∀ {rows : List (Nat × Nat)} {dst : List α},
      (∀ row ∈ rows, (row.1 + len) * unit ≤ dst.length ∧ (row.2 + len) * unit ≤ m) →
      copyRows unit len (slice src off m) rows dst = rows.foldl
          (fun b row => memcpy b (row.1 * unit) src (off + row.2 * unit) (len * unit)) dst := by
  intro rows
  induction rows with
  | nil => intro dst _; rfl
  | cons row rows ih =>
    intro dst hfit
    have hrow := hfit row (by simp)
    rw [Nat.add_mul, Nat.add_mul] at hrow
    rw [copyRows_cons, foldl_cons, memcpy_slice_src hrow.1 hrow.2 hm,
      ih fun r hr => by rw [length_memcpy]; exact hfit r (mem_cons_of_mem _ hr)]

/-- Editing a window row by row and storing it back is making the same row
copies in place. -/
theorem memcpy_copyRows_window :
    ∀ {rows : List (Nat × Nat)} {l : List α}, off + m ≤ l.length →
      (∀ row ∈ rows, (row.1 + len) * unit ≤ m ∧ (row.2 + len) * unit ≤ src.length) →
      memcpy l off (copyRows unit len src rows (slice l off m)) 0 m = rows.foldl
          (fun f row => memcpy f (off + row.1 * unit) src (row.2 * unit) (len * unit)) l := by
  intro rows
  induction rows with
  | nil => intro l hm _; exact memcpy_self_window hm
  | cons row rows ih =>
    intro l hm hfit
    have hrow := hfit row (by simp)
    rw [Nat.add_mul, Nat.add_mul] at hrow
    -- Push the first row through the window, then the rest see the edited list.
    have hwin := @memcpy_window _ l off m (row.1 * unit) src (row.2 * unit) (len * unit) hm
      hrow.1 hrow.2
    have hedit : (memcpy (slice l off m) (row.1 * unit) src (row.2 * unit)
        (len * unit)).length = m := by rw [length_memcpy, length_slice hm]
    have hslice : slice (memcpy l (off + row.1 * unit) src (row.2 * unit) (len * unit)) off m =
        memcpy (slice l off m) (row.1 * unit) src (row.2 * unit) (len * unit) := by
      rw [← hwin, slice_memcpy hm (by omega), slice_eq_self hedit]
    have hrest : (copyRows unit len src rows (memcpy (slice l off m) (row.1 * unit) src
        (row.2 * unit) (len * unit))).length = m :=
      (length_foldl (fun b _ => length_memcpy b _ src _ _) rows _).trans hedit
    rw [foldl_cons, copyRows_cons, ← ih (by rw [length_memcpy]; exact hm)
      (fun r hr => hfit r (mem_cons_of_mem _ hr)), hslice, ← hwin,
      memcpy_memcpy_same hm hedit hrest]

end Pdc.Lib
