import Pdc.Lib.Buffer

/-!
# Filling an array from the front

An array that is allocated once and then written block after block, with a
counter for the next free position. A block that does not fit is not written:
the program would leave its array there, so the writer has no result.

`Filled n xs` says what a writer has got to: it is an array of `n` entries
that starts with `xs`, and the counter stands behind them. Writers compose by
`Filled.puts`, so a proof about one only has to say which entries it writes.
-/

namespace Pdc.Lib

variable {α : Type*}

/-- An array and the position of the next write. -/
structure Fill (α : Type*) where
  cells : List α
  next : Nat

namespace Fill

variable {g : List α → List α}

/-- Writing a block at the next position. -/
def puts (f : Fill α) (xs : List α) : Option (Fill α) :=
  if f.next + xs.length ≤ f.cells.length then
    some ⟨memcpy f.cells f.next xs 0 xs.length, f.next + xs.length⟩
  else none

/-- Writing a block of `n` entries that keeps some of what was there. -/
def rewrite (f : Fill α) (n : Nat) (g : List α → List α) : Option (Fill α) :=
  if f.next + n ≤ f.cells.length then f.puts (g (slice f.cells f.next n)) else none

theorem puts_eq_some {f f' : Fill α} {xs : List α} (h : f.puts xs = some f') :
    f'.next = f.next + xs.length ∧ f'.cells.length = f.cells.length ∧
      f'.next ≤ f'.cells.length := by
  rw [puts] at h
  split at h
  · next hfit =>
    cases h
    exact ⟨rfl, length_memcpy .., (length_memcpy f.cells f.next xs 0 xs.length).symm ▸ hfit⟩
  · exact nomatch h

theorem rewrite_eq_some {f f' : Fill α} {n : Nat}
    (hg : ∀ old : List α, old.length = n → (g old).length = n) (h : f.rewrite n g = some f') :
    f'.next = f.next + n ∧ f'.cells.length = f.cells.length ∧ f'.next ≤ f'.cells.length := by
  rw [rewrite] at h
  split at h
  · next hfit =>
    have hputs := puts_eq_some h
    rwa [hg _ (length_slice hfit)] at hputs
  · exact nomatch h

/-- An array of `n` entries, of which `xs` have been written. -/
structure Filled (n : Nat) (xs : List α) (f : Fill α) : Prop where
  next : f.next = xs.length
  length : f.cells.length = n
  written : f.cells.take xs.length = xs

namespace Filled

variable {n : Nat} {xs : List α} {f : Fill α}

theorem start {cells : List α} (h : cells.length = n) : Filled n [] (⟨cells, 0⟩ : Fill α) :=
  ⟨rfl, h, rfl⟩

theorem puts (h : Filled n xs f) (ys : List α) (hfit : xs.length + ys.length ≤ n) :
    ∃ f', f.puts ys = some f' ∧ Filled n (xs ++ ys) f' := by
  have hroom : ys.length ≤ (f.cells.drop xs.length).length := by
    rw [List.length_drop, h.length]
    omega
  have hcells : f.cells = xs ++ f.cells.drop xs.length := by
    rw [← List.take_append_drop xs.length f.cells, h.written, List.drop_left]
  have hcopy : memcpy (xs ++ f.cells.drop xs.length) xs.length ys 0 ys.length =
      xs ++ (ys ++ (f.cells.drop xs.length).drop ys.length) := memcpy_append_front hroom
  rw [← hcells] at hcopy
  have hlen : f.next + ys.length ≤ f.cells.length := by
    rw [h.next, h.length]
    exact hfit
  refine ⟨⟨memcpy f.cells f.next ys 0 ys.length, f.next + ys.length⟩, if_pos hlen, ?_, ?_, ?_⟩
  · rw [List.length_append, h.next]
  · rw [length_memcpy, h.length]
  · simp only [h.next]
    rw [hcopy, ← List.append_assoc, List.take_left]

theorem rewrite (h : Filled n xs f) {k : Nat}
    (hg : ∀ old : List α, old.length = k → (g old).length = k) (hfit : xs.length + k ≤ n) :
    ∃ old f', old.length = k ∧ f.rewrite k g = some f' ∧ Filled n (xs ++ g old) f' := by
  have hroom : f.next + k ≤ f.cells.length := by
    rw [h.next, h.length]
    exact hfit
  have hold : (slice f.cells f.next k).length = k := length_slice hroom
  obtain ⟨f', hputs, hf'⟩ := h.puts (g (slice f.cells f.next k)) (by rw [hg _ hold]; exact hfit)
  exact ⟨_, f', hold, (if_pos hroom).trans hputs, hf'⟩

theorem foldlM_puts {β : Type*} {step : Fill α → β → Option (Fill α)} {block : β → List α} :
    ∀ {bs : List β} {xs : List α} {f : Fill α}, Filled n xs f →
      (∀ f, ∀ b ∈ bs, step f b = f.puts (block b)) →
      xs.length + (bs.flatMap block).length ≤ n →
      ∃ f', bs.foldlM step f = some f' ∧ Filled n (xs ++ bs.flatMap block) f'
  | [], xs, f, h, _, _ => ⟨f, rfl, by rwa [List.flatMap_nil, List.append_nil]⟩
  | b :: bs, xs, f, h, hstep, hfit => by
      rw [List.flatMap_cons, List.length_append] at hfit
      obtain ⟨f₁, hputs, h₁⟩ := h.puts (block b) (by omega)
      have hfit₁ : (xs ++ block b).length + (bs.flatMap block).length ≤ n := by
        rw [List.length_append]
        omega
      obtain ⟨f', hrest, h'⟩ :=
        foldlM_puts h₁ (fun f b' hb' => hstep f b' (List.mem_cons_of_mem b hb')) hfit₁
      refine ⟨f', ?_, ?_⟩
      · rw [List.foldlM_cons, hstep f b List.mem_cons_self, hputs]
        exact hrest
      · rw [List.flatMap_cons, ← List.append_assoc]
        exact h'

theorem cells_eq (h : Filled n xs f) (hn : xs.length = n) : f.cells = xs := by
  rw [← h.written, List.take_of_length_le (Nat.le_of_eq (h.length.trans hn.symm))]

end Filled

end Fill

end Pdc.Lib
