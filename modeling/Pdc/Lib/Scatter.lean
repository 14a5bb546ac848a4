import Mathlib.Data.List.ReduceOption
import Pdc.Lib.Ranked

/-!
# Questions in groups

Questions are sorted into groups, and each group is answered by a list. The
answers are put into an array with a slot for each question: the one at a
position of a group's list into the slot of the question at that position of the
group (`scatter`).

This is right as long as each question gets an answer. When a group only has the
answers of those questions that have one, the first of them are given to the
first questions of the group, and `scatter_reduceOption_iff` says when these are
the right ones: no question without an answer may come before one that has an
answer in its group.
-/

namespace Pdc.Lib

open List Option

variable {α β : Type*} {xs ys : List (Option α)}

/-! ## Answers without gaps -/

theorem countP_le_of_forall₂ {p : α → Bool} {q : β → Bool} {xs : List α} {ys : List β}
    (h : List.Forall₂ (fun x y => p x = true → q y = true) xs ys) :
    xs.countP p ≤ ys.countP q := by
  induction h with
  | nil => exact Nat.le_refl 0
  | @cons x y xs ys hxy _ ih =>
    rw [countP_cons, countP_cons]
    split
    · next hx =>
      rw [if_pos (hxy hx)]
      omega
    · split <;> omega

theorem length_reduceOption_eq_countP (xs : List (Option α)) :
    xs.reduceOption.length = xs.countP isSome := by
  rw [reduceOption_length_eq, countP_eq_length_filter]

theorem reduceOption_eq_nil_iff_forall :
    xs.reduceOption = [] ↔ ∀ x ∈ xs, x = none := by
  rw [← length_eq_zero_iff, length_reduceOption_eq_countP, countP_eq_zero]
  simp only [Bool.not_eq_true, isSome_eq_false_iff, isNone_iff_eq_none]

theorem not_fills_none_some {b : α}
    (hle : List.Forall₂ (fun x y : Option α => ∀ a, x = some a → y = some a) xs ys)
    (h : ∀ p : Nat, xs.reduceOption[p]? = ((some b :: ys)[p]?).join) : False := by
  have hpos : 0 < xs.reduceOption.length := by
    refine length_pos_iff.mpr fun hnil => ?_
    have hfirst := h 0
    rw [hnil] at hfirst
    cases hfirst
  obtain ⟨k, hk⟩ := Nat.exists_eq_add_of_lt hpos
  -- Behind the answers no question should have one.
  have hrest : (ys.drop k).countP isSome = 0 := by
    rw [countP_eq_zero]
    intro y hy
    obtain ⟨j, hj⟩ := mem_iff_getElem?.mp hy
    rw [getElem?_drop] at hj
    have hnone := h (k + j + 1)
    rw [getElem?_eq_none (by omega), getElem?_cons_succ, hj] at hnone
    rw [show y = none from hnone.symm]
    exact Bool.false_ne_true
  have hcount : ys.countP isSome ≤ k := by
    rw [← take_append_drop k ys, countP_append, hrest]
    exact Nat.le_trans countP_le_length (length_take_le k ys)
  have hmono : xs.countP isSome ≤ ys.countP isSome := by
    refine countP_le_of_forall₂ (hle.imp fun x y hxy hx => ?_)
    obtain ⟨a, ha⟩ := isSome_iff_exists.mp hx
    rw [hxy a ha]
    rfl
  rw [length_reduceOption_eq_countP] at hk
  omega

theorem reduceOption_fills_iff
    (hle : List.Forall₂ (fun x y : Option α => ∀ a, x = some a → y = some a) xs ys) :
    (∀ p : Nat, xs.reduceOption[p]? = (ys[p]?).join) ↔
      xs = ys ∧ xs.Pairwise fun x y => y.isSome → x.isSome := by
  induction hle with
  | nil => simp
  | @cons x y xs ys hxy hle ih =>
    rw [cons.injEq, pairwise_cons]
    cases x with
    | some a =>
      rw [hxy a rfl, reduceOption_cons_of_some]
      have hsucc : (∀ p : Nat, (a :: xs.reduceOption)[p]? = ((some a :: ys)[p]?).join) ↔
          ∀ p : Nat, xs.reduceOption[p]? = (ys[p]?).join := by
        refine ⟨fun h p => h (p + 1), fun h p => ?_⟩
        cases p with
        | zero => rfl
        | succ p => exact h p
      rw [hsucc, ih]
      exact ⟨fun h => ⟨⟨rfl, h.1⟩, fun _ _ _ => rfl, h.2⟩, fun h => ⟨h.1.2, h.2.2⟩⟩
    | none =>
      rw [reduceOption_cons_of_none]
      constructor
      · intro h
        cases y with
        | some b => exact absurd h (not_fills_none_some hle)
        | none =>
          have hnil : xs.reduceOption = [] := head?_eq_none_iff.mp (by
            rw [head?_eq_getElem?]
            exact h 0)
          have hxs := reduceOption_eq_nil_iff_forall.mp hnil
          have hys : ∀ p : Nat, xs.reduceOption[p]? = (ys[p]?).join := by
            intro p
            have hp := h (p + 1)
            rw [hnil] at hp ⊢
            exact hp
          have hrest := ih.mp hys
          refine ⟨⟨rfl, hrest.1⟩, fun z hz hsome => ?_, hrest.2⟩
          rw [hxs z hz] at hsome
          exact hsome
      · rintro ⟨⟨rfl, rfl⟩, hfirst, -⟩ p
        have hxs : ∀ x ∈ xs, x = none := fun x hx =>
          not_isSome_iff_eq_none.mp fun hsome => absurd (hfirst x hx hsome) (by simp)
        rw [reduceOption_eq_nil_iff_forall.mpr hxs]
        cases hp : (none :: xs)[p]? with
        | none => rfl
        | some x =>
          rcases mem_cons.mp (mem_of_getElem? hp) with rfl | hmem
          · rfl
          · rw [hxs x hmem]
            rfl

/-! ## Groups -/

variable {key : α → Nat} {l : List α} {n i k : Nat} {ans : Nat → List β} {a : α}

/-- The questions of a group, each with its number. -/
def groupOf (key : α → Nat) (l : List α) (k : Nat) : List (α × Nat) :=
  l.zipIdx.filter fun p => key p.1 = k

/-- The answers of all groups, each with the number of the question it is given to. -/
def addressed (n : Nat) (key : α → Nat) (l : List α) (ans : Nat → List β) : List (Nat × β) :=
  (List.range n).flatMap fun k => ((groupOf key l k).map Prod.snd).zip (ans k)

/-- The answers in the slots of the questions. -/
def scatter (n : Nat) (key : α → Nat) (l : List α) (ans : Nat → List β) : List (Option β) :=
  (addressed n key l ans).foldl (fun slots p => slots.set p.1 (some p.2))
    (List.replicate l.length none)

theorem mem_groupOf :
    (a, i) ∈ groupOf key l k ↔ l[i]? = some a ∧ key a = k := by
  rw [groupOf, mem_filter, mem_zipIdx_iff_getElem?, decide_eq_true_eq]

theorem nodup_snd_groupOf (key : α → Nat) (l : List α) (k : Nat) :
    ((groupOf key l k).map Prod.snd).Nodup := by
  refine List.Nodup.sublist (filter_sublist.map Prod.snd) ?_
  rw [zipIdx_map_snd]
  exact nodup_range'

theorem mem_addressed {b : β} :
    (i, b) ∈ addressed n key l ans ↔
      ∃ k < n, ∃ (j : Nat) (a : α), (groupOf key l k)[j]? = some (a, i) ∧ (ans k)[j]? = some b := by
  simp only [addressed, mem_flatMap, mem_range]
  refine exists_congr fun k => and_congr_right fun _ => ?_
  rw [mem_iff_getElem?]
  refine exists_congr fun j => ?_
  rw [getElem?_zip_eq_some, getElem?_map, map_eq_some_iff]
  constructor
  · rintro ⟨⟨⟨a, i'⟩, ha, rfl⟩, hb⟩
    exact ⟨a, ha, hb⟩
  · rintro ⟨a, ha, hb⟩
    exact ⟨⟨(a, i), ha, rfl⟩, hb⟩

theorem map_fst_zip_isPrefix (xs : List α) (ys : List β) : (xs.zip ys).map Prod.fst <+: xs := by
  induction xs generalizing ys with
  | nil => exact prefix_refl []
  | cons x xs ih =>
    cases ys with
    | nil => exact nil_prefix
    | cons y ys => exact cons_prefix_cons.mpr ⟨rfl, ih ys⟩

theorem nodup_fst_addressed (n : Nat) (key : α → Nat) (l : List α) (ans : Nat → List β) :
    ((addressed n key l ans).map Prod.fst).Nodup := by
  rw [addressed, map_flatMap, nodup_flatMap]
  refine ⟨fun k _ => ?_, nodup_range.pairwise_of_forall_ne fun k _ k' _ hne => ?_⟩
  · exact (nodup_snd_groupOf key l k).sublist (map_fst_zip_isPrefix _ _).sublist
  · intro i hi hi'
    obtain ⟨⟨a, _⟩, ha, rfl⟩ := mem_map.mp ((map_fst_zip_isPrefix _ _).subset hi)
    obtain ⟨⟨a', _⟩, ha', rfl⟩ := mem_map.mp ((map_fst_zip_isPrefix _ _).subset hi')
    obtain ⟨hget, hk⟩ := mem_groupOf.mp ha
    obtain ⟨hget', hk'⟩ := mem_groupOf.mp ha'
    rw [some.inj (hget.symm.trans hget')] at hk
    exact hne (hk.symm.trans hk')

theorem foldl_set_map_snd (pairs : List (Nat × β)) (slots : List (Option (Nat × β))) :
    pairs.foldl (fun slots p => slots.set p.1 (some p.2)) (slots.map (Option.map Prod.snd)) =
      (pairs.foldl (fun slots p => slots.set p.1 (some p)) slots).map (Option.map Prod.snd) := by
  induction pairs generalizing slots with
  | nil => rfl
  | cons p pairs ih =>
    rw [foldl_cons, foldl_cons, ← ih, map_set]
    rfl

theorem scatter_eq_placed (n : Nat) (key : α → Nat) (l : List α) (ans : Nat → List β) :
    scatter n key l ans =
      (placed l.length Prod.fst (addressed n key l ans)).map (Option.map Prod.snd) := by
  rw [placed, ← foldl_set_map_snd, map_replicate]
  rfl

theorem getElem?_scatter {j : Nat} (hk : k < n) (h : (groupOf key l k)[j]? = some (a, i)) :
    (scatter n key l ans)[i]? = some (ans k)[j]? := by
  obtain ⟨hget, hkey⟩ := mem_groupOf.mp (mem_of_getElem? h)
  have hi : i < l.length := (List.getElem?_eq_some_iff.mp hget).1
  have hnodup := nodup_fst_addressed n key l ans
  rw [scatter_eq_placed, placed_eq hnodup, getElem?_map, getElem?_map,
    getElem?_range hi, Option.map_some, Option.map_some, Option.some.injEq]
  cases hb : (ans k)[j]? with
  | some b =>
    have hfind := (find?_key_eq_some hnodup).mpr ⟨mem_addressed.mpr ⟨k, hk, j, a, h, hb⟩, rfl⟩
    rw [hfind]
    rfl
  | none =>
    -- An answer for this question would be at the same position of the same group.
    rw [Option.map_eq_none_iff, find?_eq_none]
    rintro ⟨i', b⟩ hmem heq
    obtain rfl : i' = i := of_decide_eq_true heq
    obtain ⟨k', -, j', a', h', hb'⟩ := mem_addressed.mp hmem
    obtain ⟨hget', hkey'⟩ := mem_groupOf.mp (mem_of_getElem? h')
    obtain rfl : a = a' := Option.some.inj (hget.symm.trans hget')
    obtain rfl : k = k' := hkey.symm.trans hkey'
    have hpos : ∀ {j : Nat}, (groupOf key l k)[j]? = some (a, i') →
        ((groupOf key l k).map Prod.snd)[j]? = some i' := by
      intro j hj
      rw [getElem?_map, hj]
      rfl
    obtain ⟨hlt, -⟩ := List.getElem?_eq_some_iff.mp (hpos h)
    obtain rfl : j = j' := (getElem?_inj hlt (nodup_snd_groupOf key l k)).mp
      ((hpos h).trans (hpos h').symm)
    rw [hb] at hb'
    cases hb'

theorem scatter_eq_map_iff (hkey : ∀ a ∈ l, key a < n)
    (hlen : ∀ k < n, (ans k).length ≤ (groupOf key l k).length) {spec : α → Option β} :
    scatter n key l ans = l.map spec ↔
      ∀ k < n, ∀ j : Nat, (ans k)[j]? = (((groupOf key l k).map fun p => spec p.1)[j]?).join := by
  constructor
  · intro heq k hk j
    rw [getElem?_map]
    cases hj : (groupOf key l k)[j]? with
    | none =>
      have hend := getElem?_eq_none_iff.mp hj
      exact getElem?_eq_none (Nat.le_trans (hlen k hk) hend)
    | some p =>
      have hslot : (scatter n key l ans)[p.2]? = some (ans k)[j]? := getElem?_scatter hk hj
      rw [heq, getElem?_map, (mem_groupOf.mp (mem_of_getElem? hj)).1] at hslot
      exact (Option.some.inj hslot).symm
  · intro hans
    refine ext_getElem? fun i => ?_
    rw [getElem?_map]
    cases hi : l[i]? with
    | none =>
      have hend := getElem?_eq_none_iff.mp hi
      exact getElem?_eq_none (by rwa [scatter_eq_placed, length_map, length_placed])
    | some a =>
      have hk := hkey a (mem_of_getElem? hi)
      obtain ⟨j, hj⟩ := mem_iff_getElem?.mp (mem_groupOf.mpr ⟨hi, rfl⟩)
      rw [getElem?_scatter hk hj, hans _ hk j, getElem?_map, hj]
      rfl

/-- Each group is answered for those of its questions that have an answer. That is right
just if there is an answer for each question that should have one, and no question
without one comes before one with an answer in its group. -/
theorem scatter_reduceOption_iff (hkey : ∀ a ∈ l, key a < n) {x y : α → Option β}
    (hle : ∀ a ∈ l, ∀ b, x a = some b → y a = some b) :
    scatter n key l (fun k => ((groupOf key l k).map fun p => x p.1).reduceOption) = l.map y ↔
      (∀ a ∈ l, x a = y a) ∧ l.Pairwise fun a b => key a = key b → (x b).isSome → (x a).isSome := by
  have hmem : ∀ {k : Nat} {p : α × Nat}, p ∈ groupOf key l k → p.1 ∈ l ∧ key p.1 = k := by
    intro k p hp
    obtain ⟨hget, hk⟩ := mem_groupOf.mp hp
    exact ⟨mem_of_getElem? hget, hk⟩
  have hfill : ∀ k : Nat, (∀ j : Nat, ((groupOf key l k).map fun p => x p.1).reduceOption[j]? =
      (((groupOf key l k).map fun p => y p.1)[j]?).join) ↔ (∀ p ∈ groupOf key l k, x p.1 = y p.1) ∧
          (groupOf key l k).Pairwise fun p q => (x q.1).isSome → (x p.1).isSome := by
    intro k
    rw [reduceOption_fills_iff, map_inj_left, pairwise_map]
    rw [forall₂_map_left_iff, forall₂_map_right_iff]
    exact forall₂_same.mpr fun p hp => hle p.1 (hmem hp).1
  have hpairs : (∀ k < n, (groupOf key l k).Pairwise fun p q => (x q.1).isSome → (x p.1).isSome) ↔
      l.Pairwise fun a b => key a = key b → (x b).isSome → (x a).isSome := by
    have hzip := pairwise_map (f := Prod.fst) (l := l.zipIdx)
      (R := fun a b => key a = key b → (x b).isSome → (x a).isSome)
    rw [zipIdx_map_fst] at hzip
    rw [hzip]
    simp only [groupOf, pairwise_filter, decide_eq_true_eq]
    simp only [pairwise_iff_forall_sublist]
    refine ⟨fun h p q hsub hpq => ?_, fun h k _ p q hsub hp hq => h hsub (hp.trans hq.symm)⟩
    have hp : p.1 ∈ l := by
      rw [← zipIdx_map_fst 0 l]
      exact mem_map_of_mem (hsub.subset mem_cons_self)
    exact h (key p.1) (hkey p.1 hp) hsub rfl hpq.symm
  rw [scatter_eq_map_iff hkey fun k _ =>
    Nat.le_trans (reduceOption_length_le _) (by rw [length_map])]
  simp only [hfill, forall_and, hpairs]
  refine and_congr_left fun _ => ⟨fun h a ha => ?_, fun h k _ p hp => h p.1 (hmem hp).1⟩
  obtain ⟨i, hi⟩ := mem_iff_getElem?.mp ha
  exact h (key a) (hkey a ha) (a, i) (mem_groupOf.mpr ⟨hi, rfl⟩)

end Pdc.Lib
