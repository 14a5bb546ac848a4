import Pdc.Lib.Codec

/-!
# Removing duplicates by sorting

A list is sorted and then every element is dropped that is equal to the one
after it. Any order will do, as long as it is one: equal elements end up next
to each other. The order that C programs get for nothing is `memcmp`, which
on little-endian numbers is not the order of the numbers.
-/

namespace Pdc.Lib

open List

/-- Whether `memcmp` puts a buffer no later than another. -/
def memcmpLe : Bytes → Bytes → Bool
  | [], _ => true
  | _ :: _, [] => false
  | a :: as, b :: bs => decide (a.toNat < b.toNat) || (decide (a = b) && memcmpLe as bs)

theorem memcmpLe_cons {a b : UInt8} {as bs : Bytes} :
    memcmpLe (a :: as) (b :: bs) = true ↔ a.toNat < b.toNat ∨ (a = b ∧ memcmpLe as bs = true) := by
  simp only [memcmpLe, Bool.or_eq_true, Bool.and_eq_true, decide_eq_true_eq]

theorem memcmpLe_total : ∀ as bs : Bytes, memcmpLe as bs = true ∨ memcmpLe bs as = true
  | [], _ => Or.inl (by rw [memcmpLe])
  | _ :: _, [] => Or.inr (by rw [memcmpLe])
  | a :: as, b :: bs => by
      rw [memcmpLe_cons, memcmpLe_cons]
      rcases Nat.lt_trichotomy a.toNat b.toNat with hlt | heq | hlt
      · exact Or.inl (Or.inl hlt)
      · obtain rfl : a = b := UInt8.toNat_inj.mp heq
        exact (memcmpLe_total as bs).imp (fun h => Or.inr ⟨rfl, h⟩) (fun h => Or.inr ⟨rfl, h⟩)
      · exact Or.inr (Or.inl hlt)

theorem memcmpLe_trans : ∀ as bs cs : Bytes,
    memcmpLe as bs = true → memcmpLe bs cs = true → memcmpLe as cs = true
  | [], _, _, _, _ => by rw [memcmpLe]
  | _ :: _, [], _, h, _ => by cases h
  | _ :: _, _ :: _, [], _, h => by cases h
  | a :: as, b :: bs, c :: cs, h₁, h₂ => by
      rw [memcmpLe_cons] at h₁ h₂ ⊢
      rcases h₁ with h₁ | ⟨rfl, h₁⟩
      · rcases h₂ with h₂ | ⟨rfl, _⟩
        · exact Or.inl (Nat.lt_trans h₁ h₂)
        · exact Or.inl h₁
      · rcases h₂ with h₂ | ⟨rfl, h₂⟩
        · exact Or.inl h₂
        · exact Or.inr ⟨rfl, memcmpLe_trans as bs cs h₁ h₂⟩

theorem memcmpLe_antisymm : ∀ as bs : Bytes, memcmpLe as bs = true → memcmpLe bs as = true → as = bs
  | [], [], _, _ => rfl
  | [], _ :: _, _, h => by cases h
  | _ :: _, [], h, _ => by cases h
  | a :: as, b :: bs, h₁, h₂ => by
      rw [memcmpLe_cons] at h₁ h₂
      rcases h₁ with h₁ | ⟨rfl, h₁⟩
      · rcases h₂ with h₂ | ⟨rfl, _⟩
        · exact absurd h₂ (Nat.lt_asymm h₁)
        · exact absurd h₁ (Nat.lt_irrefl _)
      · rcases h₂ with h₂ | ⟨_, h₂⟩
        · exact absurd h₂ (Nat.lt_irrefl _)
        · rw [memcmpLe_antisymm as bs h₁ h₂]

section

variable {α : Type} [DecidableEq α] {le : α → α → Bool} {l : List α} {x : α}

/-- Drops every element that is equal to the one after it. -/
def uniqueAdjacent : List α → List α
  | [] => []
  | [a] => [a]
  | a :: b :: l => if a = b then uniqueAdjacent (b :: l) else a :: uniqueAdjacent (b :: l)

theorem mem_uniqueAdjacent : x ∈ uniqueAdjacent l ↔ x ∈ l := by
  induction l using uniqueAdjacent.induct with
  | case1 => rw [uniqueAdjacent]
  | case2 a => rw [uniqueAdjacent]
  | case3 b l ih =>
    rw [uniqueAdjacent, if_pos rfl, ih, mem_cons (l := b :: l)]
    exact ⟨Or.inr, fun h => h.elim (fun hx => hx ▸ mem_cons_self) id⟩
  | case4 a b l hab ih => rw [uniqueAdjacent, if_neg hab, mem_cons, ih, mem_cons (b := a)]

theorem nodup_uniqueAdjacent (hsorted : l.Pairwise fun a b => le a b = true)
    (hanti : ∀ a ∈ l, ∀ b ∈ l, le a b = true → le b a = true → a = b) :
    (uniqueAdjacent l).Nodup := by
  induction l using uniqueAdjacent.induct with
  | case1 => exact nodup_nil
  | case2 a => exact nodup_cons.mpr ⟨not_mem_nil, nodup_nil⟩
  | case3 b l ih =>
    rw [uniqueAdjacent, if_pos rfl]
    exact ih hsorted.of_cons fun a ha b hb =>
      hanti a (mem_cons_of_mem _ ha) b (mem_cons_of_mem _ hb)
  | case4 a b l hab ih =>
    rw [uniqueAdjacent, if_neg hab, nodup_cons]
    refine ⟨fun hmem => ?_, ih hsorted.of_cons fun a ha b hb =>
      hanti a (mem_cons_of_mem _ ha) b (mem_cons_of_mem _ hb)⟩
    -- Another `a` further on would be on both sides of `b`.
    rcases mem_cons.mp (mem_uniqueAdjacent.mp hmem) with rfl | hmem'
    · exact hab rfl
    · have hle : le a b = true := (pairwise_cons.mp hsorted).1 b mem_cons_self
      have hge : le b a = true := (pairwise_cons.mp hsorted.of_cons).1 a hmem'
      exact hab (hanti a mem_cons_self b (mem_cons_of_mem _ mem_cons_self) hle hge)

theorem length_uniqueAdjacent_le (l : List α) : (uniqueAdjacent l).length ≤ l.length := by
  induction l using uniqueAdjacent.induct with
  | case1 => rw [uniqueAdjacent]
  | case2 a => rw [uniqueAdjacent]
  | case3 b l ih => rw [uniqueAdjacent, if_pos rfl, length_cons]; omega
  | case4 a b l hab ih => rw [uniqueAdjacent, if_neg hab, length_cons, length_cons]; omega

/-- Sorts a list and drops the duplicates, which are then adjacent. -/
def sortUnique (le : α → α → Bool) (l : List α) : List α := uniqueAdjacent (l.mergeSort le)

theorem mem_sortUnique : x ∈ sortUnique le l ↔ x ∈ l := by
  rw [sortUnique, mem_uniqueAdjacent, mem_mergeSort]

theorem length_sortUnique_le (le : α → α → Bool) (l : List α) :
    (sortUnique le l).length ≤ l.length :=
  (length_uniqueAdjacent_le _).trans_eq (length_mergeSort l)

theorem nodup_sortUnique (htrans : ∀ a b c, le a b = true → le b c = true → le a c = true)
    (htotal : ∀ a b, (le a b || le b a) = true)
    (hanti : ∀ a ∈ l, ∀ b ∈ l, le a b = true → le b a = true → a = b) :
    (sortUnique le l).Nodup := by
  refine nodup_uniqueAdjacent (pairwise_mergeSort htrans htotal l) fun a ha b hb => ?_
  exact hanti a (mem_mergeSort.mp ha) b (mem_mergeSort.mp hb)

end

/-! ## Numbers, by their bytes -/

/-- The order `memcmp` gives to numbers of some bytes each. -/
def bytesLe (k : Nat) (a b : Nat) : Bool := memcmpLe (leBytes k a) (leBytes k b)

theorem nodup_sortUnique_bytesLe {k : Nat} {l : List Nat} (hl : ∀ a ∈ l, a < 256 ^ k) :
    (sortUnique (bytesLe k) l).Nodup := by
  refine nodup_sortUnique (fun a b c => memcmpLe_trans _ _ _) (fun a b => ?_) ?_
  · rw [Bool.or_eq_true]
    exact memcmpLe_total _ _
  · intro a ha b hb hab hba
    have hbytes : leBytes k a = leBytes k b := memcmpLe_antisymm _ _ hab hba
    have hmod : a % 256 ^ k = b % 256 ^ k := by
      rw [← leNat_leBytes, ← leNat_leBytes, hbytes]
    rwa [Nat.mod_eq_of_lt (hl a ha), Nat.mod_eq_of_lt (hl b hb)] at hmod

end Pdc.Lib
