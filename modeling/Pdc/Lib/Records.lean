import Pdc.Lib.Slots

/-!
# Lists of records with a key

A list that is searched from the front for the first record that passes a test,
which is then changed in place. `modifyFirst` is that search; it has no result
when nothing passes, which is when its callers add a record at the end.

When the test is for a key, the list is a map from keys to what is read off the
records, in the sense of `Slots`, and stays one.
-/

namespace Pdc.Lib

open List Bool

variable {α : Type*} {p q : α → Bool} {f : α → α} {l l' : List α} {a : α}

/-- The list with the first record that passes changed, if there is one. -/
def modifyFirst (p : α → Bool) (f : α → α) : List α → Option (List α)
  | [] => none
  | a :: l => if p a then some (f a :: l) else (modifyFirst p f l).map (a :: ·)

theorem modifyFirst_eq_none : modifyFirst p f l = none ↔ ∀ a ∈ l, p a = false := by
  induction l with
  | nil => simp [modifyFirst]
  | cons a l ih =>
    rw [modifyFirst, forall_mem_cons]
    split
    · next h => simp [h]
    · next h => rw [Option.map_eq_none_iff, ih, and_iff_right (eq_false_iff.mpr h)]

theorem modifyFirst_eq_some (h : modifyFirst p f l = some l') :
    ∃ before a after, l = before ++ a :: after ∧ (∀ b ∈ before, p b = false) ∧ p a = true ∧
      l' = before ++ f a :: after := by
  induction l generalizing l' with
  | nil => cases h
  | cons a l ih =>
    rw [modifyFirst] at h
    split at h
    · next ha =>
      cases h
      exact ⟨[], a, l, rfl, fun b hb => absurd hb not_mem_nil, ha, rfl⟩
    · next ha =>
      obtain ⟨l₁, hl₁, rfl⟩ := Option.map_eq_some_iff.mp h
      obtain ⟨before, b, after, rfl, hbefore, hb, rfl⟩ := ih hl₁
      refine ⟨a :: before, b, after, rfl, ?_, hb, rfl⟩
      rw [forall_mem_cons]
      exact ⟨eq_false_iff.mpr ha, hbefore⟩

theorem find?_of_modifyFirst (h : modifyFirst p f l = some l') :
    ∃ a, l.find? p = some a ∧ (p (f a) = true → l'.find? p = some (f a)) := by
  obtain ⟨before, a, after, rfl, hbefore, ha, rfl⟩ := modifyFirst_eq_some h
  have hnone : before.find? p = none :=
    find?_eq_none.mpr fun b hb => eq_false_iff.mp (hbefore b hb)
  refine ⟨a, ?_, fun hfa => ?_⟩
  · rw [find?_append, hnone, Option.none_or, find?_cons_of_pos ha]
  · rw [find?_append, hnone, Option.none_or, find?_cons_of_pos hfa]

theorem map_modifyFirst {β : Type*} {g : α → β} (hg : ∀ a, p a = true → g (f a) = g a)
    (h : modifyFirst p f l = some l') : l'.map g = l.map g := by
  obtain ⟨before, a, after, rfl, -, ha, rfl⟩ := modifyFirst_eq_some h
  simp only [map_append, map_cons, hg a ha]

theorem perm_cons_eraseP (h : l.find? p = some a) : l.Perm (a :: l.eraseP p) := by
  induction l with
  | nil => cases h
  | cons b l ih =>
    by_cases hb : p b = true
    · rw [find?_cons_of_pos hb, Option.some.injEq] at h
      rw [eraseP_cons_of_pos hb, h]
    · rw [find?_cons_of_neg hb] at h
      rw [eraseP_cons_of_neg hb]
      exact ((ih h).cons b).trans (List.Perm.swap a b _)

theorem filter_eraseP_self : (l.eraseP p).filter p = (l.filter p).tail := by
  induction l with
  | nil => rfl
  | cons b l ih =>
    by_cases hb : p b = true
    · rw [eraseP_cons_of_pos hb, filter_cons_of_pos hb, tail_cons]
    · rw [eraseP_cons_of_neg hb, filter_cons_of_neg hb, filter_cons_of_neg hb, ih]

theorem perm_of_modifyFirst (h : modifyFirst p f l = some l') :
    ∃ a, l.find? p = some a ∧ l'.Perm (f a :: l.eraseP p) := by
  obtain ⟨before, a, after, rfl, hbefore, ha, rfl⟩ := modifyFirst_eq_some h
  have hnot : ∀ b ∈ before, ¬p b = true := fun b hb => eq_false_iff.mp (hbefore b hb)
  refine ⟨a, ?_, ?_⟩
  · rw [find?_append, find?_eq_none.mpr hnot, Option.none_or, find?_cons_of_pos ha]
  · rw [eraseP_append_right _ hnot, eraseP_cons_of_pos ha]
    exact perm_middle

theorem filter_modifyFirst (hf : ∀ a, p a = true → p (f a) = true)
    (h : modifyFirst p f l = some l') : (l'.filter fun a => !p a) = l.filter fun a => !p a := by
  obtain ⟨before, a, after, rfl, -, ha, rfl⟩ := modifyFirst_eq_some h
  simp [filter_append, ha, hf a ha]

/-! ## Searches with two tests -/

/-- A weaker test finds the same record when no record before that passes it. -/
theorem find?_eq_of_takeWhile (hpq : ∀ a, p a = true → q a = true)
    (h : ∀ a ∈ l.takeWhile fun a => !p a, q a = false) : l.find? q = l.find? p := by
  induction l with
  | nil => rfl
  | cons a l ih =>
    cases ha : p a with
    | true => rw [find?_cons_of_pos ha, find?_cons_of_pos (hpq a ha)]
    | false =>
      rw [takeWhile_cons_of_pos (by rw [ha]; rfl), forall_mem_cons] at h
      rw [find?_cons_of_neg (eq_false_iff.mp h.1),
        find?_cons_of_neg (eq_false_iff.mp ha), ih h.2]

/-- Otherwise it finds one that the stronger test rejects. -/
theorem find?_of_mem_takeWhile (ha : a ∈ l.takeWhile fun a => !p a) (hq : q a = true) :
    ∃ b ∈ l, l.find? q = some b ∧ p b = false := by
  induction l with
  | nil => simp at ha
  | cons b l ih =>
    cases hb : p b with
    | true =>
      rw [takeWhile_cons_of_neg (by rw [hb]; exact false_ne_true)] at ha
      simp at ha
    | false =>
      rw [takeWhile_cons_of_pos (by rw [hb]; rfl), mem_cons] at ha
      cases hqb : q b with
      | true => exact ⟨b, mem_cons_self, find?_cons_of_pos hqb, hb⟩
      | false =>
        have hne : a ≠ b := fun hab => eq_false_iff.mp hqb (hab ▸ hq)
        obtain ⟨c, hc, hfind, hpc⟩ := ih (ha.resolve_left hne)
        refine ⟨c, mem_cons_of_mem b hc, ?_, hpc⟩
        rw [find?_cons_of_neg (eq_false_iff.mp hqb), hfind]

/-! ## Records that correspond -/

section Pairs

variable {β : Type*} {R : α → β → Prop} {l₂ : List β}

theorem forall₂_exists_left (h : List.Forall₂ R l l₂) : ∀ b ∈ l₂, ∃ a ∈ l, R a b := by
  induction h with
  | nil => exact by simp
  | cons hab _ ih =>
    rw [forall_mem_cons]
    refine ⟨⟨_, mem_cons_self, hab⟩, fun b hb => ?_⟩
    obtain ⟨a, ha, hR⟩ := ih b hb
    exact ⟨a, mem_cons_of_mem _ ha, hR⟩

theorem map_eq_of_forall₂ {γ : Type*} {f : α → γ} {g : β → γ} (h : List.Forall₂ R l l₂)
    (hR : ∀ a b, R a b → g b = f a) : l₂.map g = l.map f := by
  induction h with
  | nil => rfl
  | cons hab _ ih => rw [map_cons, map_cons, hR _ _ hab, ih]

end Pairs

/-! ## Maps -/

section Keyed

variable {K V : Type*} {key : α → K} {val : α → V} {m : K → Option V} {k : K}

theorem modifyFirst_eq_none_iff_notMem (hp : ∀ a, p a = true ↔ key a = k) :
    modifyFirst p f l = none ↔ k ∉ l.map key := by
  rw [modifyFirst_eq_none, mem_map]
  refine ⟨fun h ⟨a, ha, hk⟩ => ?_, fun h a ha => ?_⟩
  · exact false_ne_true ((h a ha).symm.trans ((hp a).mpr hk))
  · exact eq_false_iff.mpr fun hpa => h ⟨a, ha, (hp a).mp hpa⟩

theorem mem_modifyFirst (hp : ∀ a, p a = true ↔ key a = k) (hnodup : (l.map key).Nodup)
    (h : modifyFirst p f l = some l') {a' : α} :
    a' ∈ l' ↔ (a' ∈ l ∧ key a' ≠ k) ∨ ∃ a ∈ l, key a = k ∧ a' = f a := by
  obtain ⟨before, a, after, rfl, -, ha, rfl⟩ := modifyFirst_eq_some h
  have hkey : key a = k := (hp a).mp ha
  rw [(perm_middle.map key).nodup_iff, map_cons, nodup_cons] at hnodup
  have hothers : ∀ b ∈ before ++ after, key b ≠ k := fun b hb heq =>
    hnodup.1 (hkey.trans heq.symm ▸ mem_map_of_mem hb)
  simp only [perm_middle.mem_iff, mem_cons]
  constructor
  · rintro (rfl | hmem)
    · exact .inr ⟨a, .inl rfl, hkey, rfl⟩
    · exact .inl ⟨.inr hmem, hothers a' hmem⟩
  · rintro (⟨rfl | hmem, hne⟩ | ⟨b, rfl | hmem, hb, rfl⟩)
    · exact absurd hkey hne
    · exact .inr hmem
    · exact .inl rfl
    · exact absurd hb (hothers b hmem)

open Classical in
theorem Slots.modifyFirst (h : Slots (l.map key) (l.map val) m) (hp : ∀ a, p a = true ↔ key a = k)
    (hkey : ∀ a, key (f a) = key a) {v : V} (hval : ∀ a, val (f a) = v)
    (hl : modifyFirst p f l = some l') :
    Slots (l'.map key) (l'.map val) (Function.update m k (some v)) := by
  obtain ⟨before, a, after, rfl, -, ha, rfl⟩ := modifyFirst_eq_some hl
  have hslot : ((before ++ a :: after).map key)[before.length]? = some k := by
    simp [(hp a).mp ha]
  have hset := h.set hslot v
  have hkeys : (before ++ f a :: after).map key = (before ++ a :: after).map key := by
    simp [hkey]
  have hvals : (before ++ f a :: after).map val =
      ((before ++ a :: after).map val).set before.length v := by
    rw [map_append, map_cons, hval]
    simp
  rw [hkeys, hvals]
  exact hset

open Classical in
theorem Slots.append_record (h : Slots (l.map key) (l.map val) m) (ha : key a ∉ l.map key) :
    Slots ((l ++ [a]).map key) ((l ++ [a]).map val) (Function.update m (key a) (some (val a))) := by
  rw [map_append, map_append]
  exact h.append ha (val a)

end Keyed

end Pdc.Lib
