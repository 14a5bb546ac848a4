import Mathlib.Data.List.Basic
import Mathlib.Data.List.Induction

/-!
# Runs of a step function

A run is a list of actions folded over a state. `Along P` says that every
action of a run met `P` at the state it was taken in, which is the form a
condition on the state before each step has to take. `Along.invariant` is
the induction every safety result below is an instance of: an invariant over
the actions taken so far and the state they led to, kept by each step that
met its condition.
-/

namespace Pdc.Lib

open List

variable {S A : Type*}

variable {step : S → A → S} {as : List A} {P Q : S → A → Prop} {I : List A → S → Prop} {s : S}

/-- The state a list of actions leads to. -/
def run (step : S → A → S) (s : S) (as : List A) : S := as.foldl step s

@[simp] theorem run_nil (step : S → A → S) (s : S) : run step s [] = s := rfl

@[simp] theorem run_cons (step : S → A → S) (s : S) (a : A) (as : List A) :
    run step s (a :: as) = run step (step s a) as := rfl

theorem run_append (step : S → A → S) (s : S) (as bs : List A) :
    run step s (as ++ bs) = run step (run step s as) bs := foldl_append

theorem append_singleton_eq_append_cons {bs cs : List A} {a b : A} :
    as ++ [a] = bs ++ b :: cs ↔
      (as = bs ∧ a = b ∧ cs = []) ∨ ∃ ds, as = bs ++ b :: ds ∧ cs = ds ++ [a] := by
  rcases eq_nil_or_concat cs with rfl | ⟨ds, d, rfl⟩
  · simp
  · rw [concat_eq_append, ← cons_append, ← append_assoc]
    simp only [append_singleton_inj]
    constructor
    · rintro ⟨rfl, rfl⟩
      exact .inr ⟨ds, rfl, rfl, rfl⟩
    · rintro (⟨_, _, h⟩ | ⟨_, rfl, rfl, rfl⟩)
      · simp at h
      · exact ⟨rfl, rfl⟩

/-- What a run leaves somewhere that each action either sets or leaves alone: what the last
action that sets it has put there. -/
theorem run_eq_iff_last (step : S → A → S) (as : List A) {β : Type*} {f : S → β}
    {sets : A → Prop} {value : A → β} (hset : ∀ s a, sets a → f (step s a) = value a)
    (hkeep : ∀ s a, ¬ sets a → f (step s a) = f s) {b : β} (hs : f s ≠ b) :
    f (run step s as) = b ↔ ∃ before a after, as = before ++ a :: after ∧ sets a ∧ value a = b ∧
      ∀ a' ∈ after, ¬ sets a' := by
  induction as using List.reverseRecOn with
  | nil => simp [hs]
  | append_singleton as a ih =>
    rw [run_append, run_cons, run_nil]
    by_cases ha : sets a
    · rw [hset _ a ha]
      refine ⟨fun h => ⟨as, a, [], rfl, ha, h, by simp⟩, ?_⟩
      intro ⟨before, a', after, hsplit, _, hvalue, hlater⟩
      -- The last action sets it, so it is the one named.
      rcases append_singleton_eq_append_cons.mp hsplit with ⟨_, rfl, _⟩ | ⟨_, _, rfl⟩
      · exact hvalue
      · exact absurd ha (hlater a (by simp))
    · rw [hkeep _ a ha, ih]
      constructor
      · intro ⟨before, a', after, hsplit, ha', hvalue, hlater⟩
        refine ⟨before, a', after ++ [a], by simp [hsplit], ha', hvalue, ?_⟩
        rw [forall_mem_append, forall_mem_singleton]
        exact ⟨hlater, ha⟩
      · intro ⟨before, a', after, hsplit, ha', hvalue, hlater⟩
        rcases append_singleton_eq_append_cons.mp hsplit with ⟨_, rfl, _⟩ | ⟨ds, has, rfl⟩
        · exact absurd ha' ha
        · exact ⟨before, a', ds, has, ha', hvalue, fun r hr => hlater r (by simp [hr])⟩

/-- Every action of the run met `P` in the state before it. -/
def Along (step : S → A → S) (P : S → A → Prop) : S → List A → Prop
  | _, [] => True
  | s, a :: as => P s a ∧ Along step P (step s a) as

theorem Along.append :
    ∀ {as bs : List A} {s : S},
      Along step P s (as ++ bs) ↔ Along step P s as ∧ Along step P (run step s as) bs := by
  intro as
  induction as with
  | nil => intro bs s; simp [Along]
  | cons a as ih =>
    intro bs s
    simp only [cons_append, Along, run_cons, ih, and_assoc]

theorem Along.of_forall (h : ∀ s a, P s a) : ∀ {as : List A} {s : S}, Along step P s as := by
  intro as
  induction as with
  | nil => intro s; trivial
  | cons a as ih => intro s; exact ⟨h s a, ih⟩

theorem Along.mono (h : ∀ s a, P s a → Q s a) :
    ∀ {as : List A} {s : S}, Along step P s as → Along step Q s as := by
  intro as
  induction as with
  | nil => intro s _; trivial
  | cons a as ih => intro s hP; exact ⟨h s a hP.1, ih hP.2⟩

theorem Along.and_mem {Q : A → Prop} :
    ∀ {as : List A} {s : S}, (∀ a ∈ as, Q a) → Along step P s as →
      Along step (fun s a => Q a ∧ P s a) s as := by
  intro as
  induction as with
  | nil => intro s _ _; trivial
  | cons a as ih =>
    intro s hQ hP
    rw [forall_mem_cons] at hQ
    exact ⟨⟨hQ.1, hP.1⟩, ih hQ.2 hP.2⟩

section

variable (hstep : ∀ hist s a, I hist s → P s a → I (hist ++ [a]) (step s a))
include hstep

/-- The invariant rule, for an invariant that also reads the actions taken. -/
theorem Along.invariant :
    ∀ {as hist : List A} {s : S}, I hist s → Along step P s as →
      I (hist ++ as) (run step s as) := by
  intro as
  induction as with
  | nil => intro hist s hI _; simpa using hI
  | cons a as ih =>
    intro hist s hI hP
    have hnext := ih (hstep hist s a hI hP.1) hP.2
    rw [append_assoc] at hnext
    exact hnext

theorem Along.invariant_nil (h : I [] s) (hP : Along step P s as) : I as (run step s as) :=
  Along.invariant hstep h hP

end

theorem Along.imp_of_invariant {I : S → Prop} (h : ∀ s a, I s → P s a → Q s a ∧ I (step s a)) :
    ∀ {as : List A} {s : S}, I s → Along step P s as → Along step Q s as := by
  intro as
  induction as with
  | nil => intro s _ _; trivial
  | cons a as ih =>
    intro s hI hP
    obtain ⟨hQ, hI'⟩ := h s a hI hP.1
    exact ⟨hQ, ih hI' hP.2⟩

theorem Along.iff_of_invariant {I : S → Prop} (h : ∀ s a, I s → (P s a ↔ Q s a))
    (hstep : ∀ s a, I s → P s a → I (step s a)) (hI : I s) :
    Along step P s as ↔ Along step Q s as :=
  ⟨Along.imp_of_invariant (fun s a hI hP => ⟨(h s a hI).mp hP, hstep s a hI hP⟩) hI,
    Along.imp_of_invariant (fun s a hI hQ => ⟨(h s a hI).mpr hQ, hstep s a hI ((h s a hI).mpr hQ)⟩)
      hI⟩

/-- A property of the actions taken and the state they led to, that each step of a run keeps
just if it meets its condition, holds at every moment just if every step meets its
condition. -/
theorem Along.forall_isPrefix_iff_of_split (hI : I [] s) :
    (∀ pre a post, as = pre ++ a :: post → I pre (run step s pre) →
      (I (pre ++ [a]) (step (run step s pre) a) ↔ P (run step s pre) a)) →
    ((∀ pre, pre <+: as → I pre (run step s pre)) ↔ Along step P s as) := by
  induction as using List.reverseRecOn with
  | nil =>
    intro _
    refine ⟨fun _ => trivial, fun _ pre hpre => ?_⟩
    rw [prefix_nil.mp hpre]
    exact hI
  | append_singleton as a ih =>
    intro h
    have hbefore := ih fun pre b post heq =>
      h pre b (post ++ [a]) (by rw [heq, append_assoc, cons_append])
    have hlast := h as a [] rfl
    rw [Along.append, ← hbefore]
    refine ⟨fun hall => ?_, fun hall pre hpre => ?_⟩
    · have hprefixes : ∀ pre, pre <+: as → I pre (run step s pre) :=
        fun pre hpre => hall pre (hpre.trans (prefix_append as [a]))
      have hend := hall (as ++ [a]) (prefix_refl _)
      rw [run_append] at hend
      exact ⟨hprefixes, (hlast (hprefixes as (prefix_refl as))).mp hend, trivial⟩
    · rcases prefix_concat_iff.mp hpre with rfl | hpre
      · rw [run_append]
        exact (hlast (hall.1 as (prefix_refl as))).mpr hall.2.1
      · exact hall.1 pre hpre

theorem Along.forall_isPrefix_iff_of_history
    (h : ∀ hist s, ∀ a ∈ as, I hist s → (I (hist ++ [a]) (step s a) ↔ P s a)) (hI : I [] s) :
    (∀ pre, pre <+: as → I pre (run step s pre)) ↔ Along step P s as :=
  Along.forall_isPrefix_iff_of_split hI fun pre a post heq =>
    h pre (run step s pre) a (by rw [heq]; exact mem_append_right pre mem_cons_self)

/-- A property that holds at every moment just if every step meets its condition, shown with
an invariant that the property follows from: as far as the invariant holds, a step keeps the
property just if it meets its condition, and then it keeps the invariant too. -/
theorem Along.forall_isPrefix_iff_of_invariant {Q : S → Prop} (hI : I [] s)
    (hQ : ∀ pre, pre <+: as → I pre (run step s pre) → Q (run step s pre))
    (h : ∀ pre a post, as = pre ++ a :: post → I pre (run step s pre) →
      (Q (step (run step s pre) a) → P (run step s pre) a) ∧ (P (run step s pre) a →
      I (pre ++ [a]) (step (run step s pre) a))) :
    (∀ pre, pre <+: as → Q (run step s pre)) ↔ Along step P s as := by
  have hsplit : ∀ pre a post, as = pre ++ a :: post → I pre (run step s pre) →
      (I (pre ++ [a]) (step (run step s pre) a) ↔ P (run step s pre) a) := by
    intro pre a post heq hpre
    obtain ⟨hP, hnext⟩ := h pre a post heq hpre
    refine ⟨fun hlast => hP ?_, hnext⟩
    have hlater := hQ (pre ++ [a]) ⟨post, by rw [heq, append_assoc]; rfl⟩
    rw [run_append] at hlater
    exact hlater hlast
  rw [← Along.forall_isPrefix_iff_of_split hI hsplit]
  refine ⟨fun hall pre => ?_, fun hall pre hpre => hQ pre hpre (hall pre hpre)⟩
  induction pre using List.reverseRecOn with
  | nil => exact fun _ => hI
  | append_singleton pre a ih =>
    rintro ⟨post, heq⟩
    have heq' : as = pre ++ a :: post := by rw [← heq, append_assoc]; rfl
    have hbefore := ih ⟨a :: post, heq'.symm⟩
    obtain ⟨hP, hnext⟩ := h pre a post heq' hbefore
    have hlast := hall (pre ++ [a]) ⟨post, heq⟩
    rw [run_append] at hlast ⊢
    exact hnext (hP hlast)

theorem Along.map_iff {T : Type*} {step' : T → A → T} {P : T → A → Prop} {f : S → T}
    (hf : ∀ s a, f (step s a) = step' (f s) a) :
    ∀ {as : List A} {s : S}, Along step (fun s a => P (f s) a) s as ↔ Along step' P (f s) as := by
  intro as
  induction as with
  | nil => intro s; exact Iff.rfl
  | cons a as ih =>
    intro s
    show _ ∧ _ ↔ _ ∧ _
    rw [ih, hf]

/-! ## Gathering -/

theorem foldlM_gather {step : S → A → Option S} (gather : S → A → S) (enough : S → Prop)
    (perform : S → A → Option S) {a : A}
    (hwait : ∀ b ∈ as, ∀ s, ¬enough (gather s b) → step s b = some (gather s b))
    (hgo : ∀ s, enough (gather s a) → step s a = perform (gather s a) a)
    (hbefore : ∀ pre, pre <+: as → pre ≠ [] → ¬enough (run gather s pre))
    (hlast : enough (run gather s (as ++ [a]))) :
    (as ++ [a]).foldlM step s = perform (run gather s (as ++ [a])) a := by
  induction as generalizing s with
  | nil =>
    exact (Option.bind_fun_some _).trans (hgo s hlast)
  | cons b as ih =>
    rw [forall_mem_cons] at hwait
    have hfirst : step s b = some (gather s b) :=
      hwait.1 s (hbefore [b] (prefix_append [b] as) (cons_ne_nil b []))
    rw [cons_append, foldlM_cons, hfirst]
    refine ih hwait.2 (fun pre hpre _ => ?_) hlast
    exact hbefore (b :: pre) (cons_prefix_cons.mpr ⟨rfl, hpre⟩) (cons_ne_nil b pre)

end Pdc.Lib
