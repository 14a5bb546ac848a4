import Mathlib.Data.List.Basic
import Pdc.Server.RegionTransfer

/-!
# The status list

What each walk over the status list does, first as a case analysis on what it
finds (`Checked`, `Finished`), then as what it keeps (`StatusInv`). Several
entries may carry the same request id; a walk meets them in list order, and
a check that finds a complete one takes it away, so that the next check of
the same id meets the next entry. `entriesOf` is that order.
-/

namespace Pdc

open List Function

variable {id i : UInt64} {list list' pre post l : List RequestStatus} {e x : RequestStatus}
  {handle next' : Nat} {outType : Int} {refs refs' : Nat → Int} {sent : List Reply}
  {status : TransferStatus} {next : Nat} {committed finished finished' : List UInt64}

/-! ## Entries -/

def entriesOf (id : UInt64) (list : List RequestStatus) : List RequestStatus :=
  list.filter (fun e => e.transferRequestId = id)

def boundTo (h : Nat) (list : List RequestStatus) : Nat :=
  list.countP (fun e => e.handleRef = some h)

/-- The entry has completed and no handle waits for it. -/
def RequestStatus.Reportable (e : RequestStatus) : Prop :=
  e.handleRef = none ∧ e.status = .complete

instance (e : RequestStatus) : Decidable e.Reportable := by
  unfold RequestStatus.Reportable; infer_instance

@[simp] theorem boundTo_nil (h : Nat) : boundTo h [] = 0 := rfl

@[simp] theorem boundTo_append (h : Nat) (l₁ l₂ : List RequestStatus) :
    boundTo h (l₁ ++ l₂) = boundTo h l₁ + boundTo h l₂ := by
  simp [boundTo]

@[simp] theorem boundTo_cons (h : Nat) (e : RequestStatus) (l : List RequestStatus) :
    boundTo h (e :: l) = boundTo h l + if e.handleRef = some h then 1 else 0 := by
  simp [boundTo, countP_cons]

theorem boundTo_eq_zero : boundTo handle list = 0 ↔ ∀ e ∈ list, e.handleRef ≠ some handle := by
  simp [boundTo, countP_eq_zero]

@[simp] theorem mem_entriesOf : e ∈ entriesOf id list ↔ e ∈ list ∧ e.transferRequestId = id := by
  simp [entriesOf]

@[simp] theorem entriesOf_append (id : UInt64) (l₁ l₂ : List RequestStatus) :
    entriesOf id (l₁ ++ l₂) = entriesOf id l₁ ++ entriesOf id l₂ := by
  simp [entriesOf]

theorem entriesOf_eq_nil : entriesOf id list = [] ↔ ∀ e ∈ list, e.transferRequestId ≠ id := by
  simp [entriesOf]

theorem entriesOf_cons_of_ne (l : List RequestStatus) (he : e.transferRequestId ≠ id) :
    entriesOf id (e :: l) = entriesOf id l := by
  simp [entriesOf, he]

/-! ## What a check finds -/

structure FirstEntry (id : UInt64) (list pre : List RequestStatus) (e : RequestStatus)
    (post : List RequestStatus) : Prop where
  eq : list = pre ++ e :: post
  before : ∀ x ∈ pre, x.transferRequestId ≠ id
  id_eq : e.transferRequestId = id

namespace FirstEntry

section

variable (h : FirstEntry id list pre e post)
include h

theorem mem : e ∈ list := by
  rw [h.eq]
  simp

theorem cons (hx : x.transferRequestId ≠ id) : FirstEntry id (x :: list) (x :: pre) e post where
  eq := by rw [h.eq, cons_append]
  before := forall_mem_cons.mpr ⟨hx, h.before⟩
  id_eq := h.id_eq

theorem entriesOf_eq : entriesOf id list = e :: entriesOf id post := by
  rw [h.eq, entriesOf_append, entriesOf_eq_nil.mpr h.before]
  simp [entriesOf, h.id_eq]

end

end FirstEntry

/-- The outcomes of a check: the list it leaves and the status it returns. -/
inductive Checked (id : UInt64) (list : List RequestStatus) :
    List RequestStatus → TransferStatus → Prop where
  | missing (h : ∀ e ∈ list, e.transferRequestId ≠ id) : Checked id list list .notFound
  | bound {pre post : List RequestStatus} {e : RequestStatus} {ref : Nat}
      (h : FirstEntry id list pre e post) (href : e.handleRef = some ref) :
      Checked id list list .complete
  | reported {pre post : List RequestStatus} {e : RequestStatus}
      (h : FirstEntry id list pre e post) (hrep : e.Reportable) :
      Checked id list (pre ++ post) .complete
  | pending {pre post : List RequestStatus} {e : RequestStatus}
      (h : FirstEntry id list pre e post) (hnone : e.handleRef = none)
      (hst : e.status = .pending) : Checked id list list .pending

theorem Checked.cons (h : Checked id list list' status) (hx : x.transferRequestId ≠ id) :
    Checked id (x :: list) (x :: list') status := by
  cases h with
  | missing h => exact .missing (forall_mem_cons.mpr ⟨hx, h⟩)
  | bound h href => exact .bound (h.cons hx) href
  | reported h hrep => exact .reported (h.cons hx) hrep
  | pending h hnone hst => exact .pending (h.cons hx) hnone hst

namespace Checked

section

variable (h : Checked id list list' status)
include h

theorem eq_or_reported : list' = list ∨
    ∃ pre e post, FirstEntry id list pre e post ∧ e.Reportable ∧ list' = pre ++ post := by
  cases h with
  | reported h hrep => exact .inr ⟨_, _, _, h, hrep, rfl⟩
  | _ => exact .inl rfl

theorem mem_of_bound (hx : x ∈ list) (href : x.handleRef ≠ none) : x ∈ list' := by
  obtain rfl | ⟨pre, e, post, hfirst, hrep, rfl⟩ := h.eq_or_reported
  · exact hx
  · have hne : x ≠ e := fun heq => href (heq ▸ hrep.1)
    simpa [hfirst.eq, hne] using hx

theorem boundTo_eq (n : Nat) : boundTo n list' = boundTo n list := by
  obtain rfl | ⟨pre, e, post, hfirst, hrep, rfl⟩ := h.eq_or_reported
  · rfl
  · simp [hfirst.eq, hrep.1]

theorem entriesOf_other (hi : i ≠ id) : entriesOf i list' = entriesOf i list := by
  obtain rfl | ⟨pre, e, post, hfirst, -, rfl⟩ := h.eq_or_reported
  · rfl
  · rw [hfirst.eq, entriesOf_append, entriesOf_append,
      entriesOf_cons_of_ne _ fun he => hi (he.symm.trans hfirst.id_eq)]

end

end Checked

theorem checkRequest_checked (id : UInt64) (hstored : ∀ e ∈ list, e.status ≠ .notFound) :
    Checked id list (checkRequest id list).1 (checkRequest id list).2 := by
  induction list with
  | nil => exact .missing (by simp)
  | cons e rest ih =>
    by_cases hid : e.transferRequestId = id
    · have hfirst : FirstEntry id (e :: rest) [] e rest := ⟨rfl, by simp, hid⟩
      rw [checkRequest, if_pos hid]
      cases href : e.handleRef with
      | some ref => exact .bound hfirst href
      | none =>
        rw [if_neg (by simp)]
        split
        next hst => exact .reported hfirst ⟨href, hst⟩
        next hst =>
          have hpend : e.status = .pending := by
            have hne := hstored e mem_cons_self
            cases hs : e.status with
            | complete => exact absurd hs hst
            | pending => rfl
            | notFound => exact absurd hs hne
          rw [hpend]
          exact .pending hfirst href hpend
    · rw [checkRequest, if_neg hid]
      exact (ih fun x hx => hstored x (mem_cons_of_mem _ hx)).cons hid

def RequestStatus.bind (e : RequestStatus) (handle : Nat) (outType : Int) : RequestStatus :=
  { e with handle := handle, outType := outType, handleRef := some handle }

theorem FirstEntry.bind (h : FirstEntry id list pre e post) {handle : Nat} {outType : Int} :
    FirstEntry id (pre ++ e.bind handle outType :: post) pre (e.bind handle outType) post :=
  ⟨rfl, h.before, h.id_eq⟩

theorem tryFinishRequest_first (h : FirstEntry id list pre e post) (handle : Nat) (outType : Int)
    (refs : Nat → Int) :
    tryFinishRequest id handle handle outType list refs = (pre ++ e.bind handle outType :: post,
        update refs handle (refs handle + 1)) := by
  obtain ⟨rfl, hpre, hid⟩ := h
  induction pre with
  | nil => rw [nil_append, tryFinishRequest, if_pos hid]; rfl
  | cons x pre ih =>
    rw [cons_append, tryFinishRequest, if_neg (hpre x mem_cons_self)]
    rw [ih fun y hy => hpre y (mem_cons_of_mem _ hy)]
    rfl

/-! ## What a finish does -/

/-- The response `PDC_finish_request` sends for an entry. -/
def RequestStatus.answer (e : RequestStatus) : Reply :=
  if e.outType ≠ 0 then .waitAll e.handle else .wait e.handle

theorem handle_answer (e : RequestStatus) : e.answer.handle = e.handle := by
  rw [RequestStatus.answer]
  split <;> rfl

/-- An entry the walk of a finish passes. -/
def RequestStatus.mark (id : UInt64) (e : RequestStatus) : RequestStatus :=
  if e.transferRequestId = id then { e with status := .complete } else e

@[simp] theorem handleRef_mark (id : UInt64) (e : RequestStatus) :
    (e.mark id).handleRef = e.handleRef := by
  rw [RequestStatus.mark]
  split <;> rfl

@[simp] theorem transferRequestId_mark (id : UInt64) (e : RequestStatus) :
    (e.mark id).transferRequestId = e.transferRequestId := by
  rw [RequestStatus.mark]
  split <;> rfl

@[simp] theorem boundTo_map_mark (h : Nat) (id : UInt64) (list : List RequestStatus) :
    boundTo h (list.map (RequestStatus.mark id)) = boundTo h list := by
  simp [boundTo, countP_map, comp_def]

theorem entriesOf_map_mark (i id : UInt64) (list : List RequestStatus) :
    entriesOf i (list.map (RequestStatus.mark id)) =
      (entriesOf i list).map (RequestStatus.mark id) := by
  simp [entriesOf, filter_map, comp_def]

/-- The outcomes of a finish: either no entry of the request is bound, or the
first bound one leaves the list and, with the last of its counter, its handle
is answered. -/
inductive Finished (id : UInt64) (list : List RequestStatus) (refs : Nat → Int) :
    List RequestStatus → (Nat → Int) → List Reply → Prop where
  | unbound (h : ∀ e ∈ list, e.transferRequestId = id → e.handleRef = none) :
      Finished id list refs (list.map (RequestStatus.mark id)) refs []
  | bound {pre post : List RequestStatus} {e : RequestStatus} {ref : Nat}
      (eq : list = pre ++ e :: post)
      (before : ∀ x ∈ pre, x.transferRequestId = id → x.handleRef = none)
      (id_eq : e.transferRequestId = id) (href : e.handleRef = some ref) :
      Finished id list refs (pre.map (RequestStatus.mark id) ++ post)
        (Function.update refs ref (refs ref - 1)) (if refs ref = 1 then [e.answer] else [])

theorem Finished.cons (h : Finished id list refs list' refs' sent)
    (hx : x.transferRequestId = id → x.handleRef = none) :
    Finished id (x :: list) refs (x.mark id :: list') refs' sent := by
  cases h with
  | unbound h => exact .unbound (forall_mem_cons.mpr ⟨hx, h⟩)
  | @bound pre post e ref heq hbefore hid href =>
    exact @Finished.bound id (x :: list) refs (x :: pre) post e ref
      (by rw [heq, cons_append]) (forall_mem_cons.mpr ⟨hx, hbefore⟩) hid href

/-- A finish marks the free entries of its request, and leaves the entries of
the others. -/
theorem Finished.entriesOf_eq (h : Finished id list refs list' refs' sent)
    (hfree : ∀ e ∈ entriesOf i list, e.handleRef = none) :
    entriesOf i list' = (entriesOf i list).map (RequestStatus.mark id) := by
  cases h with
  | unbound _ => exact entriesOf_map_mark i id list
  | @bound pre post e ref heq _ hid href =>
    have hne : e.transferRequestId ≠ i := by
      intro hi
      have hnone := hfree e (by simp [heq, hi])
      rw [href] at hnone
      simp at hnone
    have hpost : (entriesOf i post).map (RequestStatus.mark id) = entriesOf i post := by
      refine (map_congr_left fun x hx => ?_).trans (map_id _)
      rw [mem_entriesOf] at hx
      have hx' : x.transferRequestId ≠ id := fun h => hne (hid.trans (h.symm.trans hx.2))
      rw [RequestStatus.mark, if_neg hx']
      rfl
    rw [heq, entriesOf_append, entriesOf_append, entriesOf_cons_of_ne _ hne, map_append,
      entriesOf_map_mark, hpost]

theorem finishRequest_finished (id : UInt64) (list : List RequestStatus) (refs : Nat → Int) :
    Finished id list refs (finishRequest id list refs).1 (finishRequest id list refs).2.1
      (finishRequest id list refs).2.2 := by
  induction list with
  | nil => exact .unbound (by simp)
  | cons e rest ih =>
    by_cases hid : e.transferRequestId = id
    · rw [finishRequest, if_pos hid]
      cases href : e.handleRef with
      | none =>
        have h := ih.cons fun _ => href
        rw [RequestStatus.mark, if_pos hid] at h
        simpa only [href] using h
      | some ref =>
        have hanswer : (if update refs ref (refs ref - 1) ref = 0 then
            if e.outType ≠ 0 then [Reply.waitAll e.handle] else [Reply.wait e.handle]
            else []) = if refs ref = 1 then [e.answer] else [] := by
          rw [update_self, RequestStatus.answer]
          by_cases hone : refs ref = 1
          · rw [if_pos (by omega)]
            split <;> rfl
          · rw [if_neg hone, if_neg (by omega)]
        have h := @Finished.bound id (e :: rest) refs [] rest e ref rfl (by simp) hid href
        rw [← hanswer] at h
        exact h
    · rw [finishRequest, if_neg hid]
      have h := ih.cons fun h => absurd h hid
      rw [RequestStatus.mark, if_neg hid] at h
      exact h

/-! ## What the walks keep -/

/-- What is known of an entry when `next` handles have been received. -/
structure EntryOk (next : Nat) (finished : List UInt64) (e : RequestStatus) : Prop where
  stored : e.status ≠ .notFound
  bound : ∀ ref, e.handleRef = some ref → e.status = .pending ∧ e.handle = ref ∧ ref < next
  complete : e.status = .complete → e.transferRequestId ∈ finished

theorem EntryOk.mono (h : EntryOk next finished e)
    (hnext : next ≤ next') (hfin : finished ⊆ finished') : EntryOk next' finished' e where
  stored := h.stored
  bound := fun ref href =>
    (h.bound ref href).imp_right fun hlt => hlt.imp_right (Nat.lt_of_lt_of_le · hnext)
  complete := fun hst => hfin (h.complete hst)

/-- The invariant of the status list: every counter counts the entries bound
to its handle, and a request is only off the list once it has finished. -/
structure StatusInv (next : Nat) (committed finished : List UInt64)
    (list : List RequestStatus) (refs : Nat → Int) : Prop where
  entries : ∀ e ∈ list, EntryOk next finished e
  refs : ∀ h, refs h = (boundTo h list : Int)
  gone : ∀ id ∈ committed, id ∈ finished ∨ ∃ e ∈ list, e.transferRequestId = id

namespace StatusInv

section

variable (h : StatusInv next committed finished list refs)
include h

theorem stored : ∀ e ∈ list, e.status ≠ .notFound := fun e he => (h.entries e he).stored

theorem boundTo_next {n : Nat} (hn : next ≤ n) : boundTo n list = 0 := by
  refine boundTo_eq_zero.mpr fun e he href => ?_
  have hlt := ((h.entries e he).bound n href).2.2
  omega

theorem update_next : update refs next 0 = refs := by
  rw [update_eq_self_iff, h.refs, h.boundTo_next (Nat.le_refl _)]
  rfl

theorem mono (hnext : next ≤ next') : StatusInv next' committed finished list refs where
  entries := fun e he => (h.entries e he).mono hnext (List.Subset.refl _)
  refs := h.refs
  gone := h.gone

theorem gone_of
    (hfin : finished ⊆ finished') (hkept : ∀ e ∈ list, e.transferRequestId ∈ finished' ∨
      ∃ e' ∈ list', e'.transferRequestId = e.transferRequestId) :
    ∀ id ∈ committed, id ∈ finished' ∨ ∃ e ∈ list', e.transferRequestId = id := by
  intro id hid
  obtain hgone | ⟨e, he, rfl⟩ := h.gone id hid
  · exact .inl (hfin hgone)
  · exact hkept e he

theorem commit (id : UInt64) :
    StatusInv next (committed ++ [id]) finished (commitRequest list id) refs where
  entries := by
    refine forall_mem_append.mpr ⟨h.entries, forall_mem_singleton.mpr ?_⟩
    exact ⟨by simp, by simp, by simp⟩
  refs n := by simp [h.refs n, commitRequest]
  gone := by
    refine forall_mem_append.mpr ⟨h.gone_of (List.Subset.refl _) fun e he => ?_, ?_⟩
    · exact .inr ⟨e, mem_append_left _ he, rfl⟩
    · simp [commitRequest]

end

theorem entryOk_mark (h : EntryOk next finished e)
    (hfree : e.transferRequestId = id → e.handleRef = none) :
    EntryOk next (finished ++ [id]) (e.mark id) := by
  rw [RequestStatus.mark]
  split
  · next hid => exact ⟨by simp, by simp [hfree hid], by simp [hid]⟩
  · exact h.mono (Nat.le_refl next) (subset_append_left finished [id])

section

variable (h : StatusInv next committed finished list refs)
include h

theorem finish (hfin : Finished id list refs list' refs' sent) :
    StatusInv next committed (finished ++ [id]) list' refs' := by
  have hsub := subset_append_left finished [id]
  cases hfin with
  | unbound hfree =>
    refine ⟨forall_mem_map.mpr fun e he => entryOk_mark (h.entries e he) (hfree e he),
      fun n => by rw [boundTo_map_mark, h.refs n], h.gone_of hsub fun e he => .inr ?_⟩
    exact ⟨e.mark id, mem_map_of_mem he, transferRequestId_mark id e⟩
  | @bound pre post e ref heq hbefore hid href =>
    subst heq
    have hentries := h.entries
    rw [forall_mem_append, forall_mem_cons] at hentries
    refine ⟨forall_mem_append.mpr ⟨forall_mem_map.mpr fun e he => ?_, fun e he => ?_⟩,
      fun n => ?_, h.gone_of hsub ?_⟩
    · exact entryOk_mark (hentries.1 e he) (hbefore e he)
    · exact (hentries.2.2 e he).mono (Nat.le_refl _) hsub
    · rw [update_apply, h.refs, h.refs]
      split
      · next hn => simp [hn, href]; omega
      · next hn => simp [href, Ne.symm hn]
    · rw [forall_mem_append, forall_mem_cons]
      refine ⟨fun x hx => .inr ⟨x.mark id, ?_, transferRequestId_mark id x⟩, .inl (by simp [hid]),
        fun x hx => .inr ⟨x, mem_append_right _ hx, rfl⟩⟩
      exact mem_append_left _ (mem_map_of_mem hx)

theorem finish_sent (hfin : Finished id list refs list' refs' sent) {r : Reply} (hr : r ∈ sent) :
    ∃ n, n < next ∧ (r = .wait n ∨ r = .waitAll n) ∧ 0 < boundTo n list ∧ boundTo n list' = 0 := by
  cases hfin with
  | unbound _ => simp at hr
  | @bound pre post e ref heq _ _ href =>
    have hbound := (h.entries e (by simp [heq])).bound ref href
    have hcount := h.refs ref
    rw [heq, boundTo_append, boundTo_cons, if_pos href] at hcount
    split at hr
    next hone =>
      rw [mem_singleton, RequestStatus.answer, hbound.2.1] at hr
      refine ⟨ref, hbound.2.2, ?_, ?_, ?_⟩
      · split at hr
        · exact .inr hr
        · exact .inl hr
      · rw [heq, boundTo_append, boundTo_cons, if_pos href]
        omega
      · rw [boundTo_append, boundTo_map_mark]
        omega
    next => simp at hr

theorem check (hcheck : Checked id list list' status) :
    StatusInv next committed finished list' refs := by
  obtain rfl | ⟨pre, e, post, hfirst, hrep, rfl⟩ := hcheck.eq_or_reported
  · exact h
  · have hfin := (h.entries e hfirst.mem).complete hrep.2
    refine ⟨fun x hx => h.entries x ?_, fun n => ?_, h.gone_of (List.Subset.refl _) ?_⟩
    · rw [hfirst.eq]
      exact (sublist_cons_self e post).append_left pre |>.mem hx
    · rw [h.refs n, hcheck.boundTo_eq]
    · rw [hfirst.eq, forall_mem_append, forall_mem_cons]
      exact ⟨fun x hx => .inr ⟨x, by simp [hx], rfl⟩, .inl hfin,
        fun x hx => .inr ⟨x, by simp [hx], rfl⟩⟩

theorem bind (hfirst : FirstEntry id list pre e post) (hnone : e.handleRef = none)
    (hst : e.status = .pending) (hlt : handle < next) (outType : Int) :
    StatusInv next committed finished (pre ++ e.bind handle outType :: post)
      (update refs handle (refs handle + 1)) := by
  obtain ⟨rfl, -, -⟩ := hfirst
  have hentries := h.entries
  rw [forall_mem_append, forall_mem_cons] at hentries
  refine ⟨?_, fun n => ?_, h.gone_of (List.Subset.refl _) ?_⟩
  · rw [forall_mem_append, forall_mem_cons]
    refine ⟨hentries.1, ⟨?_, ?_, ?_⟩, hentries.2.2⟩ <;> simp [RequestStatus.bind, hst, hlt]
  · rw [update_apply, h.refs, h.refs]
    split
    · next hn => simp [hn, hnone, RequestStatus.bind]; omega
    · next hn => simp [hnone, RequestStatus.bind, Ne.symm hn]
  · rw [forall_mem_append, forall_mem_cons]
    exact ⟨fun x hx => .inr ⟨x, by simp [hx], rfl⟩, .inr ⟨e.bind handle outType, by simp, rfl⟩,
      fun x hx => .inr ⟨x, by simp [hx], rfl⟩⟩

end

end StatusInv

/-! ## What a wait does for one request -/

/-- The outcomes of `checkOrBind`: those of the check, with the handle bound
to the entry if it is pending. -/
inductive Waited (handle : Nat) (outType : Int) (id : UInt64) (list : List RequestStatus)
    (refs : Nat → Int) : List RequestStatus → (Nat → Int) → TransferStatus → Prop where
  | checked {list' : List RequestStatus} {status : TransferStatus}
      (h : Checked id list list' status) (hne : status ≠ .pending) :
      Waited handle outType id list refs list' refs status
  | bound {pre post : List RequestStatus} {e : RequestStatus}
      (h : FirstEntry id list pre e post) (hnone : e.handleRef = none)
      (hst : e.status = .pending) :
      Waited handle outType id list refs (pre ++ e.bind handle outType :: post)
        (Function.update refs handle (refs handle + 1)) .pending

theorem checkOrBind_waited (handle : Nat) (outType : Int) (id : UInt64) (refs : Nat → Int)
    (hstored : ∀ e ∈ list, e.status ≠ .notFound) :
    Waited handle outType id list refs (checkOrBind handle outType id list refs).1
      (checkOrBind handle outType id list refs).2.1
      (checkOrBind handle outType id list refs).2.2 := by
  have hcheck := checkRequest_checked id hstored
  rw [checkOrBind]
  generalize checkRequest id list = res at hcheck ⊢
  obtain ⟨list', status⟩ := res
  dsimp only at hcheck ⊢
  split
  next hst =>
    subst hst
    cases hcheck with
    | pending h hnone hst =>
      rw [tryFinishRequest_first h]
      exact .bound h hnone hst
  next hst => exact .checked hcheck hst

namespace Waited

section

variable (h : Waited handle outType id list refs list' refs' status)
include h

theorem inv (hinv : StatusInv next committed finished list refs) (hlt : handle < next) :
    StatusInv next committed finished list' refs' := by
  cases h with
  | checked h _ => exact hinv.check h
  | bound h hnone hst => exact hinv.bind h hnone hst hlt outType

theorem boundTo_eq (n : Nat) :
    boundTo n list' = boundTo n list + if n = handle ∧ status = .pending then 1 else 0 := by
  cases h with
  | checked h hne => rw [if_neg fun hc => hne hc.2, Nat.add_zero, h.boundTo_eq]
  | bound h hnone _ =>
    simp only [h.eq, boundTo_append, boundTo_cons, hnone, RequestStatus.bind,
      Option.some.injEq, eq_comm, and_true, reduceCtorEq, if_false]
    omega

theorem mem_of_bound (hx : x ∈ list) (href : x.handleRef ≠ none) : x ∈ list' := by
  cases h with
  | checked h _ => exact h.mem_of_bound hx href
  | @bound pre post e h hnone _ =>
    have hne : x ≠ e := fun heq => href (heq ▸ hnone)
    have hmem : x ∈ pre ∨ x ∈ post := by simpa [h.eq, hne] using hx
    obtain hx | hx := hmem <;> simp [hx]

theorem entriesOf_other (hi : i ≠ id) : entriesOf i list' = entriesOf i list := by
  cases h with
  | checked h _ => exact h.entriesOf_other hi
  | @bound pre post e h _ _ =>
    have hne : e.transferRequestId ≠ i := fun he => hi (he.symm.trans h.id_eq)
    rw [h.eq, entriesOf_append, entriesOf_append, entriesOf_cons_of_ne _ hne,
      entriesOf_cons_of_ne (e := e.bind handle outType) _ hne]

end

end Waited

/-! ## What a wait on many finds -/

/-- Checking a request `k` times over runs past its entries `es`. -/
def Exhausted (k : Nat) (es : List RequestStatus) : Prop :=
  (∀ e ∈ es, e.Reportable) ∧ es.length < k

/-- Checking a request `k` times over, with entries `es`, meets one that is
pending and free. -/
def MeetsPending (k : Nat) (es : List RequestStatus) : Prop :=
  ∃ e ∈ (es.take k).find? (fun e => ¬ e.Reportable), e.handleRef = none

instance (k : Nat) (es : List RequestStatus) : Decidable (Exhausted k es) := by
  unfold Exhausted; infer_instance

instance (k : Nat) (es : List RequestStatus) : Decidable (MeetsPending k es) := by
  unfold MeetsPending; infer_instance

section

variable (k : Nat) (es : List RequestStatus)

theorem exhausted_zero : ¬ Exhausted 0 es := by
  simp [Exhausted]

theorem meetsPending_zero : ¬ MeetsPending 0 es := by
  simp [MeetsPending]

theorem exhausted_cons_reportable (he : e.Reportable) :
    Exhausted (k + 1) (e :: es) ↔ Exhausted k es := by
  simp [Exhausted, he]

theorem meetsPending_cons_reportable (he : e.Reportable) :
    MeetsPending (k + 1) (e :: es) ↔ MeetsPending k es := by
  simp [MeetsPending, he]

theorem not_exhausted_cons (he : ¬ e.Reportable) : ¬ Exhausted k (e :: es) := by
  simp [Exhausted, he]

theorem meetsPending_cons (he : ¬ e.Reportable) :
    MeetsPending (k + 1) (e :: es) ↔ e.handleRef = none := by
  simp [MeetsPending, he]

theorem not_meetsPending_cons_bound (he : e.handleRef ≠ none) : ¬ MeetsPending k (e :: es) := by
  cases k with
  | zero => exact meetsPending_zero _
  | succ k => rw [meetsPending_cons k es fun h => he h.1]; exact he

end

section

variable (h : Waited handle outType id list refs list' refs' status) (k : Nat)
include h

theorem Waited.exhausted_iff :
    Exhausted (k + 1) (entriesOf id list) ↔
      status = .notFound ∨ Exhausted k (entriesOf id list') := by
  cases h with
  | checked h _ =>
    cases h with
    | missing h => simp [entriesOf_eq_nil.mpr h, Exhausted]
    | @bound pre post e ref h href =>
      have hnot : ¬ e.Reportable := fun hrep => by simp [hrep.1] at href
      simp [h.entriesOf_eq, not_exhausted_cons _ _ hnot]
    | @pending pre post e h _ hst =>
      have hnot : ¬ e.Reportable := fun hrep => by simp [hrep.2] at hst
      simp [h.entriesOf_eq, not_exhausted_cons _ _ hnot]
    | reported h hrep =>
      rw [h.entriesOf_eq, exhausted_cons_reportable _ _ hrep, entriesOf_append,
        entriesOf_eq_nil.mpr h.before]
      simp
  | @bound pre post e h _ hst =>
    have hnot : ¬ e.Reportable := fun hrep => by simp [hrep.2] at hst
    have hbind : ¬ (e.bind handle outType).Reportable := fun hrep => by
      simp [RequestStatus.bind, RequestStatus.Reportable] at hrep
    simp [h.entriesOf_eq, h.bind.entriesOf_eq, not_exhausted_cons _ _ hnot,
      not_exhausted_cons _ _ hbind]

theorem Waited.meetsPending_iff : MeetsPending (k + 1) (entriesOf id list) ↔
      status = .pending ∨ MeetsPending k (entriesOf id list') := by
  cases h with
  | checked h hne =>
    cases h with
    | missing h => simp [entriesOf_eq_nil.mpr h, MeetsPending]
    | @bound pre post e ref h href =>
      simp [h.entriesOf_eq, not_meetsPending_cons_bound (e := e) _ _ (by simp [href])]
    | pending _ _ _ => exact absurd rfl hne
    | reported h hrep =>
      rw [h.entriesOf_eq, meetsPending_cons_reportable _ _ hrep, entriesOf_append,
        entriesOf_eq_nil.mpr h.before]
      simp
  | @bound pre post e h hnone hst =>
    have hnot : ¬ e.Reportable := fun hrep => by simp [hrep.2] at hst
    simp [h.entriesOf_eq, meetsPending_cons _ _ hnot, hnone]

end

/-- A wait on `ids` names a request more often than the list can report it. -/
def Misses (list : List RequestStatus) (ids : List UInt64) : Prop :=
  ∃ id ∈ ids, Exhausted (ids.count id) (entriesOf id list)

/-- A wait on `ids` names a request that is pending and free. -/
def Awaits (list : List RequestStatus) (ids : List UInt64) : Prop :=
  ∃ id ∈ ids, MeetsPending (ids.count id) (entriesOf id list)

instance (list : List RequestStatus) (ids : List UInt64) : Decidable (Misses list ids) :=
  List.decidableBEx _ ids

instance (list : List RequestStatus) (ids : List UInt64) : Decidable (Awaits list ids) :=
  List.decidableBEx _ ids

theorem exists_mem_count_cons {F G : UInt64 → Nat → Prop} {id : UInt64} {ids : List UInt64}
    {p : Prop} (hF : ∀ i, ¬ F i 0) (hG : ∀ i, ¬ G i 0) (hother : ∀ i, i ≠ id → ∀ k, F i k ↔ G i k)
    (hself : ∀ k, F id (k + 1) ↔ p ∨ G id k) :
    (∃ i ∈ id :: ids, F i ((id :: ids).count i)) ↔ p ∨ ∃ i ∈ ids, G i (ids.count i) := by
  have hmem (H : UInt64 → Nat → Prop) (hH : ∀ i, ¬ H i 0) (l : List UInt64) :
      (∃ i ∈ l, H i (l.count i)) ↔ ∃ i, H i (l.count i) := by
    refine ⟨fun ⟨i, _, h⟩ => ⟨i, h⟩, fun ⟨i, h⟩ => ⟨i, ?_, h⟩⟩
    by_contra hnot
    rw [count_eq_zero_of_not_mem hnot] at h
    exact hH i h
  rw [hmem F hF, hmem G hG]
  constructor
  · intro ⟨i, h⟩
    by_cases hi : i = id
    · subst hi
      rw [count_cons_self, hself] at h
      exact h.imp_right fun h => ⟨i, h⟩
    · rw [count_cons_of_ne (Ne.symm hi), hother i hi] at h
      exact .inr ⟨i, h⟩
  · intro h
    obtain hp | ⟨i, h⟩ := h
    · exact ⟨id, by rw [count_cons_self, hself]; exact .inl hp⟩
    · by_cases hi : i = id
      · subst hi
        exact ⟨i, by rw [count_cons_self, hself]; exact .inr h⟩
      · exact ⟨i, by rw [count_cons_of_ne (Ne.symm hi), hother i hi]; exact h⟩

namespace Waited

section

variable (h : Waited handle outType id list refs list' refs' status) (ids : List UInt64)
include h ids

theorem misses_cons : Misses list (id :: ids) ↔ status = .notFound ∨ Misses list' ids :=
  exists_mem_count_cons (F := fun i k => Exhausted k (entriesOf i list))
    (G := fun i k => Exhausted k (entriesOf i list')) (fun _ => exhausted_zero _)
    (fun _ => exhausted_zero _) (fun i hi k => by rw [h.entriesOf_other hi]) h.exhausted_iff

theorem awaits_cons : Awaits list (id :: ids) ↔ status = .pending ∨ Awaits list' ids :=
  exists_mem_count_cons (F := fun i k => MeetsPending k (entriesOf i list))
    (G := fun i k => MeetsPending k (entriesOf i list')) (fun _ => meetsPending_zero _)
    (fun _ => meetsPending_zero _) (fun i hi k => by rw [h.entriesOf_other hi])
    h.meetsPending_iff

end

end Waited

/-! ## The loop of a wait on many -/

/-- What the loop does for the ids it is given. -/
structure WaitedAll (handle : Nat) (ids : List UInt64) (list list' : List RequestStatus)
    (fastReturn fastReturn' : Bool) : Prop where
  kept : ∀ e ∈ list, e.handleRef ≠ none → e ∈ list'
  entries : ∀ i ∉ ids, entriesOf i list' = entriesOf i list
  other : ∀ n, n ≠ handle → boundTo n list' = boundTo n list
  bound : boundTo handle list ≤ boundTo handle list' ∧
    (boundTo handle list < boundTo handle list' ↔ Awaits list ids)
  fast : fastReturn' = true ↔ fastReturn = true ∧ ¬ Misses list ids ∧ ¬ Awaits list ids

theorem waitAllLoop_spec (hlt : handle < next) {ids : List UInt64} :
    ∀ {list : List RequestStatus} {refs : Nat → Int} {fastReturn : Bool},
    StatusInv next committed finished list refs →
      StatusInv next committed finished (waitAllLoop handle ids list refs fastReturn).1
      (waitAllLoop handle ids list refs fastReturn).2.1 ∧
    WaitedAll handle ids list (waitAllLoop handle ids list refs fastReturn).1 fastReturn
      (waitAllLoop handle ids list refs fastReturn).2.2 := by
  induction ids with
  | nil =>
    intro list refs fastReturn hinv
    exact ⟨hinv, ⟨fun _ he _ => he, fun _ _ => rfl, fun _ _ => rfl,
      by simp [waitAllLoop, Awaits], by simp [waitAllLoop, Awaits, Misses]⟩⟩
  | cons id ids ih =>
    intro list refs fastReturn hinv
    have hwait := checkOrBind_waited handle 1 id refs hinv.stored
    rw [waitAllLoop]
    generalize checkOrBind handle 1 id list refs = res at hwait ⊢
    obtain ⟨list₁, refs₁, status⟩ := res
    obtain ⟨hinv', hall⟩ := @ih list₁ refs₁ (fastReturn && decide (status = .complete))
      (hwait.inv hinv hlt)
    refine ⟨hinv', ?_, ?_, ?_, ?_, ?_⟩
    · intro e he href
      exact hall.kept e (hwait.mem_of_bound he href) href
    · intro i hi
      rw [mem_cons, not_or] at hi
      rw [hall.entries i hi.2, hwait.entriesOf_other hi.1]
    · intro n hn
      rw [hall.other n hn, hwait.boundTo_eq, if_neg fun h => hn h.1, Nat.add_zero]
    · obtain ⟨hle, hiff⟩ := hall.bound
      rw [hwait.boundTo_eq] at hle hiff
      rw [hwait.awaits_cons]
      by_cases hst : status = .pending
      · simp only [hst, and_self, if_true] at hle
        simp only [hst, true_or, iff_true]
        omega
      · simp only [hst, and_false, if_false, Nat.add_zero] at hle hiff
        simp only [hst, false_or]
        exact ⟨hle, hiff⟩
    · rw [hall.fast, hwait.misses_cons, hwait.awaits_cons]
      cases status <;> simp

/-! ## What a wait covers -/

/-- The request has finished, or the handle will be told. -/
def Covers (finished : List UInt64) (handle : Nat) (list : List RequestStatus) (id : UInt64) :
    Prop :=
  id ∈ finished ∨ ∃ e ∈ list, e.transferRequestId = id ∧ e.handleRef = some handle

theorem Covers.mem_finished (h : Covers finished handle list id)
    (hzero : boundTo handle list = 0) : id ∈ finished := by
  obtain hfin | ⟨e, he, _, href⟩ := h
  · exact hfin
  · exact absurd href (boundTo_eq_zero.mp hzero e he)

theorem Covers.mono (h : Covers finished handle list id)
    (hkept : ∀ e ∈ list, e.handleRef ≠ none → e ∈ list') : Covers finished handle list' id := by
  obtain hfin | ⟨e, he, hid, href⟩ := h
  · exact .inl hfin
  · exact .inr ⟨e, hkept e he (by simp [href]), hid, href⟩

theorem Finished.covers (h : Finished id list refs list' refs' sent)
    (hcov : Covers finished handle list i) : Covers (finished ++ [id]) handle list' i := by
  obtain hfin | ⟨x, hx, hid, href⟩ := hcov
  · exact .inl (mem_append_left _ hfin)
  have hmark : (x.mark id).transferRequestId = i ∧ (x.mark id).handleRef = some handle := by
    simp [hid, href]
  cases h with
  | unbound _ => exact .inr ⟨x.mark id, mem_map_of_mem hx, hmark⟩
  | bound heq _ hid' _ =>
    rw [heq, mem_append, mem_cons] at hx
    obtain hx | rfl | hx := hx
    · exact .inr ⟨x.mark id, mem_append_left _ (mem_map_of_mem hx), hmark⟩
    · exact .inl (by simp [← hid, hid'])
    · exact .inr ⟨x, mem_append_right _ hx, hid, href⟩

/-- No other handle waits for the entry a check of the request meets. -/
def FreeFor (handle : Nat) (list : List RequestStatus) (id : UInt64) : Prop :=
  ∀ e ∈ (entriesOf id list).head?, e.handleRef = none ∨ e.handleRef = some handle

namespace Waited

theorem covers_of_pending (h : Waited handle outType id list refs list' refs' .pending) :
    Covers finished handle list' id := by
  cases h with
  | checked _ hne => exact absurd rfl hne
  | @bound pre post e h _ _ => exact .inr ⟨e.bind handle outType, by simp, h.id_eq, rfl⟩

section

variable (h : Waited handle outType id list refs list' refs' status)
  (hinv : StatusInv next committed finished list refs)
include h hinv

theorem covers (hcommit : id ∈ committed)
    (hfree : id ∈ finished ∨ FreeFor handle list id) : Covers finished handle list' id := by
  obtain hfin | hfree := hfree
  · exact .inl hfin
  by_cases hst : status = .pending
  · subst hst
    exact h.covers_of_pending
  cases h with
  | bound _ _ _ => exact absurd rfl hst
  | checked h _ =>
    cases h with
    | missing h =>
      obtain hfin | ⟨e, he, hid⟩ := hinv.gone id hcommit
      · exact .inl hfin
      · exact absurd hid (h e he)
    | @bound pre post e ref h href =>
      have hself : e.handleRef = none ∨ e.handleRef = some handle :=
        hfree e (by simp [h.entriesOf_eq])
      rw [href] at hself
      simp only [reduceCtorEq, false_or] at hself
      exact .inr ⟨e, h.mem, h.id_eq, href.trans hself⟩
    | reported h hrep => exact .inl (h.id_eq ▸ (hinv.entries _ h.mem).complete hrep.2)
    | pending _ _ _ => exact absurd rfl hst

theorem freeFor
    (hfree : i ∈ finished ∨ FreeFor handle list i) : i ∈ finished ∨ FreeFor handle list' i := by
  obtain hfin | hfree := hfree
  · exact .inl hfin
  by_cases hi : i = id
  · subst hi
    cases h with
    | checked h hne =>
      cases h with
      | missing _ => exact .inr hfree
      | bound _ _ => exact .inr hfree
      | reported h hrep => exact .inl (h.id_eq ▸ (hinv.entries _ h.mem).complete hrep.2)
      | pending _ _ _ => exact absurd rfl hne
    | @bound pre post e h _ _ =>
      refine .inr fun x hx => ?_
      rw [h.bind.entriesOf_eq, head?_cons, Option.mem_some] at hx
      exact .inr (hx ▸ rfl)
  · rw [FreeFor, h.entriesOf_other hi]
    exact .inr hfree

end

end Waited

theorem waitAllLoop_covers {ids : List UInt64} :
    ∀ {list : List RequestStatus} {refs : Nat → Int} (fastReturn : Bool), handle < next →
      StatusInv next committed finished list refs →
    (∀ id ∈ ids, id ∈ committed) →
    (∀ id ∈ ids, id ∈ finished ∨ FreeFor handle list id) →
    ∀ id, id ∈ ids ∨ Covers finished handle list id →
      Covers finished handle (waitAllLoop handle ids list refs fastReturn).1 id := by
  induction ids with
  | nil =>
    intro list refs fastReturn _ _ _ _ id hid
    exact hid.resolve_left (by simp)
  | cons id ids ih =>
    intro list refs fastReturn hlt hinv hcommit hfree i hi
    have hwait := checkOrBind_waited handle 1 id refs hinv.stored
    rw [waitAllLoop]
    generalize checkOrBind handle 1 id list refs = res at hwait ⊢
    obtain ⟨list₁, refs₁, status⟩ := res
    refine ih _ hlt (hwait.inv hinv hlt) (fun j hj => hcommit j (mem_cons_of_mem _ hj))
      (fun j hj => hwait.freeFor hinv (hfree j (mem_cons_of_mem _ hj))) i ?_
    rw [mem_cons] at hi
    obtain (rfl | hi) | hi := hi
    · exact .inr (hwait.covers hinv (hcommit i mem_cons_self) (hfree i mem_cons_self))
    · exact .inl hi
    · exact .inr (hi.mono fun e he href => hwait.mem_of_bound he href)

end Pdc
