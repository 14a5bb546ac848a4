import Pdc.Client.TransferStatus
import Pdc.Proofs.RequestWaits

/-!
# Polling a partitioned transfer

A status call asks the parts of a transfer in order and stops at the first
that is not complete; a server forgets a part once it has reported it
complete. So a call that finds the first part complete and a later one not
takes the first part's entry away for good, and every later call stops there
with `PDC_TRANSFER_STATUS_NOT_FOUND`. A call that finds the first part
pending takes nothing away. The outcome of the call after the last part has
finished therefore depends on one thing only: whether some call was made
between the finish of the first part and the finish of the last
(`transferStatus_converges_iff`).

What other clients do on the same servers is arbitrary, as long as they leave
the ids of this transfer alone.
-/

namespace Pdc

open List Lib Function

variable {s : RequestState} {a : RequestAction} {id : UInt64} {servers : Nat → RequestState}
  {w : TransferWorld} {parts : List (UInt64 × Nat)} {server k : Nat}

/-! ## One part on its server -/

/-- The call asks about a request, or commits one under its id. -/
def RequestAction.Names (id : UInt64) : RequestAction → Prop
  | .commit i => i = id
  | .finish _ => False
  | .status i => i = id
  | .wait i => i = id
  | .waitAll ids => id ∈ ids

instance (id : UInt64) : (a : RequestAction) → Decidable (a.Names id)
  | .commit i => instDecidableEqUInt64 i id
  | .finish _ => instDecidableFalse
  | .status i => instDecidableEqUInt64 i id
  | .wait i => instDecidableEqUInt64 i id
  | .waitAll ids => List.instDecidableMemOfLawfulBEq id ids

/-- The request has one entry, which nobody waits for and which is complete
once the request has finished. -/
def Intact (s : RequestState) (id : UInt64) : Prop :=
  ∃ e, entriesOf id s.statusList = [e] ∧ e.handleRef = none ∧
    (e.status = .complete ↔ id ∈ s.finished)

def Gone (s : RequestState) (id : UInt64) : Prop := entriesOf id s.statusList = []

theorem entriesOf_requestStep (hinv : RequestInv s) (hnot : ¬ a.Names id)
    (hfree : ∀ e ∈ entriesOf id s.statusList, e.handleRef = none) :
    entriesOf id (requestStep s a).statusList = match a with
      | .finish i => (entriesOf id s.statusList).map (RequestStatus.mark i)
      | _ => entriesOf id s.statusList := by
  cases a with
  | commit i =>
    have hne : i ≠ id := hnot
    simp [requestStep, commitRequest, entriesOf, hne]
  | finish i => exact (finishRequest_finished i s.statusList s.refs).entriesOf_eq hfree
  | status i =>
    exact (checkRequest_checked i hinv.list.stored).entriesOf_other (Ne.symm hnot)
  | wait i =>
    obtain ⟨list, refs, status, hwait, _, _, heq⟩ := transferRequestWait_spec hinv i
    rw [requestStep, heq]
    exact hwait.entriesOf_other (Ne.symm hnot)
  | waitAll ids =>
    obtain ⟨list, refs, fast, _, hall, _, _, heq⟩ := transferRequestWaitAll_spec hinv ids
    rw [requestStep, heq]
    exact hall.entries id hnot

theorem finished_requestStep (s : RequestState) (a : RequestAction) :
    (requestStep s a).finished = match a with
      | .finish i => s.finished ++ [i]
      | _ => s.finished := by
  cases a <;> rfl

theorem Gone.step (hinv : RequestInv s) (h : Gone s id) (hnot : ¬ a.Names id) :
    Gone (requestStep s a) id := by
  rw [Gone] at h
  rw [Gone, entriesOf_requestStep hinv hnot (by simp [h]), h]
  cases a <;> rfl

theorem Intact.step (hinv : RequestInv s) (h : Intact s id) (hnot : ¬ a.Names id) :
    Intact (requestStep s a) id := by
  obtain ⟨e, hentries, hnone, hst⟩ := h
  have hid : e.transferRequestId = id := by
    have hmem : e ∈ entriesOf id s.statusList := by simp [hentries]
    exact (mem_entriesOf.mp hmem).2
  have hstep := entriesOf_requestStep hinv hnot (by simp [hentries, hnone])
  have hfin := finished_requestStep s a
  rw [hentries] at hstep
  cases a with
  | finish i =>
    refine ⟨e.mark i, hstep, by rw [handleRef_mark, hnone], ?_⟩
    rw [show (requestStep s (.finish i)).finished = s.finished ++ [i] from hfin, mem_append,
      RequestStatus.mark, hid, ← hst]
    by_cases hi : id = i
    · simp [hi]
    · simp [hi]
  | commit i => exact ⟨e, hstep, hnone, hfin ▸ hst⟩
  | status i => exact ⟨e, hstep, hnone, hfin ▸ hst⟩
  | wait i => exact ⟨e, hstep, hnone, hfin ▸ hst⟩
  | waitAll ids => exact ⟨e, hstep, hnone, hfin ▸ hst⟩

theorem Intact.of_commit (hgone : Gone s id) (hfin : id ∉ s.finished) :
    Intact (requestStep s (.commit id)) id := by
  have hentries : entriesOf id (commitRequest s.statusList id) =
      [{ handle := 0, transferRequestId := id, status := .pending, handleRef := none,
         outType := -1 }] := by
    rw [commitRequest, entriesOf_append, hgone]
    simp [entriesOf]
  exact ⟨_, hentries, rfl, iff_of_false (by simp) hfin⟩

theorem Intact.check (hinv : RequestInv s) (h : Intact s id) :
    (id ∈ s.finished ∧ (checkRequest id s.statusList).2 = .complete ∧
      Gone (transferRequestStatus s id) id) ∨
    (id ∉ s.finished ∧ (checkRequest id s.statusList).2 = .pending ∧
      Intact (transferRequestStatus s id) id) := by
  obtain ⟨e, hentries, hnone, hst⟩ := h
  have hcheck := checkRequest_checked id hinv.list.stored
  rw [transferRequestStatus]
  generalize checkRequest id s.statusList = res at hcheck ⊢
  obtain ⟨list, status⟩ := res
  dsimp only at hcheck ⊢
  cases hcheck with
  | missing h => simp [entriesOf_eq_nil.mpr h] at hentries
  | bound h href =>
    rw [h.entriesOf_eq, List.cons.injEq] at hentries
    rw [hentries.1, hnone] at href
    simp at href
  | reported h hrep =>
    rw [h.entriesOf_eq, List.cons.injEq] at hentries
    refine .inl ⟨hst.mp (hentries.1 ▸ hrep.2), rfl, ?_⟩
    rw [Gone, entriesOf_append, hentries.2, append_nil]
    exact entriesOf_eq_nil.mpr h.before
  | pending h _ hpend =>
    have heq := h.entriesOf_eq.symm.trans hentries
    rw [List.cons.injEq] at heq
    refine .inr ⟨fun hfin => ?_, rfl, e, hentries, hnone, hst⟩
    rw [heq.1, hst.mpr hfin] at hpend
    simp at hpend

theorem Gone.check (h : Gone s id) : checkRequest id s.statusList = (s.statusList, .notFound) := by
  rw [Gone, entriesOf_eq_nil] at h
  generalize s.statusList = list at h
  induction list with
  | nil => rfl
  | cons e rest ih =>
    rw [checkRequest, if_neg (h e mem_cons_self), ih fun x hx => h x (mem_cons_of_mem _ hx)]

/-! ## The loop over the parts -/

/-- Every server's status list is as its calls leave it. -/
def ServersInv (servers : Nat → RequestState) : Prop := ∀ k, RequestInv (servers k)

def PartDone (servers : Nat → RequestState) (p : UInt64 × Nat) : Prop :=
  p.1 ∈ (servers p.2).finished

instance (servers : Nat → RequestState) (p : UInt64 × Nat) : Decidable (PartDone servers p) := by
  unfold PartDone; infer_instance

/-- A status call changes one request of one server. -/
structure AskedAt (p : UInt64 × Nat) (servers servers' : Nat → RequestState) : Prop where
  inv : ServersInv servers'
  finished : ∀ k, (servers' k).finished = (servers k).finished
  entries : ∀ q : UInt64 × Nat, q ≠ p →
    entriesOf q.1 (servers' q.2).statusList = entriesOf q.1 (servers q.2).statusList

theorem clientTransferRequestStatus_self (servers : Nat → RequestState) (id : UInt64)
    (server : Nat) : (clientTransferRequestStatus servers id server).1 server =
      transferRequestStatus (servers server) id := update_self ..

theorem clientTransferRequestStatus_of_ne (hk : k ≠ server)
    (servers : Nat → RequestState) (id : UInt64) :
    (clientTransferRequestStatus servers id server).1 k = servers k := update_of_ne hk ..

theorem clientTransferRequestStatus_asked (hinv : ServersInv servers) (id : UInt64) (server : Nat) :
    AskedAt (id, server) servers (clientTransferRequestStatus servers id server).1 := by
  have hrpc := transferRequestStatus_rpc (hinv server) id
  have hcheck := checkRequest_checked id (hinv server).list.stored
  refine ⟨fun k => ?_, fun k => ?_, fun q hq => ?_⟩
  · by_cases hk : k = server
    · rw [hk, clientTransferRequestStatus_self]
      exact hrpc.inv (hinv server)
    · rw [clientTransferRequestStatus_of_ne hk]
      exact hinv k
  · by_cases hk : k = server
    · rw [hk, clientTransferRequestStatus_self]
      exact hrpc.finished
    · rw [clientTransferRequestStatus_of_ne hk]
  · by_cases hk : q.2 = server
    · rw [hk, clientTransferRequestStatus_self]
      exact hcheck.entriesOf_other fun h => hq (Prod.ext h hk)
    · rw [clientTransferRequestStatus_of_ne hk]

section

variable {p q : UInt64 × Nat} {servers' : Nat → RequestState} (h : AskedAt p servers servers')
  (hq : q ≠ p)
include h hq

theorem AskedAt.intact (hi : Intact (servers q.2) q.1) : Intact (servers' q.2) q.1 := by
  rw [Intact, h.entries q hq, h.finished]
  exact hi

theorem AskedAt.gone (hg : Gone (servers q.2) q.1) : Gone (servers' q.2) q.1 := by
  rw [Gone, h.entries q hq]
  exact hg

end

/-- What the loop does to intact parts. It reports complete exactly when all
of them are done, and it changes nothing but their entries. -/
theorem statusLoop_spec : ∀ {parts : List (UInt64 × Nat)} {servers : Nat → RequestState}
    {completed : TransferStatus}, ServersInv servers → parts.Nodup →
    (∀ p ∈ parts, Intact (servers p.2) p.1) → completed = .complete ∨ parts ≠ [] →
    ((statusLoop parts servers completed).2 = .complete ↔ ∀ p ∈ parts, PartDone servers p) ∧
    ServersInv (statusLoop parts servers completed).1 ∧
    (∀ k, ((statusLoop parts servers completed).1 k).finished = (servers k).finished) ∧
    (∀ q ∉ parts, Gone (servers q.2) q.1 →
      Gone ((statusLoop parts servers completed).1 q.2) q.1) := by
  intro parts
  induction parts with
  | nil =>
    intro servers completed hinv _ _ hcompleted
    refine ⟨?_, hinv, fun _ => rfl, fun _ _ hg => hg⟩
    simp [statusLoop, hcompleted.resolve_right (by simp)]
  | cons p rest ih =>
    intro servers completed hinv hnodup hintact _
    obtain ⟨id, server⟩ := p
    rw [nodup_cons] at hnodup
    have hasked := clientTransferRequestStatus_asked hinv id server
    have hhead : Intact (servers server) id := hintact (id, server) mem_cons_self
    have hstatus : (clientTransferRequestStatus servers id server).2 =
      (checkRequest id (servers server).statusList).2 := rfl
    rw [statusLoop]
    generalize clientTransferRequestStatus servers id server = res at hasked hstatus ⊢
    obtain ⟨servers', completed'⟩ := res
    dsimp only at hasked hstatus ⊢
    have hne {q : UInt64 × Nat} (hq : q ∈ rest) : q ≠ (id, server) :=
      fun h => hnodup.1 (h ▸ hq)
    obtain ⟨hfin, hcomplete, _⟩ | ⟨hfin, hpending, _⟩ := hhead.check (hinv server)
    · obtain rfl : completed' = .complete := hstatus.trans hcomplete
      rw [if_neg (by simp)]
      obtain ⟨hiff, hinv', hfinished, hgone⟩ := @ih servers' .complete hasked.inv hnodup.2
        (fun q hq => hasked.intact (hne hq) (hintact q (mem_cons_of_mem _ hq))) (.inl rfl)
      refine ⟨?_, hinv', fun k => (hfinished k).trans (hasked.finished k), ?_⟩
      · rw [hiff, forall_mem_cons]
        simp only [PartDone, hasked.finished]
        exact (and_iff_right hfin).symm
      · intro q hq hg
        rw [mem_cons, not_or] at hq
        exact hgone q hq.2 (hasked.gone hq.1 hg)
    · obtain rfl : completed' = .pending := hstatus.trans hpending
      refine ⟨?_, hasked.inv, hasked.finished, ?_⟩
      · exact iff_of_false (by simp) fun h => hfin (h _ mem_cons_self)
      · intro q hq hg
        rw [mem_cons, not_or] at hq
        exact hasked.gone hq.1 hg

/-! ## Runs -/

/-- The client has a transfer that is split into the given parts, each with
its own id on its server. -/
structure TransferWorld.Split (w : TransferWorld) (parts : List (UInt64 × Nat)) : Prop where
  servers : ServersInv w.servers
  partition : w.request.regionPartition ≠ .objStatic
  metadataId : ∃ ids, w.request.metadataId = some ids ∧ ids.zip w.request.objServers = parts
  nodup : parts.Nodup

/-- Calls of others leave the ids of the parts alone. -/
def TransferEvent.Foreign (parts : List (UInt64 × Nat)) : TransferEvent → Prop
  | .server k action => ∀ p ∈ parts, p.2 = k → ¬ action.Names p.1
  | .poll => True

instance (parts : List (UInt64 × Nat)) (e : TransferEvent) : Decidable (e.Foreign parts) := by
  cases e <;> unfold TransferEvent.Foreign <;> infer_instance

theorem TransferWorld.Split.poll_eq (h : w.Split parts) :
    regionTransferStatus w.servers w.request .pending =
      if (statusLoop parts w.servers .pending).2 ≠ .complete then
        ((statusLoop parts w.servers .pending).1, w.request,
          (statusLoop parts w.servers .pending).2)
      else ((statusLoop parts w.servers .pending).1, w.request.done,
          (statusLoop parts w.servers .pending).2) := by
  obtain ⟨ids, hids, hzip⟩ := h.metadataId
  have hpart := h.partition
  rw [regionTransferStatus, hids]
  cases hp : w.request.regionPartition with
  | objStatic => exact absurd hp hpart
  | regionStatic => simp only [hzip]
  | regionDynamic => simp only [hzip]
  | regionLocal => simp only [hzip]

theorem TransferWorld.Split.reported_eq (h : w.Split parts) :
    w.reported = (statusLoop parts w.servers .pending).2 := by
  rw [TransferWorld.reported, h.poll_eq]
  split <;> rfl

theorem TransferWorld.Split.poll_step (h : w.Split parts) (hne : w.reported ≠ .complete) :
    transferStep w .poll =
      { servers := (statusLoop parts w.servers .pending).1, request := w.request } := by
  rw [h.reported_eq] at hne
  rw [transferStep, h.poll_eq, if_pos hne]

theorem transferStep_server_self (w : TransferWorld) (server : Nat) (action : RequestAction) :
    (transferStep w (.server server action)).servers server =
      requestStep (w.servers server) action := update_self ..

theorem transferStep_server_of_ne (hk : k ≠ server) (w : TransferWorld) (action : RequestAction) :
    (transferStep w (.server server action)).servers k = w.servers k :=
  update_of_ne hk ..

theorem TransferWorld.Split.server_step (h : w.Split parts) (server : Nat)
    (action : RequestAction) :
    (transferStep w (.server server action)).Split parts where
  servers := by
    intro k
    by_cases hk : k = server
    · rw [hk, transferStep_server_self]
      exact (h.servers server).step action
    · rw [transferStep_server_of_ne hk]
      exact h.servers k
  partition := h.partition
  metadataId := h.metadataId
  nodup := h.nodup

theorem part_server_step (h : w.Split parts) {P : RequestState → UInt64 → Prop}
    (hkeep : ∀ {s a id}, RequestInv s → P s id → ¬ RequestAction.Names id a →
      P (requestStep s a) id)
    {action : RequestAction}
    (hforeign : (TransferEvent.server server action).Foreign parts) {p : UInt64 × Nat}
    (hp : p ∈ parts) (hP : P (w.servers p.2) p.1) :
    P ((transferStep w (.server server action)).servers p.2) p.1 := by
  by_cases hk : p.2 = server
  · rw [hk, transferStep_server_self]
    rw [hk] at hP
    exact hkeep (h.servers server) hP (hforeign p hp hk)
  · rw [transferStep_server_of_ne hk]
    exact hP

section Parts

variable {first : UInt64 × Nat} {rest : List (UInt64 × Nat)}

/-- A call while the entry of the first part is gone finds nothing and changes
nothing but that server's count of RPCs. -/
theorem statusLoop_gone (hgone : Gone (servers first.2) first.1) :
    statusLoop (first :: rest) servers .pending =
      ((clientTransferRequestStatus servers first.1 first.2).1, .notFound) := by
  have hstatus : (clientTransferRequestStatus servers first.1 first.2).2 = .notFound := by
    rw [clientTransferRequestStatus, hgone.check]
  rw [statusLoop]
  simp [hstatus]

theorem not_reported_of_gone : ∀ {as : List TransferEvent} {w : TransferWorld},
    w.Split (first :: rest) → Gone (w.servers first.2) first.1 →
    (∀ e ∈ as, e.Foreign (first :: rest)) → (run transferStep w as).reported ≠ .complete := by
  intro as
  induction as with
  | nil =>
    intro w hsplit hgone _
    rw [run_nil, hsplit.reported_eq, statusLoop_gone hgone]
    simp
  | cons e as ih =>
    intro w hsplit hgone hforeign
    rw [forall_mem_cons] at hforeign
    rw [run_cons]
    cases e with
    | server server action =>
      exact ih (hsplit.server_step server action)
        (part_server_step hsplit (fun hinv hg hnot => hg.step hinv hnot)
          hforeign.1 mem_cons_self hgone) hforeign.2
    | poll =>
      have hne : w.reported ≠ .complete := by
        rw [hsplit.reported_eq, statusLoop_gone hgone]
        simp
      have hasked := clientTransferRequestStatus_asked hsplit.servers first.1 first.2
      have hkept :
          Gone ((clientTransferRequestStatus w.servers first.1 first.2).1 first.2) first.1 := by
        rw [clientTransferRequestStatus_self, transferRequestStatus, hgone.check]
        exact hgone
      rw [hsplit.poll_step hne, statusLoop_gone hgone]
      exact ih ⟨hasked.inv, hsplit.partition, hsplit.metadataId, hsplit.nodup⟩ hkept hforeign.2

theorem statusLoop_pending (hinv : ServersInv servers)
    (hintact : ∀ p ∈ first :: rest, Intact (servers p.2) p.1)
    (hpending : ¬ PartDone servers first) :
    ServersInv (statusLoop (first :: rest) servers .pending).1 ∧
    ∀ p ∈ first :: rest, Intact ((statusLoop (first :: rest) servers .pending).1 p.2) p.1 := by
  have hasked : AskedAt first servers _ := clientTransferRequestStatus_asked hinv first.1 first.2
  obtain ⟨hfin, _⟩ | ⟨_, hstatus, hkept⟩ :=
    (hintact first mem_cons_self).check (hinv first.2)
  · exact absurd hfin hpending
  have hloop : statusLoop (first :: rest) servers .pending =
      ((clientTransferRequestStatus servers first.1 first.2).1, .pending) := by
    have hcall : (clientTransferRequestStatus servers first.1 first.2).2 = .pending := hstatus
    rw [statusLoop]
    simp [hcall]
  rw [hloop]
  refine ⟨hasked.inv, fun p hp => ?_⟩
  by_cases hpf : p = first
  · subst hpf
    rw [clientTransferRequestStatus_self]
    exact hkept
  · exact hasked.intact hpf (hintact p hp)

theorem statusLoop_done (hinv : ServersInv servers) (hnodup : (first :: rest).Nodup)
    (hintact : ∀ p ∈ first :: rest, Intact (servers p.2) p.1) (hdone : PartDone servers first) :
    Gone ((statusLoop (first :: rest) servers .pending).1 first.2) first.1 := by
  rw [nodup_cons] at hnodup
  have hasked : AskedAt first servers _ := clientTransferRequestStatus_asked hinv first.1 first.2
  obtain ⟨_, hstatus, hgone⟩ | ⟨hfin, _⟩ :=
    (hintact first mem_cons_self).check (hinv first.2)
  · have hcall : (clientTransferRequestStatus servers first.1 first.2).2 = .complete := hstatus
    have hself : Gone ((clientTransferRequestStatus servers first.1 first.2).1 first.2)
        first.1 := by
      rw [clientTransferRequestStatus_self]
      exact hgone
    have hrest (p : UInt64 × Nat) (hp : p ∈ rest) :
        Intact ((clientTransferRequestStatus servers first.1 first.2).1 p.2) p.1 :=
      hasked.intact (fun h => hnodup.1 (h ▸ hp)) (hintact p (mem_cons_of_mem _ hp))
    obtain ⟨_, _, _, hkeep⟩ := @statusLoop_spec rest _ .complete hasked.inv hnodup.2 hrest (.inl
      rfl)
    rw [statusLoop]
    simp only [hcall, ne_eq, not_true_eq_false, if_false]
    exact hkeep first hnodup.1 hself
  · exact absurd hdone hfin

/-- The status call after the last part has finished reports complete exactly
when no earlier call was made with the first part finished. Earlier calls are
those made before all parts had finished, and other clients do as they like. -/
theorem transferStatus_converges_iff : ∀ {as : List TransferEvent} {w : TransferWorld},
    w.Split (first :: rest) → (∀ p ∈ first :: rest, Intact (w.servers p.2) p.1) →
    (∀ e ∈ as, e.Foreign (first :: rest)) →
    Along transferStep (fun w e => e = .poll → ¬ ∀ p ∈ first :: rest, PartDone w.servers p) w as →
    (∀ p ∈ first :: rest, PartDone (run transferStep w as).servers p) →
    ((run transferStep w as).reported = .complete ↔
      Along transferStep (fun w e => e = .poll → ¬ PartDone w.servers first) w as) := by
  intro as
  induction as with
  | nil =>
    intro w hsplit hintact _ _ hall
    have hspec := @statusLoop_spec (first :: rest) _ .pending hsplit.servers hsplit.nodup
      hintact (.inr (by simp))
    rw [run_nil] at hall ⊢
    rw [hsplit.reported_eq, hspec.1]
    exact iff_of_true hall trivial
  | cons e as ih =>
    intro w hsplit hintact hforeign hearly hall
    rw [forall_mem_cons] at hforeign
    rw [run_cons] at hall ⊢
    rw [Along] at hearly ⊢
    cases e with
    | server server action =>
      rw [ih (hsplit.server_step server action) (fun p hp => part_server_step hsplit
        (fun hinv hi hnot => hi.step hinv hnot) hforeign.1 hp (hintact p hp))
        hforeign.2 hearly.2 hall]
      simp
    | poll =>
      have hspec := @statusLoop_spec (first :: rest) _ .pending hsplit.servers hsplit.nodup
        hintact (.inr (by simp))
      have hne : w.reported ≠ .complete := by
        rw [hsplit.reported_eq]
        exact fun h => hearly.1 rfl (hspec.1.mp h)
      have hstep := hsplit.poll_step hne
      by_cases hfirst : PartDone w.servers first
      · -- the entry of the first part is gone, so nothing is reported complete again
        refine iff_of_false ?_ fun h => h.1 rfl hfirst
        rw [hstep]
        exact not_reported_of_gone ⟨hspec.2.1, hsplit.partition, hsplit.metadataId, hsplit.nodup⟩
          (statusLoop_done hsplit.servers hsplit.nodup hintact hfirst) hforeign.2
      · obtain ⟨hinv, hkept⟩ := statusLoop_pending hsplit.servers hintact hfirst
        have hnext : (transferStep w .poll).Split (first :: rest) := by
          rw [hstep]
          exact ⟨hinv, hsplit.partition, hsplit.metadataId, hsplit.nodup⟩
        rw [ih hnext (by rw [hstep]; exact hkept) hforeign.2 hearly.2 hall]
        simp [hfirst]

end Parts

def twoPartTransfer : TransferWorld where
  servers := fun _ => requestStep RequestState.init (.commit 1)
  request :=
    { regionPartition := .regionStatic, metadataId := some [1, 1], objServers := [0, 1]
      dataServerId := 0, isDone := false }

/-- The first part finishes last: calls before that are harmless. -/
theorem transferStatus_converges_first_last :
    (run transferStep twoPartTransfer
      [.poll, .server 1 (.finish 1), .poll, .server 0 (.finish 1)]).reported = .complete := by
  have hsplit : twoPartTransfer.Split [(1, 0), (1, 1)] :=
    ⟨fun _ => RequestInv.init.step (.commit 1), by decide, ⟨[1, 1], rfl, rfl⟩, by decide⟩
  have hintact : ∀ p ∈ [((1 : UInt64), 0), (1, 1)], Intact (twoPartTransfer.servers p.2) p.1 := by
    intro p hp
    rw [show p.1 = 1 by revert p; decide]
    exact Intact.of_commit rfl (by decide)
  refine (transferStatus_converges_iff hsplit hintact (by decide) ?_ (by decide)).mpr ?_
  · simp only [Along]
    decide
  · simp only [Along]
    decide

/-- A call between the two finishes: both parts have finished, and the next
call does not find the first. -/
theorem transferStatus_stuck :
    (∀ p ∈ [(1, 0), (1, 1)], PartDone (run transferStep twoPartTransfer
      [.server 0 (.finish 1), .poll, .server 1 (.finish 1)]).servers p) ∧
    (run transferStep twoPartTransfer
      [.server 0 (.finish 1), .poll, .server 1 (.finish 1)]).reported = .notFound := by
  decide

end Pdc
