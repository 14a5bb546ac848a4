import Pdc.Lib.Run
import Pdc.Proofs.StatusList

/-!
# Waiting for transfer requests

Two results about every run of a server's status list. A response to a wait,
or a status of complete, should mean that the requests it covers have
finished; and a wait should be answered, once, or be held by a request that
is still pending.

What holds in every run is `RequestInv`: the counters are right and no handle
is answered twice or answered while it is bound. From it the two results
follow, each for the runs that avoid one habit of the source. A check reports
a request complete as soon as some handle is bound to it, finished or not. A
wait on many that finds a request missing neither answers nor, if it found no
pending one either, binds its handle to anything.
-/

namespace Pdc

open List Lib

variable {s s' : RequestState} {n : Nat} {id : UInt64} {ids : List UInt64} {r : Reply}

/-! ## Accounts -/

def RequestState.repliesTo (s : RequestState) (h : Nat) : Nat :=
  s.sent.countP (fun r => r.handle = h)

def RequestState.pendingFor (s : RequestState) (h : Nat) : Nat :=
  s.statusList.countP (fun e => e.status = .pending ∧ e.handleRef = some h)

/-- The handle was answered exactly once, or it is bound to at least one
pending request and its counter is their number. -/
def RequestState.Served (s : RequestState) (h : Nat) : Prop :=
  (s.repliesTo h = 1 ∧ s.pendingFor h = 0) ∨
    (s.repliesTo h = 0 ∧ 0 < s.pendingFor h ∧ s.refs h = (s.pendingFor h : Int))

instance (s : RequestState) (h : Nat) : Decidable (s.Served h) := by
  unfold RequestState.Served; infer_instance

/-- What holds after any sequence of calls. -/
structure RequestInv (s : RequestState) : Prop where
  list : StatusInv s.nextHandle s.committed s.finished s.statusList s.refs
  sent_lt : ∀ r ∈ s.sent, r.handle < s.nextHandle
  received_lt : ∀ p ∈ s.received, p.1 < s.nextHandle
  once : ∀ h, s.repliesTo h ≤ 1
  bound : ∀ h, 0 < boundTo h s.statusList → s.repliesTo h = 0

namespace RequestInv

variable {s : RequestState}

theorem init : RequestInv RequestState.init where
  list := ⟨by simp [RequestState.init], by simp [RequestState.init], by simp [RequestState.init]⟩
  sent_lt := by simp [RequestState.init]
  received_lt := by simp [RequestState.init]
  once := by simp [RequestState.init, RequestState.repliesTo]
  bound := by simp [RequestState.init]

theorem pendingFor_eq (h : RequestInv s) (n : Nat) : s.pendingFor n = boundTo n s.statusList := by
  refine countP_congr fun e he => ?_
  simp only [decide_eq_true_eq]
  exact ⟨fun h => h.2, fun href => ⟨((h.list.entries e he).bound n href).1, href⟩⟩

theorem repliesTo_next (h : RequestInv s) (hn : s.nextHandle ≤ n) :
    s.repliesTo n = 0 := by
  refine countP_eq_zero.mpr fun r hr => ?_
  have hlt := h.sent_lt r hr
  simp only [decide_eq_true_eq]
  omega

theorem served_iff (h : RequestInv s) (n : Nat) :
    s.Served n ↔ s.repliesTo n = 1 ∨ 0 < boundTo n s.statusList := by
  rw [RequestState.Served, h.pendingFor_eq, h.list.refs n]
  have hbound := h.bound n
  omega

end RequestInv

/-! ## Steps that answer an RPC -/

/-- A step that receives the next handle: it may answer that handle if it
bound it to nothing, and changes nothing for the other handles. -/
structure RpcStep (s s' : RequestState) : Prop where
  nextHandle : s'.nextHandle = s.nextHandle + 1
  list : StatusInv s'.nextHandle s'.committed s'.finished s'.statusList s'.refs
  finished : s'.finished = s.finished
  sent : s'.sent = s.sent ∨ boundTo s.nextHandle s'.statusList = 0 ∧
    ∃ r : Reply, r.handle = s.nextHandle ∧ s'.sent = s.sent ++ [r]
  kept : ∀ e ∈ s.statusList, e.handleRef ≠ none → e ∈ s'.statusList
  other : ∀ n, n ≠ s.nextHandle → boundTo n s'.statusList = boundTo n s.statusList
  received : ∀ p ∈ s'.received, p ∈ s.received ∨ p.1 = s.nextHandle

namespace RpcStep

variable {s s' : RequestState}

theorem repliesTo_other (h : RpcStep s s') (hn : n ≠ s.nextHandle) :
    s'.repliesTo n = s.repliesTo n := by
  obtain hsent | ⟨_, r, hr, hsent⟩ := h.sent
  · rw [RequestState.repliesTo, hsent, RequestState.repliesTo]
  · rw [RequestState.repliesTo, hsent, RequestState.repliesTo]
    simp [hr, Ne.symm hn]

theorem inv (h : RpcStep s s') (hinv : RequestInv s) : RequestInv s' where
  list := h.list
  sent_lt := by
    intro r hr
    rw [h.nextHandle]
    obtain hsent | ⟨_, r', hr', hsent⟩ := h.sent
    · have hlt := hinv.sent_lt r (hsent ▸ hr)
      omega
    · rw [hsent, mem_append, mem_singleton] at hr
      obtain hr | rfl := hr
      · have hlt := hinv.sent_lt r hr
        omega
      · omega
  received_lt := by
    intro p hp
    rw [h.nextHandle]
    obtain hp | hp := h.received p hp
    · have hlt := hinv.received_lt p hp
      omega
    · omega
  once := by
    intro n
    by_cases hn : n = s.nextHandle
    · subst hn
      have hzero := hinv.repliesTo_next (Nat.le_refl s.nextHandle)
      obtain hsent | ⟨_, r, hr, hsent⟩ := h.sent
      · rw [RequestState.repliesTo, hsent]
        exact hinv.once _
      · rw [RequestState.repliesTo, hsent, countP_append]
        rw [RequestState.repliesTo] at hzero
        rw [hzero]
        simp [hr]
    · rw [h.repliesTo_other hn]
      exact hinv.once n
  bound := by
    intro n hpos
    by_cases hn : n = s.nextHandle
    · subst hn
      obtain hsent | ⟨hzero, _⟩ := h.sent
      · rw [RequestState.repliesTo, hsent]
        exact hinv.repliesTo_next (Nat.le_refl _)
      · omega
    · rw [h.other n hn] at hpos
      rw [h.repliesTo_other hn]
      exact hinv.bound n hpos

theorem served (h : RpcStep s s') (hinv : RequestInv s) (hn : n < s.nextHandle)
    (hserved : s.Served n) : s'.Served n := by
  rw [hinv.served_iff] at hserved
  rw [(h.inv hinv).served_iff, h.repliesTo_other (by omega), h.other n (by omega)]
  exact hserved

end RpcStep

section

variable {s : RequestState} (hinv : RequestInv s)
include hinv

theorem transferRequestStatus_rpc (id : UInt64) : RpcStep s (transferRequestStatus s id) := by
  have hcheck := checkRequest_checked id hinv.list.stored
  rw [transferRequestStatus]
  generalize checkRequest id s.statusList = res at hcheck ⊢
  obtain ⟨list, status⟩ := res
  have hlist := (hinv.list.check hcheck).mono (Nat.le_succ s.nextHandle)
  refine ⟨rfl, hlist, rfl, .inr ⟨?_, _, rfl, rfl⟩, ?_, ?_, fun p hp => .inl hp⟩
  · exact (hinv.list.check hcheck).boundTo_next (Nat.le_refl _)
  · exact fun e he href => hcheck.mem_of_bound he href
  · exact fun n _ => hcheck.boundTo_eq n

theorem transferRequestWait_spec (id : UInt64) :
    ∃ list refs status, Waited s.nextHandle 0 id s.statusList s.refs list refs status ∧
      (status ≠ .pending → boundTo s.nextHandle list = 0) ∧
      StatusInv (s.nextHandle + 1) s.committed s.finished list refs ∧
      transferRequestWait s id =
        { s with
          statusList := list, refs := refs, nextHandle := s.nextHandle + 1
          sent := if status = .pending then s.sent else s.sent ++ [.wait s.nextHandle]
          received := s.received ++ [(s.nextHandle, [id])] } := by
  have hwait := checkOrBind_waited s.nextHandle 0 id s.refs hinv.list.stored
  refine ⟨_, _, _, hwait, fun hst => ?_, ?_, ?_⟩
  · rw [hwait.boundTo_eq, hinv.list.boundTo_next (Nat.le_refl _), if_neg fun h => hst h.2]
  · exact hwait.inv (hinv.list.mono (Nat.le_succ _)) (Nat.lt_succ_self _)
  · rw [transferRequestWait, hinv.list.update_next]

theorem transferRequestWait_rpc (id : UInt64) : RpcStep s (transferRequestWait s id) := by
  obtain ⟨list, refs, status, hwait, hfree, hlist, heq⟩ := transferRequestWait_spec hinv id
  rw [heq]
  refine ⟨rfl, hlist, rfl, ?_, ?_, ?_, ?_⟩
  · by_cases hst : status = .pending
    · exact .inl (if_pos hst)
    · exact .inr ⟨hfree hst, _, rfl, if_neg hst⟩
  · exact fun e he href => hwait.mem_of_bound he href
  · intro n hn
    rw [hwait.boundTo_eq, if_neg fun h => hn h.1, Nat.add_zero]
  · intro p hp
    rw [mem_append, mem_singleton] at hp
    exact hp.imp_right fun h => by rw [h]

theorem transferRequestWaitAll_spec (ids : List UInt64) :
    ∃ list refs fastReturn,
      (list, refs, fastReturn) = waitAllLoop s.nextHandle ids s.statusList s.refs true ∧
      WaitedAll s.nextHandle ids s.statusList list true fastReturn ∧
      (fastReturn = true → boundTo s.nextHandle list = 0) ∧
      StatusInv (s.nextHandle + 1) s.committed s.finished list refs ∧
      transferRequestWaitAll s ids =
        { s with
          statusList := list, refs := refs, nextHandle := s.nextHandle + 1
          sent := if fastReturn then s.sent ++ [.waitAll s.nextHandle] else s.sent
          received := s.received ++ [(s.nextHandle, ids)] } := by
  obtain ⟨hlist, hall⟩ := @waitAllLoop_spec s.nextHandle (s.nextHandle + 1) s.committed s.finished
    (Nat.lt_succ_self _) ids s.statusList s.refs true (hinv.list.mono (Nat.le_succ _))
  refine ⟨_, _, _, rfl, hall, fun hfast => ?_, hlist, ?_⟩
  · have hnot : ¬ Awaits s.statusList ids := (hall.fast.mp hfast).2.2
    rw [← hall.bound.2, hinv.list.boundTo_next (Nat.le_refl _)] at hnot
    exact Nat.eq_zero_of_not_pos hnot
  · rw [transferRequestWaitAll, hinv.list.update_next]

theorem transferRequestWaitAll_rpc
    (ids : List UInt64) : RpcStep s (transferRequestWaitAll s ids) := by
  obtain ⟨list, refs, fastReturn, _, hall, hfree, hlist, heq⟩ :=
    transferRequestWaitAll_spec hinv ids
  rw [heq]
  refine ⟨rfl, hlist, rfl, ?_, hall.kept, hall.other, ?_⟩
  · cases fastReturn with
    | false => exact .inl rfl
    | true => exact .inr ⟨hfree rfl, _, rfl, rfl⟩
  · intro p hp
    rw [mem_append, mem_singleton] at hp
    exact hp.imp_right fun h => by rw [h]

end

/-! ## The finish step -/

section

variable {s : RequestState} (hinv : RequestInv s)
include hinv

theorem finish_account (id : UInt64) (n : Nat) :
    ((requestStep s (.finish id)).repliesTo n = s.repliesTo n ∧
      boundTo n (requestStep s (.finish id)).statusList = boundTo n s.statusList) ∨
    (boundTo n s.statusList = boundTo n (requestStep s (.finish id)).statusList + 1 ∧
      (requestStep s (.finish id)).repliesTo n =
        s.repliesTo n + if boundTo n (requestStep s (.finish id)).statusList =
          0 then 1 else 0) := by
  have hfin := finishRequest_finished id s.statusList s.refs
  rw [requestStep]
  generalize finishRequest id s.statusList s.refs = res at hfin ⊢
  obtain ⟨list, refs, sent⟩ := res
  dsimp only at hfin ⊢
  simp only [RequestState.repliesTo, countP_append]
  cases hfin with
  | unbound _ => exact .inl ⟨by simp, by simp⟩
  | @bound pre post e ref heq _ _ href =>
    have hmem : e ∈ s.statusList := by simp [heq]
    have hhandle : e.answer.handle = ref := by
      rw [handle_answer, ((hinv.list.entries e hmem).bound ref href).2.1]
    have hcount (m : Nat) : boundTo m s.statusList =
        boundTo m pre + boundTo m post + if ref = m then 1 else 0 := by
      rw [heq, boundTo_append, boundTo_cons, href, Nat.add_assoc]
      simp
    simp only [boundTo_append, boundTo_map_mark]
    by_cases hn : n = ref
    · subst hn
      have hrefs := hinv.list.refs n
      rw [hcount n, if_pos rfl] at hrefs
      refine .inr ⟨by rw [hcount n, if_pos rfl], ?_⟩
      by_cases hzero : boundTo n pre + boundTo n post = 0
      · rw [if_pos hzero, if_pos (by omega)]
        simp [hhandle]
      · rw [if_neg hzero, if_neg (by omega)]
        simp
    · refine .inl ⟨?_, by rw [hcount n, if_neg (Ne.symm hn), Nat.add_zero]⟩
      split
      · simp [hhandle, Ne.symm hn]
      · simp

theorem RequestInv.finish (id : UInt64) : RequestInv (requestStep s (.finish id)) where
  list := hinv.list.finish (finishRequest_finished id s.statusList s.refs)
  sent_lt := by
    intro r hr
    have hr : r ∈ s.sent ++ (finishRequest id s.statusList s.refs).2.2 := hr
    obtain hr | hr := mem_append.mp hr
    · exact hinv.sent_lt r hr
    · obtain ⟨n, hlt, hwait, _⟩ :=
        hinv.list.finish_sent (finishRequest_finished id s.statusList s.refs) hr
      obtain rfl | rfl := hwait
      · exact hlt
      · exact hlt
  received_lt := hinv.received_lt
  once := by
    intro n
    have honce := hinv.once n
    have hbound := hinv.bound n
    have haccount := finish_account hinv id n
    split at haccount <;> omega
  bound := by
    intro n hpos
    have hbound := hinv.bound n
    have haccount := finish_account hinv id n
    rw [if_neg (by omega)] at haccount
    omega

theorem RequestInv.commit (id : UInt64) : RequestInv (requestStep s (.commit id)) where
  list := hinv.list.commit id
  sent_lt := hinv.sent_lt
  received_lt := hinv.received_lt
  once := hinv.once
  bound := by
    intro n hpos
    refine hinv.bound n ?_
    simpa [requestStep, commitRequest] using hpos

theorem RequestInv.step (a : RequestAction) : RequestInv (requestStep s a) := by
  cases a with
  | commit id => exact hinv.commit id
  | finish id => exact hinv.finish id
  | status id => exact (transferRequestStatus_rpc hinv id).inv hinv
  | wait id => exact (transferRequestWait_rpc hinv id).inv hinv
  | waitAll ids => exact (transferRequestWaitAll_rpc hinv ids).inv hinv

end

/-! ## No wait is lost -/

theorem served_step (hinv : RequestInv s)
    (hn : n < s.nextHandle) (hserved : s.Served n) (a : RequestAction) :
    (requestStep s a).Served n := by
  cases a with
  | commit id =>
    rw [hinv.served_iff] at hserved
    rw [(hinv.commit id).served_iff]
    simpa [requestStep, commitRequest, RequestState.repliesTo] using hserved
  | finish id =>
    rw [hinv.served_iff] at hserved
    rw [(hinv.finish id).served_iff]
    have hbound := hinv.bound n
    have haccount := finish_account hinv id n
    split at haccount <;> omega
  | status id => exact (transferRequestStatus_rpc hinv id).served hinv hn hserved
  | wait id => exact (transferRequestWait_rpc hinv id).served hinv hn hserved
  | waitAll ids => exact (transferRequestWaitAll_rpc hinv ids).served hinv hn hserved

/-- What a wait on many needs in order to be answered now or later: a pending
request no other handle waits for, or no request it has to find missing. -/
def RequestAction.Answerable (s : RequestState) : RequestAction → Prop
  | .waitAll ids => Awaits s.statusList ids ∨ ¬ Misses s.statusList ids
  | _ => True

instance (s : RequestState) (a : RequestAction) : Decidable (a.Answerable s) := by
  cases a <;> unfold RequestAction.Answerable <;> infer_instance

section

variable {s : RequestState} (hinv : RequestInv s)
include hinv

theorem wait_served (id : UInt64) : (requestStep s (.wait id)).Served s.nextHandle := by
  rw [(hinv.step (.wait id)).served_iff]
  obtain ⟨list, refs, status, hwait, _, _, heq⟩ := transferRequestWait_spec hinv id
  rw [requestStep, heq]
  by_cases hst : status = .pending
  · right
    rw [hwait.boundTo_eq, if_pos ⟨rfl, hst⟩]
    omega
  · left
    have hzero := hinv.repliesTo_next (Nat.le_refl s.nextHandle)
    rw [RequestState.repliesTo] at hzero ⊢
    rw [if_neg hst, countP_append, hzero]
    simp [Reply.handle]

theorem waitAll_served_iff (ids : List UInt64) :
    (requestStep s (.waitAll ids)).Served s.nextHandle ↔
      (RequestAction.waitAll ids).Answerable s := by
  rw [(hinv.step (.waitAll ids)).served_iff]
  obtain ⟨list, refs, fastReturn, _, hall, _, _, heq⟩ := transferRequestWaitAll_spec hinv ids
  have hfree := hinv.list.boundTo_next (Nat.le_refl s.nextHandle)
  have hbound := hall.bound.2
  rw [hfree] at hbound
  have hzero := hinv.repliesTo_next (Nat.le_refl s.nextHandle)
  rw [RequestState.repliesTo] at hzero
  have hreply : (transferRequestWaitAll s ids).repliesTo s.nextHandle = 1 ↔ fastReturn = true := by
    rw [heq, RequestState.repliesTo]
    cases fastReturn with
    | false => simp [hzero]
    | true =>
      rw [if_pos rfl, countP_append, hzero]
      simp [Reply.handle]
  rw [requestStep, hreply, heq, hbound, hall.fast, RequestAction.Answerable]
  tauto

theorem served_step_iff (hserved : ∀ p ∈ s.received, s.Served p.1) (a : RequestAction) :
    (∀ p ∈ (requestStep s a).received, (requestStep s a).Served p.1) ↔ a.Answerable s := by
  have hold : ∀ p ∈ s.received, (requestStep s a).Served p.1 :=
    fun p hp => served_step hinv (hinv.received_lt p hp) (hserved p hp) a
  have hnew (ids : List UInt64)
      (heq : (requestStep s a).received = s.received ++ [(s.nextHandle, ids)]) :
      (∀ p ∈ (requestStep s a).received, (requestStep s a).Served p.1) ↔
        (requestStep s a).Served s.nextHandle := by
    rw [heq]
    simp only [mem_append, mem_singleton]
    refine ⟨fun h => h (s.nextHandle, ids) (.inr rfl), fun h p hp => ?_⟩
    obtain hp | rfl := hp
    · exact hold p hp
    · exact h
  cases a with
  | commit id => exact iff_of_true hold trivial
  | finish id => exact iff_of_true hold trivial
  | status id => exact iff_of_true hold trivial
  | wait id => rw [hnew [id] rfl]; exact iff_of_true (wait_served hinv id) trivial
  | waitAll ids => rw [hnew ids rfl]; exact waitAll_served_iff hinv ids

end

/-- Along a run, every wait received so far is answered exactly once or bound
to pending requests it counts, after each step, if and only if every wait on
many was answerable when it was received. -/
theorem waits_served_iff (as : List RequestAction) :
    Along requestStep (fun s a => ∀ p ∈ (requestStep s a).received, (requestStep s a).Served p.1)
        RequestState.init as ↔
      Along requestStep (fun s a => a.Answerable s) RequestState.init as :=
  Along.iff_of_invariant (I := fun s => RequestInv s ∧ ∀ p ∈ s.received, s.Served p.1)
    (fun _ a hI => served_step_iff hI.1 hI.2 a)
    (fun _ a hI hserved => ⟨hI.1.step a, hserved⟩) ⟨RequestInv.init, by simp [RequestState.init]⟩

/-- A request that completed and was reported is off the list. A wait on many
that names it is not answered and bound to nothing. -/
theorem waitAll_lost :
    ¬ Along requestStep (fun s a => ∀ p ∈ (requestStep s a).received, (requestStep s a).Served p.1)
      RequestState.init [.commit 1, .finish 1, .status 1, .waitAll [1]] := by
  simp only [Along]
  decide

/-- After any calls, a handle's counter counts the pending requests bound to it, it is answered at
most once, not while bound, and no unfinished request is off the list. -/
theorem statusAccounts_run (as : List RequestAction) :
    let s := run requestStep .init as
    (∀ h, s.refs h = s.pendingFor h ∧ s.repliesTo h ≤ 1 ∧
        (0 < s.pendingFor h → s.repliesTo h = 0)) ∧
      ∀ id ∈ s.committed, id ∈ s.finished ∨ ∃ e ∈ s.statusList, e.transferRequestId = id := by
  intro s
  have hinv : RequestInv s := foldlRecOn as _ .init fun _ h a _ => h.step a
  refine ⟨fun h => ?_, hinv.list.gone⟩
  rw [hinv.pendingFor_eq]
  exact ⟨hinv.list.refs h, hinv.once h, hinv.bound h⟩

/-! ## Completion is truthful -/

/-- What a reply says of the requests it is about: those that were committed
have finished. -/
def Reply.Truthful (s : RequestState) : Reply → Prop
  | .status _ id .complete => id ∈ s.committed → id ∈ s.finished
  | .status _ _ _ => True
  | .wait h => ∀ p ∈ s.received, p.1 = h → ∀ id ∈ p.2, id ∈ s.committed → id ∈ s.finished
  | .waitAll h => ∀ p ∈ s.received, p.1 = h → ∀ id ∈ p.2, id ∈ s.committed → id ∈ s.finished

instance (s : RequestState) (r : Reply) : Decidable (r.Truthful s) := by
  -- The ids are those of a list; there are too many to go through them all.
  have hids (ids : List UInt64) : Decidable (∀ id ∈ ids, id ∈ s.committed → id ∈ s.finished) :=
    List.decidableBAll _ ids
  cases r with
  | status h id st => cases st <;> unfold Reply.Truthful <;> infer_instance
  | wait h => unfold Reply.Truthful; infer_instance
  | waitAll h => unfold Reply.Truthful; infer_instance

/-- The handles still to be answered cover the requests they were sent for. -/
def CoverInv (s : RequestState) : Prop :=
  ∀ p ∈ s.received, s.repliesTo p.1 = 0 → ∀ id ∈ p.2, Covers s.finished p.1 s.statusList id

/-- The entry a check of the request meets is not bound to a handle. -/
def Unbound (id : UInt64) (list : List RequestStatus) : Prop :=
  ∀ e ∈ (entriesOf id list).head?, e.handleRef = none

instance (id : UInt64) (list : List RequestStatus) : Decidable (Unbound id list) := by
  unfold Unbound; infer_instance

/-- Nobody asks about an unfinished request that a handle is waiting for, and
a wait on many names committed requests only. -/
def RequestAction.Unclaimed (s : RequestState) : RequestAction → Prop
  | .commit _ => True
  | .finish _ => True
  | .status id => id ∈ s.finished ∨ Unbound id s.statusList
  | .wait id => id ∈ s.finished ∨ Unbound id s.statusList
  | .waitAll ids =>
    ∀ id ∈ ids, id ∈ s.committed ∧ (id ∈ s.finished ∨ Unbound id s.statusList)

instance (s : RequestState) (a : RequestAction) : Decidable (a.Unclaimed s) := by
  cases a with
  | waitAll ids => exact List.decidableBAll _ ids
  | _ => unfold RequestAction.Unclaimed; infer_instance

theorem Unbound.freeFor {list : List RequestStatus} (h : Unbound id list)
    (handle : Nat) : FreeFor handle list id := fun e he => .inl (h e he)

/-- A step's own replies, and what it leaves for later ones. -/
def TruthfulStep (s s' : RequestState) : Prop :=
  (∀ r ∈ s'.sent.drop s.sent.length, r.Truthful s') ∧ CoverInv s'

theorem RpcStep.covers_old (h : RpcStep s s') (hinv : RequestInv s)
    (hcov : CoverInv s) {p : Nat × List UInt64} (hp : p ∈ s.received)
    (hnone : s'.repliesTo p.1 = 0) : ∀ id ∈ p.2, Covers s'.finished p.1 s'.statusList id := by
  intro id hid
  have hlt := hinv.received_lt p hp
  rw [h.repliesTo_other (by omega)] at hnone
  rw [h.finished]
  exact (hcov p hp hnone id hid).mono h.kept

theorem Reply.truthful_of_wait (hr : r = .wait n ∨ r = .waitAll n)
    (h : ∀ p ∈ s.received, p.1 = n → ∀ id ∈ p.2, id ∈ s.committed → id ∈ s.finished) :
    r.Truthful s := by
  obtain rfl | rfl := hr
  · exact h
  · exact h

theorem finish_truthful (hinv : RequestInv s) (hcov : CoverInv s)
    (id : UInt64) : TruthfulStep s (requestStep s (.finish id)) := by
  have hfin := finishRequest_finished id s.statusList s.refs
  constructor
  · intro r hr
    rw [show (requestStep s (.finish id)).sent =
      s.sent ++ (finishRequest id s.statusList s.refs).2.2 from rfl, drop_left] at hr
    obtain ⟨n, _, hwait, hpos, hzero⟩ := hinv.list.finish_sent hfin hr
    refine Reply.truthful_of_wait hwait fun p hp hn i hi _ => ?_
    subst hn
    exact (hfin.covers (hcov p hp (hinv.bound _ hpos) i hi)).mem_finished hzero
  · intro p hp hnone i hi
    refine hfin.covers (hcov p hp ?_ i hi)
    have haccount := finish_account hinv id p.1
    split at haccount <;> omega

theorem status_truthful (hinv : RequestInv s) (hcov : CoverInv s)
    (hok : (RequestAction.status id).Unclaimed s) :
    TruthfulStep s (requestStep s (.status id)) := by
  have hrpc := transferRequestStatus_rpc hinv id
  refine ⟨?_, fun p hp hnone => hrpc.covers_old hinv hcov hp hnone⟩
  have hcheck := checkRequest_checked id hinv.list.stored
  rw [requestStep, transferRequestStatus]
  generalize checkRequest id s.statusList = res at hcheck ⊢
  obtain ⟨list, status⟩ := res
  intro r hr
  rw [drop_left, mem_singleton] at hr
  subst hr
  cases hcheck with
  | missing _ => trivial
  | pending _ _ _ => trivial
  | reported h hrep =>
    exact fun _ => h.id_eq ▸ (hinv.list.entries _ h.mem).complete hrep.2
  | @bound pre post e ref h href =>
    intro _
    obtain hfin | hfree := hok
    · exact hfin
    · have hnone := hfree e (by simp [h.entriesOf_eq])
      rw [href] at hnone
      simp at hnone

/-- A wait that covers what it was sent for is truthful: if it is answered at
once it is bound to nothing, so all it covers has finished. -/
theorem RpcStep.truthful (h : RpcStep s s') (hinv : RequestInv s)
    (hcov : CoverInv s)
    (hwait : r = .wait s.nextHandle ∨ r = .waitAll s.nextHandle)
    (hreceived : s'.received = s.received ++ [(s.nextHandle, ids)])
    (hsent : s'.sent = s.sent ∨ boundTo s.nextHandle s'.statusList = 0 ∧ s'.sent = s.sent ++ [r])
    (hcovers : ∀ id ∈ ids, id ∈ s'.committed ∨ s'.sent = s.sent →
      Covers s'.finished s.nextHandle s'.statusList id) :
    TruthfulStep s s' := by
  have hmem {p : Nat × List UInt64} (hp : p ∈ s'.received) :
      p ∈ s.received ∨ p = (s.nextHandle, ids) := by
    rw [hreceived, mem_append, mem_singleton] at hp
    exact hp
  constructor
  · intro x hx
    obtain hsent | ⟨hzero, hsent⟩ := hsent
    · simp [hsent] at hx
    rw [hsent, drop_left, mem_singleton] at hx
    subst hx
    refine Reply.truthful_of_wait hwait fun p hp hn id hid hcommit => ?_
    obtain hp | rfl := hmem hp
    · have hlt := hinv.received_lt p hp
      omega
    · exact (hcovers id hid (.inl hcommit)).mem_finished hzero
  · intro p hp hnone
    obtain hp | rfl := hmem hp
    · exact h.covers_old hinv hcov hp hnone
    · refine fun id hid => hcovers id hid (.inr ?_)
      obtain hsent | ⟨_, hsent⟩ := hsent
      · exact hsent
      · have hhandle : r.handle = s.nextHandle := by
          obtain rfl | rfl := hwait <;> rfl
        rw [RequestState.repliesTo, hsent] at hnone
        simp [hhandle] at hnone

theorem wait_truthful (hinv : RequestInv s) (hcov : CoverInv s)
    (hok : (RequestAction.wait id).Unclaimed s) :
    TruthfulStep s (requestStep s (.wait id)) := by
  have hrpc := transferRequestWait_rpc hinv id
  obtain ⟨list, refs, status, hwait, hzero, _, heq⟩ := transferRequestWait_spec hinv id
  rw [requestStep]
  rw [heq] at hrpc ⊢
  have hfree : id ∈ s.finished ∨ FreeFor s.nextHandle s.statusList id :=
    hok.imp_right fun h => h.freeFor _
  refine hrpc.truthful hinv hcov (.inl rfl) rfl ?_ ?_
  · by_cases hst : status = .pending
    · exact .inl (if_pos hst)
    · exact .inr ⟨hzero hst, if_neg hst⟩
  · intro i hi hcase
    rw [mem_singleton] at hi
    subst hi
    obtain hcommit | hsame := hcase
    · exact hwait.covers hinv.list hcommit hfree
    · -- not answered, so the request was pending
      by_cases hst : status = .pending
      · subst hst
        exact hwait.covers_of_pending
      · simp [hst] at hsame

theorem waitAll_truthful (hinv : RequestInv s) (hcov : CoverInv s)
    (hok : (RequestAction.waitAll ids).Unclaimed s) :
    TruthfulStep s (requestStep s (.waitAll ids)) := by
  have hrpc := transferRequestWaitAll_rpc hinv ids
  obtain ⟨list, refs, fastReturn, hloop, _, hzero, _, heq⟩ :=
    transferRequestWaitAll_spec hinv ids
  rw [requestStep]
  rw [heq] at hrpc ⊢
  refine hrpc.truthful hinv hcov (.inr rfl) rfl ?_ ?_
  · cases fastReturn with
    | false => exact .inl rfl
    | true => exact .inr ⟨hzero rfl, rfl⟩
  · intro id hid _
    have hcovers := waitAllLoop_covers true (Nat.lt_succ_self s.nextHandle)
      (hinv.list.mono (Nat.le_succ _)) (fun i hi => (hok i hi).1)
      (fun i hi => (hok i hi).2.imp_right fun h => h.freeFor _) id (.inl hid)
    rw [← hloop] at hcovers
    exact hcovers

/-- Along a run in which nobody asks about an unfinished request some handle
waits for, and waits on many name committed requests, every reply is
truthful when it is sent. -/
theorem completion_truthful (as : List RequestAction)
    (hok : Along requestStep (fun s a => a.Unclaimed s) RequestState.init as) :
    Along requestStep
      (fun s a => ∀ r ∈ (requestStep s a).sent.drop s.sent.length, r.Truthful (requestStep s a))
      RequestState.init as := by
  refine Along.imp_of_invariant (I := fun s => RequestInv s ∧ CoverInv s) ?_
    ⟨RequestInv.init, by simp [CoverInv, RequestState.init]⟩ hok
  intro s a hI hok
  have hstep : TruthfulStep s (requestStep s a) := by
    cases a with
    | commit id =>
      refine ⟨by simp [requestStep], fun p hp hnone i hi => ?_⟩
      exact (hI.2 p hp hnone i hi).mono fun e he _ => mem_append_left _ he
    | finish id => exact finish_truthful hI.1 hI.2 id
    | status id => exact status_truthful hI.1 hI.2 hok
    | wait id => exact wait_truthful hI.1 hI.2 hok
    | waitAll ids => exact waitAll_truthful hI.1 hI.2 hok
  exact ⟨hstep.1, hI.1.step a, hstep.2⟩

/-- The condition can be met by every kind of call. -/
theorem completion_truthful_waits :
    Along requestStep
      (fun s a => ∀ r ∈ (requestStep s a).sent.drop s.sent.length, r.Truthful (requestStep s a))
      RequestState.init
      [.commit 1, .commit 2, .status 1, .waitAll [1, 2], .finish 2, .finish 1, .commit 3,
        .finish 3, .wait 3, .wait 3] :=
  completion_truthful _ (by simp only [Along]; decide +kernel)

/-- A wait on a request makes the next status call report it complete, though
it has not finished. -/
theorem status_untruthful :
    ¬ Along requestStep
      (fun s a => ∀ r ∈ (requestStep s a).sent.drop s.sent.length, r.Truthful (requestStep s a))
      RequestState.init [.commit 1, .wait 1, .status 1] := by
  simp only [Along]
  decide

end Pdc
