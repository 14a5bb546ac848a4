import Pdc.Server.PendingLists
import Pdc.Lib.Run

/-!
# Pending work is found while its numbers are small

`PendingSpec` says what the calls on either list do to its entries, as a set,
and to the counter. The counter never goes back, so an entry that was added at
`n` is the only one with that number from then on, and stays in the list until
it is deleted (`mem_run_iff`). What is left is the check that a look-up makes
before it looks: it rejects numbers that the counter reaches in a long run.

The mutex is balanced as long as its holder is behind its lock call, which is
the invariant. Two steps break it, and do so always: the end of a search that
finds its task, and the search in `PDC_del_task_from_list_id`.
-/

namespace Pdc

open List Lib Function

variable {α β : Type} {step : Pending α → PendingOp α → Pending α}
  {find : Pending α → Int → Option α} {maxId : Int} {s : Pending α} {x : α}

/-! ## Finding an entry -/

/-- The entries have numbers of their own, which the counter has passed. -/
structure Numbered (s : Pending α) : Prop where
  range : ∀ e ∈ s.entries, 1000 ≤ e.1 ∧ e.1 < s.nextId
  unique : ∀ e ∈ s.entries, ∀ e' ∈ s.entries, e.1 = e'.1 → e = e'
  start : 1000 ≤ s.nextId

structure PendingSpec (step : Pending α → PendingOp α → Pending α)
    (find : Pending α → Int → Option α) (maxId : Int) : Prop where
  add_entries : ∀ s x e, e ∈ (step s (.add x)).entries ↔ e = (s.nextId, x) ∨ e ∈ s.entries
  add_nextId : ∀ s x, (step s (.add x)).nextId = s.nextId + 1
  find_eq : ∀ s id, step s (.find id) = s
  del_entries : ∀ s id e, e ∈ (step s (.del id)).entries ↔ e ∈ s.entries ∧ e.1 ≠ id
  del_nextId : ∀ s id, s.nextId ≤ (step s (.del id)).nextId
  find_iff : ∀ {s}, Numbered s → ∀ id x,
    find s id = some x ↔ (1000 ≤ id ∧ id ≤ maxId) ∧ (id, x) ∈ s.entries

theorem Numbered.find?_iff (h : Numbered s) {id : Int} {p : Int × α → Bool}
    (hp : ∀ e, p e = true ↔ e.1 = id) :
    (s.entries.find? p).map Prod.snd = some x ↔ (id, x) ∈ s.entries := by
  rw [Option.map_eq_some_iff]
  constructor
  · rintro ⟨e, he, rfl⟩
    have hid := (hp e).mp (find?_some he)
    exact hid ▸ mem_of_find?_eq_some he
  · intro hmem
    obtain ⟨e, he⟩ := Option.isSome_iff_exists.mp (find?_isSome.mpr ⟨_, hmem, (hp _).mpr rfl⟩)
    have hsame := h.unique e (mem_of_find?_eq_some he) _ hmem ((hp e).mp (find?_some he))
    exact ⟨e, he, congrArg Prod.snd hsame⟩

theorem taskSpec : PendingSpec (taskListStep (α := α)) findTaskFromList 10000 where
  add_entries s x e := by simp [taskListStep, addTaskToList, or_comm]
  add_nextId s x := rfl
  find_eq s id := rfl
  del_entries s id e := by simp [taskListStep, delTaskFromList]
  del_nextId s id := Int.le_refl _
  find_iff h id x := by
    have hvalid : isValidTaskId id = true ↔ 1000 ≤ id ∧ id ≤ 10000 := by simp [isValidTaskId]
    rw [findTaskFromList, ← h.find?_iff fun e => decide_eq_true_iff, ← hvalid]
    split <;> simp_all

theorem requestSpec : PendingSpec (requestListStep (α := α)) findRequestFromListBySeqId 99999 where
  add_entries s x e := by simp [requestListStep, addRequestToList]
  add_nextId s x := rfl
  find_eq s id := rfl
  del_entries s id e := by simp [requestListStep, delRequestFromList]
  del_nextId s id := Int.le_add_one (Int.le_refl _)
  find_iff {s} h id x := by
    -- The last entry with the number is the first one of the list read backwards.
    have hback : Numbered { s with entries := s.entries.reverse } :=
      ⟨by simpa using h.range, by simpa using h.unique, h.start⟩
    have hlast : (s.entries.reverse.find? (·.1 = id)).map Prod.snd = some x ↔
        (id, x) ∈ s.entries.reverse := hback.find?_iff fun e => decide_eq_true_iff
    rw [findRequestFromListBySeqId]
    split <;> grind

theorem PendingSpec.numbered (h : PendingSpec step find maxId) (ops : List (PendingOp α)) :
    Numbered (run step {} ops) := by
  refine foldlRecOn ops _ ⟨by simp, by simp, Int.le_refl _⟩ fun s hs op _ => ?_
  obtain ⟨hrange, hunique, hstart⟩ := hs
  cases op with
  | add x =>
    have hnew := h.add_nextId s x
    refine ⟨fun e he => ?_, fun e he e' he' heq => ?_, by omega⟩
    · rcases (h.add_entries s x e).mp he with rfl | he
      · exact ⟨hstart, by omega⟩
      · have := hrange e he
        omega
    · rcases (h.add_entries s x e).mp he with rfl | he <;>
        rcases (h.add_entries s x e').mp he' with rfl | he'
      · rfl
      · exact absurd heq (Int.ne_of_gt (hrange e' he').2)
      · exact absurd heq (Int.ne_of_lt (hrange e he).2)
      · exact hunique e he e' he' heq
  | find id =>
    rw [h.find_eq]
    exact ⟨hrange, hunique, hstart⟩
  | del id =>
    have hmem := fun e he => ((h.del_entries s id e).mp he).1
    have hle := h.del_nextId s id
    refine ⟨fun e he => ?_, fun e he e' he' => hunique e (hmem e he) e' (hmem e' he'), by omega⟩
    have := hrange e (hmem e he)
    omega

theorem PendingSpec.mem_run_iff (h : PendingSpec step find maxId) {n : Int} {y : α} {P : Prop}
    (hn : n < s.nextId) (hP : (n, y) ∈ s.entries ↔ P) (ops : List (PendingOp α)) :
    (n, y) ∈ (run step s ops).entries ↔ P ∧ .del n ∉ ops := by
  induction ops generalizing s P with
  | nil => simpa using hP
  | cons op ops ih =>
    rw [run_cons, mem_cons, not_or, ← and_assoc]
    cases op with
    | add x =>
      refine ih (by rw [h.add_nextId]; omega) ?_
      rw [h.add_entries, hP]
      simp [Int.ne_of_lt hn]
    | find id =>
      rw [h.find_eq]
      exact ih hn (by simpa using hP)
    | del id =>
      refine ih (Int.lt_of_lt_of_le hn (h.del_nextId s id)) ?_
      rw [h.del_entries, hP]
      simp

/-- At every moment of a run, each entry is found by the number it was added with,
unless it has been deleted since. -/
def Addressable (step : Pending α → PendingOp α → Pending α)
    (find : Pending α → Int → Option α) (ops : List (PendingOp α)) : Prop :=
  ∀ pre x post, pre ++ .add x :: post <+: ops →
    ∀ y, find (run step {} (pre ++ .add x :: post)) (run step {} pre).nextId = some y ↔
      y = x ∧ .del (run step {} pre).nextId ∉ post

/-- Whenever an entry is added, the counter has not passed the largest number that is
looked up. -/
def AddsBelow (step : Pending α → PendingOp α → Pending α) (maxId : Int)
    (ops : List (PendingOp α)) : Prop :=
  ∀ pre x post, ops = pre ++ .add x :: post → (run step {} pre).nextId ≤ maxId

theorem PendingSpec.find_run_iff (h : PendingSpec step find maxId) (pre : List (PendingOp α))
    (x y : α) (post : List (PendingOp α)) :
    find (run step {} (pre ++ .add x :: post)) (run step {} pre).nextId = some y ↔
      (run step {} pre).nextId ≤ maxId ∧ y = x ∧ .del (run step {} pre).nextId ∉ post := by
  have hpre := h.numbered pre
  have hnew : ((run step {} pre).nextId, y) ∈ (step (run step {} pre) (.add x)).entries ↔
      y = x := by
    rw [h.add_entries]
    have hnot : ((run step {} pre).nextId, y) ∉ (run step {} pre).entries :=
      fun he => Int.lt_irrefl _ (hpre.range _ he).2
    simp [hnot]
  rw [h.find_iff (h.numbered _), run_append, run_cons,
    h.mem_run_iff (by rw [h.add_nextId]; omega) hnew]
  simp [hpre.start]

theorem PendingSpec.addressable_iff (h : PendingSpec step find maxId) (ops : List (PendingOp α)) :
    Addressable step find ops ↔ AddsBelow step maxId ops := by
  constructor
  · rintro hfound pre x post rfl
    have hx := (hfound pre x [] (by simp) x).mpr ⟨rfl, not_mem_nil⟩
    exact ((h.find_run_iff pre x x []).mp hx).1
  · rintro hbelow pre x post ⟨rest, rfl⟩ y
    rw [h.find_run_iff]
    exact and_iff_right (hbelow pre x (post ++ rest) (by simp))

/-- Tasks and requests are found as long as they have not been deleted just if no task
is added with a number above 10000, and no request with one above 99999. -/
theorem pendingAddressable_iff (tasks : List (PendingOp α)) (requests : List (PendingOp β)) :
    Addressable taskListStep findTaskFromList tasks ∧
        Addressable requestListStep findRequestFromListBySeqId requests ↔
      AddsBelow taskListStep 10000 tasks ∧ AddsBelow requestListStep 99999 requests :=
  and_congr (taskSpec.addressable_iff tasks) (requestSpec.addressable_iff requests)

theorem nextId_addTasks (k : Nat) :
    (run taskListStep {} (replicate k (.add ()))).nextId = 1000 + k := by
  induction k with
  | zero => rfl
  | succ k ih =>
    rw [replicate_succ', run_append, run_cons, run_nil, taskSpec.add_nextId]
    omega

/-- The 9002nd task of a server is not found. -/
theorem not_addressable_longRun :
    ¬ (Addressable taskListStep findTaskFromList (replicate 9002 (.add ())) ∧
      Addressable requestListStep findRequestFromListBySeqId ([] : List (PendingOp Unit))) := by
  rintro ⟨h, -⟩
  have hlast := taskSpec.addressable_iff _ |>.mp h (replicate 9001 (.add ())) () []
    (replicate_succ' ..)
  rw [nextId_addTasks] at hlast
  omega

/-! ## The mutex -/

variable {T : Type} {w : TaskWorld T α}

/-- The mutex is not held by a thread whose call has returned, nor by one that is about
to take it. -/
def LockBalanced (w : TaskWorld T α) : Prop :=
  ∀ t, w.holder = some t →
    w.pc t ≠ .idle ∧ (∀ c, w.pc t ≠ .locking c) ∧ ∀ id, w.pc t ≠ .relocking id

/-- A thread that goes on with the mutex in hand is not in a search for a task that is
in the list, nor in `PDC_del_task_from_list_id`. -/
def FindsNothing (w : TaskWorld T α) : T × TaskEvent α → Prop
  | (t, .go) => ∀ id, w.pc t ≠ .locked (.delId id) ∧
      (w.pc t = .locked (.op (.find id)) → findTaskFromList w.tasks id = none)
  | _ => True

/-- The thread behind its lock call is the one that has the mutex. -/
def LockInv (w : TaskWorld T α) : Prop :=
  ∀ t, w.holder = some t ↔ ∃ c, w.pc t = .locked c

theorem LockInv.update [DecidableEq T] (h : LockInv w) {t : T} {pc : TaskPc α}
    {holder : Option T} {tasks : Pending α} (hself : holder = some t ↔ ∃ c, pc = .locked c)
    (hother : ∀ t', t' ≠ t → (holder = some t' ↔ w.holder = some t')) :
    LockInv { tasks := tasks, holder := holder, pc := update w.pc t pc } := by
  intro t'
  by_cases ht : t' = t
  · subst ht
    simpa using hself
  · simpa [update_of_ne ht, hother t' ht] using h t'

theorem LockInv.balanced (h : LockInv w) : LockBalanced w := by
  intro t ht
  obtain ⟨c, hc⟩ := (h t).mp ht
  simp [hc]

theorem LockInv.startCall [DecidableEq T] (h : LockInv w) (t : T) (c : TaskCall α) :
    LockInv (startCall w t c) := by
  unfold Pdc.startCall
  split
  · next hpc =>
    split
    · exact h.update (by simpa [hpc] using h t) fun _ _ => Iff.rfl
    · exact h
  · exact h

theorem LockInv.goOn [DecidableEq T] (h : LockInv w) (t : T) :
    (LockBalanced (goOn w t) → FindsNothing w (t, .go)) ∧
      (FindsNothing w (t, .go) → LockInv (goOn w t)) := by
  simp only [Pdc.goOn, FindsNothing]
  cases hpc : w.pc t with
  | idle => simpa using h
  | relocking id => simpa using h
  | locking c =>
    refine ⟨fun _ id => by simp, fun _ => ?_⟩
    dsimp only
    split
    · next hfree => exact h.update (by simp) fun t' ht => by simp [hfree, ht.symm]
    · exact h
  | locked c =>
    have hholder : w.holder = some t := (h t).mpr ⟨c, hpc⟩
    have hfree : ∀ t', t' ≠ t → (none = some t' ↔ w.holder = some t') := fun t' ht => by
      simp [hholder, ht.symm]
    match c with
    | .op (.add x) => exact ⟨fun _ id => by simp, fun _ => h.update (by simp) hfree⟩
    | .op (.del id) => exact ⟨fun _ id => by simp, fun _ => h.update (by simp) hfree⟩
    | .op (.find id) =>
      dsimp only
      cases hfind : findTaskFromList w.tasks id with
      | none =>
        refine ⟨fun _ id' => ⟨by simp, fun heq => ?_⟩, fun _ => ?_⟩
        · cases heq
          exact hfind
        · exact h.update (by simp) (by simpa using hfree)
      | some x =>
        -- The call returns with the mutex in hand.
        refine ⟨fun hbal => ?_, fun hnone => ?_⟩
        · exact absurd (update_self ..) (hbal t (by simpa using hholder)).1
        · exact absurd ((hnone id).2 rfl) (by simp [hfind])
    | .delId id =>
      refine ⟨fun hbal => ?_, fun hnone => absurd rfl (hnone id).1⟩
      exact absurd (update_self ..) ((hbal t hholder).2.2 id)

/-- However the calls of any threads are interleaved, the mutex is balanced at every
moment just if no thread that has it finds a task, or deletes one by its id. -/
theorem lockBalanced_iff [DecidableEq T] (as : List (T × TaskEvent α)) :
    (∀ pre, pre <+: as → LockBalanced (run mutexStep {} pre)) ↔
      Along mutexStep FindsNothing {} as :=
  Along.forall_isPrefix_iff_of_invariant (I := fun _ => LockInv) (fun t => by simp)
    (fun _ _ h => h.balanced) fun
      | _, (t, .call c), _, _, h => ⟨fun _ => trivial, fun _ => h.startCall t c⟩
      | _, (t, .go), _, _, h => h.goOn t

/-- A thread adds a task and finds it. -/
theorem not_lockBalanced_found :
    ¬ ∀ pre, pre <+: [((), .call (.op (.add ()))), ((), .go), ((), .go),
        ((), .call (.op (.find 1000))), ((), .go), ((), TaskEvent.go)] →
      LockBalanced (run mutexStep {} pre) :=
  fun h => (h _ (prefix_refl _) () rfl).1 rfl

end Pdc
