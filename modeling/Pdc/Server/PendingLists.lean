import Mathlib.Data.List.Basic

/-!
# Lists of pending work

A server keeps the tasks it waits for in a list (`pdc_client_server_common.c`),
a client its requests (`pdc_client_connect.c`). An entry gets the next number of
a counter when it is added and is looked up by that number later on. The counter
of the client also moves on when a request is deleted. Both look-ups check the
number first, against bounds of their own.

A deletion is given a pointer to an entry, which is written as the number of the
entry here. The counters are `int`s; a run is meant to end before they overflow.

With `ENABLE_MULTITHREAD` the tasks are guarded by a mutex. It is not recursive:
a thread that tries to take it while it holds it waits for good. Every call that
gets past its checks first waits for the mutex. `PDC_find_task_from_list` unlocks
it behind the loop, and a task that is found leaves the loop with a jump to the
end of the function. `PDC_del_task_from_list_id` calls it with the mutex taken.
-/

namespace Pdc

/-- A list of entries with their numbers, and the counter. -/
structure Pending (α : Type) where
  entries : List (Int × α) := []
  -- PDC_SERVER_TASK_INIT_VALUE, PDC_SEQ_ID_INIT_VALUE
  nextId : Int := 1000

/-- A call on such a list. -/
inductive PendingOp (α : Type) where
  | add (x : α)
  | find (id : Int)
  | del (id : Int)
  deriving DecidableEq

variable {α : Type}

def addTaskToList (s : Pending α) (x : α) : Pending α :=
  { entries := s.entries ++ [(s.nextId, x)], nextId := s.nextId + 1 }

def delTaskFromList (s : Pending α) (id : Int) : Pending α :=
  { s with entries := s.entries.filter (·.1 ≠ id) }

def isValidTaskId (id : Int) : Bool := !(id < 1000 || id > 10000)

def findTaskFromList (s : Pending α) (id : Int) : Option α :=
  if isValidTaskId id then (s.entries.find? (·.1 = id)).map Prod.snd else none

def addRequestToList (s : Pending α) (x : α) : Pending α :=
  { entries := (s.nextId, x) :: s.entries, nextId := s.nextId + 1 }

/-- `PDC_del_request_from_list`. The request that is taken out gets another number. -/
def delRequestFromList (s : Pending α) (id : Int) : Pending α :=
  { entries := s.entries.filter (·.1 ≠ id), nextId := s.nextId + 1 }

/-- `PDC_find_request_from_list_by_seq_id`. The loop goes on to the end of the list. -/
def findRequestFromListBySeqId (s : Pending α) (seqId : Int) : Option α :=
  if seqId < 1000 ∨ seqId > 99999 then none
  else (s.entries.filter (·.1 = seqId)).getLast?.map Prod.snd

def taskListStep (s : Pending α) : PendingOp α → Pending α
  | .add x => addTaskToList s x
  | .find _ => s
  | .del id => delTaskFromList s id

def requestListStep (s : Pending α) : PendingOp α → Pending α
  | .add x => addRequestToList s x
  | .find _ => s
  | .del id => delRequestFromList s id

/-! ## The mutex -/

/-- A call by a thread: one of the above, or `PDC_del_task_from_list_id`. -/
inductive TaskCall (α : Type) where
  | op (o : PendingOp α)
  | delId (id : Int)

/-- Where a thread is. -/
inductive TaskPc (α : Type) where
  | idle
  /-- At the call that takes the mutex. -/
  | locking (c : TaskCall α)
  /-- Behind it. -/
  | locked (c : TaskCall α)
  /-- At that call in the search that `PDC_del_task_from_list_id` makes. -/
  | relocking (id : Int)

/-- The list, the thread that has the mutex, and the threads. -/
structure TaskWorld (T α : Type) where
  tasks : Pending α := {}
  holder : Option T := none
  pc : T → TaskPc α := fun _ => .idle

/-- A thread makes a call, or goes on with the one it has made. -/
inductive TaskEvent (α : Type) where
  | call (c : TaskCall α)
  | go

variable {T : Type} [DecidableEq T]

/-- A call returns at once if its id is not valid. -/
def TaskCall.passes : TaskCall α → Bool
  | .op (.find id) => isValidTaskId id
  | .op _ => true
  | .delId id => isValidTaskId id

/-- A thread makes a call, if it is not in one. -/
def startCall (w : TaskWorld T α) (t : T) (c : TaskCall α) : TaskWorld T α :=
  match w.pc t with
  | .idle => if c.passes then { w with pc := Function.update w.pc t (.locking c) } else w
  | _ => w

/-- A thread goes on with its call. It stays where it is if the mutex is taken. -/
def goOn (w : TaskWorld T α) (t : T) : TaskWorld T α :=
  match w.pc t with
  | .idle => w
  | .locking c =>
    if w.holder = none then
      { w with holder := some t, pc := Function.update w.pc t (.locked c) }
    else w
  | .locked (.op (.find id)) =>
    { w with
      -- A task that is found is returned without the unlock behind the loop.
      holder := if (findTaskFromList w.tasks id).isSome then w.holder else none
      pc := Function.update w.pc t .idle }
  | .locked (.op o) =>
    { tasks := taskListStep w.tasks o, holder := none, pc := Function.update w.pc t .idle }
  | .locked (.delId id) => { w with pc := Function.update w.pc t (.relocking id) }
  -- The thread has the mutex itself.
  | .relocking _ => w

def mutexStep (w : TaskWorld T α) : T × TaskEvent α → TaskWorld T α
  | (t, .call c) => startCall w t c
  | (t, .go) => goOn w t

end Pdc
