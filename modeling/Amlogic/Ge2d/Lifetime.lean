import Amlogic.Ge2d.Queue

/-!
# GE2D: the lifetime of a context (`ge2d_wq.c`)

`create_ge2d_work_queue` links a context into the process queue, `destroy_ge2d_work_queue` unlinks it, waits for
the worker if it finds it at work on the context, and frees the items and the context. The worker selects a
context under the lock of the process queue and uses it and its items without that lock. A step of the model is
a lock section or one of the unlocked pieces of code between them. A context is named by its number, which is
not used again.
-/

namespace Amlogic.Ge2d

/-- What is allocated: a context, or an item of a context. -/
inductive Object where
  | context (k : Nat)
  | item (k i : Nat)
deriving DecidableEq

/-- Where `destroy_ge2d_work_queue` is. -/
inductive Destroy where
  | notCalled
  | unlinked
  /-- `ge2d_request_exit` is set, and `process_complete` is waited for. -/
  | requested
  | waited
  | freeing
  | done
deriving DecidableEq

/-- `struct ge2d_context_s`, as far as the lifetime goes, and the call that destroys it. -/
structure LifeContext where
  workQueue : List Nat := []
  freeQueue : List Nat := List.range maxGe2dCmd
  ge2dRequestExit : Bool := false
  destroy : Destroy := .notCalled

/-- Where the worker is in `ge2d_monitor_thread` and `ge2d_process_work_queue`. -/
inductive WorkerAt where
  | waiting
  | scanning
  /-- `get_next_work_queue` has returned; `current_wq` is not set yet. -/
  | found (next : Option Nat)
  /-- The first test of `ge2d_request_exit` is next. -/
  | entered (k : Nat)
  /-- `ge2d_state` is to be set to running. -/
  | tested (k : Nat)
  /-- The first item is to be read. -/
  | running (k : Nat)
  | programming (k i : Nat)
  /-- The command has been run; the item is to be moved to the free queue. -/
  | ran (k i : Nat)
  | cleaning (k i : Nat) (next : Option Nat)
  /-- `last_wq` is to be set. -/
  | leaving (k : Nat)
  /-- The second test of `ge2d_request_exit` is next. -/
  | exiting (k : Nat)
  /-- `complete(&process_complete)` is next. -/
  | completing (k : Nat)
  /-- `ge2d_state` is to be set to idle. -/
  | idling (k : Nat)
deriving DecidableEq

/-- `struct ge2d_manager_s` with the contexts and the worker. -/
structure Lifetime where
  created : Nat := 0
  context : Nat → LifeContext := fun _ => {}
  processQueue : List Nat := []
  currentWq : Option Nat := none
  lastWq : Option Nat := none
  running : Bool := false
  cmdInSem : Nat := 1
  processComplete : Nat := 0
  worker : WorkerAt := .waiting
  freed : List Object := []

namespace Lifetime

def setContext (s : Lifetime) (k : Nat) (c : LifeContext) : Lifetime :=
  { s with context := fun k' => if k' = k then c else s.context k' }

/-! ## The worker -/

def work (s : Lifetime) : Option Lifetime :=
  match s.worker with
  | .waiting => if s.cmdInSem = 0 then none else some { s with worker := .scanning, cmdInSem := s.cmdInSem - 1 }
  | .scanning =>
    match nextWorkQueue s.processQueue fun k => !(s.context k).workQueue.isEmpty with
    | none => some { s with worker := .found none }
    | some (k, queue) => some { s with worker := .found (some k), processQueue := queue }
  | .found none => some { s with worker := .waiting, currentWq := none }
  | .found (some k) => some { s with worker := .entered k, currentWq := some k }
  | .entered k => some { s with worker := if (s.context k).ge2dRequestExit then .exiting k else .tested k }
  | .tested k => some { s with worker := .running k, running := true }
  | .running k =>
    match (s.context k).workQueue with
    | [] => some { s with worker := .exiting k }
    | i :: _ => some { s with worker := .programming k i }
  | .programming k i => some { s with worker := .ran k i }
  | .ran k i =>
    let c := s.context k
    some { s.setContext k { c with workQueue := c.workQueue.erase i, freeQueue := c.freeQueue.erase i ++ [i] } with
      worker := .cleaning k i ((c.workQueue.dropWhile (· ≠ i)).drop 1).head? }
  | .cleaning k _ (some j) => some { s with worker := .programming k j }
  | .cleaning k _ none => some { s with worker := .leaving k }
  | .leaving k => some { s with worker := .exiting k, lastWq := some k }
  | .exiting k => some { s with worker := if (s.context k).ge2dRequestExit then .completing k else .idling k }
  | .completing k => some { s with worker := .idling k, processComplete := s.processComplete + 1 }
  | .idling _ => some { s with worker := .scanning, running := false }

/-- What the next step of the worker reads or changes of contexts and items. -/
def uses (s : Lifetime) : List Object :=
  match s.worker with
  | .scanning => s.processQueue.map .context
  | .entered k | .exiting k => [.context k]
  | .running k =>
    -- the first item is changed if the registers hold another context
    .context k :: if s.lastWq = some k then [] else ((s.context k).workQueue.take 1).map (.item k)
  | .programming k i | .cleaning k i _ => [.item k i]
  | .ran k i => [.context k, .item k i]
  | .waiting | .found _ | .tested _ | .leaving _ | .completing _ | .idling _ => []

/-! ## Destroying: `destroy_ge2d_work_queue` -/

def isCurrent (s : Lifetime) (k : Nat) : Prop := s.currentWq = some k ∧ s.running = true

instance (s : Lifetime) (k : Nat) : Decidable (s.isCurrent k) := inferInstanceAs (Decidable (_ ∧ _))

/-- The next item of a context is freed, or, when there is none left, the context. -/
def freeNext (s : Lifetime) (k : Nat) : Lifetime :=
  let c := s.context k
  match c.workQueue, c.freeQueue with
  | i :: work, _ => { s.setContext k { c with workQueue := work } with freed := .item k i :: s.freed }
  | [], i :: free => { s.setContext k { c with freeQueue := free } with freed := .item k i :: s.freed }
  | [], [] => { s.setContext k { c with destroy := .done } with freed := .context k :: s.freed }

def destroy (s : Lifetime) (k : Nat) : Option Lifetime :=
  let c := s.context k
  match c.destroy with
  | .notCalled =>
    if k ∈ s.processQueue then
      some { s.setContext k { c with destroy := .unlinked } with processQueue := s.processQueue.filter (· ≠ k) }
    else none
  | .unlinked =>
    if s.isCurrent k then some (s.setContext k { c with ge2dRequestExit := true, destroy := .requested })
    else some (s.setContext k { c with destroy := .freeing })
  | .requested =>
    if s.processComplete = 0 then none
    else some { s.setContext k { c with destroy := .waited } with processComplete := s.processComplete - 1 }
  | .waited => some { s.setContext k { c with destroy := .freeing } with lastWq := none }
  | .freeing => some (s.freeNext k)
  | .done => none

def expire (s : Lifetime) (k : Nat) : Option Lifetime :=
  let c := s.context k
  if c.destroy = .requested ∧ s.processComplete = 0 then some (s.setContext k { c with destroy := .waited })
  else none

end Lifetime

/-- The steps: a context is created; a command is queued; the worker, or a call that destroys a context, goes on;
the wait of such a call expires. -/
inductive LifeEvent where
  | create
  | submit (k : Nat)
  | work
  | destroy (k : Nat)
  | expire (k : Nat)

namespace LifeEvent

def next (s : Lifetime) : LifeEvent → Option Lifetime
  | create =>
    some { s.setContext s.created {} with
      created := s.created + 1, processQueue := s.processQueue ++ [s.created] }
  | submit k =>
    if k < s.created then
      match (s.context k).freeQueue with
      | [] => none
      | i :: free =>
        let c := s.context k
        some { s.setContext k { c with workQueue := c.workQueue ++ [i], freeQueue := free } with
          cmdInSem := if s.cmdInSem = 0 then 1 else s.cmdInSem }
    else none
  | work => s.work
  | destroy k => s.destroy k
  | expire k => s.expire k

def Step (s : Lifetime) (e : LifeEvent) (s' : Lifetime) : Prop := next s e = some s'

end LifeEvent

end Amlogic.Ge2d
