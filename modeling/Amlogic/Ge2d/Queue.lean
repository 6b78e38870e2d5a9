import Amlogic.Base.Runs
import Amlogic.Ge2d.Gen

/-!
# GE2D: the queues of a context (`ge2d_wq.c`)

A context has 32 items, each on its free or on its work queue. A submitter copies its command and the
configuration of the context into the first free item and moves the item to the work queue; the worker takes
the items of a context one after another, runs them and moves them back. Only the moves are made under the lock
of the context. A step of the model is a lock section or one of the unlocked pieces of code between them.
-/

namespace Amlogic.Ge2d

def maxGe2dCmd : Nat := 32

structure QueueItem where
  cmd : Cmd := {}
  config : Config := {}

abbrev Order := Cmd × Config

/-- Where a submitter is in `ge2d_wq_add_work`: what it has been called for, and the item it has taken. -/
inductive Submitter where
  | idle
  | prepared (order : Order)
  | spaceFound (order : Order)
  | itemTaken (order : Order) (item : Nat)
  | cmdCopied (order : Order) (item : Nat)
  | cmdCleared (order : Order) (item : Nat)
  | configCopied (order : Order) (item : Nat)
  | flagCleared (order : Order) (item : Nat)
  | queued (item : Nat)
  | waiting (item : Nat)

/-- A submission has begun, and its item is not queued yet. -/
def Submitter.Busy : Submitter → Prop
  | .idle | .queued _ | .waiting _ => False
  | _ => True

/-- `struct ge2d_context_s`, its submitters, and what has become of their commands. -/
structure QueueContext where
  cmd : Cmd := {}
  config : Config := {}
  item : Nat → QueueItem := fun _ => {}
  freeQueue : List Nat := List.range maxGe2dCmd
  workQueue : List Nat := []
  submitter : Nat → Submitter := fun _ => .idle
  /-- The head of the empty free queue has been taken for an item. -/
  wild : Bool := false
  /-- The commands that have been queued, and those that have been run. -/
  accepted : List Order := []
  executed : List Order := []

/-- Where the worker is in the loop of `ge2d_process_work_queue`. -/
inductive Phase where
  | running (item : Nat)
  | ran (item : Nat)
  /-- The item is on the free queue, and what it used is being given back; `next` is the item behind it. -/
  | cleaning (item : Nat) (next : Option Nat)

inductive WorkerState where
  | asleep
  | scanning
  | selected (context : Nat)
  | processing (context : Nat) (phase : Phase)

structure QueueSystem where
  context : Nat → QueueContext := fun _ => {}
  processQueue : List Nat
  worker : WorkerState := .asleep
  cmdInSem : Nat := 1
  lastWq : Option Nat := none

namespace QueueContext

def setSubmitter (c : QueueContext) (th : Nat) (x : Submitter) : QueueContext :=
  { c with submitter := fun th' => if th' = th then x else c.submitter th' }

def setItem (c : QueueContext) (i : Nat) (x : QueueItem) : QueueContext :=
  { c with item := fun j => if j = i then x else c.item j }

def moveToWork (c : QueueContext) (i : Nat) : QueueContext :=
  { c with freeQueue := c.freeQueue.erase i, workQueue := c.workQueue.erase i ++ [i] }

def moveToFree (c : QueueContext) (i : Nat) : QueueContext :=
  { c with workQueue := c.workQueue.erase i, freeQueue := c.freeQueue.erase i ++ [i] }

def nextWork (c : QueueContext) (i : Nat) : Option Nat := ((c.workQueue.dropWhile (· ≠ i)).drop 1).head?

/-! ## Submitting: `ge2d_wq_add_work` -/

/-- The next step of a submitter within its context. -/
def submit (c : QueueContext) (th : Nat) : Option QueueContext :=
  match c.submitter th with
  | .idle | .queued _ => none
  | .prepared o => some (c.setSubmitter th (if c.freeQueue = [] then .idle else .spaceFound o))
  | .spaceFound o =>
    match c.freeQueue with
    | [] => some { c.setSubmitter th .idle with wild := true }
    | i :: _ => some (c.setSubmitter th (.itemTaken o i))
  | .itemTaken o i => some ((c.setItem i { c.item i with cmd := c.cmd }).setSubmitter th (.cmdCopied o i))
  | .cmdCopied o i => some ({ c with cmd := {} }.setSubmitter th (.cmdCleared o i))
  | .cmdCleared o i =>
    some ((c.setItem i { c.item i with config := c.config }).setSubmitter th (.configCopied o i))
  | .configCopied o i =>
    some ({ c with config := { c.config with updateFlag := 0 } }.setSubmitter th (.flagCleared o i))
  | .flagCleared o i =>
    some { (c.moveToWork i).setSubmitter th (.queued i) with accepted := c.accepted ++ [o] }
  | .waiting i => if (c.item i).cmd.waitDoneFlag = 0 then some (c.setSubmitter th .idle) else none

/-! ## Working: `ge2d_process_work_queue` -/

/-- The first item; the registers hold another context unless `same`. -/
def start (c : QueueContext) (same : Bool) : Option (Phase × QueueContext) :=
  match c.workQueue with
  | [] => none
  | i :: _ =>
    some (.running i,
      if same then c
      else c.setItem i { c.item i with config := { (c.item i).config with updateFlag := updateAll } })

/-- The configuration is programmed, the command is started, and the engine has finished. -/
def run (c : QueueContext) (i : Nat) : QueueContext :=
  let x := c.item i
  { c.setItem i ⟨{ x.cmd with hangFlag := 1 },
      { x.config with updateFlag := x.config.updateFlag &&& ~~~ updateAll }⟩ with
    executed := c.executed ++ [(x.cmd, x.config)] }

/-- A waiting submitter is woken, and the item is moved to the free queue. -/
def finish (c : QueueContext) (i : Nat) : Phase × QueueContext :=
  let c' := (c.setItem i { c.item i with cmd := { (c.item i).cmd with waitDoneFlag := 0 } }).moveToFree i
  (.cleaning i (c.nextWork i), c')

def clean (c : QueueContext) (i : Nat) : QueueContext :=
  let x := c.item i
  c.setItem i { x with config :=
    { x.config with dmaCfg := fun d p => { x.config.dmaCfg d p with dmaUsed := false } } }

end QueueContext

/-- The first context with work, behind which the head of the list is moved. -/
def nextWorkQueue (processQueue : List Nat) (hasWork : Nat → Bool) : Option (Nat × List Nat) :=
  match processQueue.find? hasWork with
  | none => none
  | some k => some (k, (processQueue.dropWhile (· ≠ k)).drop 1 ++ processQueue.takeWhile (· ≠ k) ++ [k])

namespace QueueSystem

def setContext (s : QueueSystem) (k : Nat) (c : QueueContext) : QueueSystem :=
  { s with context := fun k' => if k' = k then c else s.context k' }

def getNextWorkQueue (s : QueueSystem) : Option (Nat × List Nat) :=
  nextWorkQueue s.processQueue fun k => !(s.context k).workQueue.isEmpty

/-- The next step of the worker, `ge2d_monitor_thread`. -/
def workerStep (s : QueueSystem) : Option QueueSystem :=
  match s.worker with
  | .asleep => if s.cmdInSem = 0 then none else some { s with worker := .scanning, cmdInSem := s.cmdInSem - 1 }
  | .scanning =>
    match s.getNextWorkQueue with
    | none => some { s with worker := .asleep }
    | some (k, queue) => some { s with worker := .selected k, processQueue := queue }
  | .selected k =>
    match (s.context k).start (s.lastWq = some k) with
    | none => some { s with worker := .scanning }
    | some (phase, c) => some { s.setContext k c with worker := .processing k phase }
  | .processing k (.running i) =>
    some { s.setContext k ((s.context k).run i) with worker := .processing k (.ran i) }
  | .processing k (.ran i) =>
    let (phase, c) := (s.context k).finish i
    some { s.setContext k c with worker := .processing k phase }
  | .processing k (.cleaning i next) =>
    let s' := s.setContext k ((s.context k).clean i)
    match next with
    | some j => some { s' with worker := .processing k (.running j) }
    | none => some { s' with worker := .scanning, lastWq := some k }

end QueueSystem

/-- The steps: a submitter fills in the command and the configuration of its context; a submitter goes on; the
worker goes on. -/
inductive QueueEvent where
  | prepare (context th : Nat) (order : Order)
  | submit (context th : Nat)
  | work

namespace QueueEvent

def next (s : QueueSystem) : QueueEvent → Option QueueSystem
  | prepare k th o =>
    match (s.context k).submitter th with
    | .idle =>
      if k ∈ s.processQueue then
        some (s.setContext k ({ s.context k with cmd := o.1, config := o.2 }.setSubmitter th (.prepared o)))
      else none
    | _ => none
  | submit k th =>
    match (s.context k).submitter th with
    | .queued i =>
      -- the count is read without the lock of the semaphore
      some { s.setContext k ((s.context k).setSubmitter th (.waiting i)) with
        cmdInSem := if s.cmdInSem = 0 then 1 else s.cmdInSem }
    | _ => ((s.context k).submit th).map (s.setContext k)
  | work => s.workerStep

def Step (s : QueueSystem) (e : QueueEvent) (s' : QueueSystem) : Prop := next s e = some s'

end QueueEvent

/-- The contexts are there, and nothing has been submitted. -/
def QueueSystem.init (contexts : List Nat) : QueueSystem := { processQueue := contexts }

/-! ## The list of contexts -/

/-- What happens to `process_queue`, each under `sem_lock`: `get_next_work_queue`, with the work queues that it finds
filled, and the parts of `create_ge2d_work_queue` and `destroy_ge2d_work_queue`. -/
inductive RotationEvent where
  | select (hasWork : Nat → Bool)
  | create (context : Nat)
  | destroy (context : Nat)

namespace RotationEvent

/-- The list after an event; a context that is created is not in the list. -/
def next (queue : List Nat) : RotationEvent → List Nat
  | select hasWork => ((nextWorkQueue queue hasWork).map Prod.snd).getD queue
  | create k => if k ∈ queue then queue else queue ++ [k]
  | destroy k => queue.erase k

def selected (queue : List Nat) : RotationEvent → Option Nat
  | select hasWork => (nextWorkQueue queue hasWork).map Prod.fst
  | create _ | destroy _ => none

def steps (queue : List Nat) : List RotationEvent → List (List Nat × RotationEvent)
  | [] => []
  | e :: es => (queue, e) :: steps (e.next queue) es

end RotationEvent

end Amlogic.Ge2d
