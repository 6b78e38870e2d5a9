import Amlogic.Base.Runs

/-!
# The vblank worker

`DrmVsyncWorker` runs a thread that waits for the vertical blank and calls the registered callback; while
vsync is disabled it sleeps on a condition variable. A step is one section under the lock, one
notification, one wait for the vertical blank or one callback, and the steps of all threads interleave.
-/

namespace Amlogic.Display

/-- Where `WorkThread` is: before the section of `WaitSignalAndCheckRuning`, in `mCondition.wait`, in
`WaitNextVBlank`, before the callback, or out of its loop. -/
inductive WorkPlace
  | check
  | asleep (notified : Bool)
  | vblank
  | callback
  | left
deriving DecidableEq

/-- `notify_one`: the worker is the only thread that waits. -/
def WorkPlace.notify : WorkPlace → WorkPlace
  | .asleep _ => .asleep true
  | p => p

structure DrmVsyncWorker where
  mEnable : Bool
  mRunning : Bool
  mCallBack : Bool
  thread : WorkPlace
  seq : Nat
  time : Nat
  inited : Bool
  destroyed : Bool
  /-- Calls that have left the lock and not notified yet. -/
  notifying : Nat
  /-- The callbacks so far, the waits for the vertical blank, and the steps of the thread. -/
  calls : List (Nat × Nat)
  waits : Nat
  turns : Nat

/-- `Init` with a valid descriptor, when it has started the thread. -/
def DrmVsyncWorker.started : DrmVsyncWorker :=
  ⟨false, false, false, .check, 0, 0, false, false, 0, [], 0, 0⟩

inductive VsyncEvent
  /-- The last statement of `Init`: `mRunning = true`, without the lock. -/
  | setRunning
  | enableVsync (enable : Bool)
  /-- The `notify_one` of an `EnableVsync` or of the destructor. -/
  | notify
  | reqesterVBlankCb (cb : Bool)
  /-- The destructor's section; it joins the thread after its notification. -/
  | destroy
  /-- The next step of the thread; `reply` is the driver's answer to a wait for the vertical blank. -/
  | work (reply : Option (Nat × Nat))

namespace DrmVsyncWorker

/-- The predicate of `mCondition.wait`, and the result of the loop's condition. -/
def waitSignalAndCheckRuning (s : DrmVsyncWorker) : WorkPlace :=
  if s.mEnable || !s.mRunning then if s.mRunning then .vblank else .left else .asleep false

def work (s : DrmVsyncWorker) (reply : Option (Nat × Nat)) : Option DrmVsyncWorker :=
  match s.thread with
  | .check => some { s with thread := s.waitSignalAndCheckRuning }
  -- Without a notification this is a spurious wake-up; the predicate is tested again in any case.
  | .asleep _ => some { s with thread := .check }
  | .vblank =>
    -- A failed wait gives the time 0, leaves `seq` as it is and is followed by the callback too.
    some { s with
      thread := .callback, waits := s.waits + 1
      seq := (reply.map Prod.fst).getD s.seq, time := (reply.map Prod.snd).getD 0 }
  | .callback =>
    some { s with thread := .check, calls := if s.mCallBack then s.calls ++ [(s.seq, s.time)] else s.calls }
  | .left => none

def next (s : DrmVsyncWorker) : VsyncEvent → Option DrmVsyncWorker
  | .setRunning => if s.inited then none else some { s with mRunning := true, inited := true }
  | .enableVsync enable => some { s with mEnable := enable, notifying := s.notifying + 1 }
  | .notify =>
    if s.notifying = 0 then none
    else some { s with notifying := s.notifying - 1, thread := s.thread.notify }
  -- A null callback is refused.
  | .reqesterVBlankCb cb => some { s with mCallBack := cb || s.mCallBack }
  | .destroy =>
    if s.inited && !s.destroyed then
      some { s with mRunning := false, destroyed := true, notifying := s.notifying + 1 }
    else none
  | .work reply => (s.work reply).map fun w => { w with turns := w.turns + 1 }

def Step (s : DrmVsyncWorker) (e : VsyncEvent) (s' : DrmVsyncWorker) : Prop :=
  s.next e = some s'

/-- The thread takes its first section when `Init` has stored `mRunning`. -/
def Prompt (s : DrmVsyncWorker) : VsyncEvent → Prop
  | .work _ => s.thread = .check → s.inited = true
  | _ => True

/-- Vsync is not disabled and the worker is not destroyed. -/
def Wanted (_ : DrmVsyncWorker) : VsyncEvent → Prop
  | .enableVsync enable => enable = true
  | .destroy => False
  | _ => True

/-- Vsync is not enabled. -/
def Disabled (_ : DrmVsyncWorker) : VsyncEvent → Prop
  | .enableVsync enable => enable = false
  | _ => True

end DrmVsyncWorker

end Amlogic.Display
