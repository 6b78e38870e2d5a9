import Amlogic.Keeper.Keeper

/-!
# The keeper and several threads

Clients mask and unmask handles in critical sections, while passes free the handles: the pass of the monitor, and those
of other threads. A pass looks at an entry without the lock, takes the handle out of the table in a critical
section, and then releases it.
-/

namespace Amlogic.Keeper

/-- Where a thread is in `codec_mm_keeper_free_all_keep`. -/
inductive Pass where
  | idle
  | test (force : Word) (i : Nat)
  | free (force : Word) (i : Nat)
  | release (force : Word) (i : Nat) (handle : Nat)
  deriving DecidableEq

inductive PassEvent where
  | kept (handle : Nat)
  /-- A pass takes the handle out of the table, with the number of its users. -/
  | freed (handle : Nat) (force user : Word)
  | released (handle : Nat)
  deriving DecidableEq

structure Threads where
  mgr : Mgr
  passes : List Pass
  log : List PassEvent

inductive Act where
  | mask (handle : Option Nat) (type : MemType) (granted : Bool)
  | unmask (keepId : Word) (delay : BitVec 64)
  | begin (t : Nat) (force : Word)
  | test (t : Nat) (now : BitVec 64)
  | free (t : Nat)
  | release (t : Nat)

def recordKept (handle : Option Nat) (new : Bool) (log : List PassEvent) : List PassEvent :=
  match handle with
  | some h => if new then log ++ [.kept h] else log
  | none => log

def Threads.goto (s : Threads) (t : Nat) (p : Pass) : Threads := { s with passes := s.passes.set t p }

def Act.exec (s : Threads) : Act → Option Threads
  | .mask handle type granted =>
    let (_, new, m) := codecMmKeeperMaskKeepMem handle type granted s.mgr
    some { s with mgr := m, log := recordKept handle new s.log }
  | .unmask keepId delay => some { s with mgr := (codecMmKeeperUnmaskKeeper keepId delay s.mgr).2 }
  | .begin t force =>
    match s.passes[t]? with
    | some .idle => some (s.goto t (.test force 0))
    | _ => none
  | .test t now =>
    match s.passes[t]? with
    | some (.test force i) =>
      match s.mgr.keepList[i]? with
      | none => some (s.goto t .idle)
      | some e => some (s.goto t (if wantFree force now e then .free force i else .test force (i + 1)))
    | _ => none
  | .free t =>
    match s.passes[t]? with
    | some (.free force i) =>
      let user := (s.mgr.keepList[i]?.map KeepMemInfo.user).getD 0
      match freeKeep i s.mgr with
      | (some handle, m) =>
        some { s.goto t (.release force i handle) with mgr := m, log := s.log ++ [.freed handle force user] }
      | (none, m) => some { s.goto t (.test force (i + 1)) with mgr := m }
    | _ => none
  | .release t =>
    match s.passes[t]? with
    | some (.release force i handle) =>
      some { s.goto t (.test force (i + 1)) with log := s.log ++ [.released handle] }
    | _ => none

def Act.Step (s : Threads) (a : Act) (s' : Threads) : Prop := a.exec s = some s'

def Threads.start (n : Nat) : Threads := ⟨codecMmKeeperMgrInit, List.replicate n .idle, []⟩

end Amlogic.Keeper
