import Amlogic.Base.Runs

/-!
# The keeper (`codec_mm/codec_mm_keeper.c`)

A client that still shows a picture asks the keeper to keep its memory. The keeper has a table of 16 handles, holds a
reference to the memory of each, and gives it back some time after the client has unmasked the handle.

The allocators are not modelled here: `granted` says whether they give the keeper a reference. Times are in
jiffies.
-/

namespace Amlogic.Keeper

abbrev Word := BitVec 32

def maxKeepFrame : Nat := 16
def startKeepId : Word := 9
def maxKeepId : Word := 0x7ffffffe

/-- The type of a handle: `MEM_TYPE_CODEC_MM`, `MEM_TYPE_CODEC_MM_SCATTER`, or anything else. -/
inductive MemType where
  | codecMm
  | codecMmScatter
  | invalid
  deriving DecidableEq

structure KeepMemInfo where
  handle : Option Nat
  keepId : Word
  type : MemType
  user : Word
  delayOnJiffies64 : BitVec 64
  deriving DecidableEq

structure Mgr where
  num : Word
  keepList : List KeepMemInfo
  nextId : Word
  deriving DecidableEq

def codecMmKeeperMgrInit : Mgr := ⟨0, List.replicate maxKeepFrame ⟨none, 0, .invalid, 0, 0⟩, startKeepId⟩

/-! ## Mask -/

/-- The loop of `codec_mm_keeper_mask_keep_mem`, from entry `i` on: `slot_i`, and the id of an entry with the same
handle. -/
def scan (handle : Nat) : List KeepMemInfo → Nat → Option Nat → Option Nat × Option Word
  | [], _, slot => (slot, none)
  | e :: es, i, slot =>
    if e.handle = none ∧ slot = none then scan handle es (i + 1) (some i)
    else if e.handle = some handle then (slot, some e.keepId)
    else scan handle es (i + 1) slot

def nextIdAfter (nextId : Word) : Word :=
  if maxKeepId.toInt ≤ (nextId + 1).toInt then startKeepId else nextId + 1

/-- The critical section of `codec_mm_keeper_mask_keep_mem`: the id, and whether the handle is new in the table. If
it is not, the reference is given back. -/
def maskSection (handle : Nat) (type : MemType) (m : Mgr) : Word × Bool × Mgr :=
  let m' := { m with nextId := nextIdAfter m.nextId }
  match scan handle m.keepList 0 none with
  | (_, some keepId) => (keepId, false, m')
  | (none, none) => (-1, false, m')
  | (some i, none) =>
    (m.nextId, true, { m' with
      keepList := m.keepList.modify i fun e =>
        { e with handle := some handle, keepId := m.nextId, type := type, user := 1 }
      num := m.num + 1 })

/-- `codec_mm_keeper_mask_keep_mem`: what it returns, whether the handle is new in the table, and the keeper. -/
def codecMmKeeperMaskKeepMem (handle : Option Nat) (type : MemType) (granted : Bool) (m : Mgr) : Word × Bool × Mgr :=
  match handle with
  | none => (-2, false, m)
  | some handle =>
    if type = .invalid then (-3, false, m)
    else if !granted then (-4, false, m)
    else maskSection handle type m

/-! ## Unmask -/

/-- `codec_mm_keeper_unmask_keeper`, with the time from which on the handle may be freed. -/
def codecMmKeeperUnmaskKeeper (keepId : Word) (delay : BitVec 64) (m : Mgr) : Word × Mgr :=
  if keepId.toInt < startKeepId.toInt ∨ maxKeepId.toInt ≤ keepId.toInt then (-1, m)
  else
    match m.keepList.findIdx? fun e => e.keepId = keepId with
    | none => (0, m)
    | some i =>
      (0, { m with keepList := m.keepList.modify i fun e => { e with user := e.user - 1, delayOnJiffies64 := delay } })

/-! ## Free -/

def timeAfter64 (a b : BitVec 64) : Bool := (b - a).slt 0

/-- The test of `codec_mm_keeper_free_all_keep`. -/
def wantFree (force : Word) (now : BitVec 64) (e : KeepMemInfo) : Bool :=
  if e.handle = none ∨ e.keepId.toInt < 0 then false
  else force = 1 || (force = 2 && e.user.sle 0) || (e.user.sle 0 && timeAfter64 now e.delayOnJiffies64)

/-- The critical section of `codec_mm_keeper_free_keep`: the handle that is to be released. -/
def freeKeep (index : Nat) (m : Mgr) : Option Nat × Mgr :=
  (m.keepList[index]?.bind KeepMemInfo.handle,
    { m with
      keepList := m.keepList.modify index fun e => { e with handle := none, delayOnJiffies64 := 0 }
      num := m.num - 1 })

/-- A round of `codec_mm_keeper_free_all_keep`. -/
def freeRound (force : Word) (now : BitVec 64) (m : Mgr) (i : Nat) : Option Nat × Mgr :=
  match m.keepList[i]? with
  | none => (none, m)
  | some e => if wantFree force now e then freeKeep i m else (none, m)

/-! ## Calls one after the other -/

/-- What the clients and the keeper do. -/
inductive Event where
  | masked (handle : Nat) (keepId : Word)
  | unmasked (keepId : Word)
  | released (handle : Nat)
  deriving DecidableEq

structure State where
  mgr : Mgr
  log : List Event

/-- A call of a client, or a pass of the keeper. -/
inductive Call where
  | mask (handle : Option Nat) (type : MemType) (granted : Bool)
  | unmask (keepId : Word) (delay : BitVec 64)
  /-- `codec_mm_keeper_free_all_keep`, with the time of each round. -/
  | freeAllKeep (force : Word) (now : Nat → BitVec 64)

def passRound (force : Word) (now : Nat → BitVec 64) (s : State) (i : Nat) : State :=
  let (handle, m) := freeRound force (now i) s.mgr i
  ⟨m, s.log ++ (handle.map Event.released).toList⟩

def recordMask (handle : Option Nat) (keepId : Word) (log : List Event) : List Event :=
  match handle with
  | some h => if keepId.toInt < 0 then log else log ++ [.masked h keepId]
  | none => log

def Call.exec (s : State) : Call → State
  | .mask handle type granted =>
    let (keepId, _, m) := codecMmKeeperMaskKeepMem handle type granted s.mgr
    ⟨m, recordMask handle keepId s.log⟩
  | .unmask keepId delay => ⟨(codecMmKeeperUnmaskKeeper keepId delay s.mgr).2, s.log ++ [.unmasked keepId]⟩
  | .freeAllKeep force now => (List.range maxKeepFrame).foldl (passRound force now) s

def Call.Unforced : Call → Prop
  | .freeAllKeep force _ => force ≠ 1
  | _ => True

def Call.Step (s : State) (c : Call) (s' : State) : Prop := c.Unforced ∧ s' = c.exec s

def start : State := ⟨codecMmKeeperMgrInit, []⟩

end Amlogic.Keeper
