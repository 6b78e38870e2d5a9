import Mathlib

/-!
# The canvas pool (`canvas/canvas_mgr.c`)

A canvas is an entry of a table of the hardware, and the pool says which driver owns it. Some canvases are
registered for a driver once and for all; the others are handed out one by one, or a few in a row.
-/

namespace Amlogic.Canvas

/-- `CANVAS_MAX_NUM`, which is what `canvas_max` is set to. -/
def canvasMaxNum : Nat := 256

structure CanvasInfo where
  owner : Option String
  oldowner : Option String
  fixedOnwer : Bool
  deriving DecidableEq

structure CanvasPool where
  freeNum : Int
  info : Nat → CanvasInfo
  canvasMap : Nat → Bool
  nextAllocedIndex : Nat

/-! ## Single canvases -/

def findNextZeroBit (map : Nat → Bool) (size start : Nat) : Nat :=
  ((List.range' start (size - start)).find? fun i => !map i).getD size

/-- The search of `canvas_pool_map_alloc_canvas_in`: it starts again once, at 1. -/
def nextFree (map : Nat → Bool) (startIndex : Nat) : Option Nat :=
  let i := findNextZeroBit map canvasMaxNum startIndex
  if i < canvasMaxNum then some i
  else if startIndex ≤ 1 then none
  else
    let i := findNextZeroBit map canvasMaxNum 1
    if i < canvasMaxNum then some i else none

def CanvasPool.hold (p : CanvasPool) (i : Nat) (owner : String) : CanvasPool :=
  { p with
    canvasMap := Function.update p.canvasMap i true
    info := Function.update p.info i { p.info i with owner := some owner, oldowner := some owner } }

/-- `canvas_pool_map_alloc_canvas_in`, without other threads: the bit that was found is still clear. -/
def canvasPoolMapAllocCanvasIn (owner : String) (p : CanvasPool) : Int × CanvasPool :=
  match nextFree p.canvasMap p.nextAllocedIndex with
  | none => (-1, p)
  | some i =>
    let p := p.hold i owner
    if 0 < i then
      (i, { p with
        nextAllocedIndex := if i + 1 < canvasMaxNum then i + 1 else 1
        freeNum := p.freeNum - 1 })
    else (i, p)

def canvasPoolMapFreeCanvas (index : Int) (p : CanvasPool) : CanvasPool :=
  if 0 ≤ index ∧ index < canvasMaxNum then
    let i := index.toNat
    { p with
      canvasMap := Function.update p.canvasMap i false
      info := Function.update p.info i { p.info i with oldowner := (p.info i).owner, owner := none }
      freeNum := p.freeNum + 1 }
  else p

/-! ## Canvases in a row -/

inductive CanvasMapType where
  | one
  | nv21
  | yuv
  | four
  deriving DecidableEq

def CanvasMapType.num : CanvasMapType → Nat
  | .one => 1
  | .nv21 => 2
  | .yuv => 3
  | .four => 4

/-- The calls of `canvas_pool_map_alloc_canvas_in` in a round: what is assigned to the last `n` of `canvas1` to
`canvas4`. -/
def allocCanvases (owner : String) : Nat → CanvasPool → List Int × CanvasPool
  | 0, p => ([], p)
  | n + 1, p =>
    let (canvas, p) := canvasPoolMapAllocCanvasIn owner p
    let (rest, p) := allocCanvases owner n p
    (canvas :: rest, p)

def follows : Int → List Int → Bool
  | _, [] => true
  | canvas, next :: rest => next == canvas + 1 && follows next rest

def isRun : List Int → Bool
  | [] => false
  | canvas :: rest => decide (0 < canvas) && follows canvas rest

def inByte (canvas : Int) (byte : Nat) : BitVec 32 := BitVec.ofInt 32 canvas <<< (8 * byte)

def canvasval : CanvasMapType → List Int → BitVec 32
  | .four, [canvas1, canvas2, canvas3, canvas4] =>
    inByte canvas1 0 ||| inByte canvas2 1 ||| inByte canvas3 2 ||| inByte canvas4 3
  | .yuv, [canvas2, canvas3, canvas4] => inByte canvas2 0 ||| inByte canvas3 1 ||| inByte canvas4 2
  | .nv21, [canvas3, canvas4] => inByte canvas3 0 ||| inByte canvas4 1 ||| inByte canvas4 2
  | .one, [canvas4] => inByte canvas4 0
  | _, _ => 0

/-- The canvases of a round that are not in a row are given back. -/
def freeCanvases (canvases : List Int) (p : CanvasPool) : CanvasPool :=
  canvases.foldl (fun p canvas => if 0 < canvas then canvasPoolMapFreeCanvas canvas p else p) p

def retryIndex (type : CanvasMapType) (start : Nat) : Nat :=
  if start + 1 < canvasMaxNum - type.num then start + 1 else 1

/-- A round of `canvas_pool_map_alloc_canvas_continue_set`. -/
def continueRound (owner : String) (type : CanvasMapType) (start : Nat) (p : CanvasPool) :
    Option (BitVec 32) × CanvasPool :=
  let (canvases, p) := allocCanvases owner type.num p
  if isRun canvases then (some (canvasval type canvases), p)
  else (none, { freeCanvases canvases p with nextAllocedIndex := retryIndex type start })

def continueLoop (owner : String) (type : CanvasMapType) (start : Nat) :
    Nat → CanvasPool → Option (BitVec 32) × CanvasPool
  | 0, p => (none, p)
  | n + 1, p =>
    match continueRound owner type start p with
    | (some canvas, p) => (some canvas, p)
    | (none, p) => continueLoop owner type start n p

def canvasPoolMapAllocCanvasContinueSet (owner : String) (type : CanvasMapType) (p : CanvasPool) :
    Option (BitVec 32) × CanvasPool :=
  continueLoop owner type p.nextAllocedIndex (canvasMaxNum + 1) p

/-! ## Tables -/

/-- A round of `canvas_pool_free_canvas_table`. -/
def freeEntry (p : CanvasPool) (v : BitVec 32) : CanvasPool :=
  let canvas1 := v &&& 0xff
  let canvas2 := v >>> 8 &&& 0xff
  let canvas3 := v >>> 16 &&& 0xff
  let canvas4 := v >>> 24 &&& 0xff
  let p := canvasPoolMapFreeCanvas canvas1.toNat p
  let p := if canvas2 ≠ canvas1 then canvasPoolMapFreeCanvas canvas2.toNat p else p
  let p := if canvas3 ≠ canvas2 ∧ canvas3 ≠ canvas1 then canvasPoolMapFreeCanvas canvas3.toNat p else p
  if canvas4 ≠ canvas3 ∧ canvas4 ≠ canvas2 ∧ canvas4 ≠ canvas1 then canvasPoolMapFreeCanvas canvas4.toNat p else p

def canvasPoolFreeCanvasTable (tab : List (BitVec 32)) (p : CanvasPool) : CanvasPool := tab.foldl freeEntry p

/-- The loop of `canvas_pool_alloc_canvas_table`: the entries that are filled, and whether all are. -/
def allocTableLoop (owner : String) (type : CanvasMapType) : Nat → CanvasPool → List (BitVec 32) × Bool × CanvasPool
  | 0, p => ([], true, p)
  | n + 1, p =>
    match canvasPoolMapAllocCanvasContinueSet owner type p with
    | (none, p) => ([], false, p)
    | (some canvas, p) =>
      let (tab, ok, p) := allocTableLoop owner type n p
      (canvas :: tab, ok, p)

/-- `canvas_pool_alloc_canvas_table`: the table, if it returns 0. -/
def canvasPoolAllocCanvasTable (owner : String) (size : Nat) (type : CanvasMapType) (p : CanvasPool) :
    Option (List (BitVec 32)) × CanvasPool :=
  match allocTableLoop owner type size p with
  | (tab, false, p) => (none, canvasPoolFreeCanvasTable tab p)
  | (tab, true, p') =>
    (some tab, { p' with
      nextAllocedIndex := if p.nextAllocedIndex + 1 ≥ canvasMaxNum then 1 else p.nextAllocedIndex + 1 })

/-! ## Registered canvases -/

def canvasPoolRegisterConstCanvas (startIndex last : Nat) (owner : String) (p : CanvasPool) : CanvasPool :=
  (List.range' startIndex (last + 1 - startIndex)).foldl (fun p index => { p with
    canvasMap := Function.update p.canvasMap index true
    info := Function.update p.info index ⟨some owner, none, true⟩ }) p

def canvasPoolInit : CanvasPool where
  freeNum := 0
  info := fun _ => ⟨none, none, false⟩
  canvasMap := fun _ => false
  nextAllocedIndex := canvasMaxNum / 2

def canvasPoolConfig : CanvasPool :=
  [(0, 0x25, "amvdec"), (0x26, 0x39, "vdin"), (0x40, 0x48, "osd"), (0x58, 0x6f, "display"), (0x70, 0x77, "ppmgr"),
    (0x78, 0xbf, "amvdec"), (0xc0, 0xd7, "amlvideo2"), (0xe4, 0xef, "encoder"), (0xf0, 0xff, "reserve_new")].foldl
    (fun p r => canvasPoolRegisterConstCanvas r.1 r.2.1 r.2.2 p) canvasPoolInit

end Amlogic.Canvas
