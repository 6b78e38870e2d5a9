import Amlogic.CodecMem.Release

/-!
# Allocating blocks (`codec_mm/codec_mm.c`)

`codec_mm_alloc_in` tries the sources of memory one after the other.
-/

namespace Amlogic.CodecMem

/-! ## Where to allocate from -/

def codecMmAllocPreCheckIn (m : Mgt) (needSize flags : CInt) : CInt :=
  let alignedSize := pageAlign needSize
  let haveSpace : CInt :=
    (if alignedSize.sle (m.totalReservedSize - m.allocedResSize) then 1 else 0) |||
    (if alignedSize.sle ((m.extPool .cmaRes).totalSize - (m.extPool .cmaRes).allocedSize) then 1 else 0) |||
    (if alignedSize.sle (m.totalCmaSize - m.allocedCmaSize) then 2 else 0) |||
    (if toSize alignedSize / 4096 ≤ toSize m.allocFromSysPagesMax then 4 else 0) |||
    (if alignedSize.sle ((m.extPool .tvp).totalSize - (m.extPool .tvp).allocedSize) then 8 else 0)
  let haveSpace := if Has flags 1 then haveSpace &&& 8 else haveSpace
  if Has m.debugMode 0xf then
    let haveSpace := haveSpace &&& ~~~(m.debugMode &&& 1)
    let haveSpace := haveSpace &&& ~~~(m.debugMode &&& 2)
    let haveSpace := haveSpace &&& ~~~(m.debugMode &&& 4)
    if Has m.debugMode 8 ∧ (m.totalCodecMemSize.sdiv 2).slt m.totalAllocedSize then 0 else haveSpace
  else haveSpace

/-- An attempt of `codec_mm_alloc_in` to get memory. -/
inductive Attempt where
  | pages
  | cma (map : Bool)
  | reserved
  | cmaRes
  | tvp
  deriving DecidableEq

def Block.align (mem : Block) : CInt := if mem.align2n.slt pageShift then pageShift else mem.align2n

def canFromRes (m : Mgt) (flags : CInt) : Bool :=
  (m.resPool.isSome || (0 : CInt).slt (m.extPool .cmaRes).totalSize) && !decide (Has flags flagsCma) ||
    (decide (Has flags flagsReserved) || flags &&& flagsFromMask == flagsDma ||
      decide (Has flags flagsCpu) && decide (Has m.resMemFlags resMemFlagsHaveMaped))

def canFromCma (m : Mgt) (flags : CInt) : Bool :=
  (0 : CInt).slt m.totalCmaSize && !decide (Has flags flagsReserved) || decide (Has flags flagsCma)

def canFromSys (m : Mgt) (mem : Block) : Bool :=
  decide (Has mem.flags flagsDmaCpu) && mem.pageCount.sle m.allocFromSysPagesMax

/-- The attempts that `codec_mm_alloc_in` makes, in their order, until one succeeds. -/
def attempts (m : Mgt) (mem : Block) : Except CInt (List Attempt) :=
  let tvp : Bool := Has mem.flags flagsTvp
  let haveSpace := codecMmAllocPreCheckIn m mem.bufferSize 0
  if haveSpace = 0 then .error (-10001) else
    let fromRes := !tvp && canFromRes m mem.flags && decide (Has haveSpace 1)
    let fromCma := !tvp && canFromCma m mem.flags && decide (Has haveSpace 2)
    let fromSys := !tvp && canFromSys m mem && decide (Has haveSpace 4)
    let fromTvp := tvp && decide (Has haveSpace 8)
    if !fromRes && !fromCma && !fromSys && !fromTvp then .error (-10002) else
      -- what was found out about TVP and about the space is not used here
      let sysFirst := canFromSys m mem && mem.align.sle pageShift
      let cmaRes := m.extPool .cmaRes
      .ok ((if sysFirst then [.pages] else []) ++
        (if Has mem.flags flagsCmaFirst ∧ fromCma then [.cma false] else []) ++
        (if (fromRes ∧ m.resPool.isSome) ∧ mem.align.sle reserveMmAligned2n then [.reserved] else []) ++
        (if fromRes ∧ (0 : CInt).slt cmaRes.totalSize ∧
          (cmaRes.allocedSize + mem.bufferSize).slt cmaRes.totalSize then [.cmaRes] else []) ++
        (if fromCma then [.cma true] else []) ++
        (if fromTvp ∧ mem.align.sle reserveMmAligned2n then [.tvp] else []) ++
        (if Has mem.flags flagsDmaCpu ∧ m.enableKmallocOnNomem ≠ 0 ∧ !sysFirst then [.pages] else []))

section Code

variable {ω : Type} (E : Externals ω)

def genPoolAlloc (id size : Nat) : Prog (State ω) (Option Nat) := do
  let p ← genPoolOf id
  match ← ext (E.genPoolAlloc p size) with
  | none => return none
  | some a =>
    modifyMgt fun m => m.setGenPool id { p with used := (a, size) :: p.used }
    return some a

/-- The loop of `codec_mm_extpool_alloc`: the handle and the pool it comes from. -/
def extpoolAllocLoop (size : Nat) : List (Option PoolSlot) → Prog (State ω) (Option (Nat × Nat))
  | [] => return none
  | none :: _ => return none
  | some sl :: rest => do
    match ← genPoolAlloc E sl.genPool size with
    | some handle => return some (handle, sl.genPool)
    | none => extpoolAllocLoop size rest

def codecMmExtpoolAlloc (name : PoolName) (size : CInt) : Prog (State ω) (Option (Nat × Nat)) := do
  let pool := (← get).mgt.extPool name
  extpoolAllocLoop E (toSize size) (pool.slots.take pool.slotNum)

def attemptPool (name : PoolName) (source : Source) (mem : Block) : Prog (State ω) (Option Block) := do
  let alignedBufferSize := alignReserve mem.bufferSize
  match ← codecMmExtpoolAlloc E name alignedBufferSize with
  | none => return none
  | some (handle, pool) => return some { mem with
      memHandle := handle, fromExt := some pool, fromFlags := source, phyAddr := handle
      bufferSize := alignedBufferSize }

/-- An attempt of `codec_mm_alloc_in`. -/
def attempt (mem : Block) : Attempt → Prog (State ω) (Option Block)
  | .pages => do
    match ← ext (E.getFreePages (getOrder mem.bufferSize)) with
    | none => return none
    | some handle => return some { mem with memHandle := handle, fromFlags := .pages, phyAddr := handle }
  | .cma map => do
    match ← ext (E.dmaAllocFromContiguous mem.pageCount (mem.align - pageShift)) with
    | none => return none
    | some handle => return some { mem with
        memHandle := handle, fromFlags := .cma, phyAddr := handle
        flags := if map ∧ Has mem.flags flagsCpu ∧ E.pageHighMem (handle % 2 ^ 32)
          then mem.flags ||| flagsForPhysVmaped else mem.flags }
  | .reserved => do
    let alignedBufferSize := alignReserve mem.bufferSize
    match (← get).mgt.resPool with
    | none => return none
    | some id =>
      match ← genPoolAlloc E id (toSize alignedBufferSize) with
      | none => return none
      | some handle => return some { mem with
          memHandle := handle, fromFlags := .reversed, phyAddr := handle, bufferSize := alignedBufferSize }
  | .cmaRes => attemptPool E .cmaRes .cmaRes mem
  | .tvp => attemptPool E .tvp .tvp mem

def firstAttempt (mem : Block) : List Attempt → Prog (State ω) (Option Block)
  | [] => return none
  | a :: rest => do
    match ← attempt E mem a with
    | some mem => return some mem
    | none => firstAttempt mem rest

/-- `codec_mm_alloc_in`: the block with its memory, or the error. -/
def codecMmAllocIn (mem : Block) : Prog (State ω) (Except CInt Block) := do
  match attempts (← get).mgt mem with
  | .error e => return .error e
  | .ok l =>
    match ← firstAttempt E mem l with
    | some mem => return .ok mem
    | none => return .error (-10003)

end Code

/-! ## `codec_mm_alloc` -/

def allocFlags (tvpEnable memflags : CInt) : CInt :=
  let memflags := if Has tvpEnable 3 ∧ Has memflags flagsTvp then (memflags &&& ~~~flagsFromMask) ||| flagsTvp
    else memflags
  if memflags &&& flagsFromMask = 0 then memflags ||| flagsDma else memflags

def Block.request (size align2n memflags : CInt) : Block where
  owner := List.replicate 8 none
  memHandle := 0
  fromExt := none
  phyAddr := 0
  bufferSize := pageAlign size
  pageCount := pageCountOf (pageAlign size)
  align2n := align2n
  flags := memflags
  -- zero, which is none of the sources
  fromFlags := .pages
  useCnt := 0
  memId := 0
  tvpHandle := 0

/-- The part of `codec_mm_alloc` under the lock. -/
def Mgt.count (m : Mgt) (mem : Nat) (b : Block) : Mgt :=
  let m := m.setBlock mem { b with memId := m.globalMemid }
  let m := { m with globalMemid := m.globalMemid + 1, memList := m.memList ++ [mem] }
  let m := m.charge b.fromFlags b.bufferSize
  let m := if Has b.flags flagsForLocalMgr then m
    else
      let total := m.totalAllocedSize + b.bufferSize
      { m with totalAllocedSize := total
               maxUsedMemSize := if m.maxUsedMemSize.slt total then total else m.maxUsedMemSize }
  let m := if Has b.flags flagsForScatter then { m with
      allocedForScSize := m.allocedForScSize + b.bufferSize
      allocedForScCnt := m.allocedForScCnt + 1 }
    else m
  if Has b.flags flagsForPhysVmaped then { m with physVmapedPageCnt := m.physVmapedPageCnt + b.pageCount } else m

section Code

variable {ω : Type} (E : Externals ω)

def newBlock (b : Block) : Prog (State ω) (Option Nat) := do
  let m := (← get).mgt
  match ← ext (E.kmalloc m.blocks.keys) with
  | none => return none
  | some mem =>
    modifyMgt fun m => m.setBlock mem b
    return some mem

def dropBlock (mem : Nat) : Prog (State ω) Unit := modifyMgt fun m => { m with blocks := m.blocks.erase mem }

/-- The end of `codec_mm_alloc`, for a block with memory. -/
def enterBlock (mem : Nat) (owner : String) (b : Block) : Prog (State ω) Unit := do
  let b := { b with useCnt := 1, owner := b.owner.set 0 (some owner) }
  modifyMgt fun m => m.count mem b
  emit (.acquire mem)

/-- `codec_mm_alloc` until it has memory: when there is none, the scatter memory is asked to free some. -/
def takeMemory (b : Block) : Prog (State ω) (Except CInt Block) := do
  match ← codecMmAllocIn E b with
  | .ok b => return .ok b
  | .error e =>
    if (0 : CInt).slt (← get).mgt.allocedForScCnt ∧ ¬Has b.flags flagsForScatter then
      codecMmScatterFreeAllIgnorecache E (if Has b.flags flagsTvp then 2 else 1)
      codecMmAllocIn E b
    else return .error e

def codecMmAlloc (owner : String) (size align2n memflags : CInt) : Prog (State ω) (Option Nat) := do
  let b := Block.request size align2n (allocFlags (← get).mgt.tvpEnable memflags)
  match ← newBlock E b with
  | none => return none
  | some mem =>
    match ← takeMemory E b with
    | .error _ =>
      dropBlock mem
      return none
    | .ok b =>
      enterBlock mem owner b
      return some mem

end Code

end Amlogic.CodecMem
