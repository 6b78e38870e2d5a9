import Amlogic.CodecMem.Alloc

/-!
# Extension pools (`codec_mm/codec_mm.c`)

`codec_mm_extpool_pool_alloc` and the functions that switch TVP and fast play on and off.
-/

namespace Amlogic.CodecMem

section Code

variable {ω : Type} (E : Externals ω)

/-- `codec_mm_init_tvp_pool`: does it return 0? -/
def codecMmInitTvpPool (name : PoolName) (mm : Nat) : Prog (State ω) Bool := do
  let b ← blockOf mm
  match ← ext (E.genPoolCreate (← get).mgt.genPools.keys) with
  | none => return false
  | some id =>
    if ← ext (E.genPoolAdd b.phyAddr (toSize b.bufferSize)) then
      let slotNum := ((← get).mgt.extPool name).slotNum
      if slotNum < tvpMaxSlot then
        modifyMgt fun m => m.setGenPool id ⟨b.phyAddr, toSize b.bufferSize, []⟩
        modifyMgt fun m => m.setSlot name slotNum (some ⟨id, mm⟩)
        modifyMgt fun m => m.setBlock mm { b with tvpHandle := -1 }
        return true
      else throw .access
    else return false

/-- `codec_mm_tvp_pool_protect`, for a slot. -/
def protectSlot (slot : Option PoolSlot) : Prog (State ω) Unit := do
  match slot with
  | none => throw .access
  | some sl =>
    let b ← blockOf sl.mm
    if b.tvpHandle = -1 then
      let handle ← ext (E.teeProtectTvpMem b.phyAddr b.bufferSize b.tvpHandle)
      modifyMgt fun m => m.setBlock sl.mm { b with tvpHandle := handle }

def codecMmTvpPoolProtect (name : PoolName) : Prog (State ω) Unit := do
  let pool := (← get).mgt.extPool name
  (pool.slots.take pool.slotNum).forM (protectSlot E)

/-- What the two loops of `codec_mm_extpool_pool_alloc` allocate: the owner and the flags, and whether the CPU loses
its address of the memory. -/
structure PoolPart where
  owner : String
  memflags : CInt
  unmap : Bool

/-- A block that was allocated for a pool becomes a slot: the size that this adds. -/
def addSlot (name : PoolName) (part : PoolPart) (mem : Nat) (size : CInt) : Prog (State ω) CInt := do
  let b ← blockOf mem
  (if part.unmap then ext fun w => ((), E.cmaMmuOp b.memHandle b.pageCount false w) else pure ())
  if ← codecMmInitTvpPool E name mem then
    modifyMgt fun m => m.setPool name { m.extPool name with slotNum := (m.extPool name).slotNum + 1 }
    return size
  else
    (if part.unmap then ext fun w => ((), E.cmaMmuOp b.memHandle b.pageCount true w) else pure ())
    codecMmRelease E (some mem) tvpPoolName
    return 0

/-- A loop of `codec_mm_extpool_pool_alloc`, with the number of rounds that are left: the size that is added. -/
def poolAllocLoop (name : PoolName) (part : PoolPart) : Nat → CInt → Prog (State ω) CInt
  | 0, _ => return 0
  | n + 1, tryAllocedSize => do
    match ← codecMmAlloc E part.owner tryAllocedSize reserveMmAligned2n part.memflags with
    | some mem => addSlot E name part mem tryAllocedSize
    | none =>
      let tryAllocedSize := tryAllocedSize - 4 * sz1M
      if tryAllocedSize.slt (16 * sz1M) then return 0 else poolAllocLoop name part n tryAllocedSize

/-- A part of `codec_mm_extpool_pool_alloc`, with `avail` bytes at the source, when `allocedSize` of the `size` bytes
are there: the size after it. -/
def poolAllocPart (name : PoolName) (part : PoolPart) (size allocedSize avail : CInt) : Prog (State ω) CInt := do
  let tryAllocedSize := mmAlignDown (minInt (size - allocedSize) avail) reserveMmAligned2n
  return allocedSize + (← poolAllocLoop E name part 11 tryAllocedSize)

def reservedPart : PoolPart := ⟨tvpPoolName, flagsForLocalMgr ||| flagsReserved, false⟩

def cmaPart (forTvp : Bool) : PoolPart :=
  ⟨if forTvp then tvpPoolName else cmaResPoolName, flagsForLocalMgr ||| flagsCma, forTvp⟩

def codecMmExtpoolPoolAlloc (name : PoolName) (size : CInt) (forTvp : Bool) : Prog (State ω) CInt := do
  let m := (← get).mgt
  let allocedSize := (m.extPool name).totalSize
  let avail := m.totalReservedSize - m.allocedResSize
  let allocedSize ← (if (0 : CInt).slt avail ∧ forTvp then
    poolAllocPart E name reservedPart size allocedSize avail else return allocedSize)
  let m := (← get).mgt
  let avail := m.totalCmaSize - m.allocedCmaSize
  let allocedSize ← (if allocedSize.slt size ∧ (0 : CInt).slt avail then
    poolAllocPart E name (cmaPart forTvp) size allocedSize avail else return allocedSize)
  (if (0 : CInt).slt allocedSize then
    modifyMgt fun m => m.setPool name { m.extPool name with totalSize := allocedSize } else pure ())
  let tvpMode := (← get).mgt.tvpMode
  (if tvpMode ≠ 0 ∧ forTvp then codecMmTvpPoolProtect E name else pure ())
  return allocedSize

/-! ## TVP and fast play -/

def codecMmEnableTvp : Prog (State ω) CInt := do
  let m := (← get).mgt
  if m.tvpMode = 0 then return -1
  else
    let ret := m.tvpUserCount + 1
    modifyMgt fun m => { m with tvpUserCount := ret }
    (if ret = 1 then do
      let _ ← codecMmExtpoolPoolAlloc E .tvp m.defaultTvp4kSize true
      modifyMgt fun m => { m with tvpEnable := 2 }
    else pure ())
    return ret

def codecMmDisableTvp : Prog (State ω) CInt := do
  let m := (← get).mgt
  if m.tvpMode = 0 then return -1
  else
    let count := m.tvpUserCount - 1
    modifyMgt fun m => { m with tvpUserCount := count }
    let unprotected ← (if count = 0 then codecMmTvpPoolUnprotect E else return false)
    if unprotected then
      let ret ← codecMmExtpoolPoolRelease E .tvp
      modifyMgt fun m => { m with tvpEnable := 0 }
      return BitVec.ofNat 32 ret
    else
      (if count.slt 0 then modifyMgt fun m => { m with tvpUserCount := 0 } else pure ())
      return 0

/-- `tvp_enable_store`, for a number. -/
def tvpEnableStore (val : CInt) : Prog (State ω) Unit := do
  let m := (← get).mgt
  if m.tvpMode = 0 then
    codecMmKeeperFreeAllKeep E 2
    codecMmScatterFreeAllIgnorecache E 3
    if val = 0 then
      let _ ← codecMmExtpoolPoolRelease E .tvp
      modifyMgt fun m => { m with tvpEnable := 0 }
    else if val = 1 then
      let _ ← codecMmExtpoolPoolAlloc E .tvp m.defaultTvpSize true
      modifyMgt fun m => { m with tvpEnable := 1 }
    else if val = 2 then
      let _ ← codecMmExtpoolPoolAlloc E .tvp m.defaultTvp4kSize true
      modifyMgt fun m => { m with tvpEnable := 2 }
  else if m.tvpMode = 1 then
    if val = 0 then
      let _ ← codecMmDisableTvp E
    else if val = 1 ∨ val = 2 then
      let _ ← codecMmEnableTvp E

/-- `fastplay_enable_store`, for a number. -/
def fastplayEnableStore (val : CInt) : Prog (State ω) Unit := do
  if val = 0 then
    let _ ← codecMmExtpoolPoolRelease E .cmaRes
    modifyMgt fun m => { m with fastplayEnable := 0 }
  else if val = 1 then
    let _ ← codecMmExtpoolPoolAlloc E .cmaRes (← get).mgt.defaultCmaResSize false
    modifyMgt fun m => { m with fastplayEnable := 1 }

end Code

end Amlogic.CodecMem
