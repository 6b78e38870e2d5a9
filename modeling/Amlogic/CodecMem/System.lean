import Amlogic.CodecMem.Pool

/-!
# The codec memory as a system (`codec_mm/codec_mm.c`)

The calls that drivers and the user make, and the runs of the codec memory.
-/

namespace Amlogic.CodecMem

section Code

variable {ω : Type} (E : Externals ω)

/-! ## More calls of drivers -/

def codecMmHasOwner (m : Mgt) (mem : Option Nat) (owner : String) : Bool :=
  match mem with
  | none => false
  | some p =>
    if p ∈ m.memList then
      match m.blocks.lookup p with
      | some b => (b.owner.take b.useCnt.toNat).any fun o => o == some owner
      | none => false
    else false

/-- The part of `codec_mm_request_shared_mem` under the lock: the value of `ret`. -/
def requestShared (mem : Nat) (owner : String) : Prog (State ω) CInt := do
  if mem ∈ (← get).mgt.memList then
    let b ← blockOf mem
    if (7 : CInt).slt b.useCnt then return -3
    else if 0 ≤ b.useCnt.toInt then
      -- the old value is the index
      modifyMgt fun m => m.setBlock mem
        { b with useCnt := b.useCnt + 1, owner := b.owner.set b.useCnt.toNat (some owner) }
      return 0
    else throw .access
  else return -2

def codecMmRequestSharedMem (mem : Nat) (owner : String) : Prog (State ω) CInt := do
  -- whatever has happened, the caller is told that it has a reference
  let _ret ← requestShared mem owner
  emit (.acquire mem)
  return 0

/-- `codec_mm_get_by_val_off`, for the physical address: the last block on the list that has it. -/
def codecMmGetByPhyAddr (m : Mgt) (phyAddr : Nat) : Option Nat :=
  (m.memList.filter fun p => (m.blocks.lookup p).any fun b => b.phyAddr == phyAddr).getLast?

def codecMmFreeForDma (owner : String) (phyAddr : Nat) : Prog (State ω) CInt := do
  match codecMmGetByPhyAddr (← get).mgt phyAddr with
  | some mem =>
    codecMmRelease E (some mem) owner
    return 0
  | none => return -1

/-- `codec_mm_alloc_for_dma`, and `codec_mm_alloc_for_dma_ex`. -/
def codecMmAllocForDma (owner : String) (pageCnt align2n memflags : CInt) : Prog (State ω) (Option Nat) :=
  codecMmAlloc E owner (pageCnt <<< 12) align2n memflags

def codecMmDmaAllocCoherent (size : CInt) : Prog (State ω) (Option Nat) := ext (E.dmaAllocCoherent size)

def codecMmDmaFreeCoherent (cpuAddr : Nat) (size : CInt) : Prog (State ω) Unit :=
  ext fun w => ((), E.dmaFreeCoherent cpuAddr size w)

def Mgt.countCoherent (m : Mgt) (mem : Nat) (b : Block) : Mgt :=
  { m.setBlock mem { b with memId := m.globalMemid } with
    globalMemid := m.globalMemid + 1
    allocedFromCoherent := m.allocedFromCoherent + b.bufferSize
    totalAllocedSize := m.totalAllocedSize + b.bufferSize
    allocedCmaSize := m.allocedCmaSize + b.bufferSize
    memList := m.memList ++ [mem] }

def Mgt.uncountCoherent (m : Mgt) (mem : Nat) (b : Block) : Mgt :=
  { m with
    allocedFromCoherent := m.allocedFromCoherent - b.bufferSize
    totalAllocedSize := m.totalAllocedSize - b.bufferSize
    allocedCmaSize := m.allocedCmaSize - b.bufferSize
    memList := m.memList.erase mem }

def Block.coherent (owner : String) (addr : Nat) (size : CInt) : Block :=
  { Block.request size 0 0 with
    owner := (List.replicate 8 none).set 0 (some owner), phyAddr := addr, fromFlags := .coherent }

def v4lReqbufsFromCodecMm (owner : String) (addr : Nat) (size : CInt) : Prog (State ω) (Option Nat) := do
  let b := Block.coherent owner addr size
  match ← newBlock E b with
  | none => return none
  | some mem =>
    modifyMgt fun m => m.countCoherent mem b
    return some mem

def v4lFreebufsBackToCodecMm (owner : String) (mem : Option Nat) : Prog (State ω) Unit := do
  match mem with
  | none => return ()
  | some p =>
    let b ← blockOf p
    (if b.owner[0]? = some (some owner) ∧ b.bufferSize ≠ 0 then
      modifyMgt fun m => m.uncountCoherent p b else pure ())
    dropBlock p
    emit (.free p)

def codecMmEnoughForSize (size : CInt) (withWait : Bool) : Prog (State ω) CInt := do
  let m := (← get).mgt
  if codecMmAllocPreCheckIn m size 0 = 0 ∧ withWait ∧ (0 : CInt).slt m.allocedForScCnt then
    codecMmScatterFreeAllIgnorecache E 1
    if codecMmAllocPreCheckIn (← get).mgt size 0 ≠ 0 then return 1 else return 0
  else return 1

/-! ## Initialisation -/

/-- The memory before `codec_mm_mgt_init`: all zero, but for the mode of TVP. -/
def Mgt.zero (tvpMode : CInt) : Mgt where
  blocks := ∅
  genPools := ∅
  memList := []
  resPool := none
  extPool := fun _ => ExtPool.empty
  totalCodecMemSize := 0
  totalAllocedSize := 0
  totalCmaSize := 0
  totalReservedSize := 0
  maxUsedMemSize := 0
  allocedResSize := 0
  allocedCmaSize := 0
  allocedSysSize := 0
  allocedForScSize := 0
  allocedForScCnt := 0
  allocedFromCoherent := 0
  physVmapedPageCnt := 0
  allocFromSysPagesMax := 0
  enableKmallocOnNomem := 0
  resMemFlags := 0
  globalMemid := 0
  tvpEnable := 0
  fastplayEnable := 0
  tvpUserCount := 0
  debugMode := 0
  tvpMode := tvpMode
  defaultTvpSize := 0
  defaultTvp4kSize := 0
  defaultCmaResSize := 0

/-- The reserved memory in `codec_mm_mgt_init`: is the pool for it created, if there is any? -/
def initReserved (base size : Nat) : Prog (State ω) Bool := do
  if 0 < size then
    match ← ext (E.genPoolCreate (← get).mgt.genPools.keys) with
    | none => return false
    | some id =>
      let alignedAddr := (base + 0x1ffff) / 0x20000 * 0x20000
      let alignedSize : CInt := BitVec.ofNat 32 size - BitVec.ofNat 32 (alignedAddr - base)
      let added ← ext (E.genPoolAdd alignedAddr (toSize alignedSize))
      modifyMgt fun m => m.setGenPool id ⟨alignedAddr, if added then toSize alignedSize else 0, []⟩
      modifyMgt fun m => { m with
        resPool := some id, totalReservedSize := alignedSize, totalCodecMemSize := alignedSize
        resMemFlags := m.resMemFlags ||| resMemFlagsHaveMaped }
      return true
  else return true

/-- `codec_mm_mgt_init`, with the reserved memory and the size of the CMA area: does it return 0? -/
def codecMmMgtInit (rmemBase rmemSize : Nat) (cmaSize : CInt) : Prog (State ω) Bool := do
  modifyMgt fun m => { m with memList := [], allocFromSysPagesMax := 4 }
  if ← initReserved E rmemBase rmemSize then
    modifyMgt fun m =>
      let total := m.totalCodecMemSize + cmaSize
      let forTvp := total - 2 * sz1M
      let tvp4k := if (236 * sz1M).slt forTvp then 236 * sz1M else forTvp
      { m with
        totalCmaSize := cmaSize
        totalCodecMemSize := total
        defaultTvp4kSize := tvp4k
        defaultTvpSize := if (160 * sz1M).slt forTvp then 160 * sz1M else tvp4k
        defaultCmaResSize := cmaSize
        globalMemid := 0 }
    return true
  else return false

end Code

/-! ## Runs -/

inductive Op where
  | alloc (owner : String) (size align2n memflags : CInt)
  | allocForDma (owner : String) (pageCnt align2n memflags : CInt)
  | requestSharedMem (mem : Nat) (owner : String)
  | release (mem : Option Nat) (owner : String)
  | releaseWithCheck (mem : Option Nat) (owner : String)
  | freeForDma (owner : String) (phyAddr : Nat)
  | dmaAllocCoherent (size : CInt)
  | dmaFreeCoherent (cpuAddr : Nat) (size : CInt)
  | v4lReqbufs (owner : String) (addr : Nat) (size : CInt)
  | v4lFreebufs (owner : String) (mem : Option Nat)
  | enoughForSize (size : CInt) (withWait : Bool)
  | enableTvp
  | disableTvp
  | tvpEnableStore (val : CInt)
  | fastplayEnableStore (val : CInt)
  | poolAlloc (name : PoolName) (size : CInt) (forTvp : Bool)
  | poolRelease (name : PoolName)
  | scatterFreeAll (flags : CInt)
  | keeperFreeAll (force : CInt)
  | setModes (debugMode tvpMode : CInt)
  | setDefaults (tvpSize tvp4kSize cmaResSize : CInt)

inductive Reply where
  | done
  | code (ret : CInt)
  | block (mem : Option Nat)
  deriving DecidableEq

variable {ω : Type} (E : Externals ω)

def exec : Op → Prog (State ω) Reply
  | .alloc owner size align2n memflags => return .block (← codecMmAlloc E owner size align2n memflags)
  | .allocForDma owner pageCnt align2n memflags =>
    return .block (← codecMmAllocForDma E owner pageCnt align2n memflags)
  | .requestSharedMem mem owner => return .code (← codecMmRequestSharedMem mem owner)
  | .release mem owner => do codecMmRelease E mem owner; return .done
  | .releaseWithCheck mem owner => do codecMmReleaseWithCheck E mem owner; return .done
  | .freeForDma owner phyAddr => return .code (← codecMmFreeForDma E owner phyAddr)
  | .dmaAllocCoherent size => do let _ ← codecMmDmaAllocCoherent E size; return .done
  | .dmaFreeCoherent cpuAddr size => do codecMmDmaFreeCoherent E cpuAddr size; return .done
  | .v4lReqbufs owner addr size => return .block (← v4lReqbufsFromCodecMm E owner addr size)
  | .v4lFreebufs owner mem => do v4lFreebufsBackToCodecMm owner mem; return .done
  | .enoughForSize size withWait => return .code (← codecMmEnoughForSize E size withWait)
  | .enableTvp => return .code (← codecMmEnableTvp E)
  | .disableTvp => return .code (← codecMmDisableTvp E)
  | .tvpEnableStore val => do tvpEnableStore E val; return .done
  | .fastplayEnableStore val => do fastplayEnableStore E val; return .done
  | .poolAlloc name size forTvp => return .code (← codecMmExtpoolPoolAlloc E name size forTvp)
  | .poolRelease name => do let _ ← codecMmExtpoolPoolRelease E name; return .done
  | .scatterFreeAll flags => do codecMmScatterFreeAllIgnorecache E flags; return .done
  | .keeperFreeAll force => do codecMmKeeperFreeAllKeep E force; return .done
  | .setModes debugMode tvpMode => do
    modifyMgt fun m => { m with debugMode := debugMode, tvpMode := tvpMode }
    return .done
  | .setDefaults tvpSize tvp4kSize cmaResSize => do
    modifyMgt fun m => { m with
      defaultTvpSize := tvpSize, defaultTvp4kSize := tvp4kSize, defaultCmaResSize := cmaResSize }
    return .done

def Start (s : State ω) : Prop :=
  ∃ w tvpMode base size cmaSize,
    codecMmMgtInit E base size cmaSize ⟨w, Mgt.zero tvpMode, []⟩ = .ok (true, s)

inductive Run (allowed : State ω → Op → Prop) (s : State ω) : State ω → Prop
  | nil : Run allowed s s
  | call {s₁ s₂ : State ω} {op : Op} {r : Reply} (run : Run allowed s s₁) (ok : allowed s₁ op)
      (exec : exec E op s₁ = .ok (r, s₂)) : Run allowed s s₂

def Reached (allowed : State ω → Op → Prop) (s : State ω) : Prop := ∃ s₀, Start E s₀ ∧ Run E allowed s₀ s

end Amlogic.CodecMem
