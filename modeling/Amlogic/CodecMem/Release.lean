import Amlogic.CodecMem.Block

/-!
# Giving blocks back (`codec_mm/codec_mm.c`)

`codec_mm_release` and what it calls. The release of a TVP block may release the TVP pool, which releases the
blocks that the pool was made of. These are not TVP blocks, so it ends there.
-/

namespace Amlogic.CodecMem

section Code

variable {ω : Type}

/-! ## State -/

def ext {α : Type} (f : ω → α × ω) : Prog (State ω) α := fun s =>
  .ok ((f s.world).1, { s with world := (f s.world).2 })

def modifyMgt (f : Mgt → Mgt) : Prog (State ω) Unit := modify fun s => { s with mgt := f s.mgt }

def emit (e : Event) : Prog (State ω) Unit := modify fun s => { s with log := s.log ++ [e] }

def blockOf (mem : Nat) : Prog (State ω) Block := do
  match (← get).mgt.blocks.lookup mem with
  | some b => return b
  | none => throw .access

def genPoolOf (id : Nat) : Prog (State ω) GenPool := do
  match (← get).mgt.genPools.lookup id with
  | some p => return p
  | none => throw .access

def Mgt.setBlock (m : Mgt) (mem : Nat) (b : Block) : Mgt := { m with blocks := m.blocks.insert mem b }

def Mgt.setGenPool (m : Mgt) (id : Nat) (p : GenPool) : Mgt := { m with genPools := m.genPools.insert id p }

def Mgt.setPool (m : Mgt) (name : PoolName) (p : ExtPool) : Mgt :=
  { m with extPool := Function.update m.extPool name p }

def Mgt.setSlot (m : Mgt) (name : PoolName) (i : Nat) (slot : Option PoolSlot) : Mgt :=
  m.setPool name { m.extPool name with slots := (m.extPool name).slots.set i slot }

/-! ## Counters -/

def Mgt.charge (m : Mgt) (source : Source) (n : CInt) : Mgt :=
  match source with
  | .pages => { m with allocedSysSize := m.allocedSysSize + n }
  | .cma => { m with allocedCmaSize := m.allocedCmaSize + n }
  | .tvp => m.setPool .tvp { m.extPool .tvp with allocedSize := (m.extPool .tvp).allocedSize + n }
  | .reversed => { m with allocedResSize := m.allocedResSize + n }
  | .cmaRes =>
    m.setPool .cmaRes { m.extPool .cmaRes with allocedSize := (m.extPool .cmaRes).allocedSize + n }
  | .coherent => m

/-- The part of `codec_mm_free_in` under the lock. -/
def Mgt.uncount (m : Mgt) (mem : Block) : Mgt :=
  let m := if Has mem.flags flagsForLocalMgr then m
    else { m with totalAllocedSize := m.totalAllocedSize - mem.bufferSize }
  let m := if Has mem.flags flagsForScatter then { m with
      allocedForScSize := m.allocedForScSize - mem.bufferSize
      allocedForScCnt := m.allocedForScCnt - 1 }
    else m
  let m := if Has mem.flags flagsForPhysVmaped then { m with
      physVmapedPageCnt := m.physVmapedPageCnt - mem.pageCount }
    else m
  m.charge mem.fromFlags (-mem.bufferSize)

/-! ## Memory -/

def genPoolFree (id addr size : Nat) : Prog (State ω) Unit := do
  let p ← genPoolOf id
  if (addr, size) ∈ p.used then
    modifyMgt fun m => m.setGenPool id { p with used := p.used.erase (addr, size) }
  else throw .access

variable (E : Externals ω)

/-- The first part of `codec_mm_free_in`: the memory is given back. -/
def freeMemory (mem : Block) : Prog (State ω) Unit := do
  match mem.fromFlags with
  | .cma => ext fun w => ((), E.dmaReleaseFromContiguous mem.memHandle mem.pageCount w)
  | .reversed =>
    match (← get).mgt.resPool with
    | some id => genPoolFree id mem.memHandle (toSize mem.bufferSize)
    | none => throw .access
  | .tvp | .cmaRes =>
    match mem.fromExt with
    | some id => genPoolFree id mem.memHandle (toSize mem.bufferSize)
    | none => throw .access
  | .pages => ext fun w => ((), E.freePages mem.memHandle (getOrder mem.bufferSize) w)
  | .coherent => return ()

/-- `codec_mm_free_in`. At the end a TVP block may release its pool, which is `unuse`. -/
def codecMmFreeInWith (unuse : Prog (State ω) Unit) (mem : Block) : Prog (State ω) Unit := do
  freeMemory E mem
  modifyMgt fun m => m.uncount mem
  if mem.fromFlags = .tvp ∧ (← get).mgt.tvpMode ≠ 0 then unuse

/-! ## References -/

/-- An entry of the array `owner`. -/
def ownerAt (owner : List (Option String)) (index : CInt) : Prog (State ω) (Option String) :=
  if 0 ≤ index.toInt then
    match owner[index.toNat]? with
    | some o => return o
    | none => throw .access
  else throw .access

/-- The owners after `owner` has given back its reference, when `index` references are left. -/
def Block.dropOwner (mem : Block) (index : CInt) (maxOwner : Option String) (owner : String) :
    List (Option String) :=
  (mem.owner.mapIdx fun i o => if i < index.toNat ∧ o = some owner then maxOwner else o).set index.toNat none

/-- The part of `codec_mm_release` under the lock: the block, if this was its last reference. -/
def dropReference (mem : Nat) (owner : String) : Prog (State ω) (Option Block) := do
  let b ← blockOf mem
  let index := b.useCnt - 1
  let maxOwner ← ownerAt b.owner index
  let b := { b with useCnt := index, owner := b.dropOwner index maxOwner owner }
  modifyMgt fun m => m.setBlock mem b
  emit (.release mem)
  if index = 0 then
    modifyMgt fun m => { m with memList := m.memList.erase mem }
    return some b
  else return none

/-- `codec_mm_release`, with `codecMmFreeInWith`. -/
def codecMmReleaseWith (unuse : Prog (State ω) Unit) (mem : Option Nat) (owner : String) :
    Prog (State ω) Unit := do
  match mem with
  | none => return ()
  | some p =>
    if p ∈ (← get).mgt.memList then
      match ← dropReference p owner with
      | none => return ()
      | some b =>
        codecMmFreeInWith E unuse b
        modifyMgt fun m => { m with blocks := m.blocks.erase p }
        emit (.free p)
    else return ()

/-! ## Pools -/

def tvpPoolName : String := "TVP_POOL"
def cmaResPoolName : String := "CMA_RES"

/-- `codec_mm_tvp_pool_unprotect`, for a slot. -/
def unprotectSlot (slot : Option PoolSlot) : Prog (State ω) Unit := do
  match slot with
  | none => throw .access
  | some sl =>
    let b ← blockOf sl.mm
    if b.tvpHandle ≠ 0 then
      ext fun w => ((), E.teeUnprotectTvpMem b.tvpHandle w)
      modifyMgt fun m => m.setBlock sl.mm { b with tvpHandle := -1 }

/-- `codec_mm_tvp_pool_unprotect`: does it return 0? -/
def codecMmTvpPoolUnprotect : Prog (State ω) Bool := do
  let pool := (← get).mgt.extPool .tvp
  if pool.allocedSize.sle 0 then
    (pool.slots.take pool.slotNum).forM (unprotectSlot E)
    return true
  else return false

/-- A round of the first loop of `codec_mm_extpool_pool_release`: does the slot stay, because it is in use? -/
def releaseSlot (name : PoolName) (i : Nat) : Prog (State ω) Bool := do
  match ((← get).mgt.extPool name).slots[i]?.join with
  | none => return false
  | some sl =>
    let p ← genPoolOf sl.genPool
    if p.avail ≠ p.size then return true
    else
      modifyMgt fun m => { m with genPools := m.genPools.erase sl.genPool }
      let b ← blockOf sl.mm
      ext fun w => ((), E.cmaMmuOp b.memHandle b.pageCount true w)
      codecMmReleaseWith E (throw .fuel) (some sl.mm) tvpPoolName
      -- the size of the TVP pool changes, whatever pool this is
      modifyMgt fun m => m.setPool .tvp { m.extPool .tvp with
        totalSize := (m.extPool .tvp).totalSize - BitVec.ofNat 32 p.size }
      modifyMgt fun m => m.setSlot name i none
      return false

/-- The first loop of `codec_mm_extpool_pool_release`: the number of slots that stay. -/
def releaseSlots (name : PoolName) : List Nat → Prog (State ω) Nat
  | [] => return 0
  | i :: rest => do
    let ignored ← releaseSlot E name i
    let n ← releaseSlots name rest
    return if ignored then n + 1 else n

end Code

/-- A round of the second loop of `codec_mm_extpool_pool_release`, which closes the gaps. -/
def compactStep (p : List (Option PoolSlot) × Nat) (i : Nat) : List (Option PoolSlot) × Nat :=
  let (slots, beforeFreeSlot) := p
  let (slots, beforeFreeSlot) :=
    if slots[i]?.join ≠ none ∧ beforeFreeSlot < i then
      ((slots.set beforeFreeSlot slots[i]?.join).set i none, beforeFreeSlot + 1)
    else (slots, beforeFreeSlot)
  (slots, if slots[i]?.join = none ∧ i < beforeFreeSlot then i else beforeFreeSlot)

def compact (slots : List (Option PoolSlot)) (slotNum : Nat) : List (Option PoolSlot) :=
  ((List.range slotNum).foldl compactStep (slots, slotNum + 1)).1

section Release

variable {ω : Type} (E : Externals ω)

/-- `codec_mm_extpool_pool_release`: the number of slots that stay. -/
def codecMmExtpoolPoolRelease (name : PoolName) : Prog (State ω) Nat := do
  let slotNum := ((← get).mgt.extPool name).slotNum
  let ignored ← releaseSlots E name (List.range slotNum)
  modifyMgt fun m => m.setPool name { m.extPool name with
    slots := if ignored > 0 then compact (m.extPool name).slots slotNum else (m.extPool name).slots
    slotNum := ignored }
  return ignored

/-- The end of `codec_mm_free_in`, for a TVP block. -/
def tvpUnuse : Prog (State ω) Unit := do
  if (← get).mgt.tvpUserCount = 0 then
    if ← codecMmTvpPoolUnprotect E then
      let _ ← codecMmExtpoolPoolRelease E .tvp
      modifyMgt fun m => { m with tvpEnable := 0 }

def codecMmRelease : Option Nat → String → Prog (State ω) Unit := codecMmReleaseWith E (tvpUnuse E)

def codecMmReleaseWithCheck (mem : Option Nat) (owner : String) : Prog (State ω) Unit := do
  let m := (← get).mgt
  if ∃ p ∈ mem, p ∈ m.memList then codecMmRelease E mem owner

/-! ## References held by other modules -/

def scatterMem : String := "SCATTER_MEM"
def keepName : String := "keeper"

def Block.holders (mem : Block) : List String := (mem.owner.take mem.useCnt.toNat).filterMap id

/-- The references to listed blocks, of the kind `p`, that some owners hold. -/
def Mgt.holdings (m : Mgt) (names : List String) (p : Block → Bool) : List (Nat × String) :=
  m.memList.flatMap fun a =>
    match m.blocks.lookup a with
    | some b => if p b then (b.holders.filter (· ∈ names)).map fun o => (a, o) else []
    | none => []

def releaseAll (l : List (Nat × String)) : Prog (State ω) Unit :=
  l.forM fun r => codecMmRelease E (some r.1) r.2

/-- The blocks that a call of `codec_mm_scatter_free_all_ignorecache` is about: it has a manager for TVP blocks, and one
for the others. -/
def scatterKind (flags : CInt) (mem : Block) : Bool :=
  if Has mem.flags flagsTvp then Has flags 2 else Has flags 1

def codecMmScatterFreeAllIgnorecache (flags : CInt) : Prog (State ω) Unit := do
  let m := (← get).mgt
  releaseAll E (← ext (E.scatterFree flags (m.holdings [scatterMem] (scatterKind flags))))

def codecMmKeeperFreeAllKeep (force : CInt) : Prog (State ω) Unit := do
  let m := (← get).mgt
  releaseAll E (← ext (E.keeperFree force (m.holdings [keepName, scatterMem] fun _ => true)))

end Release

end Amlogic.CodecMem
