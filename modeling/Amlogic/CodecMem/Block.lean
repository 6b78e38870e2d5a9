import Amlogic.Base.Prog
import Amlogic.Base.Heap

/-!
# Codec memory: blocks and pools (`codec_mm/codec_mm.c`)

The codec memory hands out blocks of memory to drivers. A block comes from the system, from the CMA area, from
reserved memory, or from one of two extension pools: the protected memory for TVP, and a reserve of CMA
memory. An extension pool has up to eight slots, each one a block that is cut into smaller ones.

A C `int` is a 32-bit word here.
-/

namespace Amlogic.CodecMem

/-! ## Integers -/

abbrev CInt := BitVec 32

/-- The conversion of an `int` to `unsigned long`. -/
def toSize (n : CInt) : Nat := (n.signExtend 64).toNat

def pageShift : CInt := 12

def pageAlign (n : CInt) : CInt := (n + 0xfff) &&& ~~~0xfff

def reserveMmAligned2n : CInt := 17

def alignReserve (n : CInt) : CInt := (n + 0x1ffff) &&& ~~~0x1ffff

def mmAlignDown (addr size : CInt) : CInt := addr &&& ~~~(size - 1)

def pageCountOf (n : CInt) : CInt := BitVec.ofNat 32 (toSize n / 4096)

def getOrder (n : CInt) : Nat := ((toSize n + (2 ^ 64 - 1)) % 2 ^ 64 / 4096).size

def minInt (a b : CInt) : CInt := if a.slt b then a else b

def sz1M : CInt := 0x100000

/-! ## Flags -/

def flagsDma : CInt := 1
def flagsCpu : CInt := 2
def flagsTvp : CInt := 4
def flagsReserved : CInt := 0x100
def flagsCma : CInt := 0x200
def flagsCmaFirst : CInt := 0x400
def flagsForLocalMgr : CInt := 0x8000000
def flagsForScatter : CInt := 0x10000000
def flagsForPhysVmaped : CInt := 0x20000000
def flagsFromMask : CInt := flagsDma ||| flagsCpu ||| flagsTvp
def flagsDmaCpu : CInt := flagsDma ||| flagsCpu
def resMemFlagsHaveMaped : CInt := 4

def Has (flags f : CInt) : Prop := flags &&& f ≠ 0

instance (flags f : CInt) : Decidable (Has flags f) := inferInstanceAs (Decidable (_ ≠ _))

inductive Source where
  | pages
  | reversed
  | cma
  | tvp
  | cmaRes
  | coherent
  deriving DecidableEq

/-! ## Blocks -/

structure Block where
  owner : List (Option String)
  memHandle : Nat
  /-- The pool of an extension pool that the block was cut from. -/
  fromExt : Option Nat
  phyAddr : Nat
  bufferSize : CInt
  pageCount : CInt
  align2n : CInt
  flags : CInt
  fromFlags : Source
  useCnt : CInt
  memId : CInt
  tvpHandle : CInt
  deriving DecidableEq

/-- A `gen_pool` with one chunk, and the pieces that are handed out. -/
structure GenPool where
  start : Nat
  size : Nat
  used : List (Nat × Nat)
  deriving DecidableEq

def GenPool.usedSize (p : GenPool) : Nat := (p.used.map Prod.snd).sum

def GenPool.avail (p : GenPool) : Nat := p.size - p.usedSize

/-- A slot of an extension pool: its `gen_pool` and its `mm`. -/
structure PoolSlot where
  genPool : Nat
  mm : Nat
  deriving DecidableEq

def tvpMaxSlot : Nat := 8

/-- `struct extpool_mgt_s`. The arrays `gen_pool` and `mm` are always changed together. -/
structure ExtPool where
  slots : List (Option PoolSlot)
  slotNum : Nat
  allocedSize : CInt
  totalSize : CInt
  deriving DecidableEq

def ExtPool.empty : ExtPool := ⟨List.replicate tvpMaxSlot none, 0, 0, 0⟩

inductive PoolName where
  | tvp
  | cmaRes
  deriving DecidableEq

/-- `struct codec_mm_mgt_s`, with the structures it points to and the static variables. -/
structure Mgt where
  /-- The structures of type `codec_mm_s` that are not freed. -/
  blocks : Heap Block
  genPools : Heap GenPool
  memList : List Nat
  resPool : Option Nat
  extPool : PoolName → ExtPool
  totalCodecMemSize : CInt
  totalAllocedSize : CInt
  totalCmaSize : CInt
  totalReservedSize : CInt
  maxUsedMemSize : CInt
  allocedResSize : CInt
  allocedCmaSize : CInt
  allocedSysSize : CInt
  allocedForScSize : CInt
  allocedForScCnt : CInt
  allocedFromCoherent : CInt
  physVmapedPageCnt : CInt
  allocFromSysPagesMax : CInt
  enableKmallocOnNomem : CInt
  resMemFlags : CInt
  globalMemid : CInt
  tvpEnable : CInt
  fastplayEnable : CInt
  tvpUserCount : CInt
  debugMode : CInt
  tvpMode : CInt
  defaultTvpSize : CInt
  defaultTvp4kSize : CInt
  defaultCmaResSize : CInt

/-- What the drivers see of a block: who takes and gives back references, and when it is freed. -/
inductive Event where
  | acquire (mem : Nat)
  | release (mem : Nat)
  | free (mem : Nat)
  deriving DecidableEq

/-- The rest of the system, the codec memory, and the events so far. -/
structure State (ω : Type) where
  world : ω
  mgt : Mgt
  log : List Event

/-- The allocators, the secure monitor and the scatter memory, with a state of type `ω`. -/
structure Externals (ω : Type) where
  /-- `kmalloc`, for a `codec_mm_s`, when the given ones are in use. -/
  kmalloc : List Nat → ω → Option Nat × ω
  getFreePages : Nat → ω → Option Nat × ω
  freePages : Nat → Nat → ω → ω
  /-- `dma_alloc_from_contiguous`, for a number of pages and an alignment. -/
  dmaAllocFromContiguous : CInt → CInt → ω → Option Nat × ω
  dmaReleaseFromContiguous : Nat → CInt → ω → ω
  /-- `gen_pool_create`, when the given ones are in use. -/
  genPoolCreate : List Nat → ω → Option Nat × ω
  genPoolAdd : Nat → Nat → ω → Bool × ω
  /-- The place that `gen_pool_alloc` chooses. -/
  genPoolAlloc : GenPool → Nat → ω → Option Nat × ω
  pageHighMem : Nat → Bool
  cmaMmuOp : Nat → CInt → Bool → ω → ω
  /-- `tee_protect_tvp_mem`: the handle, given the one before. -/
  teeProtectTvpMem : Nat → CInt → CInt → ω → CInt × ω
  teeUnprotectTvpMem : CInt → ω → ω
  /-- `codec_mm_scatter_free_all_ignorecache`: the references that the scatter memory gives back, out of those it
  holds. -/
  scatterFree : CInt → List (Nat × String) → ω → List (Nat × String) × ω
  /-- `codec_mm_keeper_free_all_keep`, in the same way. -/
  keeperFree : CInt → List (Nat × String) → ω → List (Nat × String) × ω
  dmaAllocCoherent : CInt → ω → Option Nat × ω
  dmaFreeCoherent : Nat → CInt → ω → ω
  kmalloc_fresh : ∀ {l w p}, (kmalloc l w).1 = some p → p ∉ l
  getFreePages_order : ∀ {n w p}, (getFreePages n w).1 = some p → n < 11
  dmaAlloc_pos : ∀ {n a w p}, (dmaAllocFromContiguous n a w).1 = some p → 0 < n.toInt
  genPoolCreate_fresh : ∀ {l w p}, (genPoolCreate l w).1 = some p → p ∉ l
  genPoolAlloc_fits : ∀ {p n w a}, (genPoolAlloc p n w).1 = some a →
    0 < n ∧ n < 2 ^ 31 ∧ p.usedSize + n ≤ p.size
  scatterFree_sublist : ∀ {f l w}, (scatterFree f l w).1.Sublist l
  keeperFree_sublist : ∀ {f l w}, (keeperFree f l w).1.Sublist l

end Amlogic.CodecMem
