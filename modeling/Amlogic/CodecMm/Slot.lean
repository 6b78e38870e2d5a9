import Amlogic.Base.Prog
import Amlogic.Base.Heap

/-!
# Slots of the scatter memory (`codec_mm/codec_mm_scatter.c`)

The scatter memory hands out single pages. It takes them from slots, which are blocks of pages with a
bitmap, or one by one from the system. A page is known by a token: its address, with the number
(`sid`) of the hash list its slot is on in the low bits.

Operations run one after the other here: between two of them no lock is held, and no slot is in use
(`on_alloc_free`). Slots are named by their physical address.
-/

namespace Amlogic.CodecMm

/-! ## Page tokens -/

/-- `PAGE_SHIFT` and `MAX_ADDR_SHIFT`. -/
def pageShift : Nat := 12
def pageSize : Nat := 4096
def sidMask : Nat := 0xfff
def maxSid : Nat := sidMask - 1
def onePageSid : Nat := sidMask

def addrSeed (paddr : Nat) : Nat := (paddr >>> (pageShift <<< 1)) + (paddr >>> pageShift) + paddr

def hashPageAddr (paddr : Nat) : Nat := addrSeed paddr % maxSid

def slotToSid (phyAddr : Nat) : Nat := hashPageAddr (phyAddr >>> pageShift)

def pageSid (page : Nat) : Nat := page &&& sidMask

def pageAddr (page : Nat) : Nat := (page >>> pageShift) <<< pageShift

/-- `ADDR2PAGE`, stored in a `phy_addr_type`, which is `u32`. -/
def addr2page (addr sid : Nat) : Nat := u32 (((addr >>> pageShift) <<< pageShift) ||| sid)

def ValidSid (sid : Nat) : Prop := sid < maxSid ∨ sid = onePageSid

instance (sid : Nat) : Decidable (ValidSid sid) := inferInstanceAs (Decidable (_ ∨ _))

def addr2bit (base addr : Nat) : Nat := (addr - base) >>> pageShift

def bit2addr (base bit : Nat) : Nat := base + pageSize * bit

def codecMmSErr (x : Int) : Int := -1000 - x

def toU32 (n : Int) : Nat := (n % 2 ^ 32).toNat

/-- `get_order`, for a size that is converted to `unsigned long`. -/
def getOrder (size : Int) : Nat := if size ≤ 0 then 52 else ((size - 1).toNat >>> pageShift).size

/-! ## The rest of the system -/

structure Area where
  phyAddr : Nat
  pageNum : Nat
  deriving DecidableEq

def Area.frames (a : Area) : Multiset Nat :=
  (Multiset.range a.pageNum).map fun i => a.phyAddr / pageSize + i

/-- A block starts at a page, is not empty and smaller than 2 GB, and lies below 4 GB. -/
structure Area.Ok (a : Area) : Prop where
  aligned : a.phyAddr % pageSize = 0
  pos : 0 < a.pageNum
  small : a.pageNum < 2 ^ 19
  below : a.phyAddr + pageSize * a.pageNum ≤ 2 ^ 32

/-- What the allocators hand out: page frames, and memory for scatters. -/
inductive Resource where
  | frame (n : Nat)
  | scatter (n : Nat)

def Area.resources (a : Area) : Set Resource := {r | ∃ f ∈ a.frames, r = .frame f}

/-- A request: what is handed out was not in use and is in use from now on, and nothing in use is
taken away. -/
structure Grants {ω α : Type} (inUse : ω → Set Resource) (part : α → Set Resource) (w : ω)
    (r : Option α × ω) : Prop where
  keeps : inUse w ⊆ inUse r.2
  fresh : ∀ a, r.1 = some a → ∀ x ∈ part a, x ∉ inUse w
  taken : ∀ a, r.1 = some a → part a ⊆ inUse r.2

/-- The memory allocators and the clock, with a state of type `ω`. -/
structure Externals (ω : Type) where
  jiffies : ω → Nat × ω
  hz : Nat
  kmalloc : ω → Bool × ω
  scAlloc : ω → Option Nat × ω
  scFree : Nat → ω → ω
  codecMmGetFreeSize : ω → Int
  /-- `codec_mm_alloc`, for a size in bytes and with or without `CODEC_MM_FLAGS_TVP`. -/
  codecMmAlloc : Int → Bool → ω → Option Area × ω
  codecMmRelease : Area → ω → ω
  getFreePages : Nat → ω → Option Nat × ω
  freePages : Nat → Nat → ω → ω
  getFreePage : ω → Option Nat × ω
  freePage : Nat → ω → ω
  inUse : ω → Set Resource
  jiffies_keeps : ∀ w, inUse w ⊆ inUse (jiffies w).2
  kmalloc_keeps : ∀ w, inUse w ⊆ inUse (kmalloc w).2
  scAlloc_grants : ∀ w, Grants inUse (fun a => {.scatter a}) w (scAlloc w)
  scFree_frees : ∀ a w, inUse w \ {.scatter a} ⊆ inUse (scFree a w)
  codecMmAlloc_grants : ∀ n t w, Grants inUse Area.resources w (codecMmAlloc n t w)
  codecMmAlloc_ok : ∀ n t w a, (codecMmAlloc n t w).1 = some a → a.Ok
  codecMmRelease_frees : ∀ a w, inUse w \ a.resources ⊆ inUse (codecMmRelease a w)
  getFreePages_grants : ∀ n w,
    Grants inUse (fun p => (Area.mk p (2 ^ n)).resources) w (getFreePages n w)
  getFreePages_ok : ∀ n w p, (getFreePages n w).1 = some p → (Area.mk p (2 ^ n)).Ok
  freePages_frees : ∀ p n w, inUse w \ (Area.mk p (2 ^ n)).resources ⊆ inUse (freePages p n w)
  getFreePage_grants : ∀ w, Grants inUse (fun p => (Area.mk p 1).resources) w (getFreePage w)
  getFreePage_ok : ∀ w p, (getFreePage w).1 = some p → (Area.mk p 1).Ok
  freePage_frees : ∀ p w, inUse w \ (Area.mk p 1).resources ⊆ inUse (freePage p w)

/-! ## Slots -/

/-- `from_type`. -/
inductive SlotFrom where
  | codecMm
  | getFreePages
  deriving DecidableEq

structure Slot where
  fromType : SlotFrom
  phyAddr : Nat
  pageNum : Nat
  /-- The bits of `pagemap`, `pagemap_size << 3` of them. -/
  pagemap : List Bool
  allocedPageNum : Int
  nextBit : Nat
  sid : Nat
  isroot : Bool
  onAllocFree : Int

/-- The part of `struct codec_mm_scatter_mgt` that deals with slots and pages. -/
structure SlotPool where
  slots : Heap Slot
  /-- `slot_list_map`: the ring of slots of every `sid`, from the slot that the map names on. -/
  slotListMap : Nat → List Nat
  freeList : List Nat
  tvpMode : Bool
  totalPageNum : Int
  allocedPageNum : Int
  maxAlloced : Int
  onePageCnt : Int
  slotCnt : Int
  tryAllocInCmaPageCnt : Nat
  tryAllocInSysPageCnt : Nat
  tryAllocInSysPageCntMax : Nat
  tryAllocInSysPageCntMin : Nat
  enableSlotFromSys : Nat
  supportFromSlotSys : Nat
  noAllocFromSys : Nat
  reservedBlockMmM : Nat
  keepSizePage : Nat
  allocFromSysScCnt : Int
  allocFromSysPageCnt : Int
  allocFromSysMaxPageCnt : Int

structure PoolSt (ω : Type) where
  world : ω
  pool : SlotPool

section Code

variable {ω : Type}

def ext {α : Type} (f : ω → α × ω) : Prog (PoolSt ω) α := fun s =>
  .ok ((f s.world).1, { s with world := (f s.world).2 })

def modifyPool (f : SlotPool → SlotPool) : Prog (PoolSt ω) Unit :=
  modify fun s => { s with pool := f s.pool }

def slotOf (id : Nat) : Prog (PoolSt ω) Slot := do
  match (← get).pool.slots.lookup id with
  | some slot => return slot
  | none => throw .access

def SlotPool.setSlot (p : SlotPool) (id : Nat) (slot : Slot) : SlotPool :=
  { p with slots := p.slots.insert id slot }

/-! ## The hash of slots -/

/-- The effect of `codec_mm_set_slot_in_hash` on the pool. -/
def SlotPool.addToHash (p : SlotPool) (id : Nat) (slot : Slot) (sid : Nat) : SlotPool :=
  let ring := p.slotListMap sid
  let sys := slot.fromType = .getFreePages
  let sysPages := if sys then p.allocFromSysPageCnt + slot.pageNum else p.allocFromSysPageCnt
  { p.setSlot id { slot with sid := sid, isroot := ring.isEmpty } with
    slotListMap := Function.update p.slotListMap sid (ring ++ [id])
    totalPageNum := p.totalPageNum + slot.pageNum
    slotCnt := p.slotCnt + 1
    allocFromSysScCnt := if sys then p.allocFromSysScCnt + 1 else p.allocFromSysScCnt
    allocFromSysPageCnt := sysPages
    allocFromSysMaxPageCnt := if sys then max p.allocFromSysMaxPageCnt sysPages
      else p.allocFromSysMaxPageCnt
    freeList := p.freeList ++ [id] }

def codecMmSetSlotInHash (id : Nat) : Prog (PoolSt ω) Int := do
  let slot ← slotOf id
  let sid := slotToSid slot.phyAddr
  if sid > maxSid then return -1
  else
    modifyPool fun p => p.addToHash id slot sid
    return 0

/-- The search of `codec_mm_find_slot_in_hash` through a ring. -/
def findSlot (addr : Nat) : List Nat → Prog (PoolSt ω) (Option Nat)
  | [] => return none
  | id :: ids => do
    let slot ← slotOf id
    if slot.phyAddr ≤ addr ∧ addr < slot.phyAddr + slot.pageNum <<< pageShift then return some id
    else findSlot addr ids

/-- `codec_mm_find_slot_in_hash`. The ring is searched backwards from the slot in the map. -/
def codecMmFindSlotInHash (sid addr : Nat) : Prog (PoolSt ω) (Option Nat) := do
  if ¬ValidSid sid ∨ sid = onePageSid then return none
  else
    match (← get).pool.slotListMap sid with
    | [] => return none
    | fslot :: ring => findSlot addr (fslot :: ring.reverse)

/-- A ring without one slot, read from the slot behind it. -/
def ringAfter (ring : List Nat) (id : Nat) : List Nat :=
  (ring.dropWhile (· ≠ id)).tail ++ ring.takeWhile (· ≠ id)

def setRoot (slots : Heap Slot) (id : Nat) : Heap Slot :=
  match slots.lookup id with
  | some slot => slots.insert id { slot with isroot := true }
  | none => slots

/-- The effect of `codec_mm_slot_free` on the pool. -/
def SlotPool.removeSlot (p : SlotPool) (id : Nat) (slot : Slot) : SlotPool :=
  let ring := ringAfter (p.slotListMap slot.sid) id
  let sys := slot.fromType = .getFreePages
  { p with
    slots :=
      (match ring with
        | next :: _ => if slot.isroot then setRoot p.slots next else p.slots
        | [] => p.slots).erase id
    slotListMap := Function.update p.slotListMap slot.sid
      (if slot.isroot ∨ ring = [] then ring else (p.slotListMap slot.sid).erase id)
    freeList := p.freeList.erase id
    slotCnt := p.slotCnt - 1
    totalPageNum := p.totalPageNum - slot.pageNum
    allocFromSysScCnt := if sys then p.allocFromSysScCnt - 1 else p.allocFromSysScCnt
    allocFromSysPageCnt := if sys then p.allocFromSysPageCnt - slot.pageNum
      else p.allocFromSysPageCnt }

variable (E : Externals ω)

def codecMmSlotFree (id : Nat) : Prog (PoolSt ω) Int := do
  let slot ← slotOf id
  if slot.allocedPageNum > 0 ∨ slot.onAllocFree ≠ 0 then return -1
  else
    modifyPool fun p => p.removeSlot id slot
    match slot.fromType with
    | .codecMm => ext fun w => ((), E.codecMmRelease ⟨slot.phyAddr, slot.pageNum⟩ w)
    | .getFreePages =>
      ext fun w => ((), E.freePages slot.phyAddr (getOrder (pageSize * slot.pageNum)) w)
    return 0

def codecMmSlotTryFree (id : Nat) : Prog (PoolSt ω) Int := do
  let p := (← get).pool
  if p.keepSizePage > 0 ∧ toU32 (p.totalPageNum - p.allocedPageNum) < p.keepSizePage then return -1
  else codecMmSlotFree E id

/-- `codec_mm_slot_init_bitmap`, for a new slot. -/
def codecMmSlotInitBitmap (fromType : SlotFrom) (a : Area) : Prog (PoolSt ω) (Option Slot) := do
  if ← ext E.kmalloc then
    return some
      { fromType := fromType, phyAddr := a.phyAddr, pageNum := a.pageNum
        pagemap := List.replicate (((a.pageNum >>> 3) + 2) <<< 3) false
        allocedPageNum := 0, nextBit := 0, sid := 0, isroot := false, onAllocFree := 0 }
  else return none

/-- The part of `codec_mm_slot_alloc` that asks the codec memory. -/
def slotFromCodecMm (size : Int) (flags : Nat) : Prog (PoolSt ω) (Option Slot) := do
  let s ← get
  let free := E.codecMmGetFreeSize s.world
  if flags &&& 1 = 0 ∧ (size ≤ 0 ∨ size > 64 * 1024) ∧
      (s.pool.tvpMode ∨ toU32 free > u32 (s.pool.reservedBlockMmM * 2 ^ 20)) then
    let size := if size ≤ 0 then s32 (s.pool.tryAllocInCmaPageCnt * pageSize) else size
    match ← ext (E.codecMmAlloc (min size free) s.pool.tvpMode) with
    | none => return none
    | some mm =>
      match ← codecMmSlotInitBitmap E .codecMm mm with
      | some slot => return some slot
      | none =>
        ext fun w => ((), E.codecMmRelease mm w)
        return none
  else return none

/-- The part of `codec_mm_slot_alloc` that asks the system, for smaller and smaller blocks. -/
def slotFromSys : Nat → Int → Prog (PoolSt ω) (Option Slot)
  | 0, _ => throw .fuel
  | fuel + 1, size => do
    match ← ext (E.getFreePages (getOrder size)) with
    | some page =>
      match ← codecMmSlotInitBitmap E .getFreePages ⟨page, 2 ^ getOrder size⟩ with
      | some slot => return some slot
      | none =>
        ext fun w => ((), E.freePages page (getOrder size) w)
        return none
    | none =>
      if toU32 (size >>> (pageShift + 1)) ≥ (← get).pool.tryAllocInSysPageCntMin then
        modifyPool fun p => { p with tryAllocInSysPageCnt := toU32 ((size >>> 1) >>> pageShift) }
        slotFromSys fuel (size >>> 1)
      else
        modifyPool fun p => { p with supportFromSlotSys := 0 }
        return none

/-- The end of `codec_mm_slot_alloc`: a new slot enters the hash. -/
def addSlot : Option Slot → Prog (PoolSt ω) (Option Nat)
  | none => return none
  | some slot => do
    modifyPool fun p => p.setSlot slot.phyAddr slot
    let _ ← codecMmSetSlotInHash slot.phyAddr
    return some slot.phyAddr

/-- `codec_mm_slot_alloc`. A size below 2 GB has been halved to nothing after 32 rounds; from then on
every further round is the same. -/
def codecMmSlotAlloc (size : Int) (flags : Nat) : Prog (PoolSt ω) (Option Nat) := do
  if size > 0 ∧ size ≤ pageSize then return none
  else if !(← ext E.kmalloc) then return none
  else
    match ← slotFromCodecMm E size flags with
    | some slot => addSlot (some slot)
    | none =>
      let p := (← get).pool
      let size := if size ≤ 0 then s32 ↑(u32 (p.tryAllocInSysPageCnt <<< pageShift))
        else s32 ((size + 4095) / 4096 * 4096)
      if p.supportFromSlotSys = 0 ∨ (0 ≤ size ∧ size ≤ pageSize <<< 1) ∨ p.tvpMode ∨
          p.noAllocFromSys ≠ 0 then return none
      else addSlot (← slotFromSys E 64 size)

/-! ## Pages -/

/-- `codec_mm_slot_free_page`. A slot in the hash has a `pagemap`. -/
def codecMmSlotFreePage (id phyAddr : Nat) : Prog (PoolSt ω) Int := do
  let slot ← slotOf id
  let bit := addr2bit slot.phyAddr phyAddr
  if slot.pageNum ≤ 0 then return codecMmSErr 4
  else if ¬bit < slot.pagemap.length then return codecMmSErr 5
  else if slot.pagemap[bit]? = some true then
    modifyPool fun p => p.setSlot id { slot with
      pagemap := slot.pagemap.set bit false, allocedPageNum := slot.allocedPageNum - 1 }
    return 0
  else return codecMmSErr 6

/-- The loop of `codec_mm_slot_alloc_pages`, for `tryn` rounds from the bit `i` on: the slot after it,
the next bit, and the pages. -/
def Slot.allocPages (slot : Slot) : Nat → Nat → Nat → Slot × Nat × List Nat
  | 0, i, _ => (slot, i, [])
  | tryn + 1, i, need =>
    if need = 0 ∨ slot.onAllocFree ≠ 1 ∨ ¬i < slot.pagemap.length then (slot, i, [])
    else
      let next := if i + 1 ≥ slot.pageNum then 0 else i + 1
      if slot.pagemap[i]? = some true then slot.allocPages tryn next need
      else
        let r := Slot.allocPages { slot with
          pagemap := slot.pagemap.set i true, allocedPageNum := slot.allocedPageNum + 1 }
          tryn next (need - 1)
        (r.1, r.2.1, addr2page (bit2addr slot.phyAddr i) slot.sid :: r.2.2)

/-- `codec_mm_slot_alloc_pages`: the returned value, and the pages. -/
def codecMmSlotAllocPages (id num : Nat) : Prog (PoolSt ω) (Int × List Nat) := do
  let slot ← slotOf id
  if slot.allocedPageNum ≥ slot.pageNum then return (-2, [])
  else
    let canAlloced := (slot.pageNum - slot.allocedPageNum).toNat
    let r := slot.allocPages slot.pageNum slot.nextBit (min num canAlloced)
    modifyPool fun p => p.setSlot id { r.1 with nextBit := if r.2.1 ≥ slot.pageNum then 0 else r.2.1 }
    return (r.2.2.length, r.2.2)

def codecMmPageFreeToSlot (sid addr : Nat) : Prog (PoolSt ω) Int := do
  match ← codecMmFindSlotInHash sid addr with
  | none => return -1
  | some id =>
    let _ ← codecMmSlotFreePage id addr
    let slot ← slotOf id
    let freed ← (if slot.allocedPageNum = 0 then codecMmSlotTryFree E id else pure (-1))
    if freed ≠ 0 then
      modifyPool fun p =>
        if id ∉ p.freeList ∧ slot.allocedPageNum < slot.pageNum then
          { p with freeList := p.freeList ++ [id] }
        else p
    return 0

/-- The loop of `codec_mm_page_alloc_from_one_pages`. -/
def getFreePageLoop : Nat → Prog (PoolSt ω) (List Nat)
  | 0 => return []
  | num + 1 => do
    match ← ext E.getFreePage with
    | none => return []
    | some page => return u32 (page ||| onePageSid) :: (← getFreePageLoop num)

def codecMmPageAllocFromOnePages (num : Nat) : Prog (PoolSt ω) (List Nat) := do
  let pages ← getFreePageLoop E num
  modifyPool fun p => { p with
    totalPageNum := p.totalPageNum + pages.length
    onePageCnt := p.onePageCnt + pages.length
    allocedPageNum := p.allocedPageNum + pages.length }
  return pages

/-- A slot of the default size, or else a small one. -/
def newSlot : Prog (PoolSt ω) (Option Nat) := do
  match ← codecMmSlotAlloc E 0 0 with
  | some id => return some id
  | none => codecMmSlotAlloc E (s32 ↑((← get).pool.tryAllocInCmaPageCnt / 4 * pageSize)) 0

/-- The section of `codec_mm_page_alloc_from_slot` that takes a slot off the free list: the given
slot, or else the first one of the list. -/
def claimSlot (slot : Option Nat) : Prog (PoolSt ω) (Option Nat) := do
  let p := (← get).pool
  let given ← (match slot with
    | none => pure none
    | some id => do
      if (← slotOf id).onAllocFree ≠ 0 then return none else return some id)
  match given <|> p.freeList.head? with
  | none => return none
  | some id =>
    let slot ← slotOf id
    if slot.onAllocFree ≠ 0 then return none
    else
      modifyPool fun p => { p.setSlot id { slot with onAllocFree := slot.onAllocFree + 1 } with
        freeList := p.freeList.erase id }
      return some id

/-- The section of `codec_mm_page_alloc_from_slot` after the allocation. -/
def unclaimSlot (id : Nat) : Prog (PoolSt ω) Unit := do
  let slot ← slotOf id
  modifyPool fun p => { p.setSlot id { slot with onAllocFree := slot.onAllocFree - 1 } with
    freeList := if slot.allocedPageNum < slot.pageNum ∧ id ∉ p.freeList then p.freeList ++ [id]
      else p.freeList }

/-- The loop of `codec_mm_page_alloc_from_slot`. -/
def allocFromSlots : Nat → Nat → Prog (PoolSt ω) (List Nat)
  | 0, _ => throw .fuel
  | fuel + 1, neednum => do
    let p := (← get).pool
    let full := p.totalPageNum ≤ 0 ∨ p.allocedPageNum = p.totalPageNum ∨ p.freeList = []
    let slot ← (if full then newSlot E else pure none)
    if full ∧ slot = none then return []
    else
      match ← claimSlot slot with
      | none => return []
      | some id =>
        let (n, pages) ← codecMmSlotAllocPages id neednum
        unclaimSlot id
        if n > 0 then
          if neednum - n > 0 then return pages ++ (← allocFromSlots fuel (neednum - n).toNat)
          else return pages
        else allocFromSlots fuel neednum

/-- `codec_mm_page_alloc_from_slot`. Every round of the loop takes a page or a slot of the free
list. -/
def codecMmPageAllocFromSlot (num : Nat) : Prog (PoolSt ω) (List Nat) := do
  let s ← get
  if ¬s.pool.tvpMode ∧ s.pool.freeList = [] ∧
      toU32 (E.codecMmGetFreeSize s.world) < u32 (s.pool.reservedBlockMmM * 2 ^ 20) ∧
      s.pool.supportFromSlotSys = 0 then return []
  else
    let pages ← allocFromSlots E (num + s.pool.freeList.length + 1) num
    modifyPool fun p =>
      let alloced := p.allocedPageNum + pages.length
      { p with allocedPageNum := alloced, maxAlloced := max p.maxAlloced alloced }
    return pages

def findUnused : List Nat → Prog (PoolSt ω) (Option Nat)
  | [] => return none
  | id :: ids => do
    if (← slotOf id).allocedPageNum = 0 then return some id
    else findUnused ids

/-- The loop of `codec_mm_free_all_free_slots_in`, which searches the free list from its end. -/
def freeSlotsLoop : Nat → Prog (PoolSt ω) Unit
  | 0 => throw .fuel
  | fuel + 1 => do
    match ← findUnused (← get).pool.freeList.reverse with
    | none => return ()
    | some id =>
      modifyPool fun p => { p with freeList := p.freeList.erase id }
      let _ ← codecMmSlotFree E id
      freeSlotsLoop fuel

def codecMmFreeAllFreeSlotsIn : Prog (PoolSt ω) Int := do
  freeSlotsLoop E ((← get).pool.freeList.length + 1)
  return 0

end Code

end Amlogic.CodecMm
