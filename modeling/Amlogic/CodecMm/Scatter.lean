import Amlogic.CodecMm.Slot

/-!
# Scatters (`codec_mm/codec_mm_scatter.c`)

A scatter holds an array of page tokens. Its user count tells who holds it: 1000 for an owner, 100 for
a keeper, and -100000 when it is being freed. Two scatters of a manager are its page cache: pages that
are freed fast go there, and new pages come from there first.

The code of this module works on one manager. Time statistics and the scheduling of the delayed work
are left out, since they change nothing else.
-/

namespace Amlogic.CodecMm

structure Scatter where
  pagesList : List Nat
  pageMaxCnt : Nat
  pageCnt : Nat
  pageTail : Int
  pageUsed : Int
  userCnt : Int
  tofreeJiffies : Nat

def maxScList : Nat := 64

structure Mgt extends SlotPool where
  scatters : Heap Scatter
  scatterList : List Nat
  scattersCnt : Int
  scmap : List (Option Nat)
  cacheSc0 : Option Nat
  cacheSc1 : Option Nat
  cachedPages : Int
  delayFreeOn : Int
  delayFreeTimeoutJiffies64 : Nat
  forceCacheOn : Bool
  forceCachePageCnt : Int
  noCacheSizeM : Nat
  scatterTaskRunNum : Int

/-- The state of the code for one manager. -/
structure Local (ω : Type) where
  world : ω
  mgt : Mgt

def Mgt.isCacheSc (m : Mgt) (mms : Nat) : Bool := m.cacheSc0 = some mms ∨ m.cacheSc1 = some mms

section Code

variable {ω : Type}

def onPool {α : Type} : Prog (PoolSt ω) α → Prog (Local ω) α :=
  Prog.zoom (fun s => ⟨s.world, s.mgt.toSlotPool⟩)
    fun s t => ⟨t.world, { s.mgt with toSlotPool := t.pool }⟩

def modifyMgt (f : Mgt → Mgt) : Prog (Local ω) Unit := modify fun s => { s with mgt := f s.mgt }

def Mgt.setScatter (m : Mgt) (mms : Nat) (sc : Scatter) : Mgt :=
  { m with scatters := m.scatters.insert mms sc }

def scatterOf (mms : Nat) : Prog (Local ω) Scatter := do
  match (← get).mgt.scatters.lookup mms with
  | some sc => return sc
  | none => throw .access

def loadPages (list : List Nat) (i : Int) (n : Nat) : Prog (Local ω) (List Nat) :=
  if i < 0 then throw .access else liftM (load list i.toNat n)

def storePages (list : List Nat) (i : Int) (pages : List Nat) : Prog (Local ω) (List Nat) :=
  if i < 0 then throw .access else liftM (store list i.toNat pages)

/-! ## The page cache -/

def codecMmGetNextCacheScatter (cur : Option Nat) (flags : Nat) : Prog (Local ω) (Option Nat) := do
  let m := (← get).mgt
  match cur, m.cacheSc0, m.cacheSc1 with
  | some mms, _, _ => return if m.cacheSc0 = some mms then m.cacheSc1 else m.cacheSc0
  | none, some mms0, some mms1 =>
    let sc0 ← scatterOf mms0
    let sc1 ← scatterOf mms1
    let more := flags &&& 1 ≠ 0
    if sc0.pageCnt ≥ sc1.pageCnt then return if more then mms0 else mms1
    else return if more then mms1 else mms0
  | none, some mms0, none => return some mms0
  | none, none, cache1 => return cache1

/-- `codec_mm_page_alloc_from_free_scatter`. The scatter is not locked by anyone else. -/
def codecMmPageAllocFromFreeScatter (src : Option Nat) (num : Nat) : Prog (Local ω) (List Nat) := do
  match src with
  | none => return []
  | some mms =>
    let sc ← scatterOf mms
    let alloced := min sc.pageCnt num
    if alloced > 0 then
      let tail := sc.pageTail - alloced
      let pages ← loadPages sc.pagesList (tail + 1) alloced
      let list ← storePages sc.pagesList (tail + 1) (List.replicate alloced 0)
      modifyMgt fun m => { m.setScatter mms { sc with
          pagesList := list, pageCnt := sc.pageCnt - alloced, pageTail := tail } with
        cachedPages := m.cachedPages - alloced }
      return pages
    else return []

def codecMmPageAllocFromCacheScatter (num : Nat) : Prog (Local ω) (List Nat) := do
  let src ← codecMmGetNextCacheScatter none 1
  let pages ← codecMmPageAllocFromFreeScatter src num
  if pages.length < num then
    let src ← codecMmGetNextCacheScatter src 1
    return pages ++ (← codecMmPageAllocFromFreeScatter src (num - pages.length))
  else return pages

def codecMmPagesFreeToScatter (src : Nat) (dst : Option Nat) : Prog (Local ω) Int := do
  let sc ← scatterOf src
  if sc.pageUsed ≥ sc.pageCnt then return -1
  else
    match dst with
    | none => return 0
    | some mms =>
      if src = mms then return 0
      else
        let dsc ← scatterOf mms
        let moved := min (sc.pageCnt - sc.pageUsed) (dsc.pageMaxCnt - dsc.pageCnt : Int)
        let left := sc.pageCnt - moved
        let (dstList, srcList) ← (if moved > 0 then do
            let pages ← loadPages sc.pagesList left moved.toNat
            let dstList ← storePages dsc.pagesList (dsc.pageTail + 1) pages
            let srcList ← storePages sc.pagesList left (List.replicate moved.toNat 0)
            return (dstList, srcList)
          else pure (dsc.pagesList, sc.pagesList))
        modifyMgt fun m => { (m.setScatter src { sc with
            pagesList := srcList, pageCnt := left.toNat
            pageTail := sc.pageTail - moved }).setScatter mms { dsc with
            pagesList := dstList, pageCnt := (dsc.pageCnt + moved).toNat
            pageTail := dsc.pageTail + moved } with
          cachedPages := m.cachedPages + moved }
        return moved

def codecMmPageFreeToCacheScatter (src : Nat) : Prog (Local ω) Int := do
  codecMmPagesFreeToScatter src (← codecMmGetNextCacheScatter none 0)

variable (E : Externals ω)

/-- The loop of `codec_mm_page_alloc_all_locked`: from the cache, then from slots, then page by
page. -/
def allocAllLoop : Nat → Bool → Bool → Nat → Prog (Local ω) (List Nat)
  | 0, _, _, _ => throw .fuel
  | fuel + 1, fromScatter, fromSlot, num => do
    let m := (← get).mgt
    if num = 0 then return []
    else if fromScatter then
      let pages ← codecMmPageAllocFromCacheScatter num
      return pages ++ (← allocAllLoop fuel (!pages.isEmpty) fromSlot (num - pages.length))
    else if fromSlot then
      let pages ← onPool (codecMmPageAllocFromSlot E num)
      return pages ++ (← allocAllLoop fuel false (!pages.isEmpty) (num - pages.length))
    else if m.noAllocFromSys = 0 ∧ !m.tvpMode then
      let pages ← onPool (codecMmPageAllocFromOnePages E num)
      if pages.isEmpty then return []
      else return pages ++ (← allocAllLoop fuel false false (num - pages.length))
    else return []

def codecMmPageAllocAllLocked (num : Nat) (iscache : Bool) : Prog (Local ω) (List Nat) :=
  allocAllLoop E (num + 3) (!iscache) true num

/-! ## Freeing pages -/

def codecMmScatterFreePageIdLocked (mms : Nat) (id : Int) : Prog (Local ω) Int := do
  let sc ← scatterOf mms
  if sc.pageCnt ≤ id ∨ id < 0 then return codecMmSErr 1
  else
    match sc.pagesList[id.toNat]? with
    | none => throw .access
    | some page =>
      let sid := pageSid page
      if ¬ValidSid sid then return codecMmSErr 2
      else if sid = onePageSid then
        onPool (ext fun w => ((), E.freePage (pageAddr page) w))
        modifyMgt fun m => { m.setScatter mms { sc with
            pageTail := if id = sc.pageTail then sc.pageTail - 1 else sc.pageTail
            pageCnt := sc.pageCnt - 1 } with
          onePageCnt := m.onePageCnt - 1, totalPageNum := m.totalPageNum - 1 }
        return 0
      else
        let ret ← onPool (codecMmPageFreeToSlot E sid (pageAddr page))
        if ret = 0 then
          modifyMgt fun m => m.setScatter mms { sc with
            pageCnt := sc.pageCnt - 1, pageTail := sc.pageTail - 1 }
          return ret
        else return ret

/-- The loop of `codec_mm_scatter_free_pages_in_locked`, down from the entry `start + n - 1`. -/
def freePagesLoop (mms : Nat) (start : Int) : Nat → Prog (Local ω) Unit
  | 0 => return ()
  | n + 1 => do
    let _ ← codecMmScatterFreePageIdLocked E mms (start + n)
    let sc ← scatterOf mms
    let list ← storePages sc.pagesList (start + n) [0]
    modifyMgt fun m => m.setScatter mms { sc with pagesList := list }
    freePagesLoop mms start n

def codecMmScatterFreePagesInLocked (mms : Nat) (start : Int) : Prog (Local ω) Int := do
  let sc ← scatterOf mms
  let freeNum := (sc.pageTail - start + 1).toNat
  freePagesLoop E mms start freeNum
  modifyMgt fun m => { m with
    allocedPageNum := m.allocedPageNum - freeNum
    cachedPages := if m.isCacheSc mms then m.cachedPages - freeNum else m.cachedPages }
  return 0

def codecMmScatterFreeTailPagesIn (mms : Nat) (id : Int) (fastMode freeMode : Nat) :
    Prog (Local ω) Int := do
  let sc ← scatterOf mms
  let start :=
    if freeMode = 2 then
      if id > 0 then if id ≥ sc.pageCnt then 0 else sc.pageCnt - id else -1
    else if freeMode = 1 then sc.pageUsed
    else id
  if start < 0 ∨ start ≥ sc.pageCnt ∨ sc.pageTail < 0 then return -1
  else
    modifyMgt fun m => m.setScatter mms { sc with pageUsed := start }
    if fastMode = 1 then return 0
    else if fastMode = 2 ∨ fastMode = 3 then
      let _ ← codecMmPageFreeToCacheScatter mms
      let sc ← scatterOf mms
      if fastMode = 2 ∨ sc.pageUsed = sc.pageCnt then return 0
      else codecMmScatterFreePagesInLocked E mms start
    else codecMmScatterFreePagesInLocked E mms start

def codecMmScatterFreeTailPages (mms : Nat) (startId : Int) : Prog (Local ω) Int :=
  codecMmScatterFreeTailPagesIn E mms startId 0 0

def codecMmScatterFreeTailPagesFast (mms : Nat) (startFreeId : Int) : Prog (Local ω) Int := do
  let sc ← scatterOf mms
  if startFreeId < sc.pageCnt then codecMmScatterFreeTailPagesIn E mms startFreeId 2 0
  else return 0

def codecMmScatterFreeUnusedPages (mms : Nat) : Prog (Local ω) Int :=
  codecMmScatterFreeTailPagesIn E mms 0 0 1

def codecMmScatterLessPages (mms : Nat) (nums : Int) : Prog (Local ω) Int :=
  codecMmScatterFreeTailPagesIn E mms nums 0 2

def codecMmScatterFreeAllPages (mms : Nat) : Prog (Local ω) Int :=
  codecMmScatterFreeTailPages E mms 0

end Code

end Amlogic.CodecMm
