import Amlogic.CodecMm.Scatter

/-!
# Scatter managers (`codec_mm/codec_mm_scatter.c`)

Allocation and release of scatters, the clean-up passes of the monitor, and the system of the two
managers: one for normal and one for protected (TVP) memory.
-/

namespace Amlogic.CodecMm

section Code

variable {ω : Type}

/-! ## The map of valid scatters -/

/-- `codec_mm_scatter_map_add_locked`: nothing happens if the map is full. -/
def scatterMapAdd : List (Option Nat) → Nat → List (Option Nat)
  | [], _ => []
  | none :: l, mms => some mms :: l
  | some x :: l, mms => some x :: scatterMapAdd l mms

/-- `codec_mm_scatter_map_del_locked`. -/
def scatterMapDel : List (Option Nat) → Nat → List (Option Nat)
  | [], _ => []
  | x :: l, mms => if x = some mms then none :: l else x :: scatterMapDel l mms

scoped instance lawfulMms : LawfulBEq (Option Nat) := inferInstance

def Mgt.scatterValid (m : Mgt) (mms : Nat) : Bool := some mms ∈ m.scmap

def codecMmScatterIncUserIn1 (E : Externals ω) (mms : Nat) (cnt : Int) : Prog (Local ω) Int := do
  if !(← get).mgt.scatterValid mms then return -1
  else
    let sc ← scatterOf mms
    if sc.userCnt ≥ 0 then
      let ret := sc.userCnt + cnt
      let now ← (if sc.userCnt = 1 then onPool (ext E.jiffies) else pure sc.tofreeJiffies)
      modifyMgt fun m => m.setScatter mms { sc with userCnt := ret, tofreeJiffies := now }
      return if ret ≤ 0 then ret else 0
    else return -1

def codecMmScatterDecUserIn1 (E : Externals ω) (mms : Nat) (delayFreeMs cnt : Int) :
    Prog (Local ω) Int := do
  if !(← get).mgt.scatterValid mms then return -1
  else
    let sc ← scatterOf mms
    if sc.userCnt ≥ 1 then
      let afterUsers := sc.userCnt - cnt
      let time ← (if afterUsers = 0 then do
          let now ← onPool (ext E.jiffies)
          return (now + delayFreeMs * E.hz / 1000).toNat
        else pure sc.tofreeJiffies)
      modifyMgt fun m => m.setScatter mms { sc with userCnt := afterUsers, tofreeJiffies := time }
      return 0
    else return 0

variable (E : Externals ω)

/-! ## Allocation -/

/-- After a scatter with many pages has been freed, larger slots are asked of the system again. -/
def Mgt.raiseTryAlloc (m : Mgt) (pageCnt : Nat) : Mgt :=
  if pageCnt ≥ 256 ∧ m.tryAllocInSysPageCnt < m.tryAllocInSysPageCntMax ∧
      m.totalPageNum < 1024 * 1024 * 32 >>> pageShift then
    { m with
      tryAllocInSysPageCnt := u32 (m.tryAllocInSysPageCnt * 2)
      supportFromSlotSys := if m.supportFromSlotSys = 0 then m.enableSlotFromSys
        else m.supportFromSlotSys }
  else m

def codecMmScatterFreeOnNouserExt (mms : Nat) (notInMgt : Bool) : Prog (Local ω) Int := do
  let sc ← scatterOf mms
  if sc.userCnt > 0 then return 0
  else
    modifyMgt fun m => { m with
      scatterList := m.scatterList.erase mms
      scattersCnt := if notInMgt then m.scattersCnt else m.scattersCnt - 1
      scmap := if notInMgt then m.scmap else scatterMapDel m.scmap mms }
    let ret ← (if sc.pageCnt > 0 then codecMmScatterFreeTailPagesIn E mms 0 0 0 else pure sc.userCnt)
    modifyMgt fun m => m.raiseTryAlloc sc.pageCnt
    onPool (ext fun w => ((), E.scFree mms w))
    modifyMgt fun m => { m with scatters := m.scatters.erase mms }
    return ret

def codecMmScatterFreeOnNouser (mms : Nat) : Prog (Local ω) Int :=
  codecMmScatterFreeOnNouserExt E mms false

def Scatter.empty (maxPage : Nat) : Scatter where
  pagesList := List.replicate maxPage 0
  pageMaxCnt := maxPage
  pageCnt := 0
  pageTail := -1
  pageUsed := 0
  userCnt := 0
  tofreeJiffies := 0

def Mgt.register (m : Mgt) (mms : Nat) : Mgt :=
  { m with
    scatterList := m.scatterList ++ [mms]
    scattersCnt := m.scattersCnt + 1
    scmap := scatterMapAdd m.scmap mms }

def codecMmScatterAllocNew (maxPage pageNum : Int) : Prog (Local ω) (Option Nat) := do
  if maxPage < pageNum then return none
  else
    match ← onPool (ext E.scAlloc) with
    | none => return none
    | some mms =>
      if maxPage < 0 then throw .access
      else
        modifyMgt fun m => m.setScatter mms (Scatter.empty maxPage.toNat)
        let m := (← get).mgt
        let pages ← (if pageNum > 0 then
            codecMmPageAllocAllLocked E pageNum.toNat (m.isCacheSc mms)
          else pure [])
        if pageNum > 0 ∧ pages.isEmpty then
          let _ ← codecMmScatterFreeOnNouserExt E mms true
          return none
        else
          let sc ← scatterOf mms
          let list ← storePages sc.pagesList 0 pages
          modifyMgt fun m => (m.setScatter mms { sc with
            pagesList := list, pageCnt := pages.length, pageTail := pages.length - 1
            userCnt := 1000, pageUsed := pages.length }).register mms
          return some mms

def codecMmScatterAllocWantPagesIn (mms : Nat) (wantPages : Int) : Prog (Local ω) Int := do
  let sc ← scatterOf mms
  if wantPages > sc.pageMaxCnt then return codecMmSErr 100
  else
    modifyMgt fun m => m.setScatter mms { sc with pageUsed := wantPages }
    let m := (← get).mgt
    if wantPages > sc.pageCnt then
      let pages ← codecMmPageAllocAllLocked E (wantPages - sc.pageCnt).toNat (m.isCacheSc mms)
      if pages.isEmpty then return 0
      else
        let sc ← scatterOf mms
        let list ← storePages sc.pagesList (sc.pageTail + 1) pages
        modifyMgt fun m => { m.setScatter mms { sc with
            pagesList := list, pageCnt := sc.pageCnt + pages.length
            pageTail := sc.pageTail + pages.length } with
          cachedPages := if m.isCacheSc mms then m.cachedPages + pages.length else m.cachedPages }
        return 0
    else return 0

/-- The search of `codec_mm_scatter_alloc` for a scatter that nobody holds. -/
def findFree (maxPage : Int) : List Nat → Prog (Local ω) (Option Nat)
  | [] => return none
  | mms :: rest => do
    let sc ← scatterOf mms
    if sc.pageMaxCnt ≥ maxPage ∧ sc.userCnt = 0 then return some mms
    else findFree maxPage rest

/-- `codec_mm_scatter_alloc`, on its manager. The list is searched from its end. -/
def codecMmScatterAlloc (maxPage pageNum : Int) : Prog (Local ω) (Option Nat) := do
  let found ← findFree maxPage (← get).mgt.scatterList.reverse
  let mms ← (match found with
    | some mms => do
      let sc ← scatterOf mms
      modifyMgt fun m => m.setScatter mms { sc with
        userCnt := sc.userCnt + 1000, pageUsed := sc.pageCnt }
      return some mms
    | none => codecMmScatterAllocNew E maxPage 0)
  match mms with
  | none => return none
  | some mms =>
    let ret ← codecMmScatterAllocWantPagesIn E mms pageNum
    if ret < 0 then
      let sc ← scatterOf mms
      modifyMgt fun m => m.setScatter mms { sc with userCnt := sc.userCnt - 1000 }
      return none
    else return some mms

/-! ## The monitor -/

def Mgt.switchDelay (m : Mgt) (on : Bool) (timeout : Nat) : Mgt :=
  if on then
    { m with delayFreeOn := m.delayFreeOn + 1, delayFreeTimeoutJiffies64 := timeout }
  else if m.delayFreeOn - 1 ≤ 0 then
    { m with delayFreeOn := 0, delayFreeTimeoutJiffies64 := timeout }
  else { m with delayFreeOn := m.delayFreeOn - 1 }

/-- `codec_mm_scatter_mgt_delay_free_swith`, on its manager. -/
def codecMmScatterMgtDelayFreeSwith (on : Bool) (delayMs waitSizeM : Int) : Prog (Local ω) Int := do
  let now ← onPool (ext E.jiffies)
  let timeout := (now + delayMs * E.hz / 1000).toNat
  modifyMgt fun m => m.switchDelay on timeout
  if on ∧ waitSizeM > 0 then
    let now ← onPool (ext E.jiffies)
    modifyMgt fun m => { m with
      forceCacheOn := true, forceCachePageCnt := waitSizeM >>> pageShift
      delayFreeTimeoutJiffies64 := now + 10000 * E.hz / 1000 }
    return 0
  else return 0

/-- The number of pages that `codec_mm_scatter_cache_manage` wants in a cache scatter. -/
def cacheNeed (m : Mgt) (sc : Scatter) : Int :=
  let onceAlloc := if m.forceCacheOn then max 4000 (m.totalPageNum - m.allocedPageNum) else 1000
  let need := min (sc.pageCnt + onceAlloc) m.forceCachePageCnt
  if need > sc.pageMaxCnt then sc.pageMaxCnt - 4 else need

def stopForceCache : Prog (Local ω) Unit := do
  let now ← onPool (ext E.jiffies)
  modifyMgt fun m => { m with
    forceCacheOn := false, delayFreeTimeoutJiffies64 := now + 2000 * E.hz / 1000 }

def growCache : Prog (Local ω) Unit := do
  match ← codecMmGetNextCacheScatter none 0 with
  | none => return ()
  | some mms =>
    let sc ← scatterOf mms
    let need := cacheNeed (← get).mgt sc
    if need > sc.pageCnt then
      let ret ← codecMmScatterAllocWantPagesIn E mms need
      let m := (← get).mgt
      if ret = 0 ∧ m.forceCacheOn ∧ m.cachedPages ≥ m.forceCachePageCnt then stopForceCache E
      else return ()
    else return ()

def shrinkCache : Prog (Local ω) Unit := do
  match ← codecMmGetNextCacheScatter none 0 with
  | none => return ()
  | some mms =>
    let _ ← codecMmScatterLessPages E mms 256
    return ()

def codecMmScatterCacheManage : Prog (Local ω) Unit := do
  let m := (← get).mgt
  if m.delayFreeOn > 0 ∧ m.keepSizePage > 0 then
    if m.noCacheSizeM > 0 ∧ toU32 m.cachedPages ≤ m.keepSizePage ∧
        toU32 m.totalPageNum ≥ u32 (m.noCacheSizeM * (2 ^ 20 >>> pageShift)) then
      if m.forceCacheOn then stopForceCache E else return ()
    else if toU32 m.cachedPages < m.keepSizePage ∨
        (m.forceCacheOn ∧ m.totalPageNum < m.forceCachePageCnt) then growCache E
    else if m.cachedPages > m.keepSizePage + 1000 then
      let now ← onPool (ext E.jiffies)
      if now > m.delayFreeTimeoutJiffies64 then
        shrinkCache E
        let _ ← onPool (codecMmFreeAllFreeSlotsIn E)
        return ()
      else return ()
    else return ()
  else if m.delayFreeOn ≤ 0 then
    let now ← onPool (ext E.jiffies)
    if now > m.delayFreeTimeoutJiffies64 then
      let _ ← onPool (codecMmFreeAllFreeSlotsIn E)
      return ()
    else return ()
  else return ()

/-- A cache scatter of `codec_mm_scatter_scatter_arrange`: a new scatter, off the scatter list. -/
def newCache (put : Mgt → Option Nat → Mgt) : Prog (Local ω) Unit := do
  match ← codecMmScatterAllocNew E 16384 0 with
  | none => return ()
  | some mms =>
    modifyMgt fun m => put { m with scatterList := m.scatterList.erase mms } (some mms)

/-- The start of `codec_mm_scatter_scatter_arrange`: the caches are created. -/
def createCaches : Prog (Local ω) Unit := do
  let m := (← get).mgt
  if m.delayFreeOn > 0 ∧ m.cacheSc0 = none then
    newCache E fun m mms => { m with cacheSc0 := mms }
    newCache E fun m mms => { m with cacheSc1 := mms }
  else return ()

def expired (mms : Nat) : Prog (Local ω) Bool := do
  let sc ← scatterOf mms
  if sc.userCnt = 0 then
    let now ← onPool (ext E.jiffies)
    return now > sc.tofreeJiffies
  else return false

/-- The search of `codec_mm_scatter_scatter_arrange`: is there an expired scatter? -/
def anyExpired : List Nat → Prog (Local ω) Bool
  | [] => return false
  | mms :: rest => do
    let first ← expired E mms
    let others ← anyExpired rest
    return first || others

/-- The end of `codec_mm_scatter_scatter_arrange`. It moves the scatter that the loop ended with, the
last one, to the end of the list. -/
def arrangeList : Prog (Local ω) Unit := do
  let list := (← get).mgt.scatterList
  let found ← anyExpired E list
  match list.getLast? with
  | some mms =>
    modifyMgt fun m => if found then { m with scatterList := m.scatterList.erase mms ++ [mms] } else m
  | none => return ()

/-- What `codec_mm_scatter_scatter_clear` finds: a scatter to free with its time, the number of unused
scatters, and a scatter with pages that are not used. -/
structure ClearScan where
  toFree : Option (Nat × Nat)
  toFreeCnt : Nat
  lessPage : Option Nat

/-- The search of `codec_mm_scatter_scatter_clear`. -/
def clearScan : List Nat → Option (Nat × Nat) → Nat → Prog (Local ω) ClearScan
  | [], toFree, cnt => return ⟨toFree, cnt, none⟩
  | mms :: rest, toFree, cnt => do
    let sc ← scatterOf mms
    let first := toFree.all fun best => sc.tofreeJiffies < best.2
    let toFree' := if sc.userCnt = 0 ∧ first then some (mms, sc.tofreeJiffies) else toFree
    let cnt' := if sc.userCnt = 0 then cnt + 1 else cnt
    if sc.pageUsed < sc.pageCnt then return ⟨toFree', cnt', some mms⟩
    else clearScan rest toFree' cnt'

def markFree (mms : Nat) : Prog (Local ω) (Option Nat) := do
  let sc ← scatterOf mms
  if sc.userCnt - 100000 ≠ -100000 then return none
  else
    modifyMgt fun m => { m.setScatter mms { sc with userCnt := sc.userCnt - 100000 } with
      scatterList := m.scatterList.erase mms }
    return some mms

/-- The choice of `codec_mm_scatter_scatter_clear`: the scatter to free, if its time is over or if the
caller insists. -/
def chooseFree (scan : ClearScan) (force : Bool) : Prog (Local ω) (Option Nat) := do
  let m := (← get).mgt
  match scan.toFree with
  | none => return none
  | some (mms, time) =>
    let expired ← (if scan.toFreeCnt > 1 ∨ m.delayFreeOn = 0 then do
        let now ← onPool (ext E.jiffies)
        return decide (now > time)
      else pure false)
    if expired ∨ force then markFree mms else return none

def codecMmScatterScatterClear (force : Bool) : Prog (Local ω) Bool := do
  let scan ← clearScan (← get).mgt.scatterList none 0
  let toFree ← chooseFree E scan force
  let _ ← (match toFree with
    | some mms => codecMmScatterFreeOnNouser E mms
    | none => pure 0)
  let _ ← (match scan.lessPage with
    | some mms => if toFree ≠ some mms then codecMmScatterFreeUnusedPages E mms else pure 0
    | none => pure 0)
  return toFree.isSome || scan.lessPage.isSome

end Code

/-! ## The system -/

/-- The settings, `g_scatter`. -/
structure ScatterConfig where
  keepSizePage : Nat
  reservedBlockMmM : Nat
  tryAllocInCmaPageCnt : Nat
  tryAllocInSysPageCntMax : Nat
  tryAllocInSysPageCntMin : Nat
  enableSlotFromSys : Nat
  noCacheSizeM : Nat
  supportFromSlotSys : Nat
  noAllocFromSys : Nat

def Mgt.updateConfig (m : Mgt) (g : ScatterConfig) : Mgt :=
  { m with
    keepSizePage := g.keepSizePage
    reservedBlockMmM := g.reservedBlockMmM
    tryAllocInCmaPageCnt := g.tryAllocInCmaPageCnt
    tryAllocInSysPageCntMax := g.tryAllocInSysPageCntMax
    tryAllocInSysPageCntMin := g.tryAllocInSysPageCntMin
    enableSlotFromSys := g.enableSlotFromSys
    supportFromSlotSys := g.supportFromSlotSys
    noCacheSizeM := g.noCacheSizeM
    noAllocFromSys := g.noAllocFromSys }

/-- The two managers, `scatter_mgt` (`false`) and `scatter_tvp_mgt` (`true`). -/
structure System (ω : Type) where
  world : ω
  mgt : Bool → Mgt
  config : ScatterConfig

section SystemCode

variable {ω : Type}

def onMgt {α : Type} (smgt : Bool) : Prog (Local ω) α → Prog (System ω) α :=
  Prog.zoom (fun s => ⟨s.world, s.mgt smgt⟩)
    fun s t => { s with world := t.world, mgt := Function.update s.mgt smgt t.mgt }

variable (E : Externals ω)

def codecMmScatterIncUserIn (mms : Nat) (cnt : Int) : Prog (System ω) Int := do
  let ret ← onMgt false (codecMmScatterIncUserIn1 E mms cnt)
  if ret < 0 then onMgt true (codecMmScatterIncUserIn1 E mms cnt) else return ret

def codecMmScatterDecUserIn (mms : Nat) (delayFreeMs cnt : Int) : Prog (System ω) Int := do
  let ret ← onMgt false (codecMmScatterDecUserIn1 E mms delayFreeMs cnt)
  if ret < 0 then onMgt true (codecMmScatterDecUserIn1 E mms delayFreeMs cnt) else return ret

def codecMmScatterIncForKeeper (mms : Nat) : Prog (System ω) Int :=
  codecMmScatterIncUserIn E mms 100

def codecMmScatterDecKeeperUser (mms : Nat) (delayMs : Int) : Prog (System ω) Int :=
  codecMmScatterDecUserIn E mms delayMs 100

def codecMmScatterDecOwnerUser (mms : Nat) (delayMs : Int) : Prog (System ω) Int :=
  codecMmScatterDecUserIn E mms delayMs 1000

/-- A cache scatter that is not referenced any more is released and freed. -/
def dropCache (smgt : Bool) : Option Nat → Prog (System ω) Unit
  | none => return ()
  | some mms => do
    let _ ← codecMmScatterDecOwnerUser E mms 0
    let _ ← onMgt smgt (codecMmScatterFreeOnNouser E mms)
    return ()

/-- The middle of `codec_mm_scatter_scatter_arrange`: the caches are given up. -/
def dropCaches (smgt : Bool) : Prog (System ω) Unit := do
  let m := (← get).mgt smgt
  if m.delayFreeOn ≤ 0 ∧ m.cacheSc0 ≠ none then
    let now ← onMgt smgt (onPool (ext E.jiffies))
    if now > m.delayFreeTimeoutJiffies64 then
      onMgt smgt (modifyMgt fun m => { m with cacheSc0 := none, cacheSc1 := none, cachedPages := 0 })
      dropCache E smgt m.cacheSc0
      dropCache E smgt m.cacheSc1
    else return ()
  else return ()

def codecMmScatterScatterArrange (smgt : Bool) : Prog (System ω) Unit := do
  onMgt smgt (createCaches E)
  dropCaches E smgt
  onMgt smgt (arrangeList E)

/-- The first loop of `codec_mm_scatter_free_all_ignorecache_in`. -/
def freeCachesLoop (smgt : Bool) : Nat → Prog (System ω) Unit
  | 0 => throw .fuel
  | fuel + 1 => do
    let mms := ((← get).mgt smgt).cacheSc0
    onMgt smgt (modifyMgt fun m => { m with
      delayFreeOn := 0, cacheSc0 := m.cacheSc1, cacheSc1 := none, cachedPages := 0 })
    dropCache E smgt mms
    if ((← get).mgt smgt).cacheSc0 ≠ none then freeCachesLoop smgt fuel else return ()

/-- The second loop of `codec_mm_scatter_free_all_ignorecache_in`, at most 1001 rounds. -/
def clearLoop (force : Bool) : Nat → Prog (Local ω) Unit
  | 0 => return ()
  | retries + 1 => do
    let _ ← codecMmScatterScatterClear E force
    if (← get).mgt.scattersCnt > 0 then clearLoop force retries else return ()

def codecMmScatterFreeAllIgnorecacheIn (smgt : Bool) (flags : Nat) : Prog (System ω) Int := do
  freeCachesLoop E smgt 3
  (if flags ≥ 1 then onMgt smgt (clearLoop E (flags = 2) 1001) else pure ())
  let _ ← onMgt smgt (onPool (codecMmFreeAllFreeSlotsIn E))
  return ((← get).mgt smgt).totalPageNum

def codecMmScatterFreeAllIgnorecache (flags : Nat) : Prog (System ω) Int := do
  let _ ← (if flags &&& 1 ≠ 0 then codecMmScatterFreeAllIgnorecacheIn E false 2 else pure 0)
  let _ ← (if flags &&& 2 ≠ 0 then codecMmScatterFreeAllIgnorecacheIn E true 1 else pure 0)
  return 0

def codecMmScatterMonitor (smgt : Bool) : Prog (System ω) Unit := do
  let g := (← get).config
  onMgt smgt (modifyMgt fun m => { m.updateConfig g with
    scatterTaskRunNum := m.scatterTaskRunNum + 1 })
  codecMmScatterScatterArrange E smgt
  let _ ← onMgt smgt (codecMmScatterScatterClear E false)
  onMgt smgt (codecMmScatterCacheManage E)

end SystemCode

end Amlogic.CodecMm
