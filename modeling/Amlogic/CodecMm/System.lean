import Amlogic.CodecMm.View

/-!
# Runs of the scatter memory

The operations that drivers and the monitor perform on the two managers, one after the other, from the
state after `codec_mm_scatter_mgt_init`. Any call of an allocator may fail.
-/

namespace Amlogic.CodecMm

/-- A manager after `codec_mm_scatter_mgt_alloc_in`. -/
def Mgt.init (tvpMode : Bool) (noCacheSizeM : Nat) : Mgt where
  slots := ∅
  slotListMap := fun _ => []
  freeList := []
  tvpMode := tvpMode
  totalPageNum := 0
  allocedPageNum := 0
  maxAlloced := 0
  onePageCnt := 0
  slotCnt := 0
  tryAllocInCmaPageCnt := 4096
  tryAllocInSysPageCnt := 128
  tryAllocInSysPageCntMax := 128
  tryAllocInSysPageCntMin := 8
  enableSlotFromSys := 0
  supportFromSlotSys := 0
  noAllocFromSys := 0
  reservedBlockMmM := 300
  keepSizePage := 5120
  allocFromSysScCnt := 0
  allocFromSysPageCnt := 0
  allocFromSysMaxPageCnt := 0
  scatters := ∅
  scatterList := []
  scattersCnt := 0
  scmap := List.replicate maxScList none
  cacheSc0 := none
  cacheSc1 := none
  cachedPages := 0
  delayFreeOn := 0
  delayFreeTimeoutJiffies64 := 0
  forceCacheOn := false
  forceCachePageCnt := 0
  noCacheSizeM := noCacheSizeM
  scatterTaskRunNum := 0

/-- The settings after `codec_mm_scatter_mgt_init`. -/
def ScatterConfig.init (noCacheSizeM : Nat) : ScatterConfig where
  keepSizePage := 5120
  reservedBlockMmM := 300
  tryAllocInCmaPageCnt := 4096
  tryAllocInSysPageCntMax := 128
  tryAllocInSysPageCntMin := 8
  enableSlotFromSys := 0
  noCacheSizeM := noCacheSizeM
  supportFromSlotSys := 0
  noAllocFromSys := 0

/-- The system after `codec_mm_scatter_mgt_init`. A board with little memory does not cache much. -/
def System.init {ω : Type} (w : ω) (lessMemory : Bool) : System ω where
  world := w
  mgt smgt := Mgt.init smgt (if lessMemory then 100 else 0)
  config := ScatterConfig.init (if lessMemory then 100 else 0)

inductive Op where
  | alloc (smgt : Bool) (maxPage pageNum : Int)
  | wantPages (smgt : Bool) (mms : Nat) (want : Int)
  | freeTailPages (smgt : Bool) (mms : Nat) (startId : Int)
  | freeTailPagesFast (smgt : Bool) (mms : Nat) (startFreeId : Int)
  | freeUnusedPages (smgt : Bool) (mms : Nat)
  | lessPages (smgt : Bool) (mms : Nat) (nums : Int)
  | freeAllPages (smgt : Bool) (mms : Nat)
  | incForKeeper (smgt : Bool) (mms : Nat)
  | decKeeperUser (smgt : Bool) (mms : Nat) (delayMs : Int)
  | decOwnerUser (smgt : Bool) (mms : Nat) (delayMs : Int)
  | delayFreeSwith (smgt : Bool) (on : Bool) (delayMs waitSizeM : Int)
  | setConfig (g : ScatterConfig)
  | updateConfig (smgt : Bool)
  | arrange (smgt : Bool)
  | clear (smgt : Bool) (force : Bool)
  | cacheManage (smgt : Bool)
  | freeAllFreeSlots (smgt : Bool)
  | freeAllIgnorecache (flags : Nat)

def void {σ α : Type} (x : Prog σ α) : Prog σ Unit := do
  let _ ← x
  return ()

/-- The scatter that an operation is called with, and its manager. -/
def Op.scatter : Op → Option (Bool × Nat)
  | .wantPages smgt mms _ | .freeTailPages smgt mms _ | .freeTailPagesFast smgt mms _
  | .freeUnusedPages smgt mms | .lessPages smgt mms _ | .freeAllPages smgt mms
  | .incForKeeper smgt mms | .decKeeperUser smgt mms _ | .decOwnerUser smgt mms _ => some (smgt, mms)
  | _ => none

section Run

variable {ω : Type} (E : Externals ω)

def Op.exec : Op → Prog (System ω) Unit
  | .alloc smgt maxPage pageNum => void (onMgt smgt (codecMmScatterAlloc E maxPage pageNum))
  | .wantPages smgt mms want => void (onMgt smgt (codecMmScatterAllocWantPagesIn E mms want))
  | .freeTailPages smgt mms startId => void (onMgt smgt (codecMmScatterFreeTailPages E mms startId))
  | .freeTailPagesFast smgt mms startFreeId =>
    void (onMgt smgt (codecMmScatterFreeTailPagesFast E mms startFreeId))
  | .freeUnusedPages smgt mms => void (onMgt smgt (codecMmScatterFreeUnusedPages E mms))
  | .lessPages smgt mms nums => void (onMgt smgt (codecMmScatterLessPages E mms nums))
  | .freeAllPages smgt mms => void (onMgt smgt (codecMmScatterFreeAllPages E mms))
  | .incForKeeper _ mms => void (codecMmScatterIncForKeeper E mms)
  | .decKeeperUser _ mms delayMs => void (codecMmScatterDecKeeperUser E mms delayMs)
  | .decOwnerUser _ mms delayMs => void (codecMmScatterDecOwnerUser E mms delayMs)
  | .delayFreeSwith smgt on delayMs waitSizeM =>
    void (onMgt smgt (codecMmScatterMgtDelayFreeSwith E on delayMs waitSizeM))
  | .setConfig g => modify fun s => { s with config := g }
  | .updateConfig smgt => do
    let g := (← get).config
    onMgt smgt (modifyMgt fun m => m.updateConfig g)
  | .arrange smgt => codecMmScatterScatterArrange E smgt
  | .clear smgt force => void (onMgt smgt (codecMmScatterScatterClear E force))
  | .cacheManage smgt => onMgt smgt (codecMmScatterCacheManage E)
  | .freeAllFreeSlots smgt => void (onMgt smgt (onPool (codecMmFreeAllFreeSlotsIn E)))
  | .freeAllIgnorecache flags => void (codecMmScatterFreeAllIgnorecache E flags)

/-- An operation is called with a scatter that has been allocated and not freed yet. -/
def Op.Allowed (s : System ω) (op : Op) : Prop :=
  ∀ p, op.scatter = some p → p.2 ∈ (s.mgt p.1).scatterList

/-- The states after sequences of allowed operations that meet a condition. -/
inductive Run (ok : System ω → Op → Prop) (s₀ : System ω) : System ω → Prop
  | init : Run ok s₀ s₀
  | step {s s' : System ω} (hrun : Run ok s₀ s) (op : Op) (hallow : op.Allowed s) (hok : ok s op)
      (hexec : op.exec E s = .ok ((), s')) : Run ok s₀ s'

end Run

end Amlogic.CodecMm
