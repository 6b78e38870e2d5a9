import Amlogic.Base.Runs
import Amlogic.Display.Gralloc

/-!
# The gralloc device and the mapping of a buffer (`display_gralloc/display_gralloc_gbm.cpp`)

`GbmGrallocInitialize` and `GbmGrallocUninitialize` count the users of the gbm device under a lock.
`GbmMmap`, `GbmUnmap` and `GbmFreeMem` keep the address of a buffer's mapping in its handle.
-/

namespace Amlogic.Display

/-! ## The device -/

structure GrallocManager where
  drmFd : Int
  gbmDevice : Bool
  referCount : Int

/-- The answers of the system to a call; a negative descriptor means that `open` fails. -/
structure DeviceAnswers where
  malloc : Bool := true
  realpath : Bool := true
  fd : Int
  createDevice : Bool := true

structure Gralloc where
  manager : Option GrallocManager := none
  descriptors : List Int := []
  strayCloses : Nat := 0
  /-- The initialise calls that succeeded, less the uninitialise calls. -/
  users : Int := 0

namespace Gralloc

def close (s : Gralloc) (fd : Int) : Gralloc :=
  if fd ∈ s.descriptors then { s with descriptors := s.descriptors.erase fd }
  else { s with strayCloses := s.strayCloses + 1 }

/-- A new manager is cleared by `memset_s`. -/
def getGrallocManager (s : Gralloc) (malloc : Bool) : Option GrallocManager :=
  s.manager <|> if malloc then some ⟨0, false, 0⟩ else none

def initGbmDevice (s : Gralloc) (a : DeviceAnswers) (m : GrallocManager) :
    Option GrallocError × GrallocManager × Gralloc :=
  if m.gbmDevice then (none, m, s)
  else if ¬a.realpath then (some .invalidParam, m, s)
  else if a.fd < 0 then (some .badFd, m, s)
  else
    let s := { s with descriptors := a.fd :: s.descriptors }
    if ¬a.createDevice then (some .failure, { m with drmFd := -1 }, s.close a.fd)
    else (none, { m with drmFd := a.fd, gbmDevice := true }, s)

/-- `DeInitGbmDevice`, after which the manager is freed. -/
def deInitGbmDevice (s : Gralloc) (m : GrallocManager) : Gralloc :=
  let s := if 0 < m.drmFd then s.close m.drmFd else s
  { s with manager := none }

def gbmGrallocInitialize (s : Gralloc) (a : DeviceAnswers) : Option GrallocError × Gralloc :=
  match s.getGrallocManager a.malloc with
  | none => (some .invalidParam, s)
  | some m =>
    let (ret, m, s) := s.initGbmDevice a m
    if ret = none then
      (ret, { s with manager := some { m with referCount := (m.referCount + 1).bmod (2 ^ 32) }, users := s.users + 1 })
    else (ret, { s with manager := some m })

def gbmGrallocUnInitialize (s : Gralloc) (malloc : Bool) : Option GrallocError × Gralloc :=
  let s := { s with users := s.users - 1 }
  match s.getGrallocManager malloc with
  | none => (some .invalidParam, s)
  | some m =>
    let m := { m with referCount := (m.referCount - 1).bmod (2 ^ 32) }
    if m.referCount < 0 then (none, s.deInitGbmDevice m) else (none, { s with manager := some m })

/-- The device and its descriptor are open iff there are users, and no other descriptor is. -/
def Lawful (s : Gralloc) : Prop :=
  s.strayCloses = 0 ∧
    if 0 < s.users then ∃ m, s.manager = some m ∧ m.gbmDevice = true ∧ s.descriptors = [m.drmFd]
    else (∀ m, s.manager = some m → m.gbmDevice = false) ∧ s.descriptors = []

end Gralloc

inductive GrallocCall
  | init (a : DeviceAnswers)
  | uninit (malloc : Bool)

def GrallocCall.Step (s : Gralloc) (c : GrallocCall) (s' : Gralloc) : Prop :=
  match c with
  | .init a => s' = (s.gbmGrallocInitialize a).2
  | .uninit malloc => s' = (s.gbmGrallocUnInitialize malloc).2

/-- The last user does not leave, nobody enters while more have left than entered, and the count fits. -/
def GrallocCall.Fair (s : Gralloc) : GrallocCall → Prop
  | .init _ => 0 ≤ s.users ∧ s.users < 2 ^ 31 - 1
  | .uninit _ => s.users ≠ 1

/-! ## The mapping of a buffer -/

def mapFailed : Nat := 2 ^ 64 - 1

/-- A buffer handle, as far as its mapping goes. -/
structure MappedBuffer where
  virAddr : Nat := 0
  mappings : List Nat := []
  strayUnmaps : Nat := 0
  unmapFailed : Bool := false
  freed : Bool := false

namespace MappedBuffer

/-- `GbmMmap`, with the page that `mmap` maps the buffer to, if it succeeds. The page at 0 is not used. -/
def gbmMmap (s : MappedBuffer) (page : Option Nat) : Nat × MappedBuffer :=
  if s.virAddr ≠ 0 then (s.virAddr, s)
  else match page with
    | none => (mapFailed, { s with virAddr := mapFailed })
    | some p => (4096 * (p + 1), { s with virAddr := 4096 * (p + 1), mappings := 4096 * (p + 1) :: s.mappings })

def munmap (s : MappedBuffer) (addr : Nat) : MappedBuffer :=
  if addr ∈ s.mappings then { s with mappings := s.mappings.erase addr }
  else { s with strayUnmaps := s.strayUnmaps + 1 }

def gbmUnmap (s : MappedBuffer) (ok : Bool) : Option GrallocError × MappedBuffer :=
  if s.virAddr = 0 then (some .invalidParam, s)
  else if ¬ok then (some .failure, { s with unmapFailed := true })
  else (none, { s.munmap s.virAddr with virAddr := 0 })

def gbmFreeMem (s : MappedBuffer) (ok : Bool) : MappedBuffer :=
  { if s.virAddr ≠ 0 then (s.gbmUnmap ok).2 else s with freed := true }

/-- The address says whether the buffer is mapped, and the mapping is gone with the handle. -/
def Lawful (s : MappedBuffer) : Prop :=
  s.strayUnmaps = 0 ∧ (s.freed = false → s.mappings = if s.virAddr = 0 then [] else [s.virAddr]) ∧
    (s.freed = true → s.unmapFailed = false → s.mappings = [])

end MappedBuffer

inductive MapCall
  | mmap (page : Option Nat)
  | unmap (ok : Bool)
  | freeMem (ok : Bool)

/-- The calls on a handle that is not freed. -/
def MapCall.Step (s : MappedBuffer) (c : MapCall) (s' : MappedBuffer) : Prop :=
  s.freed = false ∧ match c with
    | .mmap page => s' = (s.gbmMmap page).2
    | .unmap ok => s' = (s.gbmUnmap ok).2
    | .freeMem ok => s' = s.gbmFreeMem ok

def MapCall.Mapped (s : MappedBuffer) : MapCall → Prop
  | .mmap page => s.virAddr = 0 → page ≠ none
  | _ => True

end Amlogic.Display
