import Amlogic.Base.Bytes

/-!
# The kernel's side of the display

The display imports buffers as GEM handles, makes framebuffers of them and asks for changes of the screen by atomic
requests. Whether the kernel agrees is told by the answers that a call gets. Handles and framebuffers are named by
numbers that are not used again; the number 0 of the source, for none, is `none`.
-/

namespace Amlogic.Display

inductive DispErrCode where
  | success | failure | nullPtr | notSupport | paramErr
  deriving DecidableEq

/-! ## Modes -/

structure ModeInfo where
  hdisplay : Nat
  vdisplay : Nat
  vrefresh : Nat := 60
  preferred : Bool := false
  deriving DecidableEq

/-- `DrmConnector`. The mode `i` of the list has the id `i` in `mModes`. -/
structure DrmConnector where
  id : Nat := 0
  encoderId : Nat := 0
  possibleEncoders : List Nat := []
  modes : List ModeInfo
  count : modes.length < 2 ^ 31 := by decide

namespace DrmConnector

/-- `DrmConnector::InitModes`: the first preferred mode. -/
def preferenceId (c : DrmConnector) : Int :=
  match c.modes.findIdx? (·.preferred) with
  | some i => i
  | none => -1

def modeFromId (c : DrmConnector) (id : Int) : Option ModeInfo := if 0 ≤ id then c.modes[id.toNat]? else none

/-- `DrmConnector::GetDisplaySupportedModes`: the ids of the modes. -/
def supportedModes (c : DrmConnector) : List Nat := List.range c.modes.length

end DrmConnector

/-- `DrmCrtc`, as far as a display uses it. -/
structure DrmCrtc where
  id : Nat := 0
  pipe : Nat := 0
  displayId : Nat := 0xffffffff
  activeModeId : Int := -1
  needModeSet : Bool := false

def DrmCrtc.setActivieMode (c : DrmCrtc) (id : Int) : DispErrCode × DrmCrtc :=
  if 0 < id then (.paramErr, c)
  else (.success, { c with needModeSet := c.needModeSet || c.activeModeId != id, activeModeId := id })

/-! ## Requests -/

/-- A property that is set by an atomic request. -/
inductive Setting where
  | outFence (crtc : Nat)
  | inFence (plane : Nat) (fd : Int)
  | framebuffer (plane fb : Nat)
  | planeCrtc (plane crtc : Nat)
  | srcW (plane : Nat) (width : BitVec 32)
  | srcH (plane : Nat) (height : BitVec 32)
  | active (crtc : Nat)
  | mode (crtc : Nat) (mode : ModeInfo)
  | connectorCrtc (connector crtc : Nat)
  deriving DecidableEq

def Setting.fb? : Setting → Option Nat
  | framebuffer _ fb => some fb
  | _ => none

def Setting.mode? : Setting → Option (Nat × ModeInfo)
  | mode crtc info => some (crtc, info)
  | _ => none

abbrev AtomicReq := List Setting

/-- A framebuffer, with the handle and the buffer that it was made of. -/
structure Framebuffer where
  id : Nat
  handle : Nat
  buffer : Nat
  deriving DecidableEq

structure Kernel where
  /-- The GEM handles that are open, with their buffers. -/
  handles : List (Nat × Nat) := []
  given : Nat := 0
  closed : List Nat := []
  fbs : List Framebuffer := []
  removed : List Nat := []
  /-- The requests that were accepted, the last first. -/
  accepted : List AtomicReq := []

namespace Kernel

/-- `drmPrimeFDToHandle`: a buffer that is imported has its open handle. -/
def primeFdToHandle (k : Kernel) (buffer : Nat) : Nat × Kernel :=
  match k.handles.find? fun h => h.2 == buffer with
  | some (handle, _) => (handle, k)
  | none => (k.given, { k with given := k.given + 1, handles := (k.given, buffer) :: k.handles })

def addFb2 (k : Kernel) (handle buffer : Nat) : Nat × Kernel :=
  (k.fbs.length, { k with fbs := ⟨k.fbs.length, handle, buffer⟩ :: k.fbs })

def rmFb (k : Kernel) (fb : Nat) : Kernel := { k with removed := fb :: k.removed }

def gemClose (k : Kernel) (handle : Nat) : Kernel :=
  { k with closed := handle :: k.closed, handles := k.handles.filter fun h => h.1 != handle }

end Kernel

/-! ## GEM buffers -/

structure GemBuffer where
  gemHandle : Option Nat := none
  fbId : Option Nat := none
  deriving DecidableEq

structure GemAnswers where
  prime : Bool := true
  addFb : Bool := true

def GemBuffer.init (a : GemAnswers) (buffer : Nat) (k : Kernel) : GemBuffer × Kernel :=
  if a.prime then
    let (handle, k) := k.primeFdToHandle buffer
    if a.addFb then
      let (fb, k) := k.addFb2 handle buffer
      (⟨some handle, some fb⟩, k)
    else (⟨some handle, none⟩, k)
  else ({}, k)

/-- `DrmGemBuffer::~DrmGemBuffer`. -/
def GemBuffer.destroy (g : GemBuffer) (k : Kernel) : Kernel :=
  let k := match g.fbId with
    | some fb => k.rmFb fb
    | none => k
  match g.gemHandle with
  | some handle => k.gemClose handle
  | none => k

end Amlogic.Display
