import Amlogic.Display.Drm
import Amlogic.Display.Format

/-!
# Layers of the display (`display_device/hdi_layer.cpp`, `display_device/hdi_drm_layer.cpp`)
-/

namespace Amlogic.Display

inductive LayerType where
  | graphic | overlay | sideband | cursor
  deriving DecidableEq

inductive CompositionType where
  | client | device | cursor | video | deviceClear | clientClear | tunnel
  deriving DecidableEq

structure Rect where
  x : Int := 0
  y : Int := 0
  w : Int := 0
  h : Int := 0
  deriving DecidableEq

structure LayerBuffer where
  buffer : Nat
  width : Int := 0
  height : Int := 0
  format : PixelFormat := .bgra8888
  deriving DecidableEq

/-- `HdiLayer`, as the `HdiDrmLayer` that a `DrmDisplay` makes. -/
structure HdiLayer where
  mId : Nat := 0
  mVisible : Bool := true
  mType : LayerType := .graphic
  mDisplayRect : Rect := {}
  mZorder : Nat := 0xffffffff
  mCompositionType : CompositionType := .client
  mDeviceSelect : CompositionType := .client
  mAcquireFence : Int := -1
  releaseFences : List Int := []
  mHdiBuffer : Option LayerBuffer := none
  mCurrentBuffer : Option GemBuffer := none
  lastBuffer : Option GemBuffer := none

namespace HdiLayer

/-- `HdiLayer::SetLayerBuffer`, with what `dup` makes of the fence. -/
def setLayerBuffer (l : HdiLayer) (buffer : Option LayerBuffer) (fence : Int) : HdiLayer :=
  match buffer with
  | none => l
  | some b => { l with mHdiBuffer := some b, mAcquireFence := if -1 < fence then fence else l.mAcquireFence }

def getReleaseFenceFd (l : HdiLayer) : Int × HdiLayer :=
  match l.releaseFences with
  | [] => (-1, l)
  | fd :: rest => (fd, { l with releaseFences := rest })

/-- `HdiDrmLayer::GetGemBuffer` for the current buffer of the layer: a new object is made, and the one before the last is
destroyed. -/
def getGemBuffer (l : HdiLayer) (a : GemAnswers) (buffer : Nat) (k : Kernel) : GemBuffer × HdiLayer × Kernel :=
  let (gem, k) := GemBuffer.init a buffer k
  let k := match l.lastBuffer with
    | some old => old.destroy k
    | none => k
  (gem, { l with lastBuffer := l.mCurrentBuffer, mCurrentBuffer := some gem }, k)

end HdiLayer

inductive LayerAttr where
  | region (rect : Rect)
  | buffer (buffer : LayerBuffer) (fence : Int)
  | compositionType (type : CompositionType)
  | visible (visible : Bool)
  /-- Crop, alpha, transformation, blending and regions are handed on and read nowhere else. -/
  | other

/-- The functions `HdiLayer::SetLayerRegion`, `SetLayerBuffer`, `SetLayerCompositionType`, `SetLayerVisible`, …. -/
def HdiLayer.set (l : HdiLayer) : LayerAttr → HdiLayer
  | .region rect => { l with mDisplayRect := rect }
  | .buffer b fence => l.setLayerBuffer (some b) fence
  | .compositionType type => { l with mCompositionType := type }
  | .visible visible => { l with mVisible := visible }
  | .other => l

def HdiLayer.isAmVideoLayer (l : HdiLayer) : Bool :=
  match l.mHdiBuffer with
  | none => false
  | some b => videoFormats.contains b.format && b.height == 1 && b.width == 1

/-! ## Acquire fences -/

/-- The buffer and the acquire fence of a layer, with their past. A buffer has the number of the call that has set it, and
a descriptor that of the call for which `dup` has made it. -/
structure FenceLayer where
  calls : Nat := 0
  mHdiBuffer : Option Nat := none
  mAcquireFence : Option Nat := none
  duped : List Nat := []
  closed : List Nat := []
  /-- Each frame with the buffer it shows and the fence that `WaitAcquireFence` or `ApplyPlane` uses. -/
  frames : List (Option Nat × Option Nat) := []
  deleted : Bool := false

/-- `HdiFd::operator=`, and with no descriptor `HdiFd::~HdiFd`. -/
def FenceLayer.setFd (l : FenceLayer) (fd : Option Nat) : FenceLayer :=
  { l with mAcquireFence := fd, duped := fd.toList ++ l.duped, closed := l.mAcquireFence.toList ++ l.closed }

inductive FenceCall where
  /-- `HdiLayer::SetLayerBuffer`, with whether there is a buffer and whether `dup` succeeds. -/
  | setLayerBuffer (buffer : Bool) (fence : Int) (dup : Bool)
  | frame
  | delete

def FenceCall.next (l : FenceLayer) (c : FenceCall) : Option FenceLayer :=
  if l.deleted then none
  else match c with
  | setLayerBuffer buffer fence dup =>
    if !buffer then some l
    else
      let l' := { l with calls := l.calls + 1, mHdiBuffer := some l.calls }
      some (if -1 < fence then l'.setFd (if dup then some l.calls else none) else l')
  | frame => some { l with frames := (l.mHdiBuffer, l.mAcquireFence) :: l.frames }
  | delete => some { l.setFd none with deleted := true }

end Amlogic.Display
