import Amlogic.Display.Ids
import Amlogic.Display.Layer

/-!
# Composition (`display_device/hdi_gfx_composition.cpp`, `hdi_drm_composition.cpp`, `hdi_composer.cpp`)

A display draws its layers into the buffer of its client layer by the graphics unit, and then shows that buffer by an
atomic request. The two compositions keep pointers to the layers of the frame. A pointer to a layer is a number that is
not used again, and the client layer has the number 0. With each function that goes through layers stands the list of
those that it has used.
-/

namespace Amlogic.Display

/-- `DRM_PLANE_TYPE_OVERLAY`, …. -/
inductive PlaneType where
  | overlay | primary | cursor
  deriving DecidableEq

structure DrmPlane where
  id : Nat
  possibleCrtcs : Nat := 1
  type : PlaneType := .primary
  pipe : Nat := 0
  fenceIn : Bool := true

abbrev Planes := { planes : List DrmPlane // (planes.map DrmPlane.id).Nodup }

/-- `HdiDisplay` with its compositions, as the `DrmDisplay` that is made for a connector. -/
structure HdiDisplay where
  mId : Nat := noId
  layer : Nat → HdiLayer := fun _ => {}
  next : Nat := 1
  layerIds : IdPool := {}
  mLayersMap : List (Nat × Nat) := []
  mLayers : List Nat := []
  mChangeLayers : List Nat := []
  /-- `mCompLayers` of the graphics composition. -/
  gfxLayers : List Nat := []
  /-- `mCompLayers` of the DRM composition. -/
  drmLayers : List Nat := []
  mVideoLayer : Option Nat := none
  mPlanes : Planes
  mCrtc : DrmCrtc
  mConnector : DrmConnector
  videoAxis : Option Rect := none
  kernel : Kernel := {}

def clientLayer : Nat := 0

def HdiDisplay.setLayer (s : HdiDisplay) (p : Nat) (l : HdiLayer) : HdiDisplay :=
  { s with layer := fun q => if q = p then l else s.layer q }

/-! ## The graphics unit -/

/-- How the graphics library is loaded and initialised. -/
structure GfxModule where
  found : Bool := true
  /-- What the function of the library returns, and whether it sets `mGfxFuncs`. -/
  ret : Int := 0
  funcs : Bool := true
  initGfx : Int := 0

structure HdiGfxComposition where
  mGfxFuncs : Bool
  valid : Bool := false

/-- `HdiGfxComposition::Init` with `GfxModuleInit`. Nothing reads `valid_`. -/
def gfxInit (m : GfxModule) : DispErrCode × HdiGfxComposition :=
  let (ret, mGfxFuncs) := if m.found then (m.ret, m.funcs) else (-1, false)
  if ret ≠ 0 ∨ !mGfxFuncs then (.success, { mGfxFuncs })
  else if m.initGfx ≠ 0 then (.failure, { mGfxFuncs })
  else (.success, { mGfxFuncs, valid := true })

structure GfxAnswers where
  funcs : Bool := true
  /-- What the operation for the layer at this place returns. -/
  op : Nat → Int := fun _ => 0

/-- `HdiGfxComposition::ClearRect` and `BlitLayer` as far as their results go; only the second needs a buffer of the
source. -/
def gfxOperation (a : GfxAnswers) (i : Nat) (srcBuffer : Bool) (client : HdiLayer) : DispErrCode :=
  if !srcBuffer then .nullPtr
  else if client.mHdiBuffer.isNone || !a.funcs then .failure
  else if a.op i = 0 then .success
  else .failure

/-- The `switch` of `HdiGfxComposition::Apply`. -/
def gfxCompose (a : GfxAnswers) (i : Nat) (l client : HdiLayer) : DispErrCode :=
  match l.mDeviceSelect with
  | .video => gfxOperation a i true client
  | .device => gfxOperation a i l.mHdiBuffer.isSome client
  | _ => .success

/-- The loop of `HdiGfxComposition::Apply`, with the layers it has used. -/
def gfxApply (a : GfxAnswers) (s : HdiDisplay) : Nat → List Nat → DispErrCode × List Nat
  | _, [] => (.success, [])
  | i, p :: ps =>
    if gfxCompose a i (s.layer p) (s.layer clientLayer) = .success then
      let (ret, used) := gfxApply a s (i + 1) ps
      (ret, p :: used)
    else (.failure, [p])

/-- `HdiGfxComposition::SetLayers`; `CanHandle` is always true. -/
def gfxSetLayers (layers : List Nat) (s : HdiDisplay) : HdiDisplay :=
  let s := layers.foldl (fun s p =>
    let l := s.layer p
    s.setLayer p { l with mDeviceSelect :=
      if l.mCompositionType ≠ .video ∧ l.mCompositionType ≠ .cursor then .device else l.mCompositionType }) s
  { s with gfxLayers := layers }

/-! ## DRM -/

/-- What the kernel answers while a plane is set up; the numbers are those of `drmModeAtomicAddProperty`. -/
structure PlaneAnswers where
  inFence : Int := 1
  gem : GemAnswers := {}
  fb : Int := 1
  crtc : Int := 1
  srcW : Int := 1
  srcH : Int := 1

/-- What the kernel answers while the mode is set up. -/
structure ModeAnswers where
  blob : Bool := true
  active : Int := 1
  mode : Int := 1
  connector : Int := 1

structure DrmAnswers where
  alloc : Bool := true
  outFence : Int := 1
  plane : Nat → PlaneAnswers := fun _ => {}
  mode : ModeAnswers := {}
  commit : Int := 0
  fence : Int := 0

/-- `HdiDrmComposition::SetLayers`: the first layer for the video player is remembered. -/
def drmSetLayers (layers : List Nat) (s : HdiDisplay) : HdiDisplay :=
  let s := { s with drmLayers := [clientLayer], mVideoLayer := none }
  match layers.find? fun p => (s.layer p).isAmVideoLayer with
  | none => s
  | some p => { s.setLayer p { s.layer p with mCompositionType := .video } with mVideoLayer := some p }

/-- Adds a property to a request if `drmModeAtomicAddProperty` succeeds. -/
def addProperty (ret : Int) (setting : Setting) (req : AtomicReq) : Option AtomicReq :=
  if ret < 0 then none else some (req ++ [setting])

/-- The properties of `HdiDrmComposition::ApplyPlane` behind the framebuffer. -/
def applySource (a : PlaneAnswers) (plane : DrmPlane) (crtc : Nat) (b : LayerBuffer) (req : AtomicReq) :
    DispErrCode × AtomicReq :=
  match addProperty a.crtc (.planeCrtc plane.id crtc) req with
  | none => (.failure, req)
  | some req =>
    match addProperty a.srcW (.srcW plane.id (BitVec.ofInt 32 b.width <<< 16)) req with
    | none => (.failure, req)
    | some req =>
      match addProperty a.srcH (.srcH plane.id (BitVec.ofInt 32 b.height <<< 16)) req with
      | none => (.failure, req)
      | some req => (.success, req)

/-- The fence of `HdiDrmComposition::ApplyPlane`. -/
def applyFence (a : PlaneAnswers) (plane : DrmPlane) (fence : Int) (req : AtomicReq) : Option AtomicReq :=
  if plane.fenceIn ∧ 0 ≤ fence then addProperty a.inFence (.inFence plane.id fence) req else some req

/-- `HdiDrmComposition::ApplyPlane`. A layer without a buffer is not provided for. -/
def applyPlane (a : PlaneAnswers) (p : Nat) (plane : DrmPlane) (req : AtomicReq) (s : HdiDisplay) :
    Except Fault (DispErrCode × AtomicReq × HdiDisplay) :=
  let l := s.layer p
  match applyFence a plane l.mAcquireFence req with
  | none => .ok (.failure, req, s)
  | some req =>
    match l.mHdiBuffer with
    | none => .error .access
    | some b =>
      let (gem, l, kernel) := l.getGemBuffer a.gem b.buffer s.kernel
      let s := { s.setLayer p l with kernel }
      match gem with
      | ⟨some _, some fb⟩ =>
        match addProperty a.fb (.framebuffer plane.id fb) req with
        | none => .ok (.failure, req, s)
        | some req =>
          let (ret, req) := applySource a plane s.mCrtc.id b req
          .ok (ret, req, s)
      -- `IsValid` fails
      | _ => .ok (.failure, req, s)

/-- The loop over the planes in `HdiDrmComposition::Apply`, which ends at the first failure and forgets it. -/
def applyPlanes (a : Nat → PlaneAnswers) : Nat → List (Nat × DrmPlane) → AtomicReq → HdiDisplay →
    Except Fault (AtomicReq × HdiDisplay)
  | _, [], req, s => .ok (req, s)
  | i, (p, plane) :: rest, req, s => do
    let (ret, req, s) ← applyPlane (a i) p plane req s
    if ret ≠ .success then return (req, s)
    else applyPlanes a (i + 1) rest req s

def updateMode (a : ModeAnswers) (s : HdiDisplay) (req : AtomicReq) : DispErrCode × AtomicReq :=
  if s.mCrtc.needModeSet then
    match s.mConnector.modeFromId s.mCrtc.activeModeId with
    | none => (.success, req)
    | some mode =>
      if !a.blob then (.success, req)
      else
        match addProperty a.active (.active s.mCrtc.id) req with
        | none => (.failure, req)
        | some req =>
          match addProperty a.mode (.mode s.mCrtc.id mode) req with
          | none => (.failure, req)
          | some req =>
            match addProperty a.connector (.connectorCrtc s.mConnector.id s.mCrtc.id) req with
            | none => (.failure, req)
            | some req => (.success, req)
  else (.success, req)

/-- `HdiDrmComposition::UpdateVideoRect`, with whether the video layer was used. There is no check of the divisors. -/
def updateVideoRect (video client : Nat) (s : HdiDisplay) : Except Fault (Bool × HdiDisplay) :=
  match s.mConnector.modeFromId s.mCrtc.activeModeId with
  | none => .ok (false, s)
  | some mode =>
    match (s.layer client).mHdiBuffer with
    | none => .error .access
    | some b =>
      if b.width = 0 ∨ b.height = 0 then .error .access
      else
        let rect := (s.layer video).mDisplayRect
        .ok (true, { s with videoAxis := some {
          x := (s32 (rect.x * mode.hdisplay)).tdiv b.width, y := (s32 (rect.y * mode.vdisplay)).tdiv b.height
          w := (s32 (rect.w * mode.hdisplay)).tdiv b.width, h := (s32 (rect.h * mode.vdisplay)).tdiv b.height } })

/-- The part of `HdiDrmComposition::Apply` about the video layer, with the layers it has used. -/
def applyVideo (s : HdiDisplay) : Except Fault (List Nat × HdiDisplay) :=
  match s.drmLayers, s.mVideoLayer with
  | client :: _, some video => do
    let (used, s) ← updateVideoRect video client s
    return (if used then [video] else [], { s with mVideoLayer := none })
  | _, _ => .ok ([], s)

/-- The release fence is given to the layers of the frame. -/
def releaseLayers (fence : Int) (s : HdiDisplay) : HdiDisplay :=
  s.drmLayers.foldl (fun s p =>
    s.setLayer p { s.layer p with releaseFences := (s.layer p).releaseFences ++ [fence] }) s

/-- The end of `HdiDrmComposition::Apply`, from the mode on. -/
def applyCommit (a : DrmAnswers) (req : AtomicReq) (s : HdiDisplay) : DispErrCode × HdiDisplay :=
  let (ret, req) := updateMode a.mode s req
  if ret ≠ .success then (.failure, s)
  else if a.commit ≠ 0 then (.failure, s)
  else
    let s := { s with kernel := { s.kernel with accepted := req :: s.kernel.accepted } }
    (.success, releaseLayers a.fence s)

/-- `HdiDrmComposition::Apply`, with the layers it has used besides those of the frame. -/
def drmApply (a : DrmAnswers) (s : HdiDisplay) : Except Fault (DispErrCode × List Nat × HdiDisplay) :=
  if s.mPlanes.1.length < s.drmLayers.length then .ok (.failure, [], s)
  else if !a.alloc then .ok (.nullPtr, [], s)
  else
    match addProperty a.outFence (.outFence s.mCrtc.id) [] with
    | none => .ok (.failure, [], s)
    | some req => do
      let (req, s) ← applyPlanes a.plane 0 (s.drmLayers.zip s.mPlanes.1) req s
      let (used, s) ← applyVideo s
      let (ret, s) := applyCommit a req s
      return (ret, used, s)

/-! ## The composer -/

structure CommitAnswers where
  gfx : GfxAnswers := {}
  drm : DrmAnswers := {}

def composerPrepare (layers : List Nat) (s : HdiDisplay) : HdiDisplay := gfxSetLayers layers (drmSetLayers layers s)

/-- `HdiComposer::Commit`, with the layers it has used besides those of the frame. -/
def composerCommit (a : CommitAnswers) (s : HdiDisplay) : Except Fault (DispErrCode × List Nat × HdiDisplay) :=
  let (ret, used) := gfxApply a.gfx s 0 s.gfxLayers
  if ret ≠ .success then .ok (.failure, used, s)
  else do
    let (ret, used', s) ← drmApply a.drm s
    return (if ret ≠ .success then .failure else .success, used ++ used', s)

end Amlogic.Display
