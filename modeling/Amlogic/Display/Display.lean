import Amlogic.Base.Runs
import Amlogic.Display.Composition

/-!
# Displays (`display_device/hdi_display.cpp`, `display_device/drm_display.cpp`)

The calls that a display answers. The layers are objects that `mLayersMap` owns; `mLayers` has pointers to them in the
order of their z-order, and `mChangeLayers` and the compositions have pointers to those of the last frame.
-/

namespace Amlogic.Display

/-- The end of a call: what it returns, the layers that it has used and the display. -/
structure Called where
  ret : DispErrCode
  used : List Nat := []
  display : HdiDisplay

namespace HdiDisplay

variable (s : HdiDisplay)

def findLayer (id : Nat) : Option Nat := (s.mLayersMap.find? fun e => e.1 == id).map Prod.snd

/-- `mLayers.emplace`, behind all that are not above the layer. -/
def insertLayer (p : Nat) : List Nat :=
  let below := fun q => decide ((s.layer q).mZorder ≤ (s.layer p).mZorder)
  s.mLayers.takeWhile below ++ p :: s.mLayers.dropWhile below

/-- The layer is searched among those of its z-order and erased from `mLayers`. -/
def eraseLayer (p : Nat) : List Nat :=
  if p ∈ s.mLayers.filter fun q => (s.layer q).mZorder = (s.layer p).mZorder then s.mLayers.erase p else s.mLayers

/-- `HdiDisplay::SetLayerZorder`. Comparisons may use all of `mLayers`. -/
def setLayerZorder (id zorder : Nat) : Called :=
  match s.findLayer id with
  | none => { ret := .failure, display := s }
  | some p =>
    if (s.layer p).mZorder = zorder then { ret := .success, used := [p], display := s }
    else
      let s' := { s with mLayers := s.eraseLayer p }
      let s' := s'.setLayer p { s'.layer p with mZorder := zorder }
      { ret := .success, used := p :: s.mLayers, display := { s' with mLayers := s'.insertLayer p } }

def createLayer (type : LayerType) : Except Fault Called :=
  match s.layerIds.getIdleId with
  | none => .error .fuel
  | some (id, pool) =>
    -- the destructor of the layer that got no id takes its number to be 0
    if id = noId then .ok { ret := .failure, display := { s with layerIds := pool.erase 0 } }
    else
      let p := s.next
      let s' := { s.setLayer p { mId := id, mType := type } with next := p + 1, layerIds := pool }
      let s' := { s' with mLayers := s'.insertLayer p }
      let s' :=
        -- `emplace` destroys the layer if the id is in the map
        if (s'.findLayer id).isSome then { s' with layerIds := s'.layerIds.erase id }
        else { s' with mLayersMap := (id, p) :: s'.mLayersMap }
      .ok { ret := .success, used := s.mLayers, display := s' }

/-- `HdiDrmLayer::~HdiDrmLayer`. -/
def deleteLayer (p : Nat) : HdiDisplay :=
  let l := s.layer p
  let kernel := match l.lastBuffer with
    | some g => g.destroy s.kernel
    | none => s.kernel
  let kernel := match l.mCurrentBuffer with
    | some g => g.destroy kernel
    | none => kernel
  { s with kernel, layerIds := s.layerIds.erase l.mId }

def destroyLayer (id : Nat) : Called :=
  match s.findLayer id with
  | none => { ret := .failure, display := s }
  | some p =>
    let s' := { s with mLayers := s.eraseLayer p, mLayersMap := s.mLayersMap.filter fun e => e.1 ≠ id }
    { ret := .success, used := p :: s.mLayers, display := s'.deleteLayer p }

/-- `HdiDisplay::GetHdiLayer` and one of the functions that set something. -/
def setLayerAttr (id : Nat) (attr : LayerAttr) : Called :=
  match s.findLayer id with
  | none => { ret := .failure, display := s }
  | some p => { ret := .success, used := [p], display := s.setLayer p ((s.layer p).set attr) }

/-- `HdiDisplay::GetDisplayCompChange`, with whether the layers and the types are asked for. -/
def getDisplayCompChange (layers types : Bool) : Called :=
  { ret := .success, used := if !layers && !types then [] else s.mChangeLayers, display := s }

/-- `HdiDisplay::GetDisplayReleaseFence`, with whether the layers and the fences are asked for. The line for the log takes
another fence. -/
def getDisplayReleaseFence (layers fences : Bool) : Called :=
  if !layers && !fences then { ret := .success, display := s }
  else
    { ret := .success
      used := s.mLayers
      display := s.mLayers.foldl (fun s p =>
        let l := if fences then (s.layer p).getReleaseFenceFd.2 else s.layer p
        s.setLayer p l.getReleaseFenceFd.2) s }

def visibleLayers : List Nat := s.mLayers.filter fun p => (s.layer p).mVisible

/-- The end of `HdiDisplay::PrepareDisplayLayers`: the layers that are to be composed in another way. -/
def collectChanges (layers : List Nat) : HdiDisplay :=
  layers.foldl (fun s p =>
    let l := s.layer p
    if l.mDeviceSelect ≠ l.mCompositionType then
      { s.setLayer p { l with mCompositionType := l.mDeviceSelect } with mChangeLayers := s.mChangeLayers ++ [p] }
    else s) s

def prepareDisplayLayers : Called :=
  let s' := composerPrepare s.visibleLayers { s with mChangeLayers := [] }
  { ret := .success, used := s.mLayers, display := s'.collectChanges s.visibleLayers }

def commit (a : CommitAnswers) : Except Fault Called := do
  -- the result is not used
  let (_, used, s) ← composerCommit a s
  let l := s.layer clientLayer
  return { ret := .success, used, display := s.setLayer clientLayer l.getReleaseFenceFd.2 }

def setDisplayClientBuffer (buffer : Option LayerBuffer) (fence : Int) : Called :=
  { ret := .success, display := s.setLayer clientLayer ((s.layer clientLayer).setLayerBuffer buffer fence) }

def setDisplayMode (modeId : BitVec 32) : Called :=
  let (ret, crtc) := s.mCrtc.setActivieMode modeId.toInt
  { ret, display := { s with mCrtc := crtc } }

end HdiDisplay

def HdiDisplay.start (layerIds : IdPool) (mPlanes : Planes) (mCrtc : DrmCrtc) (mConnector : DrmConnector) :
    HdiDisplay where
  layerIds := layerIds
  mPlanes := mPlanes
  mCrtc := mCrtc
  mConnector := mConnector

inductive DisplayCall where
  | createLayer (type : LayerType)
  | destroyLayer (id : Nat)
  | setLayerZorder (id zorder : Nat)
  | setLayerAttr (id : Nat) (attr : LayerAttr)
  | prepareDisplayLayers
  | getDisplayCompChange (layers types : Bool)
  | getDisplayReleaseFence (layers fences : Bool)
  | setDisplayClientBuffer (buffer : Option LayerBuffer) (fence : Int)
  | setDisplayMode (modeId : BitVec 32)
  | commit (a : CommitAnswers)

def DisplayCall.run (s : HdiDisplay) : DisplayCall → Except Fault Called
  | createLayer type => s.createLayer type
  | destroyLayer id => .ok (s.destroyLayer id)
  | setLayerZorder id zorder => .ok (s.setLayerZorder id zorder)
  | setLayerAttr id attr => .ok (s.setLayerAttr id attr)
  | prepareDisplayLayers => .ok s.prepareDisplayLayers
  | getDisplayCompChange layers types => .ok (s.getDisplayCompChange layers types)
  | getDisplayReleaseFence layers fences => .ok (s.getDisplayReleaseFence layers fences)
  | setDisplayClientBuffer buffer fence => .ok (s.setDisplayClientBuffer buffer fence)
  | setDisplayMode modeId => .ok (s.setDisplayMode modeId)
  | commit a => s.commit a

def DisplayCall.next (s : HdiDisplay) (c : DisplayCall) : Option HdiDisplay :=
  match c.run s with
  | .ok r => some r.display
  | .error _ => none

def DisplayCall.Step (s : HdiDisplay) (c : DisplayCall) (s' : HdiDisplay) : Prop := c.next s = some s'

end Amlogic.Display
