import Amlogic.Display.Display

/-!
# The display device (`display_device/drm_device.cpp`, `drm_connector.cpp`, `drm_encoder.cpp`, `drm_display.cpp`)

For each connector that gets a CRTC `DrmDevice::DiscoveryDisplay` makes a display, which takes planes when it is
initialised. The maps of the device are lists in the order in which they are gone through.
-/

namespace Amlogic.Display

/-! ## CRTCs -/

def DrmCrtc.bindToDisplay (c : DrmCrtc) (id : Nat) : Option DrmCrtc :=
  if c.displayId ≠ noId then none else some { c with displayId := id }

def DrmCrtc.unBindDisplay (c : DrmCrtc) (id : Nat) : DrmCrtc :=
  if c.displayId = id then { c with displayId := noId } else c

def DrmCrtc.canBind (c : DrmCrtc) : Bool := c.displayId == noId

structure DrmEncoder where
  id : Nat
  crtcId : Nat
  possibleCrtcs : Nat

/-- `DrmEncoder::PickIdleCrtcId`. The CRTC of the encoder, or else the first, is taken if it is idle without a look at
`possibleCrtcs`; the search for another one takes the last. -/
def DrmEncoder.pickIdleCrtcId (e : DrmEncoder) (crtcs : List DrmCrtc) : Option Nat :=
  match (crtcs.find? (·.id == e.crtcId)).or crtcs.head? with
  | none => none
  | some crtc =>
    if crtc.canBind then some crtc.id
    else (crtcs.filter fun c => c.canBind && e.possibleCrtcs.testBit c.pipe).getLast?.map DrmCrtc.id

def tryPickEncoder (encoders : List DrmEncoder) (crtcs : List DrmCrtc) (encoderId : Nat) : Option Nat :=
  (encoders.find? (·.id == encoderId)).bind fun e => e.pickIdleCrtcId crtcs

def DrmConnector.pickIdleCrtcId (c : DrmConnector) (encoders : List DrmEncoder) (crtcs : List DrmCrtc) : Option Nat :=
  (c.encoderId :: c.possibleEncoders).findSome? (tryPickEncoder encoders crtcs)

/-! ## Planes -/

def DrmPlane.bindToPipe (pipe : Nat) (p : DrmPlane) : DrmPlane := { p with pipe }

def DrmPlane.isIdle (p : DrmPlane) : Bool := p.pipe == 0

/-- The condition of `DrmDevice::GetDrmPlane`. -/
def DrmPlane.fits (pipe : Nat) (type : PlaneType) (p : DrmPlane) : Bool :=
  p.isIdle && p.possibleCrtcs.testBit pipe && p.type == type

/-- What `DrmDevice::GetDrmPlane` returns. -/
def getDrmPlane (pipe : Nat) (type : PlaneType) (planes : List DrmPlane) : List DrmPlane :=
  (planes.filter (·.fits pipe type)).map (·.bindToPipe pipe)

/-- The planes of the device after `DrmDevice::GetDrmPlane`. -/
def bindPlanes (pipe : Nat) (type : PlaneType) (planes : List DrmPlane) : List DrmPlane :=
  planes.map fun p => if p.fits pipe type then p.bindToPipe pipe else p

theorem bindPlanes_ids (pipe : Nat) (type : PlaneType) (planes : List DrmPlane) :
    (bindPlanes pipe type planes).map DrmPlane.id = planes.map DrmPlane.id := by
  unfold bindPlanes
  rw [List.map_map]
  refine List.map_congr_left fun p _ => ?_
  show (if p.fits pipe type then p.bindToPipe pipe else p).id = p.id
  split <;> rfl

theorem getDrmPlane_ids (pipe : Nat) (type : PlaneType) (planes : List DrmPlane) :
    (getDrmPlane pipe type planes).map DrmPlane.id = (planes.filter (·.fits pipe type)).map DrmPlane.id := by
  unfold getDrmPlane
  rw [List.map_map]
  rfl

theorem getDrmPlane_bindPlanes {pipe : Nat} {type type' : PlaneType} (htype : type ≠ type') (planes : List DrmPlane) :
    getDrmPlane pipe type' (bindPlanes pipe type planes) = getDrmPlane pipe type' planes := by
  induction planes with
  | nil => rfl
  | cons p ps ih =>
    unfold getDrmPlane bindPlanes at ih ⊢
    by_cases hfits : p.fits pipe type = true
    · have htype' : p.type ≠ type' := by
        have := ((Bool.and_eq_true _ _).mp hfits).2
        rw [show p.type = type by simpa using this]
        exact htype
      have hnot : ∀ q : DrmPlane, q.type = p.type → q.fits pipe type' = false := fun q hq => by
        simp [DrmPlane.fits, hq, htype']
      rw [List.map_cons, if_pos hfits, List.filter_cons_of_neg (by simp [DrmPlane.bindToPipe, hnot]),
        List.filter_cons_of_neg (by simp [hnot p rfl])]
      exact ih
    · rw [List.map_cons, if_neg hfits]
      by_cases hfits' : p.fits pipe type' = true
      · rw [List.filter_cons_of_pos hfits', List.filter_cons_of_pos hfits', List.map_cons, List.map_cons, ih]
      · rw [List.filter_cons_of_neg hfits', List.filter_cons_of_neg hfits']
        exact ih

theorem planes_nodup {pipe : Nat} {planes : List DrmPlane} (h : (planes.map DrmPlane.id).Nodup) :
    ((getDrmPlane pipe .primary planes ++ getDrmPlane pipe .overlay (bindPlanes pipe .primary planes)).map
      DrmPlane.id).Nodup := by
  rw [getDrmPlane_bindPlanes (by decide), List.map_append, getDrmPlane_ids, getDrmPlane_ids]
  refine List.nodup_append.mpr ⟨h.sublist (List.filter_sublist.map _), h.sublist (List.filter_sublist.map _), ?_⟩
  intro id hprimary id' hoverlay heq
  obtain ⟨p, hp, rfl⟩ := List.mem_map.mp hprimary
  obtain ⟨q, hq, rfl⟩ := List.mem_map.mp hoverlay
  obtain ⟨hp, hfits⟩ := List.mem_filter.mp hp
  obtain ⟨hq, hfits'⟩ := List.mem_filter.mp hq
  obtain rfl : p = q := List.inj_on_of_nodup_map h hp hq heq
  have hp : p.type = .primary := by simpa using ((Bool.and_eq_true _ _).mp hfits).2
  have hq : p.type = .overlay := by simpa using ((Bool.and_eq_true _ _).mp hfits').2
  exact absurd (hp.symm.trans hq) (by decide)

/-! ## The first frame -/

/-- What is answered while a display is initialised. -/
structure InitAnswers where
  gfx : Bool := true
  alloc : Option Nat := some 0
  drm : DrmAnswers := {}

/-- `DrmDisplay::PushFirstFrame`, which does not look at the result of `HdiDrmComposition::Apply`. -/
def HdiDisplay.pushFirstFrame (a : InitAnswers) (s : HdiDisplay) : Except Fault (DispErrCode × HdiDisplay) :=
  match s.mConnector.modeFromId s.mCrtc.activeModeId with
  | none => .ok (.failure, s)
  | some mode =>
    match a.alloc with
    | none => .ok (.failure, s)
    | some buffer => do
      let b : LayerBuffer := { buffer, width := mode.hdisplay, height := mode.vdisplay, format := .bgra8888 }
      let s := (s.setDisplayClientBuffer (some b) (-1)).display
      let (_, _, s) ← drmApply a.drm (drmSetLayers [] s)
      return (.success, s)

/-- `DrmDisplay::ChosePreferenceMode`. The check that there are modes is of no effect, as
`GetDisplaySupportedModes` does not fail. -/
def HdiDisplay.chosePreferenceMode (a : InitAnswers) (s : HdiDisplay) : Except Fault (DispErrCode × HdiDisplay) :=
  let modeId := if s.mConnector.preferenceId = -1 then 0 else s.mConnector.preferenceId
  let r := s.setDisplayMode (BitVec.ofInt 32 modeId)
  if r.ret ≠ .success then .ok (.failure, r.display) else r.display.pushFirstFrame a

/-! ## The device -/

/-- A display of the device, with what its `Init` has returned. -/
structure Discovered where
  ret : DispErrCode
  display : HdiDisplay

structure DrmDevice where
  mCrtcs : List DrmCrtc
  mEncoders : List DrmEncoder
  mPlanes : Planes
  mDisplays : List Discovered := []
  displayIds : IdPool := {}

namespace DrmDevice

def setCrtc (d : DrmDevice) (crtc : DrmCrtc) : DrmDevice :=
  { d with mCrtcs := d.mCrtcs.map fun c => if c.id = crtc.id then crtc else c }

/-- `HdiDrmComposition::Init`: the planes that are taken, if one of them is primary. The planes are bound in any case. -/
def takePlanes (d : DrmDevice) (pipe : Nat) : Option Planes × DrmDevice :=
  let primPlanes := getDrmPlane pipe .primary d.mPlanes.1
  let bound : Planes := ⟨bindPlanes pipe .primary d.mPlanes.1, by rw [bindPlanes_ids]; exact d.mPlanes.2⟩
  let overlayPlanes := getDrmPlane pipe .overlay bound.1
  let planes : Planes := ⟨primPlanes ++ overlayPlanes, planes_nodup d.mPlanes.2⟩
  (if primPlanes.isEmpty then none else some planes,
    { d with mPlanes := ⟨bindPlanes pipe .overlay bound.1, by rw [bindPlanes_ids]; exact bound.2⟩ })

/-- `DrmDisplay::Init` for a new display. -/
def initDisplay (d : DrmDevice) (a : InitAnswers) (connector : DrmConnector) (crtc : DrmCrtc) :
    Except Fault (Discovered × DrmDevice) :=
  let s : HdiDisplay := { mPlanes := ⟨[], .nil⟩, mCrtc := crtc, mConnector := connector }
  match d.displayIds.getIdleId with
  | none => .error .fuel
  | some (id, displayIds) =>
    let d := { d with displayIds }
    if id = noId then .ok (⟨.failure, s⟩, d)
    else
      let s := { s with mId := id }
      if !a.gfx then .ok (⟨.failure, s⟩, d)
      else
        match d.takePlanes crtc.pipe with
        | (none, d) => .ok (⟨.failure, s⟩, d)
        | (some mPlanes, d) =>
          let s := { s with mPlanes }
          match crtc.bindToDisplay id with
          | none => .ok (⟨.failure, s⟩, d)
          | some mCrtc => do
            let (ret, s) ← HdiDisplay.chosePreferenceMode a { s with mCrtc }
            return (⟨if ret ≠ .success then .failure else .success, s⟩, d.setCrtc s.mCrtc)

/-- `mDisplays.emplace`, which destroys the display if there is one with its id. -/
def emplaceDisplay (d : DrmDevice) (x : Discovered) : DrmDevice :=
  if d.mDisplays.any fun y => y.display.mId == x.display.mId then
    let d := d.setCrtc (x.display.mCrtc.unBindDisplay x.display.mId)
    { d with displayIds := d.displayIds.erase x.display.mId }
  else { d with mDisplays := d.mDisplays ++ [x] }

def pickCrtc (d : DrmDevice) (connector : DrmConnector) : Option DrmCrtc :=
  (connector.pickIdleCrtcId d.mEncoders d.mCrtcs).bind fun crtcId => d.mCrtcs.find? (·.id == crtcId)

/-- The body of the loop of `DrmDevice::DiscoveryDisplay`; the result of `Init` is not used. -/
def discoverConnector (d : DrmDevice) (a : InitAnswers) (connector : DrmConnector) : Except Fault DrmDevice :=
  match d.pickCrtc connector with
  | none => .ok d
  | some crtc => do
    let (x, d) ← d.initDisplay a connector crtc
    return d.emplaceDisplay x

/-- The loop of `DrmDevice::DiscoveryDisplay`. -/
def discover (a : Nat → InitAnswers) : Nat → List DrmConnector → DrmDevice → Except Fault DrmDevice
  | _, [], d => .ok d
  | i, connector :: rest, d => do
    let d ← d.discoverConnector (a i) connector
    discover a (i + 1) rest d

end DrmDevice

/-- The resources that the kernel reports: each map has its ids once, and all CRTCs and planes are new objects. -/
structure Resources where
  crtcs : List DrmCrtc
  crtcIds : (crtcs.map DrmCrtc.id).Nodup
  crtcsNew : ∀ c ∈ crtcs, c.displayId = noId ∧ c.activeModeId = -1 ∧ c.needModeSet = false
  encoders : List DrmEncoder
  connectors : List DrmConnector
  planes : Planes
  planesNew : ∀ p ∈ planes.1, p.pipe = 0

def discoveryDisplay (r : Resources) (displayIds : IdPool) (a : Nat → InitAnswers) : Except Fault (List Discovered) := do
  let d ← DrmDevice.discover a 0 r.connectors
    { mCrtcs := r.crtcs, mEncoders := r.encoders, mPlanes := r.planes, displayIds }
  return d.mDisplays

end Amlogic.Display
