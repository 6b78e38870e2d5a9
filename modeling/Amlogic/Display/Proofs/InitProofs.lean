import Amlogic.Display.Device
import Amlogic.Display.Proofs.CommitProofs

/-!
# Initialisation of a display

`DrmDisplay::Init` has to find an id, a primary plane, a CRTC that is free and the memory of the first frame. The mode
that it sets is the preferred one, and only the first mode can be set.
-/

namespace Amlogic.Display

/-! ## Ids -/

theorem IdPool.search_spec {used : List Nat} {old rounds idle id idle' : Nat}
    (h : search used old rounds idle = some (id, idle')) : id = noId ∨ id ∉ used := by
  induction rounds generalizing idle with
  | zero => cases h
  | succ rounds ih =>
    unfold search at h
    by_cases hfree : idle ∉ used
    · rw [if_pos hfree] at h
      obtain ⟨rfl, _⟩ := Prod.mk.inj (Option.some.inj h)
      exact .inr hfree
    rw [if_neg hfree] at h
    split at h
    · exact ih h
    · obtain ⟨rfl, _⟩ := Prod.mk.inj (Option.some.inj h)
      exact .inl rfl

theorem IdPool.getIdleId_spec {p p' : IdPool} {id : Nat} (h : p.getIdleId = some (id, p')) :
    p'.mIdSets = id :: p.mIdSets ∧ (id = noId ∨ id ∉ p.mIdSets) := by
  unfold getIdleId at h
  split at h
  · cases h
  · rename_i hsearch
    cases h
    exact ⟨rfl, search_spec hsearch⟩

/-! ## The first mode -/

/-- There are modes, and no mode but the first is preferred. -/
def DrmConnector.StartsFirst (c : DrmConnector) : Prop := c.modes ≠ [] ∧ c.preferenceId ≤ 0

theorem DrmConnector.preferenceId_range (c : DrmConnector) : -1 ≤ c.preferenceId ∧ c.preferenceId < 2 ^ 31 := by
  unfold preferenceId
  split
  · rename_i i hi
    have hlt : i < c.modes.length := by
      obtain ⟨h, _⟩ := List.findIdx?_eq_some_iff_getElem.mp hi
      exact h
    have := c.count
    omega
  · omega

theorem DrmConnector.modeFromId_zero (c : DrmConnector) : (c.modeFromId 0).isSome = true ↔ c.modes ≠ [] := by
  unfold modeFromId
  cases c.modes <;> simp

theorem toInt_ofInt_of_range {i : Int} (h : -2 ^ 31 ≤ i) (h' : i < 2 ^ 31) : (BitVec.ofInt 32 i).toInt = i := by
  rw [BitVec.toInt_ofInt]
  exact Int.bmod_eq_of_le (by omega) (by omega)

theorem setDisplayMode_ofInt (s : HdiDisplay) {i : Int} (h : -2 ^ 31 ≤ i) (h' : i < 2 ^ 31) :
    s.setDisplayMode (BitVec.ofInt 32 i) =
      { ret := (s.mCrtc.setActivieMode i).1, display := { s with mCrtc := (s.mCrtc.setActivieMode i).2 } } := by
  unfold HdiDisplay.setDisplayMode
  rw [toInt_ofInt_of_range h h']

structure SameButMode (s s' : HdiDisplay) : Prop where
  id : s'.mId = s.mId
  planes : s'.mPlanes = s.mPlanes
  crtcId : s'.mCrtc.id = s.mCrtc.id
  displayId : s'.mCrtc.displayId = s.mCrtc.displayId

theorem DrmCrtc.setActivieMode_same (c : DrmCrtc) (i : Int) :
    (c.setActivieMode i).2.id = c.id ∧ (c.setActivieMode i).2.displayId = c.displayId := by
  unfold setActivieMode
  split <;> exact ⟨rfl, rfl⟩

theorem pushFirstFrame_spec {a : InitAnswers} {s s' : HdiDisplay} {ret : DispErrCode}
    (h : s.pushFirstFrame a = .ok (ret, s')) :
    SameDisplay s s' ∧ (ret = .success ↔
      (s.mConnector.modeFromId s.mCrtc.activeModeId).isSome = true ∧ a.alloc.isSome = true) := by
  unfold HdiDisplay.pushFirstFrame at h
  split at h
  · rename_i hmode
    cases h
    exact ⟨.refl s, iff_of_false nofun fun hboth => by simp [hmode] at hboth⟩
  rename_i mode hmode
  split at h
  · rename_i halloc
    cases h
    exact ⟨.refl s, iff_of_false nofun fun hboth => by simp [halloc] at hboth⟩
  rename_i buffer halloc
  obtain ⟨⟨ret', used, s1⟩, happly, h⟩ := bind_eq_ok h
  cases h
  refine ⟨?_, iff_of_true rfl ⟨by rw [hmode]; rfl, by rw [halloc]; rfl⟩⟩
  exact ((setDisplayClientBuffer_still s _ _).trans (drmSetLayers_still _ _)).display.trans (drmApply_same happly)

theorem chosePreferenceMode_spec {a : InitAnswers} {s s' : HdiDisplay} {ret : DispErrCode}
    (h : s.chosePreferenceMode a = .ok (ret, s')) :
    SameButMode s s' ∧ (ret = .success ↔ s.mConnector.StartsFirst ∧ a.alloc.isSome = true) := by
  obtain ⟨hlow, hhigh⟩ := s.mConnector.preferenceId_range
  unfold HdiDisplay.chosePreferenceMode at h
  generalize hid : (if s.mConnector.preferenceId = -1 then 0 else s.mConnector.preferenceId) = modeId at h
  have hrange : 0 ≤ modeId ∧ modeId < 2 ^ 31 := by
    split at hid <;> omega
  have hfirst : modeId ≤ 0 ↔ s.mConnector.preferenceId ≤ 0 := by
    split at hid <;> omega
  obtain ⟨hcrtc, hdisplay⟩ := s.mCrtc.setActivieMode_same modeId
  dsimp only at h
  rw [setDisplayMode_ofInt s (by omega) hrange.2] at h
  by_cases hpos : 0 < modeId
  · rw [if_pos (by simp [DrmCrtc.setActivieMode, hpos])] at h
    cases h
    refine ⟨⟨rfl, rfl, hcrtc, hdisplay⟩, iff_of_false nofun fun hboth => ?_⟩
    exact absurd (hfirst.mpr hboth.1.2) (by omega)
  obtain rfl : modeId = 0 := by omega
  rw [if_neg (by simp [DrmCrtc.setActivieMode])] at h
  obtain ⟨hsame, hret⟩ := pushFirstFrame_spec h
  refine ⟨⟨hsame.id, hsame.planes, by rw [hsame.crtc]; exact hcrtc, by rw [hsame.crtc]; exact hdisplay⟩, ?_⟩
  have hactive : (s.mCrtc.setActivieMode 0).2.activeModeId = 0 := by simp [DrmCrtc.setActivieMode]
  rw [hret, hactive]
  rw [s.mConnector.modeFromId_zero]
  exact and_congr_left fun _ => ⟨fun hmodes => ⟨hmodes, hfirst.mp le_rfl⟩, And.left⟩

/-! ## Init -/

/-- Besides the mode, all that is needed for a display: an id, the graphics unit, a primary plane and memory. -/
structure ResourcesWork (d : DrmDevice) (a : InitAnswers) (crtc : DrmCrtc) : Prop where
  id : ∃ id pool, d.displayIds.getIdleId = some (id, pool) ∧ id ≠ noId
  gfx : a.gfx = true
  primary : ∃ p ∈ d.mPlanes.1, p.fits crtc.pipe .primary = true
  alloc : a.alloc.isSome = true

def DrmDevice.planesFor (d : DrmDevice) (crtc : DrmCrtc) : List DrmPlane :=
  d.mPlanes.1.filter fun p => p.fits crtc.pipe .primary || p.fits crtc.pipe .overlay

structure Initialised (d : DrmDevice) (a : InitAnswers) (connector : DrmConnector) (crtc : DrmCrtc) (x : Discovered)
    (d' : DrmDevice) : Prop where
  displays : d'.mDisplays = d.mDisplays
  encoders : d'.mEncoders = d.mEncoders
  ids : d'.displayIds.mIdSets = x.display.mId :: d.displayIds.mIdSets
  newId : x.display.mId = noId ∨ x.display.mId ∉ d.displayIds.mIdSets
  ret : x.ret = .success ↔ ResourcesWork d a crtc ∧ connector.StartsFirst
  success : x.ret = .success → x.display.mId ≠ noId ∧ x.display.mCrtc.id = crtc.id ∧
    x.display.mCrtc.displayId = x.display.mId ∧ d'.mCrtcs = (d.setCrtc x.display.mCrtc).mCrtcs ∧
    ∀ id, id ∈ x.display.mPlanes.1.map DrmPlane.id ↔ id ∈ (d.planesFor crtc).map DrmPlane.id

theorem takePlanes_spec (d : DrmDevice) (crtc : DrmCrtc) :
    ∃ mPlanes, (d.takePlanes crtc.pipe).2 = { d with mPlanes } ∧
      (((d.takePlanes crtc.pipe).1 = none ∧ ¬ ∃ p ∈ d.mPlanes.1, p.fits crtc.pipe .primary = true) ∨
        ∃ planes, (d.takePlanes crtc.pipe).1 = some planes ∧ (∃ p ∈ d.mPlanes.1, p.fits crtc.pipe .primary = true) ∧
          ∀ id, id ∈ planes.1.map DrmPlane.id ↔ id ∈ (d.planesFor crtc).map DrmPlane.id) := by
  have hempty : (getDrmPlane crtc.pipe .primary d.mPlanes.1).isEmpty = true ↔
      ¬ ∃ p ∈ d.mPlanes.1, p.fits crtc.pipe .primary = true := by
    simp [getDrmPlane, List.filter_eq_nil_iff]
  refine ⟨_, rfl, ?_⟩
  unfold DrmDevice.takePlanes
  dsimp only
  by_cases hnone : (getDrmPlane crtc.pipe .primary d.mPlanes.1).isEmpty = true
  · rw [if_pos hnone]
    exact .inl ⟨rfl, hempty.mp hnone⟩
  · rw [if_neg hnone]
    refine .inr ⟨_, rfl, not_not.mp (mt hempty.mpr hnone), fun id => ?_⟩
    dsimp only
    rw [getDrmPlane_bindPlanes (by decide), List.map_append, getDrmPlane_ids, getDrmPlane_ids]
    simp only [DrmDevice.planesFor, List.mem_append, List.mem_map, List.mem_filter, Bool.or_eq_true]
    constructor
    · rintro (⟨p, ⟨hp, hfits⟩, rfl⟩ | ⟨p, ⟨hp, hfits⟩, rfl⟩)
      · exact ⟨p, ⟨hp, .inl hfits⟩, rfl⟩
      · exact ⟨p, ⟨hp, .inr hfits⟩, rfl⟩
    · rintro ⟨p, ⟨hp, hfits | hfits⟩, rfl⟩
      · exact .inl ⟨p, ⟨hp, hfits⟩, rfl⟩
      · exact .inr ⟨p, ⟨hp, hfits⟩, rfl⟩

theorem initDisplay_spec {d d' : DrmDevice} {a : InitAnswers} {connector : DrmConnector} {crtc : DrmCrtc}
    {x : Discovered} (hbind : crtc.canBind = true) (h : d.initDisplay a connector crtc = .ok (x, d')) :
    Initialised d a connector crtc x d' := by
  unfold DrmDevice.initDisplay at h
  split at h
  · cases h
  rename_i id pool hid
  obtain ⟨hsets, hnew⟩ := IdPool.getIdleId_spec hid
  by_cases hno : id = noId
  · rw [if_pos hno] at h
    cases h
    refine ⟨rfl, rfl, by rw [hsets, hno], .inl rfl, iff_of_false nofun fun hworks => ?_, nofun⟩
    obtain ⟨id', pool', hid', hno'⟩ := hworks.1.id
    rw [hid] at hid'
    exact hno' ((Prod.mk.inj (Option.some.inj hid')).1 ▸ hno)
  rw [if_neg hno] at h
  by_cases hgfx : a.gfx = true
  case neg =>
    rw [if_pos (by simp [hgfx])] at h
    cases h
    exact ⟨rfl, rfl, hsets, hnew, iff_of_false nofun fun hworks => hgfx hworks.1.gfx, nofun⟩
  rw [if_neg (by simp [hgfx])] at h
  obtain ⟨mPlanes, hdevice, ⟨hnone, hprimary⟩ | ⟨planes, hsome, hprimary, hplanes⟩⟩ :=
    takePlanes_spec { d with displayIds := pool } crtc
  · rw [← Prod.mk.eta (p := DrmDevice.takePlanes _ _), hnone, hdevice] at h
    cases h
    exact ⟨rfl, rfl, hsets, hnew, iff_of_false nofun fun hworks => hprimary hworks.1.primary, nofun⟩
  rw [← Prod.mk.eta (p := DrmDevice.takePlanes _ _), hsome, hdevice] at h
  have hbound : crtc.bindToDisplay id = some { crtc with displayId := id } :=
    if_neg (not_not.mpr (by simpa [DrmCrtc.canBind] using hbind))
  rw [hbound] at h
  obtain ⟨⟨ret, s⟩, hmode, h⟩ := bind_eq_ok h
  cases h
  obtain ⟨hsame, hret⟩ := chosePreferenceMode_spec hmode
  have hids : s.mId = id := hsame.id
  refine ⟨rfl, rfl, by rw [hids]; exact hsets, by rw [hids]; exact hnew, ?_, fun _ => ?_⟩
  · by_cases hsuccess : ret = .success
    · obtain ⟨hfirst, halloc⟩ := hret.mp hsuccess
      exact iff_of_true (by simp [hsuccess]) ⟨⟨⟨id, pool, hid, hno⟩, hgfx, hprimary, halloc⟩, hfirst⟩
    · exact iff_of_false (by simp [hsuccess]) fun hworks => hsuccess (hret.mpr ⟨hworks.2, hworks.1.alloc⟩)
  · refine ⟨by rw [hids]; exact hno, hsame.crtcId, hsame.displayId.trans hids.symm, rfl, fun id' => ?_⟩
    rw [hsame.planes]
    exact hplanes id'

end Amlogic.Display
