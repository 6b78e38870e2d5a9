import Amlogic.Display.Proofs.InitProofs

/-!
# Display modes

The mode ids of a connector are the places in its list. `DrmCrtc::SetActivieMode` takes an id for invalid if it is above
0, and takes one with the sign bit; and nothing ever clears `mNeedModeSet`.
-/

namespace Amlogic.Display

variable {req req' : AtomicReq} {s s' : HdiDisplay} {m : ModeRun}

/-! ## Ids -/

/-- The result of `SetDisplayMode` is as it should be: the first mode is there, or the id is no mode and positive as an
`int32_t`. -/
def DrmConnector.IdAnswered (c : DrmConnector) (modeId : BitVec 32) : Prop :=
  modeId.toNat = 0 ∧ c.modes ≠ [] ∨ 0 < modeId.toNat ∧ modeId.toNat < 2 ^ 31 ∧ c.modes.length ≤ modeId.toNat

theorem setDisplayMode_success (s : HdiDisplay) (modeId : BitVec 32) :
    (s.setDisplayMode modeId).ret = .success ↔ modeId.toNat = 0 ∨ 2 ^ 31 ≤ modeId.toNat := by
  have hpos : 0 < modeId.toInt ↔ ¬ (modeId.toNat = 0 ∨ 2 ^ 31 ≤ modeId.toNat) := by
    rw [BitVec.toInt_eq_toNat_cond]
    split <;> omega
  show (s.mCrtc.setActivieMode modeId.toInt).1 = .success ↔ _
  unfold DrmCrtc.setActivieMode
  by_cases h : 0 < modeId.toInt
  · rw [if_pos h]
    exact iff_of_false nofun (hpos.mp h)
  · rw [if_neg h]
    exact iff_of_true rfl (not_not.mp (mt hpos.mpr h))

theorem setDisplayMode_answered (s : HdiDisplay) (modeId : BitVec 32) :
    ((s.setDisplayMode modeId).ret = .success ↔ modeId.toNat ∈ s.mConnector.supportedModes) ↔
      s.mConnector.IdAnswered modeId := by
  rw [setDisplayMode_success]
  unfold DrmConnector.supportedModes DrmConnector.IdAnswered
  have hcount := s.mConnector.count
  rw [List.mem_range, Ne, ← List.length_eq_zero_iff]
  omega

/-! ## Requests -/

def modesOf (req : AtomicReq) : List (Nat × ModeInfo) := req.filterMap Setting.mode?

theorem addProperty_modes {ret : Int} {setting : Setting}
    (h : addProperty ret setting req = some req') : modesOf req' = modesOf req ++ setting.mode?.toList := by
  unfold addProperty at h
  split at h
  · cases h
  · cases h
    unfold modesOf
    rw [List.filterMap_append]
    cases setting <;> rfl

theorem addProperty_no_mode {ret : Int} {setting : Setting} (hno : setting.mode? = none)
    (h : addProperty ret setting req = some req') : modesOf req' = modesOf req := by
  rw [addProperty_modes h, hno]
  exact List.append_nil _

theorem applySource_modes (a : PlaneAnswers) (plane : DrmPlane) (crtc : Nat) (b : LayerBuffer) (req : AtomicReq) :
    modesOf (applySource a plane crtc b req).2 = modesOf req := by
  unfold applySource
  split
  · rfl
  rename_i hcrtc
  split
  · exact addProperty_no_mode rfl hcrtc
  rename_i hw
  split
  · exact (addProperty_no_mode rfl hw).trans (addProperty_no_mode rfl hcrtc)
  rename_i hh
  exact ((addProperty_no_mode rfl hh).trans (addProperty_no_mode rfl hw)).trans (addProperty_no_mode rfl hcrtc)

theorem applyPlane_modes {a : PlaneAnswers} {p : Nat} {plane : DrmPlane} {ret : DispErrCode}
    (h : applyPlane a p plane req s = .ok (ret, req', s')) : modesOf req' = modesOf req := by
  unfold applyPlane at h
  dsimp only at h
  split at h
  · obtain ⟨_, rfl, _⟩ : _ ∧ req = req' ∧ _ := by simpa using h
    rfl
  rename_i req1 hfence
  have hfence : modesOf req1 = modesOf req := by
    unfold applyFence at hfence
    split at hfence
    · exact addProperty_no_mode rfl hfence
    · rw [Option.some.inj hfence]
  split at h
  · cases h
  rename_i b hbuffer
  split at h
  · split at h
    · obtain ⟨_, rfl, _⟩ : _ ∧ req1 = req' ∧ _ := by simpa using h
      exact hfence
    · rename_i req2 hfb
      obtain ⟨_, rfl, _⟩ : _ ∧ (applySource a plane s.mCrtc.id b req2).2 = req' ∧ _ := by
        simpa [Prod.ext_iff, eq_comm, HdiDisplay.setLayer] using h
      exact (applySource_modes ..).trans ((addProperty_no_mode rfl hfb).trans hfence)
  · obtain ⟨_, rfl, _⟩ : _ ∧ req1 = req' ∧ _ := by simpa using h
    exact hfence

theorem applyPlanes_modes {a : Nat → PlaneAnswers} {frame : List (Nat × DrmPlane)} {n : Nat}
    (h : applyPlanes a n frame req s = .ok (req', s')) : modesOf req' = modesOf req := by
  induction frame generalizing n req s with
  | nil =>
    cases h
    rfl
  | cons x rest ih =>
    obtain ⟨⟨ret, req1, s1⟩, hplane, h⟩ := bind_eq_ok h
    have hfirst := applyPlane_modes hplane
    dsimp only at h
    split at h
    · cases h
      exact hfirst
    · exact (ih h).trans hfirst

def programmed (a : ModeAnswers) (s : HdiDisplay) : List (Nat × ModeInfo) :=
  if s.mCrtc.needModeSet ∧ a.blob then
    ((s.mConnector.modeFromId s.mCrtc.activeModeId).map fun mode => (s.mCrtc.id, mode)).toList
  else []

theorem updateMode_modes {a : ModeAnswers}
    (h : (updateMode a s req).1 = .success) : modesOf (updateMode a s req).2 = modesOf req ++ programmed a s := by
  unfold updateMode at h ⊢
  unfold programmed
  by_cases hneed : s.mCrtc.needModeSet = true
  case neg => simp [hneed]
  rw [if_pos hneed] at h ⊢
  cases hmode : s.mConnector.modeFromId s.mCrtc.activeModeId with
  | none => simp
  | some mode =>
    by_cases hblob : a.blob = true
    case neg => simp [hblob]
    simp only [hmode, hblob, Bool.not_true, Bool.false_eq_true, if_false] at h ⊢
    split at h
    · cases h
    rename_i req1 hactive
    split at h
    · cases h
    rename_i req2 hset
    split at h
    · cases h
    rename_i req3 hconnector
    rw [addProperty_no_mode rfl hconnector, addProperty_modes hset, addProperty_no_mode rfl hactive]
    simp [hneed, Setting.mode?]

theorem drmApply_modes {a : DrmAnswers} {ret : DispErrCode} {used : List Nat}
    (h : drmApply a s = .ok (ret, used, s')) : s'.kernel.accepted = s.kernel.accepted ∨
      ∃ req, s'.kernel.accepted = req :: s.kernel.accepted ∧ modesOf req = programmed a.mode s := by
  obtain ⟨-, -, rfl⟩ | ⟨-, req, s1, s2, hloop, hvideo, rfl⟩ := drmApply_cases h
  · exact .inl rfl
  have hkept := (applyPlanes_spec (zip_ids_nodup s.mPlanes.2) hloop).1
  have hrest := (applyVideo_spec hvideo).1
  have haccepted : s2.kernel.accepted = s.kernel.accepted := by rw [hrest]; exact hkept.accepted
  have hreq : modesOf req = [] := applyPlanes_modes hloop
  have hsame : programmed a.mode s2 = programmed a.mode s := by
    rw [hrest, hkept.rest]
    rfl
  unfold applyCommit
  dsimp only
  split
  · exact .inl haccepted
  rename_i hmode
  split
  · exact .inl haccepted
  refine .inr ⟨(updateMode a.mode s2 req).2, ?_, ?_⟩
  · rw [(releaseLayers_still _ a.fence).kernel, haccepted]
  · rw [updateMode_modes (not_not.mp hmode), hreq, hsame]
    rfl

theorem commit_modes {a : CommitAnswers} {r : Called} (h : s.commit a = .ok r) :
    SameDisplay s r.display ∧ (r.display.kernel.accepted = s.kernel.accepted ∨
      ∃ req, r.display.kernel.accepted = req :: s.kernel.accepted ∧ modesOf req = programmed a.drm.mode s) := by
  obtain ⟨_, s1, rfl, ⟨-, -, rfl⟩ | ⟨-, ret, happly⟩⟩ := commit_cases h
  · exact ⟨⟨rfl, rfl, rfl, rfl⟩, .inl rfl⟩
  · have hsame := drmApply_same happly
    have hmodes := drmApply_modes happly
    exact ⟨⟨hsame.id, hsame.planes, hsame.crtc, hsame.connector⟩, hmodes⟩

/-! ## Runs -/

/-- A display with what was asked of it: the mode of the last successful `SetDisplayMode` as long as no request has been
accepted since, and each accepted request with the mode that was asked for then. -/
structure ModeRun where
  display : HdiDisplay
  asked : Option (BitVec 32) := none
  commits : List (Option (BitVec 32) × AtomicReq) := []

namespace ModeRun

def after (m : ModeRun) (r : Called) : DisplayCall → ModeRun
  | .setDisplayMode modeId =>
    { m with display := r.display, asked := if r.ret = .success then some modeId else m.asked }
  | .commit _ =>
    match r.display.kernel.accepted with
    | [] => { m with display := r.display }
    | req :: accepted =>
      if accepted.length = m.display.kernel.accepted.length then
        { display := r.display, asked := none, commits := (m.asked, req) :: m.commits }
      else { m with display := r.display }
  | _ => { m with display := r.display }

def next (m : ModeRun) (c : DisplayCall) : Option ModeRun :=
  match c.run m.display with
  | .ok r => some (m.after r c)
  | .error _ => none

def Step (m : ModeRun) (c : DisplayCall) (m' : ModeRun) : Prop := m.next c = some m'

/-- A request sets the mode that was asked for, and no mode if none was. -/
def RightMode (s : HdiDisplay) (e : Option (BitVec 32) × AtomicReq) : Prop :=
  match e.1 with
  | none => modesOf e.2 = []
  | some modeId => ∃ mode, s.mConnector.modes[modeId.toNat]? = some mode ∧ modesOf e.2 = [(s.mCrtc.id, mode)]

/-- Modes are asked for by ids that are not above `INT32_MAX`, and by 0 only if there are modes. A commit has a new mode
to set, for which the blob can be made, or no mode has ever been set. -/
def Fair (m : ModeRun) : DisplayCall → Prop
  | .setDisplayMode modeId => modeId.toNat < 2 ^ 31 ∧ (modeId.toNat = 0 → m.display.mConnector.modes ≠ [])
  | .commit a =>
    if m.asked.isSome then a.drm.mode.blob = true else m.display.mCrtc.needModeSet = false
  | _ => True

def start (layerIds : IdPool) (mPlanes : Planes) (crtc pipe : Nat) (mConnector : DrmConnector) : ModeRun :=
  { display := .start layerIds mPlanes { id := crtc, pipe } mConnector }

structure Inv (m : ModeRun) : Prop where
  mode : m.display.mCrtc.needModeSet = false ∧ m.display.mCrtc.activeModeId = -1 ∨
    m.display.mCrtc.needModeSet = true ∧ m.display.mCrtc.activeModeId = 0 ∧ m.display.mConnector.modes ≠ []
  asked : ∀ modeId, m.asked = some modeId → modeId.toNat = 0 ∧ m.display.mCrtc.needModeSet = true
  commits : ∀ e ∈ m.commits, RightMode m.display e

theorem RightMode.same {e : Option (BitVec 32) × AtomicReq} (hconnector : s'.mConnector = s.mConnector)
    (hcrtc : s'.mCrtc.id = s.mCrtc.id) (h : RightMode s e) : RightMode s' e := by
  unfold RightMode at h ⊢
  rw [hconnector, hcrtc]
  exact h

theorem Inv.same (h : m.Inv) (hsame : SameDisplay m.display s) :
    Inv { m with display := s } := by
  refine ⟨?_, fun modeId hasked => ?_, fun e he => (h.commits e he).same hsame.connector (by rw [hsame.crtc])⟩
  · rw [hsame.crtc, hsame.connector]
    exact h.mode
  · rw [hsame.crtc]
    exact h.asked modeId hasked

theorem Inv.setDisplayMode (h : m.Inv) {modeId : BitVec 32} (hfair : m.Fair (.setDisplayMode modeId)) :
    (m.after (m.display.setDisplayMode modeId) (.setDisplayMode modeId)).Inv := by
  obtain ⟨hrange, hmodes⟩ := hfair
  unfold after
  dsimp only
  by_cases hret : (m.display.setDisplayMode modeId).ret = .success
  · have hzero : modeId.toNat = 0 :=
      ((setDisplayMode_success _ _).mp hret).resolve_right (by omega)
    obtain rfl : modeId = 0 := BitVec.eq_of_toNat_eq hzero
    have hneed : (m.display.setDisplayMode 0).display.mCrtc.needModeSet = true := by
      obtain ⟨_, hactive⟩ | ⟨hneed, _⟩ := h.mode
      · simp [HdiDisplay.setDisplayMode, DrmCrtc.setActivieMode, hactive]
      · simp [HdiDisplay.setDisplayMode, DrmCrtc.setActivieMode, hneed]
    refine ⟨.inr ⟨hneed, ?_, hmodes rfl⟩, fun modeId hasked => ?_,
      fun e he => RightMode.same (s := m.display) rfl ?_ (h.commits e he)⟩
    · simp [HdiDisplay.setDisplayMode, DrmCrtc.setActivieMode]
    · cases hasked
      exact ⟨rfl, hneed⟩
    · exact (m.display.mCrtc.setActivieMode_same (0 : BitVec 32).toInt).1
  · have hsame : (m.display.setDisplayMode modeId).display = m.display := by
      unfold HdiDisplay.setDisplayMode DrmCrtc.setActivieMode at hret ⊢
      by_cases hpos : 0 < modeId.toInt
      · simp [hpos]
      · simp [hpos] at hret
    rw [if_neg hret, hsame]
    exact h

theorem Inv.commit (h : m.Inv) {a : CommitAnswers} {r : Called} (hfair : m.Fair (.commit a))
    (hrun : m.display.commit a = .ok r) : (m.after r (.commit a)).Inv := by
  obtain ⟨hsame, haccepted | ⟨req, haccepted, hmodes⟩⟩ := commit_modes hrun
  · -- nothing is accepted
    have hafter : m.after r (.commit a) = { m with display := r.display } := by
      unfold after
      rw [haccepted]
      cases m.display.kernel.accepted with
      | nil => rfl
      | cons req accepted => simp
    rw [hafter]
    exact h.same hsame
  have hafter : m.after r (.commit a) =
      { display := r.display, asked := none, commits := (m.asked, req) :: m.commits } := by
    unfold after
    rw [haccepted]
    simp
  rw [hafter]
  obtain ⟨hmode, hasked, hcommits⟩ := h.same hsame
  refine ⟨hmode, nofun, fun e he => ?_⟩
  obtain rfl | he := List.mem_cons.mp he
  case inr => exact hcommits e he
  refine RightMode.same hsame.connector (by rw [hsame.crtc]) ?_
  unfold RightMode
  unfold Fair at hfair
  rw [hmodes]
  unfold programmed
  cases hasked : m.asked with
  | none =>
    rw [hasked] at hfair
    have hneed : m.display.mCrtc.needModeSet = false := by simpa using hfair
    simp [hneed]
  | some modeId =>
    rw [hasked] at hfair
    have hblob : a.drm.mode.blob = true := by simpa using hfair
    obtain ⟨hzero, hneed⟩ := h.asked modeId hasked
    obtain ⟨hnot, _⟩ | ⟨_, hactive, hsome⟩ := h.mode
    · rw [hneed] at hnot
      cases hnot
    dsimp only
    rw [hzero, if_pos ⟨hneed, hblob⟩, hactive]
    cases hlist : m.display.mConnector.modes with
    | nil => exact absurd hlist hsome
    | cons mode rest => exact ⟨mode, rfl, by simp [DrmConnector.modeFromId, hlist]⟩

theorem Inv.step {m' : ModeRun} {c : DisplayCall} (h : m.Inv) (hfair : m.Fair c) (hstep : m.Step c m') : m'.Inv := by
  unfold Step next at hstep
  split at hstep
  case h_2 => cases hstep
  rename_i r hrun
  cases hstep
  by_cases hc : c.aboutMode = false
  · have hafter : m.after r c = { m with display := r.display } := by
      cases c <;> first | rfl | cases hc
    rw [hafter]
    exact h.same (run_same hc hrun).1
  cases c with
  | setDisplayMode modeId =>
    cases hrun
    exact h.setDisplayMode hfair
  | commit a => exact h.commit hfair hrun
  | _ => exact absurd rfl hc

theorem start_inv (layerIds : IdPool) (mPlanes : Planes) (crtc pipe : Nat) (mConnector : DrmConnector) :
    (start layerIds mPlanes crtc pipe mConnector).Inv :=
  ⟨.inl ⟨rfl, rfl⟩, nofun, nofun⟩

end ModeRun

/-- `SetDisplayMode` succeeds for exactly the modes that are listed if the id is answered as it should be; `Init`
succeeds, where all else is there, if no mode but the first is preferred; and in every fair run each request that is
accepted sets the mode that was asked for, and no mode otherwise. -/
theorem modes_set (s : HdiDisplay) (modeId : BitVec 32) :
    (((s.setDisplayMode modeId).ret = .success ↔ modeId.toNat ∈ s.mConnector.supportedModes) ↔
      s.mConnector.IdAnswered modeId) ∧
    (∀ (d d' : DrmDevice) (a : InitAnswers) (connector : DrmConnector) (crtc : DrmCrtc) (x : Discovered),
      crtc.canBind = true → ResourcesWork d a crtc → d.initDisplay a connector crtc = .ok (x, d') →
        (x.ret = .success ↔ connector.StartsFirst)) ∧
    ∀ (layerIds : IdPool) (mPlanes : Planes) (crtc pipe : Nat) (mConnector : DrmConnector) (m : ModeRun),
      Runs ModeRun.Step ModeRun.Fair (.start layerIds mPlanes crtc pipe mConnector) m →
        ∀ e ∈ m.commits, ModeRun.RightMode m.display e := by
  refine ⟨setDisplayMode_answered s modeId, fun d d' a connector crtc x hbind hworks hinit => ?_,
    fun layerIds mPlanes crtc pipe mConnector m hrun => ?_⟩
  · rw [(initDisplay_spec hbind hinit).ret]
    exact ⟨And.right, fun hfirst => ⟨hworks, hfirst⟩⟩
  · have hinv : m.Inv := Runs.keeps (fun h hfair hstep => ModeRun.Inv.step h hfair hstep) hrun
      (ModeRun.start_inv layerIds mPlanes crtc pipe mConnector)
    exact hinv.commits

def twoModes (second : Bool) : DrmConnector where
  modes := [⟨640, 480, 60, !second⟩, ⟨1280, 720, 60, second⟩]
  count := by simp

def oneCrtc : DrmDevice where
  mCrtcs := [{ id := 41 }]
  mEncoders := []
  mPlanes := onlyPlane

def modeRun : ModeRun := .start {} onlyPlane 41 0 (twoModes false)

def modeCalls (modes : List (Option (BitVec 32))) : List DisplayCall :=
  [.setDisplayClientBuffer (some { buffer := 5 }) (-1), .prepareDisplayLayers] ++
    modes.flatMap fun mode => (mode.map DisplayCall.setDisplayMode).toList ++ [.commit {}]

instance ModeRun.decidableFair (m : ModeRun) : ∀ c, Decidable (m.Fair c)
  | .setDisplayMode modeId =>
    inferInstanceAs (Decidable (modeId.toNat < 2 ^ 31 ∧ (modeId.toNat = 0 → m.display.mConnector.modes ≠ [])))
  | .commit a => inferInstanceAs (Decidable
      (if m.asked.isSome then a.drm.mode.blob = true else m.display.mCrtc.needModeSet = false))
  | .createLayer _ => isTrue trivial
  | .destroyLayer _ => isTrue trivial
  | .setLayerZorder _ _ => isTrue trivial
  | .setLayerAttr _ _ => isTrue trivial
  | .prepareDisplayLayers => isTrue trivial
  | .getDisplayCompChange _ _ => isTrue trivial
  | .getDisplayReleaseFence _ _ => isTrue trivial
  | .setDisplayClientBuffer _ _ => isTrue trivial

/-- The first mode, with an `Init` that finds all it needs and a mode that is set twice. -/
theorem modes_set_for_first :
    ((∀ s : HdiDisplay, s.mConnector = twoModes false →
        ((s.setDisplayMode 0).ret = .success ↔ (0 : BitVec 32).toNat ∈ s.mConnector.supportedModes)) ∧
      ∃ x d', oneCrtc.initDisplay {} (twoModes false) { id := 41 } = .ok (x, d') ∧ x.ret = .success) ∧
    ∃ m, Runs ModeRun.Step ModeRun.Fair modeRun m ∧ m.commits.map Prod.fst = [some 0, some 0] ∧
      ∀ e ∈ m.commits, ModeRun.RightMode m.display e := by
  obtain ⟨-, hinit, hruns⟩ := modes_set modeRun.display 0
  refine ⟨⟨fun s hs => (modes_set s 0).1.mpr (.inl ⟨rfl, by rw [hs]; simp [twoModes]⟩), ?_⟩, ?_⟩
  · have hworks : ResourcesWork oneCrtc {} { id := 41 } := ⟨⟨0, ⟨1, [0]⟩, rfl, by decide⟩, rfl, by decide, rfl⟩
    exact ⟨_, _, rfl, (hinit oneCrtc _ {} (twoModes false) { id := 41 } _ rfl hworks rfl).mpr ⟨by simp [twoModes], by decide⟩⟩
  · have hplay : ((modeCalls [some 0, some 0]).foldlM (guarded ModeRun.Fair ModeRun.next) modeRun).any
        (fun m => decide (m.commits.map Prod.fst = [some 0, some 0])) = true := by
      decide +kernel
    obtain ⟨m, hrun, hm⟩ : ∃ m, Runs ModeRun.Step ModeRun.Fair modeRun m ∧ _ := Runs.of_guarded hplay id
    exact ⟨m, hrun, of_decide_eq_true hm, hruns _ _ _ _ _ m hrun⟩

/-- The second mode is listed and refused, and an id above `INT32_MAX` is taken; `Init` fails if the second mode is
preferred; and a mode is set again by a commit for which none was asked. -/
theorem modes_not_set :
    (∃ s : HdiDisplay, (1 ∈ s.mConnector.supportedModes ∧ (s.setDisplayMode 1).ret = .paramErr) ∧
      0x80000000 ∉ s.mConnector.supportedModes ∧ (s.setDisplayMode 0x80000000).ret = .success) ∧
    (∃ x d', oneCrtc.initDisplay {} (twoModes true) { id := 41 } = .ok (x, d') ∧ x.ret = .failure) ∧
    ∃ m, Runs ModeRun.Step (fun _ _ => True) modeRun m ∧
      m.commits.map (fun e => (e.1, modesOf e.2)) =
        [(none, [(41, ⟨640, 480, 60, true⟩)]), (some 0, [(41, ⟨640, 480, 60, true⟩)])] := by
  refine ⟨⟨modeRun.display, by decide, by decide, by decide⟩, ⟨_, _, rfl, by decide⟩, ?_⟩
  have hplay : ((modeCalls [some 0, none]).foldlM ModeRun.next modeRun).any
      (fun m => decide (m.commits.map (fun e => (e.1, modesOf e.2)) =
        [(none, [(41, ⟨640, 480, 60, true⟩)]), (some 0, [(41, ⟨640, 480, 60, true⟩)])])) = true := by
    decide +kernel
  obtain ⟨m, hrun, hm⟩ := Runs.of_play hplay fun {m c m'} h => (⟨trivial, h⟩ : True ∧ ModeRun.Step m c m')
  exact ⟨m, hrun, of_decide_eq_true hm⟩

end Amlogic.Display
