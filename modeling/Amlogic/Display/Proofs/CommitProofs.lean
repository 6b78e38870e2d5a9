import Amlogic.Display.Proofs.CallProofs

/-!
# Commit: when success means that the frame is shown

`HdiDisplay::Commit` always returns success. The frame is shown if the kernel accepts a request that has a framebuffer
for each of its layers.
-/

namespace Amlogic.Display

open GemBuffer

/-! ## What is wanted -/

def Shown (req : AtomicReq) (k : Kernel) (plane : DrmPlane) (l : HdiLayer) : Prop :=
  ∃ f ∈ k.fbs, Setting.framebuffer plane.id f.id ∈ req ∧ l.mHdiBuffer.map LayerBuffer.buffer = some f.buffer

/-- Between two states a request was accepted that has a framebuffer for each layer of the frame. -/
def FrameAccepted (s s' : HdiDisplay) : Prop :=
  ∃ req, s'.kernel.accepted = req :: s.kernel.accepted ∧ ∀ (i p : Nat), s.drmLayers[i]? = some p →
    ∃ plane, s.mPlanes.1[i]? = some plane ∧ Shown req s'.kernel plane (s.layer p)

/-! ## When it is so -/

structure FramebufferWorks (a : PlaneAnswers) (plane : DrmPlane) (l : HdiLayer) : Prop where
  inFence : plane.fenceIn = true → 0 ≤ l.mAcquireFence → 0 ≤ a.inFence
  prime : a.gem.prime = true
  addFb : a.gem.addFb = true
  fb : 0 ≤ a.fb

structure SourceWorks (a : PlaneAnswers) : Prop where
  crtc : 0 ≤ a.crtc
  srcW : 0 ≤ a.srcW
  srcH : 0 ≤ a.srcH

def GfxWorks (a : GfxAnswers) (i : Nat) (l client : HdiLayer) : Prop :=
  (l.mDeviceSelect = .video ∨ l.mDeviceSelect = .device) →
    (l.mDeviceSelect = .device → l.mHdiBuffer.isSome = true) ∧ client.mHdiBuffer.isSome = true ∧ a.funcs = true ∧
      a.op i = 0

def ModeWorks (a : ModeAnswers) (s : HdiDisplay) : Prop :=
  s.mCrtc.needModeSet = true → (s.mConnector.modeFromId s.mCrtc.activeModeId).isSome = true → a.blob = true →
    0 ≤ a.active ∧ 0 ≤ a.mode ∧ 0 ≤ a.connector

/-- All that is needed for the request. Behind the framebuffer of the last layer a failure has no effect. -/
structure RequestWorks (a : DrmAnswers) (s : HdiDisplay) : Prop where
  planes : s.drmLayers.length ≤ s.mPlanes.1.length
  alloc : a.alloc = true
  outFence : 0 ≤ a.outFence
  framebuffers : ∀ (i p : Nat) (plane : DrmPlane), s.drmLayers[i]? = some p → s.mPlanes.1[i]? = some plane →
    FramebufferWorks (a.plane i) plane (s.layer p)
  sources : ∀ i, i + 1 < s.drmLayers.length → SourceWorks (a.plane i)
  mode : ModeWorks a.mode s
  commit : a.commit = 0

structure CommitWorks (a : CommitAnswers) (s : HdiDisplay) : Prop where
  gfx : ∀ (i p : Nat), s.gfxLayers[i]? = some p → GfxWorks a.gfx i (s.layer p) (s.layer clientLayer)
  request : RequestWorks a.drm s

/-! ## The graphics unit -/

theorem gfxOperation_success {a : GfxAnswers} {i : Nat} {srcBuffer : Bool} {client : HdiLayer} :
    gfxOperation a i srcBuffer client = .success ↔
      srcBuffer = true ∧ client.mHdiBuffer.isSome = true ∧ a.funcs = true ∧ a.op i = 0 := by
  unfold gfxOperation
  cases srcBuffer <;> cases client.mHdiBuffer <;> cases a.funcs <;> by_cases h : a.op i = 0 <;> simp [h]

theorem gfxCompose_success {a : GfxAnswers} {i : Nat} {l client : HdiLayer} :
    gfxCompose a i l client = .success ↔ GfxWorks a i l client := by
  unfold gfxCompose GfxWorks
  cases l.mDeviceSelect <;> simp [gfxOperation_success]

variable {layers : List Nat} {plane : DrmPlane} {req req' : AtomicReq} {frame : List (Nat × DrmPlane)}
  {planes : List DrmPlane}

theorem gfxApply_success {a : GfxAnswers} {s : HdiDisplay} {n : Nat} :
    (gfxApply a s n layers).1 = .success ↔
      ∀ (i p : Nat), layers[i]? = some p → GfxWorks a (n + i) (s.layer p) (s.layer clientLayer) := by
  induction layers generalizing n with
  | nil => simp [gfxApply]
  | cons p ps ih =>
    have hcons : (gfxApply a s n (p :: ps)).1 = .success ↔
        GfxWorks a n (s.layer p) (s.layer clientLayer) ∧ (gfxApply a s (n + 1) ps).1 = .success := by
      rw [← gfxCompose_success]
      conv_lhs => unfold gfxApply
      by_cases h : gfxCompose a n (s.layer p) (s.layer clientLayer) = .success <;> simp [h]
    rw [hcons, ih]
    constructor
    · rintro ⟨hp, hps⟩ i q hq
      cases i with
      | zero =>
        cases hq
        exact hp
      | succ i =>
        rw [show n + (i + 1) = n + 1 + i by omega]
        exact hps i q hq
    · intro h
      refine ⟨h 0 p rfl, fun i q hq => ?_⟩
      have hnext := h (i + 1) q hq
      rwa [show n + (i + 1) = n + 1 + i by omega] at hnext

/-! ## A plane -/

theorem addProperty_of_nonneg {ret : Int} (h : 0 ≤ ret) (setting : Setting) (req : AtomicReq) :
    addProperty ret setting req = some (req ++ [setting]) := if_neg (Int.not_lt.mpr h)

theorem addProperty_of_neg {ret : Int} (h : ¬ 0 ≤ ret) (setting : Setting) (req : AtomicReq) :
    addProperty ret setting req = none := if_pos (Int.not_le.mp h)

def NoFramebuffer (added : AtomicReq) : Prop := ∀ plane fb, Setting.framebuffer plane fb ∉ added

theorem applySource_spec (a : PlaneAnswers) (plane : DrmPlane) (crtc : Nat) (b : LayerBuffer) (req : AtomicReq) :
    ((applySource a plane crtc b req).1 = .success ↔ SourceWorks a) ∧
      ∃ added, (applySource a plane crtc b req).2 = req ++ added ∧ NoFramebuffer added := by
  unfold applySource
  by_cases hcrtc : 0 ≤ a.crtc
  case neg =>
    rw [addProperty_of_neg hcrtc]
    exact ⟨iff_of_false nofun fun h => hcrtc h.crtc, [], by simp, fun _ _ => by simp⟩
  rw [addProperty_of_nonneg hcrtc]
  dsimp only
  by_cases hw : 0 ≤ a.srcW
  case neg =>
    rw [addProperty_of_neg hw]
    exact ⟨iff_of_false nofun fun h => hw h.srcW, _, rfl, fun _ _ => by simp⟩
  rw [addProperty_of_nonneg hw]
  dsimp only
  by_cases hh : 0 ≤ a.srcH
  case neg =>
    rw [addProperty_of_neg hh]
    exact ⟨iff_of_false nofun fun h => hh h.srcH, _, List.append_assoc .., fun _ _ => by simp⟩
  rw [addProperty_of_nonneg hh]
  refine ⟨iff_of_true rfl ⟨hcrtc, hw, hh⟩,
    [.planeCrtc plane.id crtc, .srcW plane.id (BitVec.ofInt 32 b.width <<< 16),
      .srcH plane.id (BitVec.ofInt 32 b.height <<< 16)], ?_, fun _ _ => by simp⟩
  simp

theorem applyFence_spec (a : PlaneAnswers) (plane : DrmPlane) (fence : Int) (req : AtomicReq) :
    (∃ added, applyFence a plane fence req = some (req ++ added) ∧ NoFramebuffer added ∧
      (plane.fenceIn = true → 0 ≤ fence → 0 ≤ a.inFence)) ∨
    (applyFence a plane fence req = none ∧ plane.fenceIn = true ∧ 0 ≤ fence ∧ ¬ 0 ≤ a.inFence) := by
  unfold applyFence
  by_cases hneeded : plane.fenceIn ∧ 0 ≤ fence
  case neg =>
    rw [if_neg hneeded]
    exact .inl ⟨[], by simp, fun _ _ => by simp, fun h h' => absurd ⟨h, h'⟩ hneeded⟩
  rw [if_pos hneeded]
  by_cases hin : 0 ≤ a.inFence
  · rw [addProperty_of_nonneg hin]
    exact .inl ⟨_, rfl, fun _ _ => by simp, fun _ _ => hin⟩
  · rw [addProperty_of_neg hin]
    exact .inr ⟨rfl, hneeded.1, hneeded.2, hin⟩

structure Kept (s s' : HdiDisplay) : Prop where
  rest : s' = { s with layer := s'.layer, kernel := s'.kernel }
  buffer : ∀ p, (s'.layer p).mHdiBuffer = (s.layer p).mHdiBuffer
  fence : ∀ p, (s'.layer p).mAcquireFence = (s.layer p).mAcquireFence
  fbs : s.kernel.fbs ⊆ s'.kernel.fbs
  accepted : s'.kernel.accepted = s.kernel.accepted

theorem Kept.refl (s : HdiDisplay) : Kept s s :=
  ⟨rfl, fun _ => rfl, fun _ => rfl, fun _ h => h, rfl⟩

theorem Kept.trans {s1 s2 s3 : HdiDisplay} (h : Kept s1 s2) (h' : Kept s2 s3) : Kept s1 s3 := by
  refine ⟨?_, fun p => (h'.buffer p).trans (h.buffer p), fun p => (h'.fence p).trans (h.fence p),
    fun f hf => h'.fbs (h.fbs hf), h'.accepted.trans h.accepted⟩
  rw [h'.rest, h.rest]

theorem FramebufferWorks.kept {s s' : HdiDisplay} (h : Kept s s') {a : PlaneAnswers} {p : Nat} :
    FramebufferWorks a plane (s'.layer p) ↔ FramebufferWorks a plane (s.layer p) := by
  have hfence := h.fence p
  constructor <;> rintro ⟨hin, hprime, haddFb, hfb⟩
  · exact ⟨hfence ▸ hin, hprime, haddFb, hfb⟩
  · exact ⟨hfence.symm ▸ hin, hprime, haddFb, hfb⟩

theorem Kernel.primeFdToHandle_fbs (k : Kernel) (buffer : Nat) : (k.primeFdToHandle buffer).2.fbs = k.fbs := by
  unfold Kernel.primeFdToHandle
  split <;> rfl

theorem Kernel.primeFdToHandle_accepted (k : Kernel) (buffer : Nat) :
    (k.primeFdToHandle buffer).2.accepted = k.accepted := by
  unfold Kernel.primeFdToHandle
  split <;> rfl

theorem GemBuffer.init_spec (a : GemAnswers) (buffer : Nat) (k : Kernel) :
    k.fbs ⊆ (init a buffer k).2.fbs ∧ (init a buffer k).2.accepted = k.accepted ∧
    ((∃ handle fb, (init a buffer k).1 = ⟨some handle, some fb⟩ ∧ a.prime = true ∧ a.addFb = true ∧
        ⟨fb, handle, buffer⟩ ∈ (init a buffer k).2.fbs) ∨
      ((init a buffer k).1.fbId = none ∧ ¬ (a.prime = true ∧ a.addFb = true))) := by
  unfold init
  by_cases hprime : a.prime = true
  case neg =>
    rw [if_neg hprime]
    exact ⟨fun _ h => h, rfl, .inr ⟨rfl, fun h => hprime h.1⟩⟩
  rw [if_pos hprime]
  have hfbs := k.primeFdToHandle_fbs buffer
  have haccepted := k.primeFdToHandle_accepted buffer
  by_cases hadd : a.addFb = true
  · simp only [if_pos hadd, Kernel.addFb2]
    refine ⟨fun f hf => List.mem_cons_of_mem _ (hfbs ▸ hf), haccepted, .inl ⟨_, _, rfl, hprime, hadd, ?_⟩⟩
    exact List.mem_cons_self
  · simp only [if_neg hadd]
    exact ⟨fun f hf => hfbs ▸ hf, haccepted, .inr ⟨trivial, fun h => hadd h.2⟩⟩

theorem HdiLayer.getGemBuffer_spec (l : HdiLayer) (a : GemAnswers) (buffer : Nat) (k : Kernel) :
    let (gem, l', k') := l.getGemBuffer a buffer k
    (l'.mHdiBuffer = l.mHdiBuffer ∧ l'.mAcquireFence = l.mAcquireFence ∧ l'.mCurrentBuffer = some gem) ∧
    k.fbs ⊆ k'.fbs ∧ k'.accepted = k.accepted ∧
    ((∃ handle fb, gem = ⟨some handle, some fb⟩ ∧ a.prime = true ∧ a.addFb = true ∧ ⟨fb, handle, buffer⟩ ∈ k'.fbs) ∨
      (gem.fbId = none ∧ ¬ (a.prime = true ∧ a.addFb = true))) := by
  have hinit := init_spec a buffer k
  unfold HdiLayer.getGemBuffer
  cases hlast : l.lastBuffer with
  | none => exact ⟨⟨rfl, rfl, rfl⟩, hinit⟩
  | some old =>
    refine ⟨⟨rfl, rfl, rfl⟩, ?_⟩
    simp only [destroy_fbs, destroy_accepted]
    exact hinit

def imported (a : GemAnswers) (p : Nat) (b : LayerBuffer) (s : HdiDisplay) : HdiDisplay :=
  { s.setLayer p ((s.layer p).getGemBuffer a b.buffer s.kernel).2.1 with
    kernel := ((s.layer p).getGemBuffer a b.buffer s.kernel).2.2 }

def HdiLayer.currentFb (l : HdiLayer) : Option Nat := l.mCurrentBuffer.bind fbId

theorem Shown.mono {k k' : Kernel} {l l' : HdiLayer} (hreq : req ⊆ req') (hfbs : k.fbs ⊆ k'.fbs)
    (hbuffer : l'.mHdiBuffer = l.mHdiBuffer) (h : Shown req k plane l) : Shown req' k' plane l' := by
  obtain ⟨f, hf, hset, hb⟩ := h
  exact ⟨f, hfbs hf, hreq hset, hbuffer ▸ hb⟩

structure PlaneApplied (a : PlaneAnswers) (p : Nat) (plane : DrmPlane) (added : AtomicReq) (s : HdiDisplay)
    (ret : DispErrCode) (s' : HdiDisplay) : Prop where
  kept : Kept s s'
  imports : s' = s ∨ ∃ b, (s.layer p).mHdiBuffer = some b ∧ s' = imported a.gem p b s
  own : ∀ plane' fb, Setting.framebuffer plane' fb ∈ added →
    plane' = plane.id ∧ FramebufferWorks a plane (s.layer p) ∧ (s'.layer p).currentFb = some fb
  shown : FramebufferWorks a plane (s.layer p) → Shown added s'.kernel plane (s.layer p)
  ret : ret = .success ↔ FramebufferWorks a plane (s.layer p) ∧ SourceWorks a

theorem PlaneApplied.failed {a : PlaneAnswers} {p : Nat} {added : AtomicReq} {s s' : HdiDisplay} (hkept : Kept s s')
    (himports : s' = s ∨ ∃ b, (s.layer p).mHdiBuffer = some b ∧ s' = imported a.gem p b s)
    (hadded : NoFramebuffer added) (hfails : ¬ FramebufferWorks a plane (s.layer p)) :
    PlaneApplied a p plane added s .failure s' where
  kept := hkept
  imports := himports
  own plane' fb hmem := absurd hmem (hadded plane' fb)
  shown h := absurd h hfails
  ret := iff_of_false nofun fun h => hfails h.1

theorem applyPlane_spec {a : PlaneAnswers} {p : Nat} {s : HdiDisplay}
    {ret : DispErrCode} {s' : HdiDisplay} (h : applyPlane a p plane req s = .ok (ret, req', s')) :
    ∃ added, req' = req ++ added ∧ PlaneApplied a p plane added s ret s' := by
  unfold applyPlane at h
  obtain ⟨fences, hfence, hnofb, hin⟩ | ⟨hfence, hneeded, hgiven, hin⟩ :=
    applyFence_spec a plane (s.layer p).mAcquireFence req
  case inr =>
    simp only [hfence, Except.ok.injEq, Prod.mk.injEq] at h
    obtain ⟨rfl, rfl, rfl⟩ := h
    exact ⟨[], (List.append_nil _).symm, .failed (.refl s) (.inl rfl) (fun _ _ => List.not_mem_nil)
      fun hworks => hin (hworks.inFence hneeded hgiven)⟩
  simp only [hfence] at h
  cases hbuffer : (s.layer p).mHdiBuffer with
  | none => simp [hbuffer] at h
  | some b =>
    have hgem := (s.layer p).getGemBuffer_spec a.gem b.buffer s.kernel
    simp only [hbuffer] at h
    have himports : imported a.gem p b s = s ∨
        ∃ b', (s.layer p).mHdiBuffer = some b' ∧ imported a.gem p b s = imported a.gem p b' s := .inr ⟨b, hbuffer, rfl⟩
    unfold imported at himports
    generalize (s.layer p).getGemBuffer a.gem b.buffer s.kernel = got at h hgem himports
    obtain ⟨gem, l, kernel⟩ := got
    obtain ⟨⟨hsame, hsame', hcurrent⟩, hfbs, haccepted, hvalid⟩ := hgem
    have hkept : Kept s { s.setLayer p l with kernel } := by
      refine ⟨rfl, fun q => ?_, fun q => ?_, hfbs, haccepted⟩ <;> by_cases hq : q = p <;>
        simp [HdiDisplay.setLayer, hq, hsame, hsame']
    obtain ⟨handle, fb, rfl, hprime, haddFb, hmem⟩ | ⟨hnone, hgem⟩ := hvalid
    case inr =>
      obtain ⟨handle, fb⟩ := gem
      obtain rfl : fb = none := hnone
      simp only [Except.ok.injEq, Prod.mk.injEq] at h
      obtain ⟨rfl, rfl, rfl⟩ := h
      exact ⟨_, rfl, .failed hkept himports hnofb fun hworks => hgem ⟨hworks.prime, hworks.addFb⟩⟩
    by_cases hadd : 0 ≤ a.fb
    case neg =>
      simp only [addProperty_of_neg hadd, Except.ok.injEq, Prod.mk.injEq] at h
      obtain ⟨rfl, rfl, rfl⟩ := h
      exact ⟨_, rfl, .failed hkept himports hnofb fun hworks => hadd hworks.fb⟩
    have hworks : FramebufferWorks a plane (s.layer p) := ⟨hin, hprime, haddFb, hadd⟩
    simp only [addProperty_of_nonneg hadd, Except.ok.injEq, Prod.mk.injEq] at h
    obtain ⟨hret, sources, hsources, hnofb'⟩ :=
      applySource_spec a plane s.mCrtc.id b (req ++ fences ++ [.framebuffer plane.id fb])
    obtain ⟨rfl, rfl, rfl⟩ := h
    refine ⟨fences ++ [.framebuffer plane.id fb] ++ sources, ?_, hkept, himports, ?_, fun _ => ?_, ?_⟩
    · show (applySource a plane s.mCrtc.id b _).2 = _
      rw [hsources]
      simp
    · intro plane' fb' hfb'
      simp only [List.mem_append, List.mem_singleton, hnofb plane' fb', hnofb' plane' fb', false_or, or_false,
        Setting.framebuffer.injEq] at hfb'
      refine ⟨hfb'.1, hworks, ?_⟩
      simp [HdiDisplay.setLayer, HdiLayer.currentFb, hcurrent, hfb'.2]
    · exact ⟨_, hmem, by simp, by rw [hbuffer]; rfl⟩
    · show (applySource a plane s.mCrtc.id b _).1 = _ ↔ _
      rw [hret]
      exact ⟨fun hs => ⟨hworks, hs⟩, And.right⟩

/-! ## The planes of a frame -/

structure PlanesWork (a : Nat → PlaneAnswers) (n : Nat) (frame : List (Nat × DrmPlane)) (s : HdiDisplay) : Prop where
  framebuffers : ∀ (i p : Nat) (plane : DrmPlane), frame[i]? = some (p, plane) →
    FramebufferWorks (a (n + i)) plane (s.layer p)
  sources : ∀ i, i + 1 < frame.length → SourceWorks (a (n + i))

theorem PlanesWork.nil (a : Nat → PlaneAnswers) (n : Nat) (s : HdiDisplay) : PlanesWork a n [] s :=
  ⟨fun _ _ _ h => by simp at h, fun _ h => absurd h (Nat.not_lt_zero _)⟩

theorem planesWork_cons {a : Nat → PlaneAnswers} {n p : Nat} {rest : List (Nat × DrmPlane)}
    {s : HdiDisplay} : PlanesWork a n ((p, plane) :: rest) s ↔
      FramebufferWorks (a n) plane (s.layer p) ∧ (rest ≠ [] → SourceWorks (a n)) ∧ PlanesWork a (n + 1) rest s := by
  constructor
  · rintro ⟨hfb, hsource⟩
    refine ⟨hfb 0 p plane rfl, fun hrest => hsource 0 ?_, fun i q plane' hi => ?_, fun i hi => ?_⟩
    · simpa using List.length_pos_iff.mpr hrest
    · have hnext := hfb (i + 1) q plane' hi
      rwa [show n + (i + 1) = n + 1 + i by omega] at hnext
    · have hnext := hsource (i + 1) (by simpa using hi)
      rwa [show n + (i + 1) = n + 1 + i by omega] at hnext
  · rintro ⟨hfb, hsource, hrest⟩
    refine ⟨fun i q plane' hi => ?_, fun i hi => ?_⟩
    · cases i with
      | zero =>
        cases hi
        exact hfb
      | succ i =>
        rw [show n + (i + 1) = n + 1 + i by omega]
        exact hrest.framebuffers i q plane' hi
    · cases i with
      | zero => exact hsource (by rintro rfl; simp at hi)
      | succ i =>
        rw [show n + (i + 1) = n + 1 + i by omega]
        exact hrest.sources i (by simpa using hi)

theorem PlanesWork.kept {a : Nat → PlaneAnswers} {n : Nat} {s s' : HdiDisplay}
    (h : Kept s s') : PlanesWork a n frame s' ↔ PlanesWork a n frame s := by
  constructor <;> rintro ⟨hfb, hsource⟩
  · exact ⟨fun i p plane hi => (FramebufferWorks.kept h).mp (hfb i p plane hi), hsource⟩
  · exact ⟨fun i p plane hi => (FramebufferWorks.kept h).mpr (hfb i p plane hi), hsource⟩

/-- The planes have different ids, so that a framebuffer of the request is that of the layer for which it was added. -/
theorem applyPlanes_spec {a : Nat → PlaneAnswers} {n : Nat} {s s' : HdiDisplay}
    (hids : (frame.map fun x => x.2.id).Nodup) (h : applyPlanes a n frame req s = .ok (req', s')) :
    Kept s s' ∧ ∃ added, req' = req ++ added ∧
      (∀ plane' fb, Setting.framebuffer plane' fb ∈ added → plane' ∈ frame.map fun x => x.2.id) ∧
      ((∀ x ∈ frame, Shown added s'.kernel x.2 (s.layer x.1)) ↔ PlanesWork a n frame s) := by
  induction frame generalizing n req s with
  | nil =>
    obtain ⟨rfl, rfl⟩ := Prod.mk.inj (Except.ok.inj h)
    exact ⟨.refl s, [], (List.append_nil _).symm, by simp, iff_of_true (by simp) (.nil a n s)⟩
  | cons x rest ih =>
    obtain ⟨p, plane⟩ := x
    obtain ⟨hnew, hids⟩ := List.nodup_cons.mp hids
    obtain ⟨⟨ret, req1, s1⟩, hstep, h⟩ := bind_eq_ok h
    obtain ⟨added, rfl, hplane⟩ := applyPlane_spec hstep
    rw [planesWork_cons]
    by_cases hret : ret = .success
    case neg =>
      -- the framebuffer of a later layer is missing
      obtain ⟨rfl, rfl⟩ : req ++ added = req' ∧ s1 = s' := by
        simpa [hret, pure, Except.pure] using h
      refine ⟨hplane.kept, added, rfl, fun plane' fb hmem => by simp [(hplane.own plane' fb hmem).1], ?_⟩
      constructor
      · intro hshown
        obtain ⟨f, _, hset, _⟩ := hshown _ List.mem_cons_self
        have hnil : rest = [] := by
          refine List.eq_nil_iff_forall_not_mem.mpr fun x hx => hnew ?_
          obtain ⟨f, _, hset, _⟩ := hshown x (List.mem_cons_of_mem _ hx)
          exact List.mem_map.mpr ⟨x, hx, (hplane.own _ _ hset).1⟩
        subst hnil
        exact ⟨(hplane.own _ _ hset).2.1, fun h => absurd rfl h, .nil a _ s⟩
      · rintro ⟨hfb, hsource, _⟩ x hx
        obtain rfl | hx := List.mem_cons.mp hx
        · exact hplane.shown hfb
        · exact absurd (hplane.ret.mpr ⟨hfb, hsource (List.ne_nil_of_mem hx)⟩) hret
    have hrest : applyPlanes a (n + 1) rest (req ++ added) s1 = .ok (req', s') := by simpa [hret] using h
    obtain ⟨hkept, added', rfl, hown, hshown⟩ := ih hids hrest
    obtain ⟨hfb, hsource⟩ := hplane.ret.mp hret
    refine ⟨hplane.kept.trans hkept, added ++ added', List.append_assoc .., fun plane' fb hmem => ?_, ?_⟩
    · obtain hmem | hmem := List.mem_append.mp hmem
      · simp [(hplane.own plane' fb hmem).1]
      · exact List.mem_cons_of_mem _ (hown plane' fb hmem)
    rw [← PlanesWork.kept hplane.kept, ← hshown]
    constructor
    · refine fun hall => ⟨hfb, fun _ => hsource, fun x hx => ?_⟩
      obtain ⟨f, hf, hset, hbuffer⟩ := hall x (List.mem_cons_of_mem _ hx)
      refine ⟨f, hf, ?_, hplane.kept.buffer x.1 ▸ hbuffer⟩
      obtain hset | hset := List.mem_append.mp hset
      · exact absurd (List.mem_map.mpr ⟨x, hx, (hplane.own _ _ hset).1⟩) hnew
      · exact hset
    · rintro ⟨_, _, hall⟩ x hx
      obtain rfl | hx := List.mem_cons.mp hx
      · exact (hplane.shown hfb).mono (List.subset_append_left ..) hkept.fbs rfl
      · exact (hall x hx).mono (List.subset_append_right ..) (fun _ h => h) (hplane.kept.buffer x.1).symm

/-! ## The request -/

theorem updateMode_spec (a : ModeAnswers) (s : HdiDisplay) (req : AtomicReq) :
    ((updateMode a s req).1 = .success ↔ ModeWorks a s) ∧
      ∃ added, (updateMode a s req).2 = req ++ added ∧ NoFramebuffer added := by
  have hnone : ∃ added, req = req ++ added ∧ NoFramebuffer added :=
    ⟨[], (List.append_nil _).symm, fun _ _ => List.not_mem_nil⟩
  unfold updateMode
  by_cases hneed : s.mCrtc.needModeSet = true
  case neg =>
    rw [if_neg hneed]
    exact ⟨iff_of_true rfl fun h => absurd h hneed, hnone⟩
  rw [if_pos hneed]
  cases hmode : s.mConnector.modeFromId s.mCrtc.activeModeId with
  | none => exact ⟨iff_of_true rfl fun _ h => by simp [hmode] at h, hnone⟩
  | some mode =>
    have hsome : (s.mConnector.modeFromId s.mCrtc.activeModeId).isSome = true := by rw [hmode]; rfl
    by_cases hblob : a.blob = true
    case neg =>
      simp only [hblob]
      exact ⟨iff_of_true rfl fun _ _ h => absurd h hblob, hnone⟩
    simp only [hblob, Bool.not_true, Bool.false_eq_true, if_false]
    by_cases hactive : 0 ≤ a.active
    case neg =>
      rw [addProperty_of_neg hactive]
      exact ⟨iff_of_false nofun fun h => hactive (h hneed hsome hblob).1, hnone⟩
    rw [addProperty_of_nonneg hactive]
    dsimp only
    by_cases hset : 0 ≤ a.mode
    case neg =>
      rw [addProperty_of_neg hset]
      exact ⟨iff_of_false nofun fun h => hset (h hneed hsome hblob).2.1, _, rfl, fun _ _ => by simp⟩
    rw [addProperty_of_nonneg hset]
    dsimp only
    by_cases hconnector : 0 ≤ a.connector
    case neg =>
      rw [addProperty_of_neg hconnector]
      exact ⟨iff_of_false nofun fun h => hconnector (h hneed hsome hblob).2.2, _, List.append_assoc ..,
        fun _ _ => by simp⟩
    rw [addProperty_of_nonneg hconnector]
    refine ⟨iff_of_true rfl fun _ _ _ => ⟨hactive, hset, hconnector⟩,
      [.active s.mCrtc.id, .mode s.mCrtc.id mode, .connectorCrtc s.mConnector.id s.mCrtc.id], ?_, fun _ _ => by simp⟩
    simp

theorem applyCommit_spec (a : DrmAnswers) (req : AtomicReq) (s : HdiDisplay) :
    (ModeWorks a.mode s ∧ a.commit = 0 ∧ ∃ added, NoFramebuffer added ∧
      (applyCommit a req s).2.kernel = { s.kernel with accepted := (req ++ added) :: s.kernel.accepted }) ∨
    (¬ (ModeWorks a.mode s ∧ a.commit = 0) ∧ (applyCommit a req s).2 = s) := by
  obtain ⟨hret, added, hadded, hnofb⟩ := updateMode_spec a.mode s req
  unfold applyCommit
  by_cases hmode : (updateMode a.mode s req).1 = .success
  case neg => exact .inr ⟨fun h => hmode (hret.mpr h.1), by simp [hmode]⟩
  by_cases hcommit : a.commit = 0
  case neg => exact .inr ⟨fun h => hcommit h.2, by simp [hmode, hcommit]⟩
  refine .inl ⟨hret.mp hmode, hcommit, added, hnofb, ?_⟩
  simp [hmode, hcommit, (releaseLayers_still _ a.fence).kernel, hadded]

theorem applyVideo_spec {s s' : HdiDisplay} {used : List Nat} (h : applyVideo s = .ok (used, s')) :
    s' = { s with videoAxis := s'.videoAxis, mVideoLayer := s'.mVideoLayer } ∧
      (s'.mVideoLayer = s.mVideoLayer ∨ s'.mVideoLayer = none) ∧ ∀ p ∈ used, s.mVideoLayer = some p := by
  unfold applyVideo at h
  split at h
  · rename_i client video _ hvideo
    obtain ⟨⟨b, s1⟩, hrect, h⟩ := bind_eq_ok h
    cases h
    refine ⟨?_, .inr rfl, fun p hp => ?_⟩
    · unfold updateVideoRect at hrect
      split at hrect
      · obtain ⟨_, rfl⟩ := Prod.mk.inj (Except.ok.inj hrect)
        rfl
      · split at hrect
        · cases hrect
        · split at hrect
          · cases hrect
          · obtain ⟨_, rfl⟩ := Prod.mk.inj (Except.ok.inj hrect)
            rfl
    · cases b
      · cases hp
      · rw [hvideo, List.mem_singleton.mp hp]
  · cases h
    exact ⟨rfl, .inl rfl, nofun⟩

/-! ## The frame -/

theorem ModeWorks.of_eq {a : ModeAnswers} {s s' : HdiDisplay} (hcrtc : s'.mCrtc = s.mCrtc)
    (hconnector : s'.mConnector = s.mConnector) : ModeWorks a s' ↔ ModeWorks a s := by
  unfold ModeWorks
  rw [hcrtc, hconnector]

theorem zip_ids_nodup (h : (planes.map DrmPlane.id).Nodup) :
    ((layers.zip planes).map fun x => x.2.id).Nodup := by
  induction layers generalizing planes with
  | nil => exact List.nodup_nil
  | cons p ps ih =>
    cases planes with
    | nil => exact List.nodup_nil
    | cons plane rest =>
      obtain ⟨hnew, hrest⟩ := List.nodup_cons.mp h
      refine List.nodup_cons.mpr ⟨fun hmem => hnew ?_, ih hrest⟩
      obtain ⟨x, hx, hid⟩ := List.mem_map.mp hmem
      exact List.mem_map.mpr ⟨x.2, (List.of_mem_zip hx).2, hid⟩

theorem planesWork_zip {a : Nat → PlaneAnswers} {s : HdiDisplay}
    (hlen : layers.length ≤ planes.length) : PlanesWork a 0 (layers.zip planes) s ↔
      (∀ (i p : Nat) (plane : DrmPlane), layers[i]? = some p → planes[i]? = some plane →
        FramebufferWorks (a i) plane (s.layer p)) ∧ ∀ i, i + 1 < layers.length → SourceWorks (a i) := by
  have hzip : (layers.zip planes).length = layers.length := by
    rw [List.length_zip, Nat.min_eq_left hlen]
  constructor
  · rintro ⟨hfb, hsource⟩
    refine ⟨fun i p plane hp hplane => ?_, fun i hi => ?_⟩
    · have hboth := hfb i p plane (List.getElem?_zip_eq_some.mpr ⟨hp, hplane⟩)
      rwa [Nat.zero_add] at hboth
    · have hone := hsource i (hzip.symm ▸ hi)
      rwa [Nat.zero_add] at hone
  · rintro ⟨hfb, hsource⟩
    refine ⟨fun i p plane hi => ?_, fun i hi => ?_⟩
    · obtain ⟨hp, hplane⟩ := List.getElem?_zip_eq_some.mp hi
      rw [Nat.zero_add]
      exact hfb i p plane hp hplane
    · rw [Nat.zero_add]
      exact hsource i (hzip ▸ hi)

theorem shown_zip {k : Kernel} {s : HdiDisplay} (hlen : layers.length ≤ planes.length) :
    (∀ x ∈ layers.zip planes, Shown req k x.2 (s.layer x.1)) ↔
      ∀ (i p : Nat), layers[i]? = some p → ∃ plane, planes[i]? = some plane ∧ Shown req k plane (s.layer p) := by
  constructor
  · intro h i p hp
    have hi : i < planes.length := Nat.lt_of_lt_of_le (List.getElem?_eq_some_iff.mp hp).1 hlen
    refine ⟨planes[i], List.getElem?_eq_getElem hi, h (p, planes[i]) ?_⟩
    exact List.mem_of_getElem? (List.getElem?_zip_eq_some.mpr ⟨hp, List.getElem?_eq_getElem hi⟩)
  · intro h x hx
    obtain ⟨i, hi⟩ := List.mem_iff_getElem?.mp hx
    obtain ⟨hp, hplane⟩ := List.getElem?_zip_eq_some.mp hi
    obtain ⟨plane, hplane', hshown⟩ := h i x.1 hp
    obtain rfl : x.2 = plane := Option.some.inj (hplane.symm.trans hplane')
    exact hshown

theorem shown_around {added added' : AtomicReq} {k : Kernel} {l : HdiLayer} (h : NoFramebuffer added)
    (h' : NoFramebuffer added') : Shown (added ++ req ++ added') k plane l ↔ Shown req k plane l := by
  unfold Shown
  simp [h _ _, h' _ _]

theorem not_frameAccepted {s s' : HdiDisplay} (h : s'.kernel.accepted = s.kernel.accepted) : ¬ FrameAccepted s s' := by
  rintro ⟨req, hreq, _⟩
  exact List.cons_ne_self req _ (hreq.symm.trans h)

def Begins (a : DrmAnswers) (s : HdiDisplay) : Prop :=
  s.drmLayers.length ≤ s.mPlanes.1.length ∧ a.alloc = true ∧ 0 ≤ a.outFence

section Cases

variable {a : DrmAnswers} {s s' : HdiDisplay} {ret : DispErrCode} {used : List Nat}

theorem drmApply_cases (h : drmApply a s = .ok (ret, used, s')) :
    ¬Begins a s ∧ used = [] ∧ s' = s ∨ Begins a s ∧ ∃ req s1 s2,
      applyPlanes a.plane 0 (s.drmLayers.zip s.mPlanes.1) [.outFence s.mCrtc.id] s = .ok (req, s1) ∧
        applyVideo s1 = .ok (used, s2) ∧ s' = (applyCommit a req s2).2 := by
  unfold drmApply at h
  by_cases hplanes : s.mPlanes.1.length < s.drmLayers.length
  · simp only [hplanes, if_true, Except.ok.injEq, Prod.mk.injEq] at h
    exact .inl ⟨fun hb => Nat.not_lt.mpr hb.1 hplanes, h.2.1.symm, h.2.2.symm⟩
  by_cases halloc : a.alloc = true
  case neg =>
    simp only [hplanes, halloc, if_true, if_false, Bool.not_false, Except.ok.injEq, Prod.mk.injEq] at h
    exact .inl ⟨fun hb => halloc hb.2.1, h.2.1.symm, h.2.2.symm⟩
  by_cases hout : 0 ≤ a.outFence
  case neg =>
    simp only [hplanes, halloc, addProperty_of_neg hout, if_false, Bool.not_true, Bool.false_eq_true, Except.ok.injEq,
      Prod.mk.injEq] at h
    exact .inl ⟨fun hb => hout hb.2.2, h.2.1.symm, h.2.2.symm⟩
  simp only [hplanes, halloc, Bool.not_true, Bool.false_eq_true, if_false, addProperty_of_nonneg hout,
    List.nil_append] at h
  obtain ⟨⟨req, s1⟩, hloop, h⟩ := bind_eq_ok h
  obtain ⟨⟨used', s2⟩, hvideo, h⟩ := bind_eq_ok h
  obtain ⟨_, rfl, rfl⟩ : _ ∧ used' = used ∧ (applyCommit a req s2).2 = s' := by
    simpa [pure, Except.pure, Prod.ext_iff, eq_comm] using h
  exact .inr ⟨⟨Nat.not_lt.mp hplanes, halloc, hout⟩, req, s1, s2, hloop, hvideo, rfl⟩

theorem commit_cases {a : CommitAnswers} {r : Called} (h : s.commit a = .ok r) : ∃ used' s1,
    r = ⟨.success, (gfxApply a.gfx s 0 s.gfxLayers).2 ++ used',
      s1.setLayer clientLayer (s1.layer clientLayer).getReleaseFenceFd.2⟩ ∧
    ((gfxApply a.gfx s 0 s.gfxLayers).1 ≠ .success ∧ used' = [] ∧ s1 = s ∨
      (gfxApply a.gfx s 0 s.gfxLayers).1 = .success ∧ ∃ ret, drmApply a.drm s = .ok (ret, used', s1)) := by
  obtain ⟨⟨ret, used, s1⟩, hcommit, h⟩ := bind_eq_ok h
  cases h
  unfold composerCommit at hcommit
  dsimp only at hcommit
  split at hcommit
  · rename_i hgfx
    obtain ⟨_, rfl, rfl⟩ : _ ∧ (gfxApply a.gfx s 0 s.gfxLayers).2 = used ∧ s = s1 := by simpa using hcommit
    exact ⟨[], s, by rw [List.append_nil], .inl ⟨hgfx, rfl, rfl⟩⟩
  · rename_i hgfx
    obtain ⟨⟨ret', used', s2⟩, happly, hcommit⟩ := bind_eq_ok hcommit
    obtain ⟨_, rfl, rfl⟩ : _ ∧ (gfxApply a.gfx s 0 s.gfxLayers).2 ++ used' = used ∧ s2 = s1 := by
      simpa [pure, Except.pure] using hcommit
    exact ⟨used', s2, rfl, .inr ⟨not_not.mp hgfx, ret', happly⟩⟩

theorem drmApply_frame (h : drmApply a s = .ok (ret, used, s')) : FrameAccepted s s' ↔ RequestWorks a s := by
  obtain ⟨hbegins, -, rfl⟩ | ⟨⟨hlen, halloc, hout⟩, req, s1, s2, hloop, hvideo, rfl⟩ := drmApply_cases h
  · exact iff_of_false (not_frameAccepted rfl) fun hworks => hbegins ⟨hworks.planes, hworks.alloc, hworks.outFence⟩
  obtain ⟨hkept, added, rfl, _, hshown⟩ := applyPlanes_spec (zip_ids_nodup s.mPlanes.2) hloop
  have hrest := (applyVideo_spec hvideo).1
  have hkernel : s2.kernel = s1.kernel := by rw [hrest]
  have hmode : ModeWorks a.mode s2 ↔ ModeWorks a.mode s :=
    ModeWorks.of_eq (by rw [hrest, hkept.rest]) (by rw [hrest, hkept.rest])
  have haccepted : s2.kernel.accepted = s.kernel.accepted := by rw [hkernel, hkept.accepted]
  rw [planesWork_zip hlen] at hshown
  obtain ⟨hmodeWorks, hcommit, added', hnofb, hafter⟩ | ⟨hfails, hsame⟩ :=
    applyCommit_spec a ([.outFence s.mCrtc.id] ++ added) s2
  case inr =>
    rw [hsame]
    refine iff_of_false (not_frameAccepted haccepted) fun hworks => hfails ⟨hmode.mpr hworks.mode, hworks.commit⟩
  have hout' : NoFramebuffer [.outFence s.mCrtc.id] := fun _ _ => by simp
  have hframe : FrameAccepted s (applyCommit a ([.outFence s.mCrtc.id] ++ added) s2).2 ↔
      ∀ x ∈ s.drmLayers.zip s.mPlanes.1, Shown added s1.kernel x.2 (s.layer x.1) := by
    rw [shown_zip hlen]
    unfold FrameAccepted
    rw [hafter, haccepted]
    constructor
    · rintro ⟨req, hreq, hall⟩ i p hp
      obtain rfl := (List.cons.inj hreq).1
      obtain ⟨plane, hplane, hfb⟩ := hall i p hp
      exact ⟨plane, hplane, hkernel ▸ (shown_around hout' hnofb).mp hfb⟩
    · intro hall
      refine ⟨_, rfl, fun i p hp => ?_⟩
      obtain ⟨plane, hplane, hfb⟩ := hall i p hp
      exact ⟨plane, hplane, (shown_around hout' hnofb).mpr (hkernel ▸ hfb)⟩
  rw [hframe, hshown]
  constructor
  · rintro ⟨hfb, hsource⟩
    exact ⟨hlen, halloc, hout, hfb, hsource, hmode.mp hmodeWorks, hcommit⟩
  · exact fun hworks => ⟨hworks.framebuffers, hworks.sources⟩

theorem drmApply_same (h : drmApply a s = .ok (ret, used, s')) : SameDisplay s s' := by
  obtain ⟨-, -, rfl⟩ | ⟨-, req, s1, s2, hloop, hvideo, rfl⟩ := drmApply_cases h
  · exact .refl _
  have hkept : SameDisplay s s1 := by
    rw [(applyPlanes_spec (zip_ids_nodup s.mPlanes.2) hloop).1.rest]
    exact ⟨rfl, rfl, rfl, rfl⟩
  have hvideo : SameDisplay s1 s2 := by
    rw [(applyVideo_spec hvideo).1]
    exact ⟨rfl, rfl, rfl, rfl⟩
  refine (hkept.trans hvideo).trans ?_
  unfold applyCommit
  dsimp only
  split
  · exact .refl s2
  · split
    · exact .refl s2
    · obtain ⟨hid, hplanes, hcrtc, hconnector⟩ := (releaseLayers_still { s2 with kernel :=
        { s2.kernel with accepted := (updateMode a.mode s2 req).2 :: s2.kernel.accepted } } a.fence).display
      exact ⟨hid, hplanes, hcrtc, hconnector⟩

theorem commit_frame {a : CommitAnswers} {r : Called} (h : s.commit a = .ok r) :
    r.ret = .success ∧ (FrameAccepted s r.display ↔ CommitWorks a s) := by
  have hgfx := @gfxApply_success s.gfxLayers a.gfx s 0
  simp only [Nat.zero_add] at hgfx
  obtain ⟨used', s1, rfl, ⟨hret, -, rfl⟩ | ⟨hret, ret, hdrm⟩⟩ := commit_cases h
  · exact ⟨rfl, iff_of_false (not_frameAccepted rfl) fun hworks => hret (hgfx.mpr hworks.gfx)⟩
  · have hframe : FrameAccepted s s1 ↔ CommitWorks a s := by
      rw [drmApply_frame hdrm]
      exact ⟨fun hworks => ⟨hgfx.mp hret, hworks⟩, CommitWorks.request⟩
    exact ⟨rfl, hframe⟩

end Cases

/-- A commit that returns success has shown the frame exactly if nothing failed that matters for it. -/
theorem commit_honest_iff {a : CommitAnswers} {s : HdiDisplay} {r : Called} (h : s.commit a = .ok r) :
    (r.ret = .success → FrameAccepted s r.display) ↔ CommitWorks a s := by
  obtain ⟨hret, hframe⟩ := commit_frame h
  rw [← hframe]
  exact ⟨fun hshown => hshown hret, fun hshown _ => hshown⟩

def onlyPlane : Planes := ⟨[{ id := 31 }], by decide⟩

def onlyMode : DrmConnector := { modes := [⟨640, 480, 60, true⟩] }

def frameDisplay : HdiDisplay where
  layer p := if p = clientLayer then { mHdiBuffer := some { buffer := 7, width := 640, height := 480 } } else {}
  drmLayers := [clientLayer]
  mPlanes := onlyPlane
  mCrtc := { id := 41 }
  mConnector := onlyMode

theorem commit_honest_on_frameDisplay : ∃ r, frameDisplay.commit {} = .ok r ∧
    ((r.ret = .success → FrameAccepted frameDisplay r.display) ↔ CommitWorks {} frameDisplay) :=
  ⟨_, rfl, commit_honest_iff rfl⟩

/-- If the buffer cannot be imported, a request without it is accepted; if the request is refused, nothing is shown. -/
theorem commit_dishonest :
    (∃ r, frameDisplay.commit { drm := { plane := fun _ => { gem := { prime := false } } } } = .ok r ∧
      r.ret = .success ∧ r.display.kernel.accepted = [[.outFence 41]] ∧ ¬ FrameAccepted frameDisplay r.display) ∧
    ∃ r, frameDisplay.commit { drm := { commit := -1 } } = .ok r ∧
      r.ret = .success ∧ r.display.kernel.accepted = [] ∧ ¬ FrameAccepted frameDisplay r.display := by
  refine ⟨⟨_, rfl, rfl, rfl, ?_⟩, _, rfl, rfl, rfl, not_frameAccepted rfl⟩
  rintro ⟨req, hreq, hall⟩
  obtain ⟨plane, _, f, hf, _⟩ := hall 0 clientLayer rfl
  exact List.not_mem_nil hf

end Amlogic.Display
