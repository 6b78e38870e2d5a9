import Amlogic.Display.Proofs.CommitProofs

/-!
# Handles of the frames

The objects of the last two frames own GEM handles. If the buffer of a frame is imported by one of them already, the new
object has the same handle, and it is closed too early and twice.
-/

namespace Amlogic.Display

open GemBuffer HdiDisplay HdiLayer Setting DisplayCall

variable {s s' : HdiDisplay}

/-! ## What is wanted -/

/-- The framebuffer on the screen: that of the last accepted request that has one. -/
def shownFb (accepted : List AtomicReq) : Option Nat := accepted.findSome? fun req => req.findSome? fb?

/-- No handle is closed twice, the end of the client layer leaves each handle closed once, and the framebuffer on the
screen has an open handle. -/
structure HandlesSound (s : HdiDisplay) : Prop where
  once : s.kernel.closed.Nodup
  all : ∀ handle < s.kernel.given, (s.deleteLayer clientLayer).kernel.closed.count handle = 1
  shown : ∀ fb, shownFb s.kernel.accepted = some fb → ∀ f ∈ s.kernel.fbs, f.id = fb → f.handle ∉ s.kernel.closed

/-! ## When it is so -/

/-- A commit imports a buffer that is not imported, and works if the framebuffer on the screen is to be given up. -/
def DisplayCall.FreshFrame (s : HdiDisplay) : DisplayCall → Prop
  | commit a =>
    (∀ b, (s.layer clientLayer).mHdiBuffer = some b → (a.drm.plane 0).gem.prime = true →
      ∀ h ∈ s.kernel.handles, h.2 ≠ b.buffer) ∧
    ∀ fb, shownFb s.kernel.accepted = some fb → (s.layer clientLayer).lastBuffer.bind fbId = some fb →
      CommitWorks a s
  | _ => True

/-! ## Steps that do not import -/

structure Quiet (s s' : HdiDisplay) : Prop where
  kernel : s'.kernel = { s.kernel with accepted := s'.kernel.accepted }
  accepted : s'.kernel.accepted = s.kernel.accepted ∨ ∃ req, s'.kernel.accepted = req :: s.kernel.accepted ∧
    ∀ plane fb, framebuffer plane fb ∈ req → (s.layer clientLayer).currentFb = some fb
  gems : ∀ p, (s'.layer p).gems = (s.layer p).gems
  next : s'.next = s.next
  map : s'.mLayersMap ⊆ s.mLayersMap
  drm : s'.drmLayers = s.drmLayers ∨ s'.drmLayers = [clientLayer]

theorem Still.quiet (h : Still s s') : Quiet s s' where
  kernel := by rw [h.kernel]
  accepted := .inl (by rw [h.kernel])
  gems := h.gems
  next := h.next
  map := h.map
  drm := h.drm

theorem Still.trans_quiet {s1 s2 : HdiDisplay} (h : Still s s1) (h' : Quiet s1 s2) : Quiet s s2 where
  kernel := by rw [h'.kernel, h.kernel]
  accepted := by
    have hcurrent : (s1.layer clientLayer).currentFb = (s.layer clientLayer).currentFb :=
      congrArg (fun g : Option GemBuffer × Option GemBuffer => g.2.bind fbId) (h.gems clientLayer)
    rw [← h.kernel, ← hcurrent]
    exact h'.accepted
  gems p := (h'.gems p).trans (h.gems p)
  next := h'.next.trans h.next
  map := fun e he => h.map (h'.map he)
  drm := by
    obtain hdrm | hdrm := h'.drm
    · rw [hdrm]
      exact h.drm
    · exact .inr hdrm

theorem applyCommit_quiet (s : HdiDisplay) (a : DrmAnswers) {req : AtomicReq}
    (hreq : ∀ plane fb, framebuffer plane fb ∈ req → (s.layer clientLayer).currentFb = some fb) :
    Quiet s (applyCommit a req s).2 := by
  obtain ⟨_, added, hadded, hnofb⟩ := updateMode_spec a.mode s req
  unfold applyCommit
  by_cases hmode : (updateMode a.mode s req).1 = .success
  case neg => simpa [hmode] using (Still.refl s).quiet
  by_cases hcommit : a.commit = 0
  case neg => simpa [hmode, hcommit] using (Still.refl s).quiet
  simp only [hmode, hcommit, hadded, ne_eq, not_true_eq_false, if_false]
  have hrelease := releaseLayers_still
    { s with kernel := { s.kernel with accepted := (req ++ added) :: s.kernel.accepted } } a.fence
  refine ⟨by rw [hrelease.kernel], .inr ⟨req ++ added, by rw [hrelease.kernel], fun plane fb hmem => ?_⟩,
    hrelease.gems, hrelease.next, hrelease.map, hrelease.drm⟩
  exact hreq plane fb ((List.mem_append.mp hmem).resolve_right (hnofb plane fb))

/-! ## Commit -/

def MayImport (a : CommitAnswers) (s s₁ : HdiDisplay) : Prop :=
  s₁ = s ∨ s.drmLayers = [clientLayer] ∧ ∃ b, (s.layer clientLayer).mHdiBuffer = some b ∧
    s₁ = imported (a.drm.plane 0).gem clientLayer b s

theorem applyPlanes_client {a : Nat → PlaneAnswers} {plane : DrmPlane} {req req' : AtomicReq} {p : Nat}
    (h : applyPlanes a 0 [(p, plane)] req s = .ok (req', s')) :
    ∃ ret, applyPlane (a 0) p plane req s = .ok (ret, req', s') := by
  obtain ⟨⟨ret, req1, s1⟩, hplane, h⟩ := bind_eq_ok h
  refine ⟨ret, hplane.trans ?_⟩
  dsimp only at h
  split at h
  · cases h
    rfl
  · cases h
    rfl

theorem drmApply_quiet {a : CommitAnswers} {ret : DispErrCode} {used : List Nat}
    (hdrm : s.drmLayers = [] ∨ s.drmLayers = [clientLayer]) (h : drmApply a.drm s = .ok (ret, used, s')) :
    ∃ s1, MayImport a s s1 ∧ Quiet s1 s' := by
  obtain ⟨-, -, rfl⟩ | ⟨-, req, s1, s2, hloop, hvideo, rfl⟩ := drmApply_cases h
  · exact ⟨_, .inl rfl, (Still.refl _).quiet⟩
  have hrest := (applyVideo_spec hvideo).1
  have hstill : Still s1 s2 := by
    rw [hrest]
    exact .of_same_layers
  -- what the loop over the one layer has done
  obtain ⟨himport, hfbs⟩ : MayImport a s s1 ∧
      ∀ plane fb, framebuffer plane fb ∈ req → (s1.layer clientLayer).currentFb = some fb := by
    have hnone : s.drmLayers.zip s.mPlanes.1 = [] ∨
        s.drmLayers = [clientLayer] ∧ ∃ plane, s.drmLayers.zip s.mPlanes.1 = [(clientLayer, plane)] := by
      obtain hdrm | hdrm := hdrm
      · exact .inl (by rw [hdrm]; rfl)
      · cases hplanes : s.mPlanes.1 with
        | nil => exact .inl (by simp)
        | cons plane rest => exact .inr ⟨hdrm, plane, by rw [hdrm]; rfl⟩
    obtain hzip | ⟨hdrm, plane, hzip⟩ := hnone
    · rw [hzip] at hloop
      cases hloop
      exact ⟨.inl rfl, fun _ _ hmem => by simp at hmem⟩
    · rw [hzip] at hloop
      obtain ⟨ret, hstep⟩ := applyPlanes_client hloop
      obtain ⟨added, rfl, hplane⟩ := applyPlane_spec hstep
      refine ⟨hplane.imports.imp_right fun himports => ⟨hdrm, himports⟩, fun plane' fb hmem => ?_⟩
      have hmem' : framebuffer plane' fb ∈ added := by simpa using hmem
      exact (hplane.own plane' fb hmem').2.2
  refine ⟨s1, himport, hstill.trans_quiet (applyCommit_quiet s2 a.drm fun plane fb hmem => ?_)⟩
  rw [hrest]
  exact hfbs plane fb hmem

theorem commit_quiet {a : CommitAnswers} {r : Called} (hdrm : s.drmLayers = [] ∨ s.drmLayers = [clientLayer])
    (h : s.commit a = .ok r) : ∃ s1, MayImport a s s1 ∧ Quiet s1 r.display := by
  obtain ⟨_, s2, rfl, happly⟩ := commit_cases h
  obtain ⟨s1, himport, hquiet⟩ : ∃ s1, MayImport a s s1 ∧ Quiet s1 s2 := by
    obtain ⟨-, -, rfl⟩ | ⟨-, ret, happly⟩ := happly
    · exact ⟨_, .inl rfl, (Still.refl _).quiet⟩
    · exact drmApply_quiet hdrm happly
  refine ⟨s1, himport, hquiet.kernel, hquiet.accepted, fun p => ?_, hquiet.next, hquiet.map, hquiet.drm⟩
  exact ((Still.setLayer (getReleaseFenceFd_gems _)).gems p).trans (hquiet.gems p)

/-! ## The invariant -/

def HdiLayer.handles (l : HdiLayer) : List Nat :=
  (l.lastBuffer.bind gemHandle).toList ++ (l.mCurrentBuffer.bind gemHandle).toList

def GemBuffer.Fits (k : Kernel) (g : GemBuffer) : Prop :=
  ∀ fb, g.fbId = some fb → fb < k.fbs.length ∧ ∃ handle, g.gemHandle = some handle ∧
    ∀ f ∈ k.fbs, f.id = fb → f.handle = handle

/-- The handles that are given out are those that were closed and those of the client layer, each once. -/
structure HandleInv (s : HdiDisplay) : Prop where
  plain : ∀ p, p ≠ clientLayer → (s.layer p).gems = (none, none)
  next : 0 < s.next
  map : ∀ e ∈ s.mLayersMap, e.2 ≠ clientLayer
  drm : s.drmLayers = [] ∨ s.drmLayers = [clientLayer]
  owned : (s.kernel.closed ++ (s.layer clientLayer).handles).Perm (List.range s.kernel.given)
  fbs : ∀ f ∈ s.kernel.fbs, f.id < s.kernel.fbs.length
  last : ∀ g, (s.layer clientLayer).lastBuffer = some g → g.Fits s.kernel
  current : ∀ g, (s.layer clientLayer).mCurrentBuffer = some g → g.Fits s.kernel

def ShownOwned (s : HdiDisplay) : Prop :=
  ∀ fb, shownFb s.kernel.accepted = some fb →
    (s.layer clientLayer).lastBuffer.bind fbId = some fb ∨ (s.layer clientLayer).currentFb = some fb

theorem Quiet.layer_eq (h : Quiet s s') (p : Nat) :
    (s'.layer p).lastBuffer = (s.layer p).lastBuffer ∧ (s'.layer p).mCurrentBuffer = (s.layer p).mCurrentBuffer :=
  Prod.mk.inj (h.gems p)

theorem HandleInv.quiet (h : HandleInv s) (hquiet : Quiet s s') : HandleInv s' := by
  obtain ⟨hlast, hcurrent⟩ := hquiet.layer_eq clientLayer
  have hhandles : (s'.layer clientLayer).handles = (s.layer clientLayer).handles := by
    unfold handles
    rw [hlast, hcurrent]
  refine ⟨fun p hp => (hquiet.gems p).trans (h.plain p hp), hquiet.next ▸ h.next, fun e he => h.map e (hquiet.map he),
    ?_, ?_, ?_, fun g hg => ?_, fun g hg => ?_⟩
  · obtain hdrm | hdrm := hquiet.drm
    · exact hdrm ▸ h.drm
    · exact .inr hdrm
  · rw [hquiet.kernel, hhandles]
    exact h.owned
  · rw [hquiet.kernel]
    exact h.fbs
  · rw [hquiet.kernel]
    exact h.last g (hlast ▸ hg)
  · rw [hquiet.kernel]
    exact h.current g (hcurrent ▸ hg)

theorem shownFb_cons {req : AtomicReq} {accepted : List AtomicReq} {fb : Nat}
    (h : shownFb (req :: accepted) = some fb) :
    (∃ plane, framebuffer plane fb ∈ req) ∨
      (∀ plane fb, framebuffer plane fb ∉ req) ∧ shownFb accepted = some fb := by
  unfold shownFb at h
  rw [List.findSome?_cons] at h
  cases hreq : req.findSome? fb? with
  | some fb' =>
    rw [hreq] at h
    cases h
    obtain ⟨setting, hmem, hfb⟩ := List.exists_of_findSome?_eq_some hreq
    cases setting with
    | framebuffer plane fb =>
      cases hfb
      exact .inl ⟨plane, hmem⟩
    | _ => cases hfb
  | none =>
    rw [hreq] at h
    exact .inr ⟨fun plane fb hmem => (nomatch List.findSome?_eq_none_iff.mp hreq _ hmem), h⟩

theorem Quiet.shown (h : Quiet s s') {fb : Nat} (hfb : shownFb s'.kernel.accepted = some fb) :
    (s'.layer clientLayer).currentFb = some fb ∨ shownFb s.kernel.accepted = some fb := by
  have hcurrent : (s'.layer clientLayer).currentFb = (s.layer clientLayer).currentFb := by
    unfold currentFb
    rw [(h.layer_eq clientLayer).2]
  obtain haccepted | ⟨req, haccepted, hreq⟩ := h.accepted
  · exact .inr (haccepted ▸ hfb)
  · rw [haccepted] at hfb
    obtain ⟨plane, hmem⟩ | ⟨_, hfb⟩ := shownFb_cons hfb
    · exact .inl (hcurrent ▸ hreq plane fb hmem)
    · exact .inr hfb

theorem ShownOwned.quiet (h : ShownOwned s) (hquiet : Quiet s s') : ShownOwned s' := by
  intro fb hfb
  obtain hnew | hold := hquiet.shown hfb
  · exact .inr hnew
  · obtain ⟨hlast, hcurrent⟩ := hquiet.layer_eq clientLayer
    unfold currentFb
    rw [hlast, hcurrent]
    exact h fb hold

/-! ## An import -/

theorem GemBuffer.destroy_closed (g : GemBuffer) (k : Kernel) : (g.destroy k).closed = g.gemHandle.toList ++ k.closed := by
  obtain ⟨_ | _, _ | _⟩ := g <;> rfl

theorem GemBuffer.destroy_given (g : GemBuffer) (k : Kernel) : (g.destroy k).given = k.given := by
  obtain ⟨_ | _, _ | _⟩ := g <;> rfl

theorem Kernel.primeFdToHandle_fresh {k : Kernel} {buffer : Nat} (h : ∀ e ∈ k.handles, e.2 ≠ buffer) :
    k.primeFdToHandle buffer =
      (k.given, { k with given := k.given + 1, handles := (k.given, buffer) :: k.handles }) := by
  have hnone : k.handles.find? (fun e => e.2 == buffer) = none := by
    refine List.find?_eq_none.mpr fun e he => ?_
    simpa using h e he
  unfold Kernel.primeFdToHandle
  rw [hnone]

structure NewGem (k : Kernel) (g : GemBuffer) (k' : Kernel) : Prop where
  closed : k'.closed = k.closed
  given : List.range k'.given = List.range k.given ++ g.gemHandle.toList
  fits : g.Fits k'
  kept : ∀ g' : GemBuffer, g'.Fits k → g'.Fits k'
  fbs : ∀ f ∈ k'.fbs, f.id < k'.fbs.length

theorem GemBuffer.init_fresh {a : GemAnswers} {buffer : Nat} {k : Kernel}
    (hfresh : a.prime = true → ∀ e ∈ k.handles, e.2 ≠ buffer) (hfbs : ∀ f ∈ k.fbs, f.id < k.fbs.length) :
    NewGem k (init a buffer k).1 (init a buffer k).2 := by
  unfold init
  by_cases hprime : a.prime = true
  case neg =>
    rw [if_neg hprime]
    exact ⟨rfl, (List.append_nil _).symm, nofun, fun _ h => h, hfbs⟩
  rw [if_pos hprime, Kernel.primeFdToHandle_fresh (hfresh hprime)]
  have hgiven : List.range (k.given + 1) = List.range k.given ++ [k.given] := List.range_succ
  by_cases hadd : a.addFb = true
  case neg =>
    simp only [if_neg hadd]
    exact ⟨rfl, hgiven, nofun, fun _ h => h, hfbs⟩
  simp only [if_pos hadd, Kernel.addFb2]
  refine ⟨rfl, hgiven, fun fb hfb => ?_, fun g hg fb hfb => ?_, fun f hf => ?_⟩
  · cases hfb
    refine ⟨Nat.lt_succ_self _, _, rfl, fun f hf hid => ?_⟩
    obtain rfl | hf := List.mem_cons.mp hf
    · rfl
    · exact absurd hid (Nat.ne_of_lt (hfbs f hf))
  · obtain ⟨hlt, handle, hhandle, hsame⟩ := hg fb hfb
    refine ⟨Nat.lt_succ_of_lt hlt, handle, hhandle, fun f hf hid => ?_⟩
    obtain rfl | hf := List.mem_cons.mp hf
    · exact absurd hid (Nat.ne_of_gt hlt)
    · exact hsame f hf hid
  · obtain rfl | hf := List.mem_cons.mp hf
    · exact Nat.lt_succ_self _
    · exact Nat.lt_succ_of_lt (hfbs f hf)

theorem HdiLayer.getGemBuffer_eq (l : HdiLayer) (a : GemAnswers) (buffer : Nat) (k : Kernel) :
    ∃ gem k1 k2, init a buffer k = (gem, k1) ∧
      l.getGemBuffer a buffer k = (gem, { l with lastBuffer := l.mCurrentBuffer, mCurrentBuffer := some gem }, k2) ∧
      k2.closed = (l.lastBuffer.bind gemHandle).toList ++ k1.closed ∧ k2.given = k1.given ∧
      k2.fbs = k1.fbs ∧ k2.accepted = k1.accepted := by
  unfold getGemBuffer
  generalize init a buffer k = new
  obtain ⟨gem, k1⟩ := new
  refine ⟨gem, k1, _, rfl, rfl, ?_⟩
  cases l.lastBuffer with
  | none => exact ⟨rfl, rfl, rfl, rfl⟩
  | some old => exact ⟨old.destroy_closed k1, old.destroy_given k1, old.destroy_fbs k1, old.destroy_accepted k1⟩

theorem GemBuffer.Fits.of_fbs {k k' : Kernel} {g : GemBuffer} (h : g.Fits k) (hfbs : k'.fbs = k.fbs) : g.Fits k' := by
  unfold GemBuffer.Fits
  rw [hfbs]
  exact h

theorem HandleInv.imported (h : HandleInv s) {a : GemAnswers} {b : LayerBuffer}
    (hfresh : a.prime = true → ∀ e ∈ s.kernel.handles, e.2 ≠ b.buffer) :
    HandleInv (imported a clientLayer b s) ∧
      (imported a clientLayer b s).kernel.accepted = s.kernel.accepted ∧
      ((imported a clientLayer b s).layer clientLayer).lastBuffer = (s.layer clientLayer).mCurrentBuffer := by
  obtain ⟨gem, k1, k2, hinit, hget, hclosed, hgiven, hfbs, haccepted⟩ :=
    (s.layer clientLayer).getGemBuffer_eq a b.buffer s.kernel
  have hnew := init_fresh hfresh h.fbs
  have hinitial := (init_spec a b.buffer s.kernel).2.1
  rw [hinit] at hnew hinitial
  unfold Display.imported
  rw [hget]
  refine ⟨⟨fun p hp => ?_, h.next, h.map, h.drm, ?_, ?_, fun g hg => ?_, fun g hg => ?_⟩, haccepted.trans hinitial, ?_⟩
  · simpa [setLayer, hp] using h.plain p hp
  · have hperm := h.owned
    simp only [setLayer, handles, if_pos, Option.bind_some] at hperm ⊢
    rw [hclosed, hgiven, hnew.given, hnew.closed]
    generalize ((s.layer clientLayer).lastBuffer.bind gemHandle).toList = old at hperm ⊢
    generalize ((s.layer clientLayer).mCurrentBuffer.bind gemHandle).toList = current at hperm ⊢
    rw [← List.append_assoc]
    refine List.Perm.append_right _ (List.Perm.trans ?_ hperm)
    rw [← List.append_assoc]
    exact List.Perm.append_right _ List.perm_append_comm
  · rw [hfbs]
    exact hnew.fbs
  · have hg : (s.layer clientLayer).mCurrentBuffer = some g := by simpa [setLayer] using hg
    exact (hnew.kept g (h.current g hg)).of_fbs hfbs
  · obtain rfl : gem = g := by simpa [setLayer] using hg
    exact hnew.fits.of_fbs hfbs
  · simp [setLayer]

/-! ## Runs -/

structure FrameInv (s : HdiDisplay) : Prop where
  handles : HandleInv s
  shown : ShownOwned s

theorem FrameInv.quiet (h : FrameInv s) (hquiet : Quiet s s') : FrameInv s' :=
  ⟨h.handles.quiet hquiet, h.shown.quiet hquiet⟩

theorem FrameInv.createLayer (h : FrameInv s) {type : LayerType} {r : Called}
    (hrun : s.createLayer type = .ok r) : FrameInv r.display := by
  unfold HdiDisplay.createLayer at hrun
  split at hrun
  · cases hrun
  rename_i id pool _
  split at hrun
  · cases hrun
    exact h.quiet (Still.quiet .of_same_layers)
  cases hrun
  have hclient : clientLayer ≠ s.next := Nat.ne_of_lt h.handles.next
  -- a new pointer is not that of the client layer
  have hnew : FrameInv { s.setLayer s.next { mId := id, mType := type } with next := s.next + 1 } := by
    have hsame : (s.setLayer s.next { mId := id, mType := type }).layer clientLayer = s.layer clientLayer :=
      if_neg hclient
    refine ⟨⟨fun p hp => ?_, Nat.succ_pos _, h.handles.map, h.handles.drm, ?_, h.handles.fbs, ?_, ?_⟩, ?_⟩
    · by_cases hq : p = s.next
      · simp [setLayer, hq, gems]
      · simpa [setLayer, hq] using h.handles.plain p hp
    · rw [hsame]
      exact h.handles.owned
    · rw [hsame]
      exact h.handles.last
    · rw [hsame]
      exact h.handles.current
    · unfold ShownOwned
      rw [hsame]
      exact h.shown
  split
  · exact hnew.quiet (Still.quiet .of_same_layers)
  · obtain ⟨⟨hplain, hnext, hmap, hdrm, howned, hfbs, hlast, hcurrent⟩, hshown⟩ := hnew
    refine ⟨⟨hplain, hnext, fun e he => ?_, hdrm, howned, hfbs, hlast, hcurrent⟩, hshown⟩
    obtain rfl | he := List.mem_cons.mp he
    · exact hclient.symm
    · exact hmap e he

theorem FrameInv.destroyLayer (h : FrameInv s) (id : Nat) : FrameInv (s.destroyLayer id).display := by
  unfold HdiDisplay.destroyLayer
  split
  · exact h
  rename_i p hfind
  have hnone := h.handles.plain p (h.handles.map _ (findLayer_mem hfind))
  obtain ⟨hlast, hcurrent⟩ := Prod.mk.inj hnone
  refine h.quiet (Still.quiet ⟨?_, fun _ => rfl, rfl, fun e he => (List.mem_filter.mp he).1, .inl rfl,
    ⟨rfl, rfl, rfl, rfl⟩⟩)
  simp [deleteLayer, hlast, hcurrent]

theorem FrameInv.step {c : DisplayCall} (h : FrameInv s) (hfair : c.FreshFrame s)
    (hstep : c.Step s s') : FrameInv s' := by
  unfold DisplayCall.Step DisplayCall.next at hstep
  split at hstep
  case h_2 => cases hstep
  rename_i r hrun
  cases hstep
  cases c with
  | createLayer type => exact h.createLayer hrun
  | commit a =>
    obtain ⟨hfresh, hworks⟩ := hfair
    obtain ⟨s1, rfl | ⟨hdrm, b, hbuffer, rfl⟩, hquiet⟩ := commit_quiet h.handles.drm hrun
    · exact h.quiet hquiet
    obtain ⟨hinv, haccepted, hlast⟩ := h.handles.imported (hfresh b hbuffer)
    refine ⟨hinv.quiet hquiet, fun fb hfb => ?_⟩
    obtain hnew | hold := hquiet.shown hfb
    · exact .inr hnew
    rw [haccepted] at hold
    obtain hgone | hkept := h.shown fb hold
    · have hframe := (commit_frame hrun).2.mpr (hworks fb hold hgone)
      right
      obtain ⟨req, hreq, hall⟩ := hframe
      obtain ⟨plane, _, f, _, hset, _⟩ := hall 0 clientLayer (by rw [hdrm]; rfl)
      rw [← haccepted] at hreq
      obtain hsame | ⟨req', hreq', hnewest⟩ := hquiet.accepted
      · exact absurd (hreq.symm.trans hsame) (List.cons_ne_self req _)
      obtain rfl := (List.cons.inj (hreq.symm.trans hreq')).1
      rw [hreq] at hfb
      obtain ⟨plane', hmem⟩ | ⟨hnone, _⟩ := shownFb_cons hfb
      · have hcurrent := hnewest plane' fb hmem
        unfold currentFb at hcurrent ⊢
        rwa [(hquiet.layer_eq clientLayer).2]
      · exact absurd hset (hnone _ _)
    · left
      rw [(hquiet.layer_eq clientLayer).1, hlast]
      exact hkept
  | destroyLayer id =>
    cases hrun
    exact h.destroyLayer id
  | setLayerZorder id zorder =>
    cases hrun
    exact h.quiet (setLayerZorder_still s id zorder).quiet
  | setLayerAttr id attr =>
    cases hrun
    exact h.quiet (setLayerAttr_still s id attr).quiet
  | prepareDisplayLayers =>
    cases hrun
    exact h.quiet (prepareDisplayLayers_still s).quiet
  | getDisplayCompChange layers types =>
    cases hrun
    exact h
  | getDisplayReleaseFence layers fences =>
    cases hrun
    exact h.quiet (getDisplayReleaseFence_still s layers fences).quiet
  | setDisplayClientBuffer buffer fence =>
    cases hrun
    exact h.quiet (setDisplayClientBuffer_still s buffer fence).quiet
  | setDisplayMode modeId =>
    cases hrun
    exact h.quiet ⟨rfl, .inl rfl, fun _ => rfl, rfl, fun _ h => h, .inl rfl⟩

theorem FrameInv.start (layerIds : IdPool) (mPlanes : Planes) (mCrtc : DrmCrtc) (mConnector : DrmConnector) :
    FrameInv (.start layerIds mPlanes mCrtc mConnector) :=
  ⟨⟨fun _ _ => rfl, Nat.one_pos, nofun, .inl rfl, .nil,
    nofun, nofun, nofun⟩, nofun⟩

theorem deleteLayer_closed (s : HdiDisplay) :
    (s.deleteLayer clientLayer).kernel.closed.Perm (s.kernel.closed ++ (s.layer clientLayer).handles) := by
  have heq : (s.deleteLayer clientLayer).kernel.closed =
      ((s.layer clientLayer).mCurrentBuffer.bind gemHandle).toList ++
        (((s.layer clientLayer).lastBuffer.bind gemHandle).toList ++ s.kernel.closed) := by
    unfold deleteLayer
    cases hlast : (s.layer clientLayer).lastBuffer <;> cases hcurrent : (s.layer clientLayer).mCurrentBuffer <;>
      simp [hlast, hcurrent, destroy_closed]
  rw [heq, ← List.append_assoc]
  refine List.perm_append_comm.trans (List.Perm.append_left _ ?_)
  exact List.perm_append_comm

theorem FrameInv.sound (h : FrameInv s) : HandlesSound s := by
  have hnodup : (s.kernel.closed ++ (s.layer clientLayer).handles).Nodup :=
    h.handles.owned.nodup_iff.mpr List.nodup_range
  obtain ⟨hclosed, _, hdisjoint⟩ := List.nodup_append.mp hnodup
  refine ⟨hclosed, fun handle hlt => ?_, fun fb hfb f hf hid hmem => ?_⟩
  · rw [((deleteLayer_closed s).trans h.handles.owned).count_eq]
    exact List.count_eq_one_of_mem List.nodup_range (List.mem_range.mpr hlt)
  · -- the object that has the framebuffer has its handle
    have howned : f.handle ∈ (s.layer clientLayer).handles := by
      unfold HdiLayer.handles
      obtain hlast | hcurrent := h.shown fb hfb
      · obtain ⟨g, hg, hgfb⟩ := Option.bind_eq_some_iff.mp hlast
        obtain ⟨_, handle, hhandle, hsame⟩ := h.handles.last g hg fb hgfb
        simp [hg, hhandle, hsame f hf hid]
      · obtain ⟨g, hg, hgfb⟩ := Option.bind_eq_some_iff.mp hcurrent
        obtain ⟨_, handle, hhandle, hsame⟩ := h.handles.current g hg fb hgfb
        simp [hg, hhandle, hsame f hf hid]
    exact hdisjoint _ hmem _ howned rfl

/-- In every run whose commits import fresh buffers the handles are sound. -/
theorem handles_closed_once {layerIds : IdPool} {mPlanes : Planes} {mCrtc : DrmCrtc} {mConnector : DrmConnector}
    {s : HdiDisplay}
    (hrun : Runs DisplayCall.Step DisplayCall.FreshFrame (.start layerIds mPlanes mCrtc mConnector) s) :
    HandlesSound s := by
  have hinv : FrameInv s := Runs.keeps (fun h hfair hstep => FrameInv.step h hfair hstep) hrun (.start ..)
  exact hinv.sound

def frames (buffers : List Nat) : List DisplayCall :=
  buffers.flatMap fun buffer => [.setDisplayClientBuffer (some { buffer }) (-1), .prepareDisplayLayers, .commit {}]

def onePlane : HdiDisplay := .start {} onlyPlane { id := 41 } onlyMode

def DisplayCall.calm (s : HdiDisplay) : DisplayCall → Bool
  | commit _ =>
    (s.layer clientLayer).mHdiBuffer.all (fun b => s.kernel.handles.all fun h => h.2 != b.buffer) &&
      ((s.layer clientLayer).lastBuffer.bind fbId).all fun fb => shownFb s.kernel.accepted != some fb
  | _ => true

theorem DisplayCall.freshFrame_of_calm {c : DisplayCall} (h : c.calm s = true) : c.FreshFrame s := by
  cases c with
  | commit a =>
    obtain ⟨hfresh, hshown⟩ := (Bool.and_eq_true _ _).mp h
    refine ⟨fun b hb _ e he => ?_, fun fb hfb hlast => ?_⟩
    · rw [hb] at hfresh
      simpa using List.all_eq_true.mp hfresh e he
    · rw [hlast] at hshown
      simp [hfb] at hshown
  | _ => trivial

/-- The buffer of a frame is used again three frames later. -/
theorem handles_closed_once_for_three_buffers : ∃ s, Runs DisplayCall.Step DisplayCall.FreshFrame onePlane s ∧
    s.kernel.closed = [1, 0] ∧ shownFb s.kernel.accepted = some 3 ∧ HandlesSound s := by
  have hplay : ((frames [5, 6, 7, 5]).foldlM (guarded (fun s c => c.calm s = true) next) onePlane).any
      (fun s => decide (s.kernel.closed = [1, 0] ∧ shownFb s.kernel.accepted = some 3)) = true := by
    decide +kernel
  obtain ⟨s, hcalm, hs⟩ : ∃ s, Runs DisplayCall.Step (fun s c => c.calm s = true) onePlane s ∧ _ :=
    Runs.of_guarded hplay id
  have hrun : Runs DisplayCall.Step DisplayCall.FreshFrame onePlane s :=
    hcalm.mono fun h => freshFrame_of_calm h
  obtain ⟨hclosed, hshown⟩ := of_decide_eq_true hs
  exact ⟨s, hrun, hclosed, hshown, handles_closed_once hrun⟩

/-- Two buffers in turn: the third frame closes the handle of the buffer it shows. One buffer twice: its handle is closed
twice. -/
theorem handles_closed_early_and_twice :
    (∃ s, Runs DisplayCall.Step (fun _ _ => True) onePlane s ∧
      ∃ f ∈ s.kernel.fbs, shownFb s.kernel.accepted = some f.id ∧ f.handle ∈ s.kernel.closed) ∧
    ∃ s, Runs DisplayCall.Step (fun _ _ => True) onePlane s ∧ s.kernel.closed = [0, 0] := by
  have hnext : ∀ {s s' : HdiDisplay} {c : DisplayCall}, c.next s = some s' → True ∧ c.Step s s' :=
    fun h => ⟨trivial, h⟩
  constructor
  · have hplay : ((frames [5, 6, 5]).foldlM next onePlane).any (fun s => decide
        (∃ f ∈ s.kernel.fbs, shownFb s.kernel.accepted = some f.id ∧ f.handle ∈ s.kernel.closed)) = true := by
      decide +kernel
    obtain ⟨s, hrun, hs⟩ := Runs.of_play hplay hnext
    exact ⟨s, hrun, of_decide_eq_true hs⟩
  · have hplay : ((frames [5, 5, 6, 7]).foldlM next onePlane).any
        (fun s => decide (s.kernel.closed = [0, 0])) = true := by
      decide +kernel
    obtain ⟨s, hrun, hs⟩ := Runs.of_play hplay hnext
    exact ⟨s, hrun, of_decide_eq_true hs⟩

end Amlogic.Display
