import Amlogic.Display.Display

/-!
# What calls leave alone

Most calls change attributes of layers and lists of them, but no object of a frame, no mode and nothing in the kernel.
-/

namespace Amlogic.Display

open HdiDisplay

theorem GemBuffer.destroy_fbs (g : GemBuffer) (k : Kernel) : (g.destroy k).fbs = k.fbs := by
  obtain ⟨_ | _, _ | _⟩ := g <;> rfl

theorem GemBuffer.destroy_accepted (g : GemBuffer) (k : Kernel) : (g.destroy k).accepted = k.accepted := by
  obtain ⟨_ | _, _ | _⟩ := g <;> rfl

def HdiLayer.gems (l : HdiLayer) : Option GemBuffer × Option GemBuffer := (l.lastBuffer, l.mCurrentBuffer)

structure SameDisplay (s s' : HdiDisplay) : Prop where
  id : s'.mId = s.mId
  planes : s'.mPlanes = s.mPlanes
  crtc : s'.mCrtc = s.mCrtc
  connector : s'.mConnector = s.mConnector

theorem SameDisplay.refl (s : HdiDisplay) : SameDisplay s s := ⟨rfl, rfl, rfl, rfl⟩

theorem SameDisplay.trans {s s1 s2 : HdiDisplay} (h : SameDisplay s s1) (h' : SameDisplay s1 s2) : SameDisplay s s2 :=
  ⟨h'.id.trans h.id, h'.planes.trans h.planes, h'.crtc.trans h.crtc, h'.connector.trans h.connector⟩

structure Still (s s' : HdiDisplay) : Prop where
  kernel : s'.kernel = s.kernel
  gems : ∀ p, (s'.layer p).gems = (s.layer p).gems
  next : s'.next = s.next
  map : s'.mLayersMap ⊆ s.mLayersMap
  drm : s'.drmLayers = s.drmLayers ∨ s'.drmLayers = [clientLayer]
  display : SameDisplay s s'

namespace Still

theorem refl (s : HdiDisplay) : Still s s := ⟨rfl, fun _ => rfl, rfl, fun _ h => h, .inl rfl, .refl s⟩

theorem trans {s s1 s2 : HdiDisplay} (h : Still s s1) (h' : Still s1 s2) : Still s s2 where
  kernel := h'.kernel.trans h.kernel
  gems p := (h'.gems p).trans (h.gems p)
  next := h'.next.trans h.next
  map := fun e he => h.map (h'.map he)
  drm := by
    obtain hdrm | hdrm := h'.drm
    · rw [hdrm]
      exact h.drm
    · exact .inr hdrm
  display := h.display.trans h'.display

theorem of_same_layers {s : HdiDisplay} {mLayers mChangeLayers gfxLayers : List Nat} {mVideoLayer : Option Nat}
    {videoAxis : Option Rect} {layerIds : IdPool} :
    Still s { s with mLayers, mChangeLayers, gfxLayers, mVideoLayer, videoAxis, layerIds } :=
  ⟨rfl, fun _ => rfl, rfl, fun _ h => h, .inl rfl, ⟨rfl, rfl, rfl, rfl⟩⟩

theorem setLayer {s : HdiDisplay} {p : Nat} {l : HdiLayer} (h : l.gems = (s.layer p).gems) :
    Still s (s.setLayer p l) := by
  refine ⟨rfl, fun q => ?_, rfl, fun _ h => h, .inl rfl, ⟨rfl, rfl, rfl, rfl⟩⟩
  by_cases hq : q = p
  · subst hq
    simpa [HdiDisplay.setLayer] using h
  · simp [HdiDisplay.setLayer, hq]

theorem foldl {f : HdiDisplay → Nat → HdiDisplay} (hf : ∀ s p, Still s (f s p)) (ps : List Nat) (s : HdiDisplay) :
    Still s (ps.foldl f s) := by
  induction ps generalizing s with
  | nil => exact .refl s
  | cons p ps ih => exact (hf s p).trans (ih (f s p))

end Still

theorem HdiLayer.getReleaseFenceFd_gems (l : HdiLayer) : l.getReleaseFenceFd.2.gems = l.gems := by
  unfold HdiLayer.getReleaseFenceFd
  split <;> rfl

theorem HdiLayer.setLayerBuffer_gems (l : HdiLayer) (buffer : Option LayerBuffer) (fence : Int) :
    (l.setLayerBuffer buffer fence).gems = l.gems := by cases buffer <;> rfl

theorem HdiDisplay.findLayer_mem {s : HdiDisplay} {id p : Nat} (h : s.findLayer id = some p) :
    (id, p) ∈ s.mLayersMap := by
  obtain ⟨e, he, rfl⟩ := Option.map_eq_some_iff.mp h
  obtain rfl : e.1 = id := by simpa using List.find?_some he
  exact List.mem_of_find?_eq_some he

section Calls

variable (s : HdiDisplay)

theorem setLayerZorder_still (id zorder : Nat) : Still s (s.setLayerZorder id zorder).display := by
  unfold setLayerZorder
  split
  · exact .refl s
  · rename_i p _
    by_cases hsame : (s.layer p).mZorder = zorder
    · rw [if_pos hsame]
      exact .refl s
    · rw [if_neg hsame]
      have herase : Still s { s with mLayers := s.eraseLayer p } := .of_same_layers
      exact (herase.trans (.setLayer (p := p) (l := { s.layer p with mZorder := zorder }) rfl)).trans .of_same_layers

theorem setLayerAttr_still (id : Nat) (attr : LayerAttr) : Still s (s.setLayerAttr id attr).display := by
  unfold setLayerAttr
  split
  · exact .refl s
  · exact .setLayer (by cases attr <;> rfl)

theorem getDisplayReleaseFence_still (layers fences : Bool) :
    Still s (s.getDisplayReleaseFence layers fences).display := by
  unfold getDisplayReleaseFence
  split
  · exact .refl s
  · refine Still.foldl (fun s p => .setLayer ?_) s.mLayers s
    rw [HdiLayer.getReleaseFenceFd_gems]
    cases fences
    · rfl
    · exact HdiLayer.getReleaseFenceFd_gems _

theorem setDisplayClientBuffer_still (buffer : Option LayerBuffer) (fence : Int) :
    Still s (s.setDisplayClientBuffer buffer fence).display :=
  .setLayer (HdiLayer.setLayerBuffer_gems _ buffer fence)

theorem drmSetLayers_still (layers : List Nat) : Still s (drmSetLayers layers s) := by
  have hclient : Still s { s with drmLayers := [clientLayer], mVideoLayer := none } :=
    ⟨rfl, fun _ => rfl, rfl, fun _ h => h, .inr rfl, ⟨rfl, rfl, rfl, rfl⟩⟩
  unfold drmSetLayers
  dsimp only
  split
  · exact hclient
  · rename_i p _
    exact (hclient.trans (.setLayer (p := p) (l := { s.layer p with mCompositionType := .video }) rfl)).trans
      .of_same_layers

theorem gfxSetLayers_still (layers : List Nat) : Still s (gfxSetLayers layers s) := by
  refine (Still.foldl (fun s p => .setLayer ?_) layers s).trans .of_same_layers
  rfl

theorem collectChanges_still (layers : List Nat) : Still s (s.collectChanges layers) := by
  refine Still.foldl (fun s p => ?_) layers s
  dsimp only
  split
  · exact (Still.setLayer (p := p) (l := { s.layer p with mCompositionType := (s.layer p).mDeviceSelect }) rfl).trans
      .of_same_layers
  · exact .refl s

theorem prepareDisplayLayers_still : Still s s.prepareDisplayLayers.display := by
  have hclear : Still s { s with mChangeLayers := [] } := .of_same_layers
  exact ((hclear.trans (drmSetLayers_still _ _)).trans (gfxSetLayers_still _ _)).trans (collectChanges_still _ _)

theorem releaseLayers_still (fence : Int) : Still s (releaseLayers fence s) := by
  refine Still.foldl (fun s p => .setLayer ?_) s.drmLayers s
  rfl

theorem deleteLayer_accepted (p : Nat) : (s.deleteLayer p).kernel.accepted = s.kernel.accepted := by
  unfold deleteLayer
  cases hlast : (s.layer p).lastBuffer <;> cases hcurrent : (s.layer p).mCurrentBuffer <;>
    simp [hlast, hcurrent, GemBuffer.destroy_accepted]

def DisplayCall.aboutMode : DisplayCall → Bool
  | setDisplayMode _ => true
  | commit _ => true
  | _ => false

theorem run_same {s : HdiDisplay} {c : DisplayCall} {r : Called} (hc : c.aboutMode = false) (h : c.run s = .ok r) :
    SameDisplay s r.display ∧ r.display.kernel.accepted = s.kernel.accepted := by
  have hstill : Still s r.display → SameDisplay s r.display ∧ r.display.kernel.accepted = s.kernel.accepted :=
    fun h => ⟨h.display, by rw [h.kernel]⟩
  cases c with
  | createLayer type =>
    have h : s.createLayer type = .ok r := h
    unfold createLayer at h
    split at h
    · cases h
    split at h
    · cases h
      exact ⟨⟨rfl, rfl, rfl, rfl⟩, rfl⟩
    · cases h
      split <;> exact ⟨⟨rfl, rfl, rfl, rfl⟩, rfl⟩
  | destroyLayer id =>
    cases h
    unfold destroyLayer
    split
    · exact ⟨.refl s, rfl⟩
    · exact ⟨⟨rfl, rfl, rfl, rfl⟩, deleteLayer_accepted _ _⟩
  | setLayerZorder id zorder =>
    cases h
    exact hstill (setLayerZorder_still s id zorder)
  | setLayerAttr id attr =>
    cases h
    exact hstill (setLayerAttr_still s id attr)
  | prepareDisplayLayers =>
    cases h
    exact hstill (prepareDisplayLayers_still s)
  | getDisplayCompChange layers types =>
    cases h
    exact ⟨.refl s, rfl⟩
  | getDisplayReleaseFence layers fences =>
    cases h
    exact hstill (getDisplayReleaseFence_still s layers fences)
  | setDisplayClientBuffer buffer fence =>
    cases h
    exact hstill (setDisplayClientBuffer_still s buffer fence)
  | setDisplayMode modeId => cases hc
  | commit a => cases hc

end Calls

end Amlogic.Display
