import Amlogic.Display.Proofs.CommitProofs

/-!
# Lifetime of the layers

`DestroyLayer` takes a layer from `mLayersMap` and `mLayers`, but not from the lists that `PrepareDisplayLayers` has made
for `Commit` and `GetDisplayCompChange`.
-/

namespace Amlogic.Display

open HdiDisplay

variable {s : HdiDisplay} {used : List Nat} {m : LayerRun}

/-! ## Runs -/

/-- A display with its past: the layers that `DestroyLayer` has destroyed, those that were visible at the last
`PrepareDisplayLayers`, and those that have been used though they were destroyed. -/
structure LayerRun where
  display : HdiDisplay
  destroyed : List Nat := []
  prepared : List Nat := []
  misused : List Nat := []

namespace LayerRun

def next (m : LayerRun) (c : DisplayCall) : Option LayerRun :=
  match c.run m.display with
  | .error _ => none
  | .ok r => some
    { display := r.display
      misused := m.misused ++ r.used.filter (· ∈ m.destroyed)
      destroyed := match c with
        | .destroyLayer id => (m.display.findLayer id).toList ++ m.destroyed
        | _ => m.destroyed
      prepared := match c with
        | .prepareDisplayLayers => m.display.visibleLayers
        | _ => m.prepared }

def Step (m : LayerRun) (c : DisplayCall) (m' : LayerRun) : Prop := m.next c = some m'

/-- The layers of the last frame that was prepared are all there. -/
def FrameAlive (m : LayerRun) : Prop := ∀ p ∈ m.prepared, p ∉ m.destroyed

/-- A commit, and a call that asks for the changed layers, comes before any layer of the frame is destroyed. -/
def Fair (m : LayerRun) : DisplayCall → Prop
  | .commit _ => m.FrameAlive
  | .getDisplayCompChange layers types => layers = true ∨ types = true → m.FrameAlive
  | _ => True

end LayerRun

/-! ## What happens to the lists -/

structure SameLists (s s' : HdiDisplay) : Prop where
  next : s'.next = s.next
  map : s'.mLayersMap = s.mLayersMap
  layers : s'.mLayers = s.mLayers
  change : s'.mChangeLayers = s.mChangeLayers
  gfx : s'.gfxLayers = s.gfxLayers
  video : s'.mVideoLayer = s.mVideoLayer ∨ s'.mVideoLayer = none

namespace SameLists

theorem refl (s : HdiDisplay) : SameLists s s := ⟨rfl, rfl, rfl, rfl, rfl, .inl rfl⟩

theorem trans {s1 s2 : HdiDisplay} (h : SameLists s s1) (h' : SameLists s1 s2) : SameLists s s2 where
  next := h'.next.trans h.next
  map := h'.map.trans h.map
  layers := h'.layers.trans h.layers
  change := h'.change.trans h.change
  gfx := h'.gfx.trans h.gfx
  video := by
    obtain hvideo | hvideo := h'.video
    · rw [hvideo]
      exact h.video
    · exact .inr hvideo

theorem setLayer (s : HdiDisplay) (p : Nat) (l : HdiLayer) : SameLists s (s.setLayer p l) :=
  ⟨rfl, rfl, rfl, rfl, rfl, .inl rfl⟩

theorem foldl {f : HdiDisplay → Nat → HdiDisplay} (hf : ∀ s p, SameLists s (f s p)) (ps : List Nat) (s : HdiDisplay) :
    SameLists s (ps.foldl f s) := by
  induction ps generalizing s with
  | nil => exact .refl s
  | cons p ps ih => exact (hf s p).trans (ih (f s p))

end SameLists

theorem applyCommit_lists (a : DrmAnswers) (req : AtomicReq) (s : HdiDisplay) :
    SameLists s (applyCommit a req s).2 := by
  unfold applyCommit
  dsimp only
  split
  · exact .refl s
  · split
    · exact .refl s
    · have haccept : SameLists s { s with kernel :=
          { s.kernel with accepted := (updateMode a.mode s req).2 :: s.kernel.accepted } } :=
        ⟨rfl, rfl, rfl, rfl, rfl, .inl rfl⟩
      exact haccept.trans (SameLists.foldl (fun s p => .setLayer s p _) _ _)

theorem gfxApply_used {a : GfxAnswers} {layers : List Nat} {n : Nat} :
    (gfxApply a s n layers).2 ⊆ layers := by
  induction layers generalizing n with
  | nil => exact fun _ h => h
  | cons p ps ih =>
    unfold gfxApply
    split
    · exact List.cons_subset_cons _ ih
    · exact fun q hq => List.mem_singleton.mp hq ▸ List.mem_cons_self

theorem commit_lists {a : CommitAnswers} {r : Called} (h : s.commit a = .ok r) :
    SameLists s r.display ∧ ∀ p ∈ r.used, p ∈ s.gfxLayers ∨ s.mVideoLayer = some p := by
  obtain ⟨used', s1, rfl, happly⟩ := commit_cases h
  have hinner : SameLists s s1 ∧ ∀ p ∈ used', s.mVideoLayer = some p := by
    obtain ⟨-, rfl, rfl⟩ | ⟨-, ret, happly⟩ := happly
    · exact ⟨.refl _, nofun⟩
    · obtain ⟨-, rfl, rfl⟩ | ⟨-, req, s1, s2, hloop, hvideo, rfl⟩ := drmApply_cases happly
      · exact ⟨.refl _, nofun⟩
      have hrest := (applyPlanes_spec (zip_ids_nodup s.mPlanes.2) hloop).1.rest
      have hkept : SameLists s s1 := by
        rw [hrest]
        exact ⟨rfl, rfl, rfl, rfl, rfl, .inl rfl⟩
      obtain ⟨hrest', hforgot, hused⟩ := applyVideo_spec hvideo
      have hlists : SameLists s1 s2 := by
        refine ⟨?_, ?_, ?_, ?_, ?_, hforgot⟩ <;> rw [hrest']
      refine ⟨(hkept.trans hlists).trans (applyCommit_lists _ req s2), fun p hp => ?_⟩
      have hfound := hused p hp
      rwa [hrest] at hfound
  refine ⟨hinner.1.trans (.setLayer _ _ _), fun p hp => ?_⟩
  obtain hp | hp := List.mem_append.mp hp
  · exact .inl (gfxApply_used hp)
  · exact .inr (hinner.2 p hp)

theorem getDisplayReleaseFence_lists (s : HdiDisplay) (layers fences : Bool) :
    SameLists s (s.getDisplayReleaseFence layers fences).display ∧
      ∀ p ∈ (s.getDisplayReleaseFence layers fences).used, p ∈ s.mLayers := by
  unfold getDisplayReleaseFence
  split
  · exact ⟨.refl s, nofun⟩
  · exact ⟨SameLists.foldl (fun s p => .setLayer s p _) _ _, fun _ hp => hp⟩

theorem setLayerAttr_lists (s : HdiDisplay) (id : Nat) (attr : LayerAttr) :
    SameLists s (s.setLayerAttr id attr).display ∧
      ∀ p ∈ (s.setLayerAttr id attr).used, (id, p) ∈ s.mLayersMap := by
  unfold setLayerAttr
  split
  · exact ⟨.refl s, nofun⟩
  · rename_i p hfind
    exact ⟨.setLayer s p _, fun q hq => List.mem_singleton.mp hq ▸ findLayer_mem hfind⟩

theorem collectChanges_lists (layers : List Nat) (s : HdiDisplay) :
    SameLists s { s.collectChanges layers with mChangeLayers := s.mChangeLayers } ∧
      ∀ p ∈ (s.collectChanges layers).mChangeLayers, p ∈ s.mChangeLayers ∨ p ∈ layers := by
  induction layers generalizing s with
  | nil => exact ⟨.refl s, fun _ hp => .inl hp⟩
  | cons q qs ih =>
    have hcons : s.collectChanges (q :: qs) =
        (if (s.layer q).mDeviceSelect ≠ (s.layer q).mCompositionType then { s.setLayer q { s.layer q with
          mCompositionType := (s.layer q).mDeviceSelect } with mChangeLayers := s.mChangeLayers ++ [q] }
        else s).collectChanges qs := rfl
    rw [hcons]
    split
    · obtain ⟨⟨hnext, hmap, hlayers, _, hgfx, hvideo⟩, hchange⟩ := ih { s.setLayer q { s.layer q with
        mCompositionType := (s.layer q).mDeviceSelect } with mChangeLayers := s.mChangeLayers ++ [q] }
      refine ⟨⟨hnext, hmap, hlayers, rfl, hgfx, hvideo⟩, fun p hp => ?_⟩
      obtain hp | hp := hchange p hp
      · obtain hp | hp := List.mem_append.mp hp
        · exact .inl hp
        · exact .inr (List.mem_singleton.mp hp ▸ List.mem_cons_self)
      · exact .inr (List.mem_cons_of_mem _ hp)
    · obtain ⟨hlists, hchange⟩ := ih s
      exact ⟨hlists, fun p hp => (hchange p hp).imp_right (List.mem_cons_of_mem _)⟩

theorem drmSetLayers_lists (layers : List Nat) (s : HdiDisplay) :
    SameLists { s with mVideoLayer := (drmSetLayers layers s).mVideoLayer } (drmSetLayers layers s) ∧
      ∀ p, (drmSetLayers layers s).mVideoLayer = some p → p ∈ layers := by
  unfold drmSetLayers
  dsimp only
  split
  · exact ⟨⟨rfl, rfl, rfl, rfl, rfl, .inl rfl⟩, nofun⟩
  · rename_i q hfind
    refine ⟨⟨rfl, rfl, rfl, rfl, rfl, .inl rfl⟩, fun p hp => ?_⟩
    cases hp
    exact List.mem_of_find?_eq_some hfind

theorem gfxSetLayers_lists (layers : List Nat) (s : HdiDisplay) :
    SameLists { s with gfxLayers := layers } (gfxSetLayers layers s) := by
  obtain ⟨hnext, hmap, hlayers, hchange, _, hvideo⟩ := SameLists.foldl (f := fun s p =>
    s.setLayer p { s.layer p with mDeviceSelect :=
      if (s.layer p).mCompositionType ≠ .video ∧ (s.layer p).mCompositionType ≠ .cursor then .device
      else (s.layer p).mCompositionType }) (fun s p => .setLayer s p _) layers s
  exact ⟨hnext, hmap, hlayers, hchange, rfl, hvideo⟩

structure Prepared (s s' : HdiDisplay) : Prop where
  next : s'.next = s.next
  map : s'.mLayersMap = s.mLayersMap
  layers : s'.mLayers = s.mLayers
  gfx : s'.gfxLayers = s.visibleLayers
  change : ∀ p ∈ s'.mChangeLayers, p ∈ s.visibleLayers
  video : ∀ p, s'.mVideoLayer = some p → p ∈ s.visibleLayers

theorem prepareDisplayLayers_lists (s : HdiDisplay) : Prepared s s.prepareDisplayLayers.display := by
  obtain ⟨hdrm, hvideo⟩ := drmSetLayers_lists s.visibleLayers { s with mChangeLayers := [] }
  have hgfx := gfxSetLayers_lists s.visibleLayers (drmSetLayers s.visibleLayers { s with mChangeLayers := [] })
  obtain ⟨hcollect, hchange⟩ := collectChanges_lists s.visibleLayers
    (gfxSetLayers s.visibleLayers (drmSetLayers s.visibleLayers { s with mChangeLayers := [] }))
  refine ⟨hcollect.next.trans (hgfx.next.trans hdrm.next), hcollect.map.trans (hgfx.map.trans hdrm.map),
    hcollect.layers.trans (hgfx.layers.trans hdrm.layers), hcollect.gfx.trans hgfx.gfx, fun p hp => ?_, fun p hp => ?_⟩
  · obtain hp | hp := hchange p hp
    · rw [hgfx.change] at hp
      have hempty : (drmSetLayers s.visibleLayers { s with mChangeLayers := [] }).mChangeLayers = [] := hdrm.change
      exact absurd (hempty ▸ hp) List.not_mem_nil
    · exact hp
  · obtain hsame | hnone := hcollect.video
    · obtain hsame' | hnone' := hgfx.video
      · exact hvideo p (by rw [← hp]; exact (hsame.trans hsame').symm)
      · have : s.prepareDisplayLayers.display.mVideoLayer = none := hsame.trans hnone'
        rw [this] at hp
        cases hp
    · have : s.prepareDisplayLayers.display.mVideoLayer = none := hnone
      rw [this] at hp
      cases hp

/-! ## The order of the layers -/

theorem insertLayer_perm (s : HdiDisplay) (p : Nat) : (s.insertLayer p).Perm (p :: s.mLayers) := by
  refine List.perm_middle.trans (List.Perm.cons p ?_)
  rw [List.takeWhile_append_dropWhile]

theorem eraseLayer_eq (s : HdiDisplay) (p : Nat) : s.eraseLayer p = s.mLayers.erase p := by
  unfold eraseLayer
  split
  · rfl
  · rename_i hnot
    exact (List.erase_of_not_mem fun hp => hnot (List.mem_filter.mpr ⟨hp, by simp⟩)).symm

/-! ## The invariant -/

namespace LayerRun

/-- The layers of the lists that are kept up to date are there, and those of the frame are among the prepared ones. -/
structure Inv (m : LayerRun) : Prop where
  nodup : m.display.mLayers.Nodup
  layers : ∀ p ∈ m.display.mLayers, p < m.display.next ∧ p ∉ m.destroyed
  map : (m.display.mLayersMap.map Prod.snd).Nodup
  mapped : ∀ e ∈ m.display.mLayersMap, e.2 < m.display.next ∧ e.2 ∉ m.destroyed
  destroyed : ∀ p ∈ m.destroyed, p < m.display.next
  gfx : ∀ p ∈ m.display.gfxLayers, p ∈ m.prepared
  change : ∀ p ∈ m.display.mChangeLayers, p ∈ m.prepared
  video : ∀ p, m.display.mVideoLayer = some p → p ∈ m.prepared
  misused : m.misused = []

theorem unused (h : m.misused = []) (hused : ∀ p ∈ used, p ∉ m.destroyed) :
    m.misused ++ used.filter (· ∈ m.destroyed) = [] := by
  rw [h, List.nil_append]
  exact List.filter_eq_nil_iff.mpr fun p hp => by simpa using hused p hp

theorem Inv.same (h : m.Inv) (hlists : SameLists m.display s) (hused : ∀ p ∈ used, p ∉ m.destroyed) :
    Inv { m with display := s, misused := m.misused ++ used.filter (· ∈ m.destroyed) } := by
  refine ⟨?_, ?_, ?_, ?_, ?_, ?_, ?_, fun p hp => ?_, unused h.misused hused⟩
  · rw [hlists.layers]
    exact h.nodup
  · rw [hlists.layers, hlists.next]
    exact h.layers
  · rw [hlists.map]
    exact h.map
  · rw [hlists.map, hlists.next]
    exact h.mapped
  · rw [hlists.next]
    exact h.destroyed
  · rw [hlists.gfx]
    exact h.gfx
  · rw [hlists.change]
    exact h.change
  · obtain hvideo | hvideo := hlists.video
    · exact h.video p (hvideo ▸ hp)
    · rw [hvideo] at hp
      cases hp

theorem Inv.createLayer (h : m.Inv) {type : LayerType} {r : Called} (hrun : m.display.createLayer type = .ok r) :
    Inv { m with display := r.display, misused := m.misused ++ r.used.filter (· ∈ m.destroyed) } := by
  unfold HdiDisplay.createLayer at hrun
  split at hrun
  · cases hrun
  split at hrun
  · cases hrun
    exact h.same ⟨rfl, rfl, rfl, rfl, rfl, .inl rfl⟩ nofun
  cases hrun
  have hfresh : m.display.next ∉ m.destroyed := fun hmem => Nat.lt_irrefl _ (h.destroyed _ hmem)
  have hless : ∀ p, p < m.display.next → p < m.display.next + 1 := fun p hp => Nat.lt_succ_of_lt hp
  have hperm : ∀ s : HdiDisplay, s.mLayers = m.display.mLayers →
      (s.insertLayer m.display.next).Perm (m.display.next :: m.display.mLayers) :=
    fun s hs => hs ▸ insertLayer_perm s m.display.next
  have hlayers : ∀ s : HdiDisplay, s.mLayers = m.display.mLayers → ∀ p ∈ s.insertLayer m.display.next,
      p < m.display.next + 1 ∧ p ∉ m.destroyed := by
    intro s hs p hp
    obtain rfl | hp := List.mem_cons.mp ((hperm s hs).mem_iff.mp hp)
    · exact ⟨Nat.lt_succ_self _, hfresh⟩
    · exact ⟨hless p (h.layers p hp).1, (h.layers p hp).2⟩
  have hnodup : ∀ s : HdiDisplay, s.mLayers = m.display.mLayers → (s.insertLayer m.display.next).Nodup := by
    intro s hs
    refine (hperm s hs).nodup_iff.mpr (List.nodup_cons.mpr ⟨fun hmem => ?_, h.nodup⟩)
    exact Nat.lt_irrefl _ (h.layers _ hmem).1
  have hmapped : ∀ e ∈ m.display.mLayersMap, e.2 < m.display.next + 1 ∧ e.2 ∉ m.destroyed :=
    fun e he => ⟨hless _ (h.mapped e he).1, (h.mapped e he).2⟩
  have hgone : ∀ p ∈ m.destroyed, p < m.display.next + 1 := fun p hp => hless p (h.destroyed p hp)
  have hused := unused h.misused fun p hp => (h.layers p hp).2
  split
  · exact ⟨hnodup _ rfl, hlayers _ rfl, h.map, hmapped, hgone, h.gfx, h.change, h.video, hused⟩
  · refine ⟨hnodup _ rfl, hlayers _ rfl, ?_, fun e he => ?_, hgone, h.gfx, h.change, h.video, hused⟩
    · refine List.nodup_cons.mpr ⟨fun hmem => ?_, h.map⟩
      obtain ⟨e, he, heq⟩ := List.mem_map.mp hmem
      exact Nat.ne_of_lt (h.mapped e he).1 heq
    · obtain rfl | he := List.mem_cons.mp he
      · exact ⟨Nat.lt_succ_self _, hfresh⟩
      · exact hmapped e he

theorem Inv.destroyLayer (h : m.Inv) (id : Nat) :
    Inv { m with
      display := (m.display.destroyLayer id).display
      misused := m.misused ++ (m.display.destroyLayer id).used.filter (· ∈ m.destroyed)
      destroyed := (m.display.findLayer id).toList ++ m.destroyed } := by
  unfold HdiDisplay.destroyLayer
  cases hfind : m.display.findLayer id with
  | none => exact h.same (.refl _) nofun
  | some p =>
    have hp := findLayer_mem hfind
    obtain ⟨hless, hthere⟩ := h.mapped _ hp
    refine ⟨?_, fun q hq => ?_, ?_, fun e he => ?_, fun q hq => ?_, h.gfx, h.change, h.video, ?_⟩
    · show (m.display.eraseLayer p).Nodup
      rw [eraseLayer_eq]
      exact h.nodup.erase p
    · have hq : q ∈ m.display.mLayers.erase p := eraseLayer_eq m.display p ▸ hq
      obtain ⟨hne, hq⟩ := (List.Nodup.mem_erase_iff h.nodup).mp hq
      refine ⟨(h.layers q hq).1, fun hmem => ?_⟩
      obtain rfl | hmem := List.mem_cons.mp hmem
      · exact hne rfl
      · exact (h.layers q hq).2 hmem
    · exact h.map.sublist (List.filter_sublist.map _)
    · obtain ⟨he, hid⟩ := List.mem_filter.mp he
      refine ⟨(h.mapped e he).1, fun hmem => ?_⟩
      obtain heq | hmem := List.mem_cons.mp hmem
      · -- no other id has the pointer
        have heq : e = (id, p) := List.inj_on_of_nodup_map h.map he hp heq
        simp [heq] at hid
      · exact (h.mapped e he).2 hmem
    · obtain rfl | hq := List.mem_cons.mp hq
      · exact hless
      · exact h.destroyed q hq
    · refine unused h.misused fun q hq => ?_
      obtain rfl | hq := List.mem_cons.mp hq
      · exact hthere
      · exact (h.layers q hq).2

theorem Inv.setLayerZorder (h : m.Inv) (id zorder : Nat) :
    Inv { m with
      display := (m.display.setLayerZorder id zorder).display
      misused := m.misused ++ (m.display.setLayerZorder id zorder).used.filter (· ∈ m.destroyed) } := by
  unfold HdiDisplay.setLayerZorder
  cases hfind : m.display.findLayer id with
  | none => exact h.same (.refl _) nofun
  | some p =>
    obtain ⟨hless, hthere⟩ := h.mapped _ (findLayer_mem hfind)
    dsimp only
    split
    · exact h.same (.refl _) fun q hq => List.mem_singleton.mp hq ▸ hthere
    -- the layer is erased and inserted again
    have hperm : ∀ s : HdiDisplay, s.mLayers = m.display.eraseLayer p →
        (s.insertLayer p).Perm (p :: m.display.mLayers.erase p) :=
      fun s hs => eraseLayer_eq m.display p ▸ hs ▸ insertLayer_perm s p
    refine ⟨?_, fun q hq => ?_, h.map, h.mapped, h.destroyed, h.gfx, h.change, h.video, ?_⟩
    · refine (hperm _ rfl).nodup_iff.mpr (List.nodup_cons.mpr ⟨?_, h.nodup.erase p⟩)
      exact List.Nodup.not_mem_erase h.nodup
    · obtain rfl | hq := List.mem_cons.mp ((hperm _ rfl).mem_iff.mp hq)
      · exact ⟨hless, hthere⟩
      · exact h.layers q (List.mem_of_mem_erase hq)
    · refine unused h.misused fun q hq => ?_
      obtain rfl | hq := List.mem_cons.mp hq
      · exact hthere
      · exact (h.layers q hq).2

theorem Inv.step {m' : LayerRun} {c : DisplayCall} (h : m.Inv) (hfair : m.Fair c) (hstep : m.Step c m') : m'.Inv := by
  unfold Step next at hstep
  split at hstep
  · cases hstep
  rename_i r hrun
  cases hstep
  cases c with
  | createLayer type => exact h.createLayer hrun
  | destroyLayer id =>
    cases hrun
    exact h.destroyLayer id
  | setLayerZorder id zorder =>
    cases hrun
    exact h.setLayerZorder id zorder
  | setLayerAttr id attr =>
    cases hrun
    obtain ⟨hlists, hused⟩ := setLayerAttr_lists m.display id attr
    exact h.same hlists fun p hp => (h.mapped _ (hused p hp)).2
  | prepareDisplayLayers =>
    cases hrun
    obtain ⟨hnext, hmap, hlayers, hgfx, hchange, hvideo⟩ := prepareDisplayLayers_lists m.display
    refine ⟨?_, ?_, ?_, ?_, ?_, ?_, hchange, hvideo, unused h.misused fun p hp => (h.layers p hp).2⟩
    · rw [hlayers]
      exact h.nodup
    · rw [hlayers, hnext]
      exact h.layers
    · rw [hmap]
      exact h.map
    · rw [hmap, hnext]
      exact h.mapped
    · rw [hnext]
      exact h.destroyed
    · rw [hgfx]
      exact fun _ hp => hp
  | getDisplayCompChange layers types =>
    cases hrun
    refine h.same (.refl _) fun p hp => ?_
    unfold getDisplayCompChange at hp
    split at hp
    · cases hp
    · have hasked : layers = true ∨ types = true := by cases layers <;> cases types <;> simp_all
      exact hfair hasked p (h.change p hp)
  | getDisplayReleaseFence layers fences =>
    cases hrun
    obtain ⟨hlists, hused⟩ := getDisplayReleaseFence_lists m.display layers fences
    exact h.same hlists fun p hp => (h.layers p (hused p hp)).2
  | setDisplayClientBuffer buffer fence =>
    cases hrun
    exact h.same (.setLayer _ _ _) nofun
  | setDisplayMode modeId =>
    cases hrun
    exact h.same ⟨rfl, rfl, rfl, rfl, rfl, .inl rfl⟩ nofun
  | commit a =>
    obtain ⟨hlists, hused⟩ := commit_lists hrun
    exact h.same hlists fun p hp => hfair p ((hused p hp).elim (h.gfx p) (h.video p))

theorem start_inv (layerIds : IdPool) (mPlanes : Planes) (mCrtc : DrmCrtc) (mConnector : DrmConnector) :
    Inv { display := .start layerIds mPlanes mCrtc mConnector } := by
  refine ⟨.nil, ?_, .nil, ?_, ?_, ?_, ?_, nofun, rfl⟩ <;> exact nofun

end LayerRun

/-- In every fair run no layer is used after it was destroyed. -/
theorem no_destroyed_layer_used {layerIds : IdPool} {mPlanes : Planes} {mCrtc : DrmCrtc} {mConnector : DrmConnector}
    {m : LayerRun}
    (hrun : Runs LayerRun.Step LayerRun.Fair { display := .start layerIds mPlanes mCrtc mConnector } m) :
    m.misused = [] := by
  have hinv : m.Inv := Runs.keeps (fun h hfair hstep => LayerRun.Inv.step h hfair hstep) hrun
    (LayerRun.start_inv layerIds mPlanes mCrtc mConnector)
  exact hinv.misused

instance LayerRun.decidableFair (m : LayerRun) : ∀ c, Decidable (m.Fair c)
  | .commit _ => inferInstanceAs (Decidable (∀ p ∈ m.prepared, p ∉ m.destroyed))
  | .getDisplayCompChange layers types =>
    inferInstanceAs (Decidable (layers = true ∨ types = true → ∀ p ∈ m.prepared, p ∉ m.destroyed))
  | .createLayer _ => isTrue trivial
  | .destroyLayer _ => isTrue trivial
  | .setLayerZorder _ _ => isTrue trivial
  | .setLayerAttr _ _ => isTrue trivial
  | .prepareDisplayLayers => isTrue trivial
  | .getDisplayReleaseFence _ _ => isTrue trivial
  | .setDisplayClientBuffer _ _ => isTrue trivial
  | .setDisplayMode _ => isTrue trivial

def layerRun : LayerRun :=
  { display := .start {} onlyPlane { id := 41 } onlyMode }

def layerFrame (rest : List DisplayCall) : List DisplayCall :=
  [.createLayer .graphic, .setLayerAttr 0 (.buffer { buffer := 6 } (-1)),
    .setDisplayClientBuffer (some { buffer := 5 }) (-1), .prepareDisplayLayers] ++ rest

/-- The layer is destroyed after the commit of its frame, and the next frame is prepared without it. -/
theorem no_destroyed_layer_used_in_two_frames : ∃ m, Runs LayerRun.Step LayerRun.Fair layerRun m ∧
    m.destroyed = [1] ∧ m.misused = [] := by
  have hplay : ((layerFrame [.getDisplayCompChange true true, .commit {}, .destroyLayer 0, .prepareDisplayLayers,
      .getDisplayCompChange true true, .commit {}]).foldlM (guarded LayerRun.Fair LayerRun.next) layerRun).any
      (fun m => decide (m.destroyed = [1])) = true := by
    decide +kernel
  obtain ⟨m, hrun, hm⟩ : ∃ m, Runs LayerRun.Step LayerRun.Fair layerRun m ∧ _ := Runs.of_guarded hplay id
  exact ⟨m, hrun, of_decide_eq_true hm, no_destroyed_layer_used hrun⟩

/-- The layer is destroyed between the preparation and the commit of its frame, or before the changes are asked for. -/
theorem destroyed_layer_used :
    ∃ m, Runs LayerRun.Step (fun _ _ => True) layerRun m ∧ m.misused = [] ∧ m.destroyed = [1] ∧
      (∃ m', LayerRun.Step m (.commit {}) m' ∧ m'.misused = [1]) ∧
      ∃ m', LayerRun.Step m (.getDisplayCompChange true true) m' ∧ m'.misused = [1] := by
  have hplay : ((layerFrame [.destroyLayer 0]).foldlM LayerRun.next layerRun).any (fun m => decide (
      (m.misused = [] ∧ m.destroyed = [1]) ∧ ((m.next (.commit {})).any fun m' => m'.misused == [1]) = true ∧
        ((m.next (.getDisplayCompChange true true)).any fun m' => m'.misused == [1]) = true)) = true := by
    decide +kernel
  obtain ⟨m, hrun, hm⟩ := Runs.of_play hplay fun {m c m'} h => (⟨trivial, h⟩ : True ∧ LayerRun.Step m c m')
  obtain ⟨⟨hmisused, hdestroyed⟩, hcommit, hchange⟩ := of_decide_eq_true hm
  obtain ⟨m₁, hstep₁, hused₁⟩ := (Option.any_eq_true _ _).mp hcommit
  obtain ⟨m₂, hstep₂, hused₂⟩ := (Option.any_eq_true _ _).mp hchange
  exact ⟨m, hrun, hmisused, hdestroyed, ⟨m₁, hstep₁, by simpa using hused₁⟩, m₂, hstep₂, by simpa using hused₂⟩

/-! ## The z-order -/

namespace HdiDisplay

def ZorderLe (s : HdiDisplay) (p q : Nat) : Prop := (s.layer p).mZorder ≤ (s.layer q).mZorder

/-- `mLayers` has the layers of `mLayersMap`, once each, by their z-order. -/
structure Ordered (s : HdiDisplay) : Prop where
  ids : (s.mLayersMap.map Prod.fst).Nodup
  nodup : s.mLayers.Nodup
  perm : s.mLayers.Perm (s.mLayersMap.map Prod.snd)
  sorted : s.mLayers.Pairwise s.ZorderLe
  below : ∀ p ∈ s.mLayers, p < s.next

/-- The calls that change the lists, where a new layer gets an id that no other layer has. -/
def OrderCall (s : HdiDisplay) : DisplayCall → Prop
  | .createLayer _ => ∀ id pool, s.layerIds.getIdleId = some (id, pool) → s.findLayer id = none
  | .destroyLayer _ => True
  | .setLayerZorder _ _ => True
  | _ => False

end HdiDisplay

theorem insertLayer_sorted {p : Nat} (h : s.mLayers.Pairwise s.ZorderLe) : (s.insertLayer p).Pairwise s.ZorderLe := by
  unfold insertLayer
  dsimp only
  generalize s.mLayers = l at h ⊢
  induction l with
  | nil => exact List.pairwise_singleton _ p
  | cons q qs ih =>
    obtain ⟨hq, hqs⟩ := List.pairwise_cons.mp h
    by_cases hle : (s.layer q).mZorder ≤ (s.layer p).mZorder
    · rw [List.takeWhile_cons_of_pos (by simpa using hle), List.dropWhile_cons_of_pos (by simpa using hle)]
      refine List.pairwise_cons.mpr ⟨fun q' hq' => ?_, ih hqs⟩
      have hmem := List.perm_middle.mem_iff.mp hq'
      rw [List.takeWhile_append_dropWhile] at hmem
      obtain rfl | hmem := List.mem_cons.mp hmem
      · exact hle
      · exact hq q' hmem
    · rw [List.takeWhile_cons_of_neg (by simpa using hle), List.dropWhile_cons_of_neg (by simpa using hle)]
      refine List.pairwise_cons.mpr ⟨fun q' hq' => ?_, h⟩
      obtain rfl | hq' := List.mem_cons.mp hq'
      · exact Nat.le_of_not_le hle
      · exact (Nat.le_of_not_le hle).trans (hq q' hq')

theorem setLayer_sorted {p : Nat} (l : HdiLayer) (h : s.mLayers.Pairwise s.ZorderLe) (hp : p ∉ s.mLayers) :
    ((s.setLayer p l).insertLayer p).Pairwise (s.setLayer p l).ZorderLe := by
  have hother : ∀ q ∈ s.mLayers, (s.setLayer p l).layer q = s.layer q :=
    fun q hq => if_neg fun heq : q = p => hp (heq ▸ hq)
  refine insertLayer_sorted (h.imp_of_mem fun {a b} ha hb hab => ?_)
  unfold ZorderLe
  rwa [hother a ha, hother b hb]

theorem eraseLayer_perm {p : Nat} (h : p ∈ s.mLayers) : s.mLayers.Perm (p :: s.eraseLayer p) :=
  eraseLayer_eq s p ▸ List.perm_cons_erase h

namespace HdiDisplay.Ordered

theorem mem {id p : Nat} (h : s.Ordered) (hfind : s.findLayer id = some p) : p ∈ s.mLayers :=
  h.perm.mem_iff.mpr (List.mem_map.mpr ⟨_, findLayer_mem hfind, rfl⟩)

theorem sorted_erase (h : s.Ordered) (p : Nat) : (s.eraseLayer p).Pairwise s.ZorderLe :=
  eraseLayer_eq s p ▸ h.sorted.sublist List.erase_sublist

theorem createLayer {type : LayerType} {r : Called} (h : s.Ordered) (hfresh : s.OrderCall (.createLayer type))
    (hrun : s.createLayer type = .ok r) : r.display.Ordered := by
  unfold HdiDisplay.createLayer at hrun
  split at hrun
  · cases hrun
  rename_i id pool hid
  split at hrun
  · cases hrun
    exact ⟨h.ids, h.nodup, h.perm, h.sorted, h.below⟩
  cases hrun
  have hnone : s.findLayer id = none := hfresh id pool hid
  have hnew : s.next ∉ s.mLayers := fun hmem => Nat.lt_irrefl _ (h.below _ hmem)
  have hperm := insertLayer_perm (s.setLayer s.next { mId := id, mType := type }) s.next
  split
  · rename_i hsome
    have hsome : (s.findLayer id).isSome := hsome
    rw [hnone] at hsome
    cases hsome
  refine ⟨List.nodup_cons.mpr ⟨fun hmem => ?_, h.ids⟩, hperm.nodup_iff.mpr (List.nodup_cons.mpr ⟨hnew, h.nodup⟩),
    hperm.trans (h.perm.cons _), setLayer_sorted _ h.sorted hnew, fun p hp => ?_⟩
  · obtain ⟨e, he, heq⟩ := List.mem_map.mp hmem
    exact List.find?_eq_none.mp (Option.map_eq_none_iff.mp hnone) e he (beq_iff_eq.mpr heq)
  · obtain rfl | hp := List.mem_cons.mp (hperm.mem_iff.mp hp)
    · exact Nat.lt_succ_self _
    · exact Nat.lt_succ_of_lt (h.below p hp)

theorem destroyLayer (h : s.Ordered) (id : Nat) : (s.destroyLayer id).display.Ordered := by
  unfold HdiDisplay.destroyLayer
  cases hfind : s.findLayer id with
  | none => exact h
  | some p =>
    have hmem := findLayer_mem hfind
    have hmap : s.mLayersMap.Perm ((id, p) :: s.mLayersMap.filter fun e => e.1 ≠ id) := by
      refine (List.perm_ext_iff_of_nodup h.ids.of_map (List.nodup_cons.mpr ⟨by simp, h.ids.of_map.filter _⟩)).mpr
        fun e => ?_
      simp only [List.mem_cons, List.mem_filter, decide_eq_true_eq]
      refine ⟨fun he => ?_, fun he => he.elim (fun heq => heq ▸ hmem) And.left⟩
      by_cases heq : e.1 = id
      · exact .inl (List.inj_on_of_nodup_map h.ids he hmem heq)
      · exact .inr ⟨he, heq⟩
    have hperm := ((eraseLayer_perm (h.mem hfind)).symm.trans h.perm).trans (hmap.map Prod.snd)
    refine ⟨h.ids.sublist (List.filter_sublist.map _), ?_, hperm.cons_inv, h.sorted_erase p, fun q hq => ?_⟩
    · exact (List.nodup_cons.mp ((eraseLayer_perm (h.mem hfind)).nodup_iff.mp h.nodup)).2
    · exact h.below q ((eraseLayer_perm (h.mem hfind)).mem_iff.mpr (List.mem_cons_of_mem p hq))

theorem setLayerZorder (h : s.Ordered) (id zorder : Nat) : (s.setLayerZorder id zorder).display.Ordered := by
  unfold HdiDisplay.setLayerZorder
  cases hfind : s.findLayer id with
  | none => exact h
  | some p =>
    dsimp only
    split
    · exact h
    -- the key of the layer changes while the layer is out of the list
    have hperm := fun s' : HdiDisplay => fun hs : s'.mLayers = s.eraseLayer p =>
      (hs ▸ insertLayer_perm s' p).trans (eraseLayer_perm (h.mem hfind)).symm
    refine ⟨h.ids, (hperm _ rfl).nodup_iff.mpr h.nodup, (hperm _ rfl).trans h.perm, ?_,
      fun q hq => h.below q ((hperm _ rfl).mem_iff.mp hq)⟩
    exact setLayer_sorted (s := { s with mLayers := s.eraseLayer p }) _ (h.sorted_erase p)
      (eraseLayer_eq s p ▸ h.nodup.not_mem_erase)

end HdiDisplay.Ordered

end Amlogic.Display
