import Amlogic.Display.Proofs.CommitProofs

/-!
# Composition without the graphics library

`HdiGfxComposition::Init` announces that the client will compose all layers if the library cannot be used, but
`SetLayers` never asks it to.
-/

namespace Amlogic.Display

variable {layers : List Nat} {s : HdiDisplay}

/-- The library can be used or all layers are left to the client, and no layer fails for want of the library. -/
def HdiGfxComposition.FallsBack (g : HdiGfxComposition) (layers : List Nat) (s : HdiDisplay) : Prop :=
  (g.valid = true ∨ ∀ p ∈ layers, ((gfxSetLayers layers s).layer p).mDeviceSelect = .client) ∧
    ∀ op, gfxApply { funcs := g.mGfxFuncs, op } (gfxSetLayers layers s) 0 layers =
      gfxApply { op } (gfxSetLayers layers s) 0 layers

theorem gfxSetLayers_select {p : Nat} (hp : p ∈ layers) :
    ((gfxSetLayers layers s).layer p).mDeviceSelect ≠ .client := by
  suffices hfold : ∀ (ps : List Nat) (s : HdiDisplay), p ∈ ps ∨ (s.layer p).mDeviceSelect ≠ .client →
      ((gfxSetLayers ps s).layer p).mDeviceSelect ≠ .client from hfold layers s (.inl hp)
  intro ps
  induction ps with
  | nil => exact fun s h => h.resolve_left List.not_mem_nil
  | cons q qs ih =>
    intro s h
    refine ih _ ?_
    by_cases hq : p = q
    · subst hq
      refine .inr ?_
      simp only [HdiDisplay.setLayer, if_true]
      split_ifs with htype
      · decide
      · intro hclient
        simp [hclient] at htype
    · refine h.imp (fun hmem => (List.mem_cons.mp hmem).resolve_left hq) fun hselect => ?_
      simpa only [HdiDisplay.setLayer, if_neg hq] using hselect

/-- Where `Init` succeeds, it falls back exactly if there is nothing to fall back from. -/
theorem gfx_falls_back_iff {m : GfxModule} (h : (gfxInit m).1 = .success) (layers : List Nat) (s : HdiDisplay) :
    (gfxInit m).2.FallsBack layers s ↔ (m.found = true ∧ m.ret = 0 ∧ m.funcs = true) ∨ layers = [] := by
  have hvalid : (gfxInit m).2.valid = true ↔ m.found = true ∧ m.ret = 0 ∧ m.funcs = true := by
    obtain ⟨found, ret, funcs, initGfx⟩ := m
    unfold gfxInit at h ⊢
    cases found <;> cases funcs <;> by_cases hret : ret = 0 <;> by_cases hinit : initGfx = 0 <;>
      simp_all
  constructor
  · rintro ⟨huse | hclient, -⟩
    · exact .inl (hvalid.mp huse)
    · exact .inr (List.eq_nil_iff_forall_not_mem.mpr fun p hp => gfxSetLayers_select hp (hclient p hp))
  · rintro (hloads | rfl)
    · refine ⟨.inl (hvalid.mpr hloads), fun op => ?_⟩
      have hfuncs : (gfxInit m).2.mGfxFuncs = true := by
        obtain ⟨found, ret, funcs, initGfx⟩ := m
        obtain ⟨rfl, rfl, rfl⟩ := hloads
        unfold gfxInit
        by_cases hinit : initGfx = 0 <;> simp [hinit]
      rw [hfuncs]
    · exact ⟨.inr nofun, fun _ => rfl⟩

def bufferedLayers : HdiDisplay :=
  { HdiDisplay.start {} onlyPlane { id := 41 } onlyMode with layer := fun _ => { mHdiBuffer := some { buffer := 5 } } }

theorem gfx_falls_back_loaded : (gfxInit {}).1 = .success ∧ (gfxInit {}).2.FallsBack [1] bufferedLayers :=
  ⟨rfl, (gfx_falls_back_iff rfl [1] bufferedLayers).mpr (.inl ⟨rfl, rfl, rfl⟩)⟩

/-- The library is not found: a layer is still left to it, and fails, which it would not with the library. -/
theorem gfx_no_fallback : (gfxInit { found := false }).1 = .success ∧
    ((gfxSetLayers [1] bufferedLayers).layer 1).mDeviceSelect = .device ∧
    (gfxApply { funcs := (gfxInit { found := false }).2.mGfxFuncs } (gfxSetLayers [1] bufferedLayers) 0 [1]).1 =
      .failure ∧
    (gfxApply {} (gfxSetLayers [1] bufferedLayers) 0 [1]).1 = .success := by
  decide

end Amlogic.Display
