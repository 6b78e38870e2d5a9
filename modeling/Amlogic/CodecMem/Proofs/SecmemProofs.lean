import Amlogic.Base.Runs
import Amlogic.CodecMem.Secmem

/-!
# Records of secure memory are freed

A record is freed when no dma-buf refers to it any more, unless there was no descriptor for it.
-/

namespace Amlogic.Secmem

variable {s s' : State}

/-- A record is freed or in use, and it is freed once more if it has failed. -/
def State.Inv (s : State) : Prop := ∀ r,
  s.freed.count r + min 1 (s.descriptors.count r) = min 1 (s.records - r) + s.fdFailed.count r ∧
    s.fdFailed.count r + min 1 (s.descriptors.count r) ≤ min 1 (s.records - r)

theorem State.Inv.step {call : Call} (h : s.Inv) (hstep : call.Step s s') : s'.Inv := by
  intro r
  have hr := h r
  cases call with
  | secmemExport answers =>
    subst hstep
    unfold secmemExport
    split_ifs with hk hc hfd
    · exact hr
    -- the new record is freed once, freed twice, or in use
    all_goals
      simp only [State.kfree, List.count_cons, beq_iff_eq]
      split_ifs <;> omega
  | dup r₀ =>
    obtain ⟨hmem, rfl⟩ := hstep
    have hpos := List.count_pos_iff.mpr hmem
    obtain rfl | he := eq_or_ne r₀ r
    · simp only [List.count_cons_self]
      omega
    · simpa only [List.count_cons_of_ne he] using hr
  | closeFd r₀ =>
    obtain ⟨hmem, rfl⟩ := hstep
    have hpos := List.count_pos_iff.mpr hmem
    unfold closeFd
    dsimp only
    obtain rfl | he := eq_or_ne r₀ r
    · have herase := List.count_erase_self (a := r₀) (l := s.descriptors)
      split_ifs with hstill
      · have hpos' := List.count_pos_iff.mpr hstill
        dsimp only at hpos' ⊢
        omega
      · have hzero := List.count_eq_zero.mpr hstill
        simp only [State.kfree, List.count_cons_self] at hzero ⊢
        omega
    · split_ifs
      · simpa only [List.count_erase_of_ne he.symm] using hr
      · simpa only [State.kfree, List.count_erase_of_ne he.symm, List.count_cons_of_ne he] using hr

end Amlogic.Secmem
