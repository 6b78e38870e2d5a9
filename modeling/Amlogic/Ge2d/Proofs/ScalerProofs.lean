import Amlogic.Ge2d.Scaler

/-!
# GE2D: when the numbers of the scaler are exact
-/

namespace Amlogic.Ge2d

def Side (side : Word) : Prop := 1 ≤ side.toNat ∧ side.toNat ≤ 8192

def ratio (i o : Word) : Nat := (preScaled i o).toNat * 2 ^ 18 / o.toNat

/-- Exact steps, and an exact divider that fits its field. -/
structure Cmd.Exact (cfg cfg' : Cmd) : Prop where
  hsc : cfg'.hscPhaseStep.toInt = ratio cfg.widthi cfg.widtho * 64
  vsc : cfg'.vscPhaseStep.toInt = ratio cfg.heighti cfg.heighto * 64
  fits : cfg.Divides → cfg'.hscDivLength.toNat < 2 ^ 13
  adv : cfg.Divides → cfg'.hscAdvNum.toNat * 2 ^ 24 + cfg'.hscAdvPhase.toNat =
    cfg'.hscPhaseStep.toNat * cfg'.hscDivLength.toNat

/-- There is no division by zero, and the numbers are exact. -/
def ScalerLaw (gaulFilterUsed : Bool) (cfg : Cmd) : Prop :=
  ∃ cfg', ge2dSetCmd gaulFilterUsed cfg = some cfg' ∧ cfg.Exact cfg'

theorem preScaled_side {i o : Word} (hi : Side i) : Side (preScaled i o) := by
  obtain ⟨h1, h2⟩ := hi
  unfold preScaled Side
  split_ifs
  · rw [BitVec.toNat_ushiftRight, BitVec.toNat_add, Nat.shiftRight_eq_div_pow]
    have hone : (1 : Word).toNat = 1 := rfl
    rw [hone]
    omega
  · exact ⟨h1, h2⟩

theorem phaseStep_side {i o : Word} (hi : Side i) (ho : Side o) : ∃ step, phaseStep 0 i o = some step ∧
    step.toNat = ratio i o * 64 % 2 ^ 32 ∧ 0 < ratio i o := by
  obtain ⟨h1, h2⟩ := preScaled_side (o := o) hi
  have hzero : o ≠ 0 := fun h => by simp [h, Side] at ho
  refine ⟨_, by rw [phaseStep, if_neg (not_not_intro rfl), if_neg hzero], ?_, Nat.div_pos ?_ ho.1⟩
  · rw [BitVec.toNat_shiftLeft, BitVec.toNat_udiv, BitVec.toNat_shiftLeft, Nat.shiftLeft_eq, Nat.shiftLeft_eq,
      Nat.mod_eq_of_lt (a := _ * 2 ^ 18) (by omega)]
    rfl
  · have := ho.2
    omega

theorem step_exact_iff {step : Word} {k : Nat} (h : step.toNat = k * 64 % 2 ^ 32) :
    step.toInt = k * 64 ↔ k < 2 ^ 25 := by
  rw [BitVec.toInt_eq_toNat_cond, h]
  split_ifs <;> omega

theorem high_low (x : Word) : (x >>> 24).toNat * 2 ^ 24 + (x &&& 0xffffff).toNat = x.toNat := by
  have hmask : (0xffffff : Word).toNat = 2 ^ 24 - 1 := rfl
  rw [BitVec.toNat_ushiftRight, BitVec.toNat_and, Nat.shiftRight_eq_div_pow, hmask, Nat.and_two_pow_sub_one_eq_mod]
  exact Nat.div_add_mod' ..

theorem setDivider_exact {cfg : Cmd} {k : Nat} (hdiv : cfg.Divides) (hstep : cfg.hscPhaseStep.toNat = k * 64)
    (hpos : 0 < k) (hk : k < 2 ^ 25) :
    ∃ d, setDivider cfg = some d ∧ (d.hscDivLength.toNat < 2 ^ 13 ↔ 3969 ≤ k) ∧
      d.hscAdvNum.toNat * 2 ^ 24 + d.hscAdvPhase.toNat = d.hscPhaseStep.toNat * d.hscDivLength.toNat := by
  have hzero : cfg.hscPhaseStep ≠ 0 := fun h => by simp [h] at hstep; omega
  have hle : 124 * 2 ^ 24 / (k * 64) ≤ 124 * 2 ^ 24 := Nat.div_le_self ..
  have hmul : k * 64 * (124 * 2 ^ 24 / (k * 64)) ≤ 124 * 2 ^ 24 := Nat.mul_div_le ..
  have hlength : (BitVec.ofInt 32 (Int.tdiv (124 * 2 ^ 24) cfg.hscPhaseStep.toInt)).toNat = 124 * 2 ^ 24 / (k * 64) := by
    have hint : cfg.hscPhaseStep.toInt = (k * 64 : Nat) := by
      rw [BitVec.toInt_eq_toNat_cond, hstep, if_pos (by omega)]
    have htdiv : Int.tdiv (124 * 2 ^ 24) cfg.hscPhaseStep.toInt = (124 * 2 ^ 24 / (k * 64) : Nat) := by
      rw [hint]
      rfl
    rw [htdiv, BitVec.ofInt_natCast, BitVec.toNat_ofNat, Nat.mod_eq_of_lt (by omega)]
  refine ⟨_, (if_neg (not_not_intro hdiv)).trans (if_neg hzero), ?_, (high_low _).trans ?_⟩
  · show (BitVec.ofInt 32 _).toNat < _ ↔ _
    rw [hlength, Nat.div_lt_iff_lt_mul (by omega)]
    omega
  · show (_ * BitVec.ofInt 32 _).toNat = _ * (BitVec.ofInt 32 _).toNat
    rw [BitVec.toNat_mul, hlength, hstep]
    exact Nat.mod_eq_of_lt (by omega)

theorem setDivider_keeps {cfg d : Cmd} (h : setDivider cfg = some d) : d.widthi = cfg.widthi ∧
    d.heighti = cfg.heighti ∧ d.hscPhaseStep = cfg.hscPhaseStep ∧ d.vscPhaseStep = cfg.vscPhaseStep := by
  unfold setDivider at h
  split_ifs at h <;> cases h <;> exact ⟨rfl, rfl, rfl, rfl⟩

theorem scaleRate_side {i : Word} (hi : Side i) (o en : Word) (rpt : UChar) : ∃ r, scaleRate i o en rpt = some r := by
  have hzero : i ≠ 0 := fun h => by simp [h, Side] at hi
  unfold scaleRate
  rw [if_neg hzero]
  dsimp only
  split_ifs
  all_goals exact ⟨_, rfl⟩

theorem setIniPhases_exact (gaulFilterUsed : Bool) {cfg d : Cmd} (hwi : Side d.widthi) (hhi : Side d.heighti) :
    ∃ cfg', setIniPhases gaulFilterUsed d = some cfg' ∧ (cfg.Exact cfg' ↔ cfg.Exact d) := by
  obtain ⟨r, hr⟩ := scaleRate_side hwi d.widtho d.scHscEn d.hscRptP0Num
  obtain ⟨r', hr'⟩ := scaleRate_side hhi d.heighto d.scVscEn d.vscRptL0Num
  unfold setIniPhases
  rw [hr, hr']
  cases gaulFilterUsed with
  | true => exact ⟨_, rfl, Iff.rfl⟩
  | false => exact ⟨_, rfl, fun h => ⟨h.hsc, h.vsc, h.fits, h.adv⟩, fun h => ⟨h.hsc, h.vsc, h.fits, h.adv⟩⟩

theorem ratio_lt {i o : Word} (ho : Side o) : ratio i o < 2 ^ 25 ↔ (preScaled i o).toNat < 128 * o.toNat := by
  rw [ratio, Nat.div_lt_iff_lt_mul ho.1]
  omega

/-- The law holds for steps below 128, and from 3969 / 2¹⁸ on if the divider is used. -/
theorem scaler_exact_iff (gaulFilterUsed : Bool) {cfg : Cmd} (hwi : Side cfg.widthi) (hhi : Side cfg.heighti)
    (hwo : Side cfg.widtho) (hho : Side cfg.heighto) (hh : cfg.hscPhaseStep = 0) (hv : cfg.vscPhaseStep = 0) :
    ScalerLaw gaulFilterUsed cfg ↔ (preScaled cfg.widthi cfg.widtho).toNat < 128 * cfg.widtho.toNat ∧
      (preScaled cfg.heighti cfg.heighto).toNat < 128 * cfg.heighto.toNat ∧
      (cfg.Divides → 3969 * cfg.widtho.toNat ≤ (preScaled cfg.widthi cfg.widtho).toNat * 2 ^ 18) := by
  obtain ⟨h, hstep, hval, hpos⟩ := phaseStep_side hwi hwo
  obtain ⟨v, vstep, vval, -⟩ := phaseStep_side hhi hho
  have hrun : ge2dSetCmd gaulFilterUsed cfg =
      setDivider { cfg with hscPhaseStep := h, vscPhaseStep := v } >>= setIniPhases gaulFilterUsed := by
    unfold ge2dSetCmd
    rw [hh, hv, hstep, vstep]
    rfl
  rw [← ratio_lt hwo, ← ratio_lt hho, ← Nat.le_div_iff_mul_le hwo.1]
  unfold ScalerLaw
  rw [hrun]
  constructor
  · rintro ⟨cfg', hcfg, hexact⟩
    obtain ⟨d, hd, hini⟩ := Option.bind_eq_some_iff.mp hcfg
    obtain ⟨hwd, hhd, hsc, vsc⟩ := setDivider_keeps hd
    obtain ⟨_, hini', hiff⟩ := @setIniPhases_exact gaulFilterUsed cfg d (hwd ▸ hwi) (hhd ▸ hhi)
    cases hini.symm.trans hini'
    have hd' := hiff.mp hexact
    have hk := (step_exact_iff hval).mp ((congrArg BitVec.toInt hsc).symm.trans hd'.hsc)
    refine ⟨hk, (step_exact_iff vval).mp ((congrArg BitVec.toInt vsc).symm.trans hd'.vsc), fun hdiv => ?_⟩
    obtain ⟨_, hd2, hfits, -⟩ := @setDivider_exact { cfg with hscPhaseStep := h, vscPhaseStep := v } _ hdiv
      (hval.trans (Nat.mod_eq_of_lt (by omega))) hpos hk
    cases hd.symm.trans hd2
    exact hfits.mp (hd'.fits hdiv)
  · rintro ⟨hk, hkv, hdiv⟩
    obtain ⟨d, hset, hexact⟩ : ∃ d, setDivider { cfg with hscPhaseStep := h, vscPhaseStep := v } = some d ∧
        cfg.Exact d := by
      have hsc := (step_exact_iff hval).mpr hk
      have vsc := (step_exact_iff vval).mpr hkv
      by_cases hd : cfg.Divides
      · obtain ⟨d, hset, hfits, hadv⟩ := @setDivider_exact { cfg with hscPhaseStep := h, vscPhaseStep := v } _ hd
          (hval.trans (Nat.mod_eq_of_lt (by omega))) hpos hk
        obtain ⟨-, -, hh', hv'⟩ := setDivider_keeps hset
        exact ⟨d, hset, (congrArg BitVec.toInt hh').trans hsc, (congrArg BitVec.toInt hv').trans vsc,
          fun _ => hfits.mpr (hdiv hd), fun _ => hadv⟩
      · exact ⟨_, if_pos hd, hsc, vsc, fun h => absurd h hd, fun h => absurd h hd⟩
    obtain ⟨hwd, hhd, -⟩ := setDivider_keeps hset
    obtain ⟨cfg', hini, hiff⟩ := @setIniPhases_exact gaulFilterUsed cfg d (hwd ▸ hwi) (hhd ▸ hhi)
    exact ⟨cfg', by rw [hset]; exact hini, hiff.mpr hexact⟩

def stretchLine (i o : Word) : Cmd := { src1XEnd := i - 1, dstXEnd := o - 1, scHscEn := 1, scVscEn := 1, hscDivEn := 1 }

theorem scaler_exact_half : ScalerLaw false (stretchLine 2 1) :=
  (scaler_exact_iff false ⟨by decide, by decide⟩ ⟨by decide, by decide⟩ ⟨by decide, by decide⟩ ⟨by decide, by decide⟩
    rfl rfl).mpr (by decide)

/-- From 8192 pixels to one there is a division by zero; the other way round the divider does not fit its field. -/
theorem scaler_extreme : ge2dSetCmd false (stretchLine 8192 1) = none ∧
    ((ge2dSetCmd false (stretchLine 1 8192)).map fun cfg => cfg.hscDivLength.toNat) = some 1015808 := by
  decide

end Amlogic.Ge2d
