import Amlogic.Ge2d.Config

/-!
# GE2D: the scaler (`ge2d_set_cmd` of `ge2d/ge2d_hw.c`)

Before it writes the registers, `ge2d_set_cmd` works out the steps and the first phases of the scaler and notes them
in the command. A division by zero has no result.
-/

namespace Amlogic.Ge2d

def Cmd.widthi (cfg : Cmd) : Word := cfg.src1XEnd - cfg.src1XStart + 1

def Cmd.heighti (cfg : Cmd) : Word := cfg.src1YEnd - cfg.src1YStart + 1

def Cmd.widtho (cfg : Cmd) : Word :=
  if cfg.dstXySwap ≠ 0 then cfg.dstYEnd - cfg.dstYStart + 1 else cfg.dstXEnd - cfg.dstXStart + 1

def Cmd.heighto (cfg : Cmd) : Word :=
  if cfg.dstXySwap ≠ 0 then cfg.dstXEnd - cfg.dstXStart + 1 else cfg.dstYEnd - cfg.dstYStart + 1

/-- A side of the source behind the pre-scaler, which halves what is more than twice the output. -/
def preScaled (i o : Word) : Word := if 2 * o.toNat < i.toNat then (i + 1) >>> 1 else i

/-- `hsc_phase_step` or `vsc_phase_step`, unless the client has set it. -/
def phaseStep (step i o : Word) : Option Word :=
  if step ≠ 0 then some step
  else if o = 0 then none
  else some (((preScaled i o <<< 18) / o) <<< 6)

def Cmd.Divides (cfg : Cmd) : Prop := cfg.scHscEn ≠ 0 ∧ cfg.hscDivEn ≠ 0

instance (cfg : Cmd) : Decidable cfg.Divides := inferInstanceAs (Decidable (_ ∧ _))

/-- The members for the divider. The step is an `int`, by which a `long` is divided. -/
def setDivider (cfg : Cmd) : Option Cmd :=
  if ¬cfg.Divides then some cfg
  else if cfg.hscPhaseStep = 0 then none
  else
    let hscDivLength := BitVec.ofInt 32 (Int.tdiv (124 * 2 ^ 24) cfg.hscPhaseStep.toInt)
    let multo := cfg.hscPhaseStep * hscDivLength
    some { cfg with hscDivLength, hscAdvNum := multo >>> 24, hscAdvPhase := multo &&& 0xffffff }

/-- Whether the scaler of a direction is used, its repetitions and its first phase, by the rate in tenths. -/
def scaleRate (i o en : Word) (rpt : UChar) : Option (Word × UChar × Word) :=
  if i = 0 then none
  else
    let rate := BitVec.ofNat 32 (o.toNat * 10 / i.toNat)
    if rate = 10 then some (en, rpt, 0)
    else if rate.slt 10 then
      some (1, 1, if rate ≠ 0 then BitVec.sdiv 0x5000000 rate - 0x800000 else 0x5000000)
    else some (1, 2, 0x800000 + BitVec.sdiv 0x5000000 rate)

/-- The first phases, unless a Gaussian filter is used. -/
def setIniPhases (gaulFilterUsed : Bool) (cfg : Cmd) : Option Cmd := do
  if gaulFilterUsed then return cfg
  let (scHscEn, hscRptP0Num, hscIniPhase) ← scaleRate cfg.widthi cfg.widtho cfg.scHscEn cfg.hscRptP0Num
  let (scVscEn, vscRptL0Num, vscIniPhase) ← scaleRate cfg.heighti cfg.heighto cfg.scVscEn cfg.vscRptL0Num
  return { cfg with scHscEn, hscRptP0Num, hscIniPhase, scVscEn, vscRptL0Num, vscIniPhase }

/-- `ge2d_set_cmd`, up to the registers of the scaler. -/
def ge2dSetCmd (gaulFilterUsed : Bool) (cfg : Cmd) : Option Cmd := do
  let hscPhaseStep ← phaseStep cfg.hscPhaseStep cfg.widthi cfg.widtho
  let vscPhaseStep ← phaseStep cfg.vscPhaseStep cfg.heighti cfg.heighto
  let cfg ← setDivider { cfg with hscPhaseStep, vscPhaseStep }
  setIniPhases gaulFilterUsed cfg

end Amlogic.Ge2d
