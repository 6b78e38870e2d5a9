import Mathlib

/-!
# GE2D: configurations and commands (`include/linux/amlogic/media/ge2d/ge2d.h`)

A client of the GE2D driver describes the pictures it works on in the configuration of its context, and what is to
be done with them in a command. A command takes a copy of the configuration with it.

The members that no function here reads or writes are left out.
-/

namespace Amlogic.Ge2d

abbrev Word := BitVec 32

abbrev UChar := BitVec 8

/-- The planes of a picture, of which there are `MAX_PLANE`. -/
abbrev Plane := Fin 4

scoped instance planesNeZero : NeZero 4 := ⟨by decide⟩

/-! ## Commands -/

structure Cmd where
  src1XStart : Word := 0
  src1YStart : Word := 0
  src1XEnd : Word := 0
  src1YEnd : Word := 0
  src1XRev : UChar := 0
  src1YRev : UChar := 0
  src1FillColorEn : UChar := 0
  src1Fmt : Word := 0
  src2XStart : Word := 0
  src2YStart : Word := 0
  src2XEnd : Word := 0
  src2YEnd : Word := 0
  src2XRev : UChar := 0
  src2YRev : UChar := 0
  src2FillColorEn : UChar := 0
  dstXStart : Word := 0
  dstYStart : Word := 0
  dstXEnd : Word := 0
  dstYEnd : Word := 0
  dstXySwap : UChar := 0
  dstXRev : UChar := 0
  dstYRev : UChar := 0
  dstFmt : Word := 0
  scHscEn : Word := 0
  scVscEn : Word := 0
  vscPhaseStep : Word := 0
  vscPhaseSlope : Word := 0
  vscRptL0Num : UChar := 0
  vscIniPhase : Word := 0
  hscPhaseStep : Word := 0
  hscPhaseSlope : Word := 0
  hscRptP0Num : UChar := 0
  hscIniPhase : Word := 0
  hscDivEn : UChar := 0
  hscDivLength : Word := 0
  hscAdvNum : Word := 0
  hscAdvPhase : Word := 0
  src1CmultAsel : UChar := 0
  src2CmultAsel : UChar := 0
  src2CmultAd : UChar := 0
  colorBlendMode : UChar := 0
  colorSrcBlendFactor : UChar := 0
  colorDstBlendFactor : UChar := 0
  colorLogicOp : UChar := 0
  alphaBlendMode : UChar := 0
  alphaSrcBlendFactor : UChar := 0
  alphaDstBlendFactor : UChar := 0
  alphaLogicOp : UChar := 0
  waitDoneFlag : UChar := 0
  hangFlag : UChar := 0
  deriving DecidableEq

/-! ## Configurations -/

structure Src1Data where
  urgentEn : UChar := 0
  ddrBurstSizeY : UChar := 0
  ddrBurstSizeCb : UChar := 0
  ddrBurstSizeCr : UChar := 0
  canaddr : Word := 0
  xYcRatio : UChar := 0
  yYcRatio : UChar := 0
  sepEn : UChar := 0
  format : UChar := 0
  endian : UChar := 0
  colorMap : UChar := 0
  mode8bSel : UChar := 0
  lutEn : UChar := 0
  deepColor : UChar := 0
  multRounding : UChar := 0
  alphaConvMode0 : UChar := 0
  alphaConvMode1 : UChar := 0
  colorConvMode0 : UChar := 0
  colorConvMode1 : UChar := 0
  defColor : Word := 0
  formatAll : Word := 0
  phyAddr : Word := 0
  stride : Word := 0
  deriving DecidableEq

structure Src1Gen where
  clipxStart : Word := 0
  clipxEnd : Word := 0
  clipyStart : Word := 0
  clipyEnd : Word := 0
  clipxStartEx : UChar := 0
  clipxEndEx : UChar := 0
  clipyStartEx : UChar := 0
  clipyEndEx : UChar := 0
  picStruct : UChar := 0
  fillMode : UChar := 0
  outsideAlpha : Word := 0
  chfmtRptPix : UChar := 0
  cvfmtRptPix : UChar := 0
  deriving DecidableEq

structure Src2DstData where
  urgentEn : UChar := 0
  ddrBurstSize : UChar := 0
  src2Canaddr : UChar := 0
  src2Format : UChar := 0
  src2Endian : UChar := 0
  src2ColorMap : UChar := 0
  src2Mode8bSel : UChar := 0
  src2DefColor : Word := 0
  dstCanaddr : Word := 0
  dstFormat : UChar := 0
  dstEndian : UChar := 0
  dstColorMap : UChar := 0
  dstMode8bSel : UChar := 0
  src2FormatAll : Word := 0
  dstFormatAll : Word := 0
  dst2PixelByteWidth : UChar := 0
  dst2ColorMap : UChar := 0
  dst2DiscardMode : UChar := 0
  dst2Enable : UChar := 0
  src2Phyaddr : Word := 0
  src2Stride : Word := 0
  dstPhyaddr : Word := 0
  dstStride : Word := 0
  deriving DecidableEq

structure Src2DstGen where
  src2ClipxStart : Word := 0
  src2ClipxEnd : Word := 0
  src2ClipyStart : Word := 0
  src2ClipyEnd : Word := 0
  src2PicStruct : UChar := 0
  src2FillMode : UChar := 0
  src2OutsideAlpha : Word := 0
  dstClipxStart : Word := 0
  dstClipxEnd : Word := 0
  dstClipyStart : Word := 0
  dstClipyEnd : Word := 0
  dstClipMode : UChar := 0
  dstPicStruct : UChar := 0
  deriving DecidableEq

/-- `struct ge2d_dp_gen_s`, without the members that `ge2d_set_dp_gen` sets before it reads them. -/
structure DpGen where
  src1VscPhase0AlwaysEn : UChar := 0
  src1HscPhase0AlwaysEn : UChar := 0
  src1HscRptCtrl : UChar := 0
  src1VscRptCtrl : UChar := 0
  src1HscNearestEn : UChar := 0
  src1VscNearestEn : UChar := 0
  antiflickEn : UChar := 0
  useMatrixDefault : UChar := 0
  convMatrixEn : UChar := 0
  matrixSatInEn : UChar := 0
  matrixMinus16Ctrl : UChar := 0
  matrixSignCtrl : UChar := 0
  matrixOffset : Fin 3 → Word := fun _ => 0
  matrixCoef : Fin 9 → Word := fun _ => 0
  src1GbAlphaEn : UChar := 0
  src1GbAlpha : UChar := 0
  src2GbAlphaEn : UChar := 0
  src2GbAlpha : UChar := 0
  aluConstColor : Word := 0
  src1KeyEn : UChar := 0
  src2KeyEn : UChar := 0
  src1KeyMode : UChar := 0
  src2KeyMode : UChar := 0
  src1Key : Word := 0
  src2Key : Word := 0
  src1KeyMask : Word := 0
  src2KeyMask : Word := 0
  bitmaskEn : UChar := 0
  bytemaskOnly : UChar := 0
  bitmask : Word := 0
  deriving DecidableEq

/-- `struct ge2d_matrix_s`, with its numbered members as functions. -/
structure Matrix where
  preOffset : Fin 3 → Word := fun _ => 0
  coef : Fin 9 → Word := fun _ => 0
  offset : Fin 3 → Word := fun _ => 0
  satInEn : UChar := 0
  deriving DecidableEq

structure CanvasCfg where
  canvasUsed : Bool := false
  stride : Word := 0
  height : Word := 0
  physAddr : BitVec 64 := 0
  deriving DecidableEq

/-- `struct ge2d_dma_cfg_s`. The record is named; it may be gone. -/
structure DmaCfg where
  dmaUsed : Bool := false
  dmaCfg : Option Nat := none
  deriving DecidableEq

/-- `enum ge2d_data_type_e`: the picture that a plane belongs to. -/
inductive DataType where
  | src
  | src2
  | dst
  deriving DecidableEq

/-- `struct ge2d_config_s`. The arrays for `src`, `src2` and `dst` are one function. -/
structure Config where
  src1Data : Src1Data := {}
  src1Gen : Src1Gen := {}
  src2DstData : Src2DstData := {}
  src2DstGen : Src2DstGen := {}
  dpGen : DpGen := {}
  vScaleCoefType : Word := 0
  hScaleCoefType : Word := 0
  updateFlag : Word := 0
  canvasCfg : DataType → Plane → CanvasCfg := fun _ _ => {}
  dmaCfg : DataType → Plane → DmaCfg := fun _ _ => {}
  matrixCustom : Matrix := {}

end Amlogic.Ge2d
