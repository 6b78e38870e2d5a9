import Amlogic.Ge2d.Config

/-!
# GE2D: changing a configuration (`ge2d/ge2dgen.c`)

Each of these functions changes a part of the configuration of a context if it is not already as wanted, and then
sets the flags of the parts that have to be programmed again.
-/

namespace Amlogic.Ge2d

/-! ## The parts of a configuration, `update_flag` -/

def updateSrcData : Word := 0x01
def updateSrcGen : Word := 0x02
def updateDstData : Word := 0x04
def updateDstGen : Word := 0x08
def updateDpGen : Word := 0x10
def updateScaleCoef : Word := 0x20
def updateAll : Word := 0x3f

/-! ## Formats -/

def ge2dFormatDeepColor : Word := 0x40000
def ge2dFormatYuv : Word := 0x20000
def ge2dFormatFullRange : Word := 0x10000
def ge2dFormatBtStandard : Word := 1 <<< 28
def ge2dMatrixCustom : Word := 1 <<< 29

def matrixYccToRgb : UChar := 1 <<< 0
def matrixRgbToYcc : UChar := 1 <<< 1
def matrixFullRangeYccToRgb : UChar := 1 <<< 2
def matrixRgbToFullRangeYcc : UChar := 1 <<< 3
def matrixBt601 : UChar := 0 <<< 4
def matrixBt709 : UChar := 1 <<< 4
def matrixCustom : UChar := 1 <<< 5

def Word.has (format flag : Word) : Bool := format &&& flag ≠ 0

def Word.bits (format : Word) (start : Nat) (mask : Word) : UChar := (format >>> start &&& mask).setWidth 8

/-- The end of `_set_src1_format` and of `_set_dst_format`: the conversion of colours. -/
def setConvMatrix (formatSrc formatDst : Word) (dp : DpGen) : DpGen :=
  if formatSrc.has ge2dMatrixCustom || formatDst.has ge2dMatrixCustom then
    { dp with useMatrixDefault := matrixCustom, convMatrixEn := 1 }
  else if formatSrc.has ge2dFormatYuv && !formatDst.has ge2dFormatYuv then
    { dp with
      useMatrixDefault := if formatSrc.has ge2dFormatFullRange then matrixFullRangeYccToRgb else matrixYccToRgb
      convMatrixEn := 1 }
  else if !formatSrc.has ge2dFormatYuv && formatDst.has ge2dFormatYuv then
    { dp with
      useMatrixDefault :=
        (if formatDst.has ge2dFormatFullRange then matrixRgbToFullRangeYcc else matrixRgbToYcc) |||
          (if formatDst.has ge2dFormatBtStandard then matrixBt709 else matrixBt601)
      convMatrixEn := 1 }
  else { dp with convMatrixEn := 0 }

def setSrc1Format (formatSrc formatDst : Word) (cfg : Config) : Config :=
  { cfg with
    src1Data := { cfg.src1Data with
      formatAll := formatSrc
      format := formatSrc.bits 8 3
      mode8bSel := formatSrc.bits 6 3
      lutEn := formatSrc.bits 5 1
      sepEn := formatSrc.bits 2 1
      endian := formatSrc.bits 24 1
      colorMap := formatSrc.bits 20 0xf
      xYcRatio := formatSrc.bits 1 1
      yYcRatio := formatSrc.bits 0 1
      deepColor := if formatSrc.has ge2dFormatDeepColor then 1 else 0 }
    src1Gen := { cfg.src1Gen with picStruct := formatSrc.bits 3 3 }
    dpGen := setConvMatrix formatSrc formatDst cfg.dpGen }

def setSrc2Format (format : Word) (cfg : Config) : Config :=
  { cfg with
    src2DstData := { cfg.src2DstData with
      src2FormatAll := format
      src2Format := format.bits 8 3
      src2Endian := format.bits 24 1
      src2ColorMap := format.bits 20 0xf
      src2Mode8bSel := format.bits 6 3 }
    src2DstGen := { cfg.src2DstGen with src2PicStruct := format.bits 3 3 } }

/-- The semi-planar formats are written as two pictures. -/
def setDst2 (formatDst : Word) (data : Src2DstData) : Src2DstData :=
  if formatDst.has ge2dFormatYuv && data.dstColorMap ||| 1 == 15 then
    { data with
      dstFormat := 0
      dstMode8bSel := 0
      dst2PixelByteWidth := 1
      dst2DiscardMode := if formatDst &&& 1 = 0 then 0xc else 0xf
      dst2Enable := 1
      dst2ColorMap := data.dstColorMap - 5 }
  else { data with dst2Enable := 0 }

def setDstFormat (formatSrc formatDst : Word) (cfg : Config) : Config :=
  { cfg with
    src2DstData := setDst2 formatDst { cfg.src2DstData with
      dstFormatAll := formatDst
      dstFormat := formatDst.bits 8 3
      dstEndian := formatDst.bits 24 1
      dstColorMap := formatDst.bits 20 0xf
      dstMode8bSel := formatDst.bits 6 3 }
    src2DstGen := { cfg.src2DstGen with dstPicStruct := formatDst.bits 3 3 }
    dpGen := setConvMatrix formatSrc formatDst cfg.dpGen }

/-! ## The functions -/

def Config.mark (cfg : Config) (flags : Word) : Config := { cfg with updateFlag := cfg.updateFlag ||| flags }

def ge2dgenSrc (canvasAddr format phyAddr stride : Word) (cfg : Config) : Config :=
  let data := cfg.src1Data
  if format ≠ data.formatAll ∨ canvasAddr ≠ data.canaddr ∨ phyAddr ≠ data.phyAddr ∨ stride ≠ data.stride then
    let cfg := setSrc1Format format cfg.src2DstData.dstFormatAll
      { cfg with src1Data := { data with canaddr := canvasAddr } }
    { cfg with src1Data := { cfg.src1Data with phyAddr, stride } }.mark (updateSrcData ||| updateSrcGen ||| updateDpGen)
  else cfg

def ge2dgenSrc2 (canvasAddr format phyAddr stride : Word) (cfg : Config) : Config :=
  let data := cfg.src2DstData
  if format ≠ data.src2FormatAll ∨ canvasAddr ≠ data.src2Canaddr.setWidth 32 ∨ phyAddr ≠ data.src2Phyaddr ∨
      stride ≠ data.src2Stride then
    -- the member is an `unsigned char`
    let cfg := setSrc2Format format { cfg with src2DstData := { data with src2Canaddr := canvasAddr.setWidth 8 } }
    { cfg with src2DstData := { cfg.src2DstData with src2Phyaddr := phyAddr, src2Stride := stride } }.mark
      (updateDstData ||| updateDstGen)
  else cfg

def ge2dgenDst (canvasAddr format phyAddr stride : Word) (cfg : Config) : Config :=
  let data := cfg.src2DstData
  if format ≠ data.dstFormatAll ∨ canvasAddr ≠ data.dstCanaddr ∨ phyAddr ≠ data.dstPhyaddr ∨
      stride ≠ data.dstStride then
    let cfg := setDstFormat cfg.src1Data.formatAll format
      { cfg with src2DstData := { data with dstCanaddr := canvasAddr } }
    { cfg with src2DstData := { cfg.src2DstData with dstPhyaddr := phyAddr, dstStride := stride } }.mark
      (updateDstData ||| updateDstGen ||| updateDpGen)
  else cfg

def ge2dgenSrcClip (x y w h : Word) (cfg : Config) : Config :=
  let gen := cfg.src1Gen
  let xEnd := x + w - 1
  let yEnd := y + h - 1
  if gen.clipxStart ≠ x ∨ gen.clipxEnd ≠ xEnd ∨ gen.clipyStart ≠ y ∨ gen.clipyEnd ≠ yEnd then
    { cfg with src1Gen := { gen with
      clipxStart := x, clipxEnd := xEnd, clipyStart := y, clipyEnd := yEnd } }.mark updateSrcGen
  else cfg

def ge2dgenSrc2Clip (x y w h : Word) (cfg : Config) : Config :=
  let gen := cfg.src2DstGen
  let xEnd := x + w - 1
  let yEnd := y + h - 1
  if gen.src2ClipxStart ≠ x ∨ gen.src2ClipxEnd ≠ xEnd ∨ gen.src2ClipyStart ≠ y ∨ gen.src2ClipyEnd ≠ yEnd then
    { cfg with src2DstGen := { gen with
      src2ClipxStart := x, src2ClipxEnd := xEnd, src2ClipyStart := y, src2ClipyEnd := yEnd } }.mark updateDstGen
  else cfg

def ge2dgenDstClip (x y w h : Word) (mode : UChar) (cfg : Config) : Config :=
  let gen := cfg.src2DstGen
  let xEnd := x + w - 1
  let yEnd := y + h - 1
  if gen.dstClipxStart ≠ x ∨ gen.dstClipxEnd ≠ xEnd ∨ gen.dstClipyStart ≠ y ∨ gen.dstClipyEnd ≠ yEnd ∨
      gen.dstClipMode ≠ mode then
    { cfg with src2DstGen := { gen with
      dstClipxStart := x, dstClipxEnd := xEnd, dstClipyStart := y, dstClipyEnd := yEnd
      dstClipMode := mode } }.mark updateDstGen
  else cfg

structure SrcKeyCtrl where
  keyEnable : Word := 0
  keyColor : Word := 0
  keyMask : Word := 0
  keyMode : Word := 0

def ge2dgenSrcKey (key : SrcKeyCtrl) (cfg : Config) : Config :=
  let dp := cfg.dpGen
  if dp.src1KeyEn.setWidth 32 ≠ key.keyEnable ∨ dp.src1Key ≠ key.keyColor ∨ dp.src1KeyMask ≠ key.keyMask ∨
      dp.src1KeyMode.setWidth 32 ≠ key.keyMode then
    { cfg with dpGen := { dp with
      src1KeyEn := (key.keyEnable &&& 1).setWidth 8
      src1Key := key.keyColor
      src1KeyMask := key.keyMask
      src1KeyMode := (key.keyMode &&& 1).setWidth 8 } }.mark updateDpGen
  else cfg

def ge2dgentSrcGbalpha (alpha1 alpha2 : UChar) (cfg : Config) : Config :=
  let dp := cfg.dpGen
  if dp.src1GbAlpha ≠ alpha1 ∨ dp.src2GbAlpha ≠ alpha2 then
    { cfg with dpGen := { dp with src1GbAlpha := alpha1, src2GbAlpha := alpha2 } }.mark updateDpGen
  else cfg

def ge2dgenSrcColor (color : Word) (cfg : Config) : Config :=
  if cfg.src1Data.defColor ≠ color then
    { cfg with src1Data := { cfg.src1Data with defColor := color } }.mark updateSrcData
  else cfg

def ge2dgenConstColor (color : Word) (cfg : Config) : Config :=
  if cfg.dpGen.aluConstColor ≠ color then
    { cfg with dpGen := { cfg.dpGen with aluConstColor := color } }.mark updateDpGen
  else cfg

def ge2dgenRenderingDir (srcXDir srcYDir dstXDir dstYDir dstXySwap : UChar) (cmd : Cmd) : Cmd :=
  { cmd with
    src1XRev := srcXDir, src1YRev := srcYDir, dstXRev := dstXDir, dstYRev := dstYDir, dstXySwap := dstXySwap }

end Amlogic.Ge2d
