import Amlogic.Base.Prog
import Amlogic.Ge2d.Gen

/-!
# GE2D: `ge2d_context_config_ex` and `ge2d_context_config_ex_mem` (`ge2d/ge2d_wq.c`)

A client gives the pictures `src`, `src2` and `dst` as displays, as canvases or as memory. Memory is given by the
addresses of its planes or, for `ge2d_context_config_ex_mem`, by file descriptors of dma-bufs, which are mapped.
Chips whose `canvas_status` is 1 get addresses; for the others the planes of a picture are noted in the
configuration, and get canvases when a command is started.
-/

namespace Amlogic.Ge2d

/-! ## What a client gives -/

structure ParaEx where
  canvasIndex : Word := 0
  top : Word := 0
  left : Word := 0
  width : Word := 0
  height : Word := 0
  format : Word := 0
  memType : Word := 0
  color : Word := 0
  xRev : UChar := 0
  yRev : UChar := 0
  fillColorEn : UChar := 0
  fillMode : UChar := 0

/-- `struct config_planes_ion_s`; `struct config_planes_s` has no `shared_fd`. -/
structure PlanePara where
  addr : BitVec 64 := 0
  w : Word := 0
  h : Word := 0
  sharedFd : Word := 0

/-- `struct config_para_ex_ion_s`. The members for `src`, `src2` and `dst` are one function. `struct config_para_ex_s`
has no `src1_cmult_asel`, `src2_cmult_asel`, `src2_cmult_ad`, `src1_gb_alpha_en` and `src2_gb_alpha_en`. -/
structure ConfigParaEx where
  para : DataType → ParaEx
  planes : DataType → Plane → PlanePara
  srcKey : SrcKeyCtrl := {}
  src2Key : SrcKeyCtrl := {}
  src1CmultAsel : UChar := 0
  src2CmultAsel : UChar := 0
  src2CmultAd : UChar := 0
  aluConstColor : Word := 0
  src1GbAlphaEn : UChar := 0
  src1GbAlpha : Word := 0
  src2GbAlphaEn : UChar := 0
  src2GbAlpha : Word := 0
  bitmaskEn : UChar := 0
  bytemaskOnly : UChar := 0
  bitmask : Word := 0
  dstXySwap : UChar := 0
  hfInitPhase : Word := 0
  hfRptNum : Word := 0
  hscStartPhaseStep : Word := 0
  hscPhaseSlope : Word := 0
  vfInitPhase : Word := 0
  vfRptNum : Word := 0
  vscStartPhaseStep : Word := 0
  vscPhaseSlope : Word := 0
  src1VscPhase0AlwaysEn : UChar := 0
  src1HscPhase0AlwaysEn : UChar := 0
  src1HscRptCtrl : UChar := 0
  src1VscRptCtrl : UChar := 0

structure ConfigParaExMemtype where
  ge2dConfigEx : ConfigParaEx
  memAllocType : DataType → Word
  matrixCustom : Matrix := {}

/-- `struct src_dst_para_s`: a display. -/
structure SrcDstPara where
  xres : Word := 0
  yres : Word := 0
  canvasIndex : Word := 0
  ge2dColorIndex : Word := 0
  phyAddr : Word := 0
  stride : Word := 0

/-- `enum ge2d_src_canvas_type_e`. -/
def canvasOsd0 : Word := 0
def canvasOsd1 : Word := 1
def canvasAlloc : Word := 2

/-- `enum ge2d_memtype_s`. -/
def amlGe2dMemIon : Word := 0
def amlGe2dMemDmabuf : Word := 1

/-! ## Pictures -/

/-- What is known of a picture after its `switch`: the parameters, with what has been written to them, and the
variables for its address and its stride. -/
structure Port where
  para : ParaEx
  addr : Word := 0
  stride : Word := 0

/-- `bpp`, in bytes. -/
def bytesPerPixel (format : Word) : Word :=
  let bpp := format &&& 0x300
  if bpp = 0x000 then 1
  else if bpp = 0x100 then 2
  else if bpp = 0x200 then
    if format &&& (14 <<< 20) = 14 <<< 20 ∨ format &&& (15 <<< 20) = 15 <<< 20 then 1 else 3
  else 4

/-- The case of a display. `setup_display_property` returns 0 and leaves `tmp`, which is not initialised, alone. -/
def setupOsd (tmp : SrcDstPara) (para : ParaEx) : Option Port :=
  if tmp.xres.slt (para.left + para.width) ∨ tmp.yres.slt (para.top + para.height) then none
  else some {
    para := { para with
      canvasIndex := tmp.canvasIndex, format := tmp.ge2dColorIndex, width := tmp.xres, height := tmp.yres }
    addr := tmp.phyAddr
    stride := tmp.stride }

/-- The picture does not fit into its first plane. -/
def outOfRange (para : ParaEx) (plane : PlanePara) : Prop :=
  plane.w < para.left + para.width ∨ plane.h < para.top + para.height

instance (para : ParaEx) (plane : PlanePara) : Decidable (outOfRange para plane) :=
  inferInstanceAs (Decidable (_ ∨ _))

def buildGe2dAddrConfig (planes : Plane → PlanePara) (para : ParaEx) : Option Port :=
  -- several planes are not supported
  if (planes 0).addr = 0 ∨ (planes 1).addr ≠ 0 ∨ (planes 2).addr ≠ 0 ∨ (planes 3).addr ≠ 0 then none
  else some {
    para, addr := (planes 0).addr.setWidth 32, stride := (planes 0).w * bytesPerPixel para.format }

def updateCanvasCfg (t : DataType) (i : Plane) (addr : BitVec 64) (stride height : Word) (cfg : Config) : Config :=
  { cfg with canvasCfg := fun t' i' =>
    if t' = t ∧ i' = i then ⟨true, stride, height, addr⟩ else cfg.canvasCfg t' i' }

/-- `build_ge2d_config_ex`: the planes that have an address are noted. -/
def buildGe2dConfigEx (t : DataType) (planes : Plane → PlanePara) (format : Word) (cfg : Config) : Config × Bool :=
  (List.finRange 4).foldl (fun (cfg, ok) i =>
    if (planes i).addr ≠ 0 then
      (updateCanvasCfg t i (planes i).addr ((planes i).w * bytesPerPixel format) (planes i).h cfg, true)
    else (cfg, ok)) (cfg, false)

/-- A context, as far as its configuration goes. -/
structure Ctx where
  config : Config := {}
  cmd : Cmd := {}

/-! ## The end of both functions -/

def isGauss (type : Word) : Bool := type == 4 || type == 5 || type == 6

/-- The calls of `ge2dgen_*`. -/
def genPorts (p : ConfigParaEx) (src src2 dst : Port) (cfg : Config) : Config :=
  let cfg := ge2dgenConstColor p.aluConstColor cfg
  let cfg := ge2dgenSrc src.para.canvasIndex src.para.format src.addr src.stride cfg
  let cfg := ge2dgenSrcClip src.para.left src.para.top src.para.width src.para.height cfg
  let cfg := ge2dgenSrcKey p.srcKey cfg
  let cfg := ge2dgentSrcGbalpha (p.src1GbAlpha.setWidth 8) (p.src2GbAlpha.setWidth 8) cfg
  let cfg := ge2dgenSrcColor src.para.color cfg
  let cfg := ge2dgenSrc2 src2.para.canvasIndex src2.para.format src2.addr src2.stride cfg
  let cfg := ge2dgenSrc2Clip src2.para.left src2.para.top src2.para.width src2.para.height cfg
  let cfg := ge2dgenDst dst.para.canvasIndex dst.para.format dst.addr dst.stride cfg
  ge2dgenDstClip dst.para.left dst.para.top dst.para.width dst.para.height 0 cfg

/-- What is then written to the configuration; the global alphas are the caller's. -/
def setDetails (p : ConfigParaEx) (src src2 : Port) (gbAlpha1 gbAlphaEn1 gbAlpha2 gbAlphaEn2 : UChar) (cfg : Config) :
    Config :=
  let gauss := isGauss cfg.vScaleCoefType || isGauss cfg.hScaleCoefType
  { cfg with
    src1Gen := { cfg.src1Gen with fillMode := src.para.fillMode, chfmtRptPix := 0, cvfmtRptPix := 0 }
    src2DstData := { cfg.src2DstData with src2DefColor := src2.para.color }
    src2DstGen := { cfg.src2DstGen with src2FillMode := src2.para.fillMode }
    dpGen := { cfg.dpGen with
      -- the two are exchanged
      src1VscPhase0AlwaysEn := p.src1HscPhase0AlwaysEn
      src1HscPhase0AlwaysEn := p.src1VscPhase0AlwaysEn
      src1HscRptCtrl := if gauss then p.src1HscRptCtrl else 1
      src1VscRptCtrl := if gauss then p.src1VscRptCtrl else 1
      src1GbAlpha := gbAlpha1
      src1GbAlphaEn := gbAlphaEn1
      src2GbAlpha := gbAlpha2
      src2GbAlphaEn := gbAlphaEn2
      src2KeyEn := p.src2Key.keyEnable.setWidth 8
      src2KeyMode := p.src2Key.keyMode.setWidth 8
      src2Key := p.src2Key.keyColor
      src2KeyMask := p.src2Key.keyMask
      bitmaskEn := p.bitmaskEn
      bitmask := p.bitmask
      bytemaskOnly := p.bytemaskOnly }
    updateFlag := updateAll }

def setCmdDetails (p : ConfigParaEx) (src src2 dst : Port) (cmultAsel1 cmultAsel2 : UChar) (cmd : Cmd) : Cmd :=
  { ge2dgenRenderingDir src.para.xRev src.para.yRev dst.para.xRev dst.para.yRev p.dstXySwap cmd with
    src1FillColorEn := src.para.fillColorEn
    src2XRev := src2.para.xRev
    src2YRev := src2.para.yRev
    src2FillColorEn := src2.para.fillColorEn
    vscPhaseSlope := p.vscPhaseSlope
    vscIniPhase := p.vfInitPhase
    vscPhaseStep := p.vscStartPhaseStep
    vscRptL0Num := p.vfRptNum.setWidth 8
    hscPhaseSlope := p.hscPhaseSlope
    hscIniPhase := p.hfInitPhase
    hscPhaseStep := p.hscStartPhaseStep
    hscRptP0Num := p.hfRptNum.setWidth 8
    src1CmultAsel := cmultAsel1
    src2CmultAsel := cmultAsel2 }

/-! ## `ge2d_context_config_ex` -/

/-- The case of memory: it is noted, or its address is taken. -/
def setupAlloc (canvasStatus : Bool) (t : DataType) (planes : Plane → PlanePara) (para : ParaEx) (cfg : Config) :
    Config × Option Port :=
  if canvasStatus then (cfg, buildGe2dAddrConfig planes para)
  else
    let (cfg, ok) := buildGe2dConfigEx t planes para.format cfg
    (cfg, if ok then some { para := { para with canvasIndex := 0 } } else none)

/-- The three `switch` statements differ in the pictures whose canvas or address is taken over when the first plane
is at the same address. -/
def setupPort (canvasStatus : Bool) (tmp : SrcDstPara) (t : DataType) (p : ConfigParaEx)
    (others : List (DataType × Port)) (cfg : Config) : Config × Option Port :=
  let para := p.para t
  if para.memType = canvasOsd0 ∨ para.memType = canvasOsd1 then (cfg, setupOsd tmp para)
  else if para.memType = canvasAlloc then
    if outOfRange para (p.planes t 0) then (cfg, none)
    else
      match others.find? fun o => (p.planes t 0).addr = (p.planes o.1 0).addr with
      | some (_, o) =>
        (cfg, some { para := { para with canvasIndex := o.para.canvasIndex }, addr := o.addr, stride := o.stride })
      | none => setupAlloc canvasStatus t (p.planes t) para cfg
  else (cfg, some { para })

/-- `ge2d_context_config_ex`: the context after it, and whether it returns 0. -/
def ge2dContextConfigEx (canvasStatus : Bool) (tmp : SrcDstPara) (p : ConfigParaEx) (c : Ctx) : Ctx × Bool :=
  match setupPort canvasStatus tmp .src p [] c.config with
  | (cfg, none) => ({ c with config := cfg }, false)
  | (cfg, some src) =>
    match setupPort canvasStatus tmp .src2 p [(.src, src)] cfg with
    | (cfg, none) => ({ c with config := cfg }, false)
    | (cfg, some src2) =>
      match setupPort canvasStatus tmp .dst p [(.src, src), (.src2, src2)] cfg with
      | (cfg, none) => ({ c with config := cfg }, false)
      | (cfg, some dst) =>
        ({ config := setDetails p src src2 0xff 0 0xff 0 (genPorts p src src2 dst cfg)
           cmd := setCmdDetails p src src2 dst 0 0 c.cmd }, true)

end Amlogic.Ge2d
