import Amlogic.Ge2d.ConfigEx

/-!
# GE2D: what a configuration says of the canvases, of the records and of the clip windows

The functions of `ge2dgen.c` leave the notes about planes and records alone, and only those for a picture write its
canvas and its clip window.
-/

namespace Amlogic.Ge2d

/-- The canvases of a picture. Those of `src2` are in an `unsigned char`. -/
def Config.canaddr (cfg : Config) : DataType → Word
  | .src => cfg.src1Data.canaddr
  | .src2 => cfg.src2DstData.src2Canaddr.setWidth 32
  | .dst => cfg.src2DstData.dstCanaddr

def DataType.fit : DataType → Word → Word
  | .src2, index => (index.setWidth 8).setWidth 32
  | _, index => index

/-- The canvases of some pictures are written, and nothing else of what is said about memory. -/
structure Config.Writes (f : DataType → Option Word) (cfg cfg' : Config) : Prop where
  canvasCfg : cfg'.canvasCfg = cfg.canvasCfg
  dmaCfg : cfg'.dmaCfg = cfg.dmaCfg
  canaddr : ∀ t, cfg'.canaddr t = (f t).elim (cfg.canaddr t) t.fit

namespace Config.Writes

variable {cfg cfg' cfg'' : Config} {f g : DataType → Option Word}

theorem trans (h : cfg.Writes f cfg') (h' : cfg'.Writes g cfg'') :
    cfg.Writes (fun t => (g t).or (f t)) cfg'' := by
  refine ⟨h'.canvasCfg.trans h.canvasCfg, h'.dmaCfg.trans h.dmaCfg, fun t => ?_⟩
  rw [h'.canaddr t]
  cases hg : g t with
  | none => exact h.canaddr t
  | some v => rfl

theorem of_same (hcanvas : cfg'.canvasCfg = cfg.canvasCfg) (hdma : cfg'.dmaCfg = cfg.dmaCfg)
    (hsrc : cfg'.src1Data.canaddr = cfg.src1Data.canaddr)
    (hsrc2 : cfg'.src2DstData.src2Canaddr = cfg.src2DstData.src2Canaddr)
    (hdst : cfg'.src2DstData.dstCanaddr = cfg.src2DstData.dstCanaddr) : cfg.Writes (fun _ => none) cfg' := by
  refine ⟨hcanvas, hdma, fun t => ?_⟩
  cases t with
  | src => exact hsrc
  | src2 => exact congrArg (·.setWidth 32) hsrc2
  | dst => exact hdst

theorem ite {c : Prop} [Decidable c] (h : cfg.Writes (fun _ => none) cfg') :
    cfg.Writes (fun _ => none) (if c then cfg' else cfg) := by
  split_ifs
  · exact h
  · exact .of_same rfl rfl rfl rfl rfl

theorem then_same (h : cfg.Writes f cfg') (h' : cfg'.Writes (fun _ => none) cfg'') : cfg.Writes f cfg'' :=
  h.trans h'

theorem same_then (h : cfg.Writes (fun _ => none) cfg') (h' : cfg'.Writes f cfg'') : cfg.Writes f cfg'' := by
  have hboth := h.trans h'
  simpa only [Option.or_none] using hboth

end Config.Writes

section Setters

variable (cfg : Config)

theorem ge2dgenConstColor_writes (color : Word) : cfg.Writes (fun _ => none) (ge2dgenConstColor color cfg) :=
  .ite (.of_same rfl rfl rfl rfl rfl)

theorem ge2dgenSrcClip_writes (x y w h : Word) : cfg.Writes (fun _ => none) (ge2dgenSrcClip x y w h cfg) :=
  .ite (.of_same rfl rfl rfl rfl rfl)

theorem ge2dgenSrcKey_writes (key : SrcKeyCtrl) : cfg.Writes (fun _ => none) (ge2dgenSrcKey key cfg) :=
  .ite (.of_same rfl rfl rfl rfl rfl)

theorem ge2dgentSrcGbalpha_writes (alpha1 alpha2 : UChar) :
    cfg.Writes (fun _ => none) (ge2dgentSrcGbalpha alpha1 alpha2 cfg) :=
  .ite (.of_same rfl rfl rfl rfl rfl)

theorem ge2dgenSrcColor_writes (color : Word) : cfg.Writes (fun _ => none) (ge2dgenSrcColor color cfg) :=
  .ite (.of_same rfl rfl rfl rfl rfl)

theorem ge2dgenSrc2Clip_writes (x y w h : Word) : cfg.Writes (fun _ => none) (ge2dgenSrc2Clip x y w h cfg) :=
  .ite (.of_same rfl rfl rfl rfl rfl)

theorem ge2dgenDstClip_writes (x y w h : Word) (mode : UChar) :
    cfg.Writes (fun _ => none) (ge2dgenDstClip x y w h mode cfg) :=
  .ite (.of_same rfl rfl rfl rfl rfl)

def DataType.only (t : DataType) (index : Word) : DataType → Option Word :=
  fun t' => if t' = t then some index else none

theorem ge2dgenSrc_writes (index format addr stride : Word) :
    cfg.Writes (DataType.only .src index) (ge2dgenSrc index format addr stride cfg) := by
  unfold ge2dgenSrc
  dsimp only
  split_ifs with hc
  · refine ⟨rfl, rfl, fun t => ?_⟩
    cases t <;> rfl
  · refine ⟨rfl, rfl, fun t => ?_⟩
    -- nothing is different, the canvas included
    cases t with
    | src =>
      simp only [not_or, not_not] at hc
      exact hc.2.1.symm
    | src2 => rfl
    | dst => rfl

theorem ge2dgenSrc2_writes (index format addr stride : Word) :
    cfg.Writes (DataType.only .src2 index) (ge2dgenSrc2 index format addr stride cfg) := by
  unfold ge2dgenSrc2
  dsimp only
  split_ifs with hc
  · refine ⟨rfl, rfl, fun t => ?_⟩
    cases t <;> rfl
  · refine ⟨rfl, rfl, fun t => ?_⟩
    cases t with
    | src => rfl
    | src2 =>
      simp only [not_or, not_not] at hc
      show cfg.src2DstData.src2Canaddr.setWidth 32 = (index.setWidth 8).setWidth 32
      rw [hc.2.1]
      simp
    | dst => rfl

theorem setDst2_canaddr (format : Word) (data : Src2DstData) :
    (setDst2 format data).src2Canaddr = data.src2Canaddr ∧ (setDst2 format data).dstCanaddr = data.dstCanaddr := by
  unfold setDst2
  split_ifs <;> exact ⟨rfl, rfl⟩

theorem ge2dgenDst_writes (index format addr stride : Word) :
    cfg.Writes (DataType.only .dst index) (ge2dgenDst index format addr stride cfg) := by
  unfold ge2dgenDst
  dsimp only
  split_ifs with hc
  · refine ⟨rfl, rfl, fun t => ?_⟩
    cases t with
    | src => rfl
    | src2 => exact congrArg (·.setWidth 32) (setDst2_canaddr format _).1
    | dst => exact (setDst2_canaddr format _).2
  · refine ⟨rfl, rfl, fun t => ?_⟩
    cases t with
    | src => rfl
    | src2 => rfl
    | dst =>
      simp only [not_or, not_not] at hc
      exact hc.2.1.symm

def portCanvases (src src2 dst : Port) : DataType → Option Word
  | .src => some src.para.canvasIndex
  | .src2 => some src2.para.canvasIndex
  | .dst => some dst.para.canvasIndex

theorem genPorts_writes (p : ConfigParaEx) (src src2 dst : Port) :
    cfg.Writes (portCanvases src src2 dst) (genPorts p src src2 dst cfg) := by
  have hsrc := ((((((ge2dgenConstColor_writes cfg p.aluConstColor).same_then
    (ge2dgenSrc_writes _ src.para.canvasIndex src.para.format src.addr src.stride)).then_same
    (ge2dgenSrcClip_writes _ src.para.left src.para.top src.para.width src.para.height)).then_same
    (ge2dgenSrcKey_writes _ p.srcKey)).then_same
    (ge2dgentSrcGbalpha_writes _ (p.src1GbAlpha.setWidth 8) (p.src2GbAlpha.setWidth 8))).then_same
    (ge2dgenSrcColor_writes _ src.para.color))
  have hsrc2 := (hsrc.trans
    (ge2dgenSrc2_writes _ src2.para.canvasIndex src2.para.format src2.addr src2.stride)).then_same
    (ge2dgenSrc2Clip_writes _ src2.para.left src2.para.top src2.para.width src2.para.height)
  have hdst := (hsrc2.trans (ge2dgenDst_writes _ dst.para.canvasIndex dst.para.format dst.addr dst.stride)).then_same
    (ge2dgenDstClip_writes _ dst.para.left dst.para.top dst.para.width dst.para.height 0)
  refine ⟨hdst.canvasCfg, hdst.dmaCfg, fun t => ?_⟩
  refine (hdst.canaddr t).trans ?_
  cases t <;> rfl

theorem setDetails_writes (p : ConfigParaEx) (src src2 : Port) (a b c d : UChar) :
    cfg.Writes (fun _ => none) (setDetails p src src2 a b c d cfg) := .of_same rfl rfl rfl rfl rfl

end Setters

/-! ## Clip windows -/

/-- The columns and the lines of the clip window of a picture, each by the first and the last one. -/
def Config.window (cfg : Config) : DataType → (Word × Word) × (Word × Word)
  | .src => ((cfg.src1Gen.clipxStart, cfg.src1Gen.clipxEnd), (cfg.src1Gen.clipyStart, cfg.src1Gen.clipyEnd))
  | .src2 => ((cfg.src2DstGen.src2ClipxStart, cfg.src2DstGen.src2ClipxEnd),
    (cfg.src2DstGen.src2ClipyStart, cfg.src2DstGen.src2ClipyEnd))
  | .dst => ((cfg.src2DstGen.dstClipxStart, cfg.src2DstGen.dstClipxEnd),
    (cfg.src2DstGen.dstClipyStart, cfg.src2DstGen.dstClipyEnd))

/-- A side of a window is inside a side of a picture. The ends of a window are of type `int`. -/
def Inside (side : Word × Word) (size : Word) : Prop :=
  let left := side.1.toInt
  let width := side.2.toInt - left + 1
  0 ≤ left ∧ 0 < width ∧ left + width ≤ size.toNat

def ParaEx.window (para : ParaEx) : (Word × Word) × (Word × Word) :=
  ((para.left, para.left + para.width - 1), (para.top, para.top + para.height - 1))

/-- A side of a rectangle that is not empty, with both ends below `2 ^ 31`. -/
def Proper (left width : Word) : Prop :=
  0 < width.toNat ∧ left.toNat + width.toNat ≤ 2 ^ 31

/-- The check of the right end, which has no sign, leaves the left end and the width to the client. -/
theorem inside_iff {left width size : Word} (hrange : ¬size < left + width) :
    Inside (left, left + width - 1) size ↔ Proper left width := by
  have hl := left.isLt
  have hw := width.isLt
  have hs := size.isLt
  have hone : (1 : Word).toNat = 1 := rfl
  rw [BitVec.lt_def, BitVec.toNat_add] at hrange
  simp only [Inside, Proper, BitVec.toInt_eq_toNat_cond, BitVec.toNat_sub, BitVec.toNat_add, hone]
  split_ifs <;> omega

section Windows

variable {cfg cfg' : Config} {c : Prop} [Decidable c]

theorem window_ite (h : cfg'.window = cfg.window) : (if c then cfg' else cfg).window = cfg.window := by
  split_ifs
  · exact h
  · rfl

theorem window_clip {t : DataType} {window : (Word × Word) × (Word × Word)}
    (h : ∀ t', cfg'.window t' = Function.update cfg.window t window t') (hsame : ¬c → window = cfg.window t) :
    (if c then cfg' else cfg).window = Function.update cfg.window t window := by
  split_ifs with hc
  · exact funext h
  · rw [hsame hc, Function.update_eq_self]

variable (cfg)

@[simp] theorem window_constColor (color : Word) : (ge2dgenConstColor color cfg).window = cfg.window := window_ite rfl

@[simp] theorem window_srcKey (key : SrcKeyCtrl) : (ge2dgenSrcKey key cfg).window = cfg.window := window_ite rfl

@[simp] theorem window_srcGbalpha (a b : UChar) : (ge2dgentSrcGbalpha a b cfg).window = cfg.window := window_ite rfl

@[simp] theorem window_srcColor (color : Word) : (ge2dgenSrcColor color cfg).window = cfg.window := window_ite rfl

@[simp] theorem window_src (a b c d : Word) : (ge2dgenSrc a b c d cfg).window = cfg.window := window_ite rfl

@[simp] theorem window_src2 (a b c d : Word) : (ge2dgenSrc2 a b c d cfg).window = cfg.window := window_ite rfl

@[simp] theorem window_dst (a b c d : Word) : (ge2dgenDst a b c d cfg).window = cfg.window := window_ite rfl

@[simp] theorem window_srcClip (x y w h : Word) : (ge2dgenSrcClip x y w h cfg).window =
    Function.update cfg.window .src ((x, x + w - 1), (y, y + h - 1)) :=
  window_clip (fun t => by cases t <;> rfl) fun hc => by simp_all [Config.window]

@[simp] theorem window_src2Clip (x y w h : Word) : (ge2dgenSrc2Clip x y w h cfg).window =
    Function.update cfg.window .src2 ((x, x + w - 1), (y, y + h - 1)) :=
  window_clip (fun t => by cases t <;> rfl) fun hc => by simp_all [Config.window]

@[simp] theorem window_dstClip (x y w h : Word) (mode : UChar) : (ge2dgenDstClip x y w h mode cfg).window =
    Function.update cfg.window .dst ((x, x + w - 1), (y, y + h - 1)) :=
  window_clip (fun t => by cases t <;> rfl) fun hc => by simp_all [Config.window]

@[simp] theorem window_setDetails (p : ConfigParaEx) (src src2 : Port) (a b c d : UChar) :
    (setDetails p src src2 a b c d cfg).window = cfg.window := by
  funext t
  cases t <;> rfl

end Windows

section Accepted

variable {canvasStatus : Bool} {tmp : SrcDstPara} {t : DataType} {p : ConfigParaEx}

theorem setupPort_alloc {others : List (DataType × Port)} {cfg cfg' : Config} {port : Port}
    (h : setupPort canvasStatus tmp t p others cfg = (cfg', some port)) (hmem : (p.para t).memType = canvasAlloc) :
    ¬outOfRange (p.para t) (p.planes t 0) ∧ port.para.window = (p.para t).window := by
  have hosd : ¬((p.para t).memType = canvasOsd0 ∨ (p.para t).memType = canvasOsd1) := by
    rw [hmem]
    decide
  unfold setupPort at h
  rw [if_neg hosd, if_pos hmem] at h
  split_ifs at h with hrange
  · cases h
  refine ⟨hrange, ?_⟩
  split at h
  · cases h
    rfl
  · unfold setupAlloc buildGe2dAddrConfig at h
    dsimp only at h
    split_ifs at h <;> cases h <;> rfl

/-- A clip window is inside its plane exactly if the rectangle of the client is proper. -/
theorem clip_window_inside_iff {c c' : Ctx} (h : ge2dContextConfigEx canvasStatus tmp p c = (c', true))
    (hmem : (p.para t).memType = canvasAlloc) :
    (Inside (c'.config.window t).1 (p.planes t 0).w ∧ Inside (c'.config.window t).2 (p.planes t 0).h) ↔
      Proper (p.para t).left (p.para t).width ∧ Proper (p.para t).top (p.para t).height := by
  obtain ⟨hrange, hwindow⟩ : ¬outOfRange (p.para t) (p.planes t 0) ∧ c'.config.window t = (p.para t).window := by
    unfold ge2dContextConfigEx at h
    split at h
    · cases h
    rename_i hsrc
    split at h
    · cases h
    rename_i hsrc2
    split at h
    · cases h
    rename_i hdst
    obtain rfl := (Prod.mk.inj h).1
    cases t with
    | src => simpa [genPorts, ParaEx.window] using setupPort_alloc hsrc hmem
    | src2 => simpa [genPorts, ParaEx.window] using setupPort_alloc hsrc2 hmem
    | dst => simpa [genPorts, ParaEx.window] using setupPort_alloc hdst hmem
  obtain ⟨hw, hh⟩ := not_or.mp hrange
  rw [hwindow]
  exact and_congr (inside_iff hw) (inside_iff hh)

end Accepted

def onePixel (left width : Word) : ConfigParaEx where
  para _ := { left, width, height := 1, memType := canvasAlloc }
  planes _ i := { addr := if i = 0 then 0x1000 else 0, w := 1, h := 1 }

theorem clip_window_inside_onePixel :
    Inside ((ge2dContextConfigEx false {} (onePixel 0 1) {}).1.config.window .dst).1 1 :=
  ((clip_window_inside_iff (t := .dst) (Prod.ext rfl rfl) rfl).mpr ⟨⟨by decide, by decide⟩, by decide, by decide⟩).1

/-- A rectangle that starts left of the picture is accepted. -/
theorem clip_window_outside : (ge2dContextConfigEx false {} (onePixel (-1) 2) {}).2 = true ∧
    ¬Inside ((ge2dContextConfigEx false {} (onePixel (-1) 2) {}).1.config.window .src).1 1 :=
  ⟨rfl, fun h => absurd h.1 (by decide)⟩

end Amlogic.Ge2d
