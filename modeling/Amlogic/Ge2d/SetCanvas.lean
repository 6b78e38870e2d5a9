import Amlogic.Ge2d.Config

/-!
# GE2D: the canvases of a command (`ge2d/ge2d_wq.c`)

The hardware reads a picture through canvases. Before a command is started, each plane that is used gets a canvas
of its own, from `ALLOC_CANVAS_INDEX` on.
-/

namespace Amlogic.Ge2d

def allocCanvasIndex : Word := 0x44

/-- A call of `canvas_config`: the canvas, and what it describes. -/
structure CanvasWrite where
  index : Word
  addr : BitVec 64
  width : Word
  height : Word
  deriving DecidableEq

/-- The loop over the planes of one picture: the variables `index`, `index_src` and `canvas_set`, and the calls of
`canvas_config`. -/
structure PlaneLoop where
  index : Word
  ids : Word := 0
  canvasSet : Bool := false
  writes : List CanvasWrite := []

def PlaneLoop.round (planes : Plane → CanvasCfg) (l : PlaneLoop) (i : Plane) : PlaneLoop :=
  if (planes i).canvasUsed then
    { index := l.index + 1
      ids := l.ids ||| l.index <<< (8 * i.val)
      canvasSet := true
      writes := l.writes ++ [⟨l.index, (planes i).physAddr, (planes i).stride, (planes i).height⟩] }
  else l

/-- The loop over the planes, with `index` before it. -/
def setPlanes (planes : Plane → CanvasCfg) (index : Word) : PlaneLoop :=
  (List.finRange 4).foldl (PlaneLoop.round planes) { index := index }

/-- `ge2d_set_canvas`: the configuration after it, and the calls of `canvas_config`. -/
def ge2dSetCanvas (cfg : Config) : Config × List CanvasWrite :=
  let src := setPlanes (cfg.canvasCfg .src) allocCanvasIndex
  let src2 := setPlanes (cfg.canvasCfg .src2) src.index
  let dst := setPlanes (cfg.canvasCfg .dst) src2.index
  ({ cfg with
    canvasCfg := fun t i => { cfg.canvasCfg t i with canvasUsed := false }
    src1Data := if src.canvasSet then { cfg.src1Data with canaddr := src.ids } else cfg.src1Data
    src2DstData :=
      let data := if src2.canvasSet then { cfg.src2DstData with src2Canaddr := src2.ids.setWidth 8 } else cfg.src2DstData
      if dst.canvasSet then { data with dstCanaddr := dst.ids } else data },
    src.writes ++ src2.writes ++ dst.writes)

end Amlogic.Ge2d
