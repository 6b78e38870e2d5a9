import Amlogic.Ge2d.ConfigEx
import Amlogic.Ge2d.Queue
import Amlogic.Ge2d.SetCanvas

/-!
# GE2D: from a configuration to the start of a command, with canvases (`ge2d/ge2d_wq.c`)

Contexts are configured by `ge2d_context_config_ex` and queue commands, each with a copy of the configuration. The
worker takes the commands of a context in their order, writes the canvases of the copy and starts the command. The
table of canvases is the hardware's, and there is only one.
-/

namespace Amlogic.Ge2d

/-- An entry of the table of canvases, `struct canvas_s`. -/
structure CanvasEntry where
  addr : BitVec 64
  width : Word
  height : Word
  deriving DecidableEq

abbrev CanvasTable := Word → Option CanvasEntry

/-- `CANVAS_INDEX_END`: the canvases up to it are marked as used when the driver is probed. -/
def canvasIndexEnd : Word := 0xef

/-- `canvas_config`, which does nothing for a canvas that is not `CANVAS_VALID`. -/
def canvasConfig (table : CanvasTable) (w : CanvasWrite) : CanvasTable :=
  if w.index ≤ canvasIndexEnd then
    fun id => if id = w.index then some ⟨w.addr, w.width, w.height⟩ else table id
  else table

/-- A configuration with the parameters that it has been made from last. -/
structure Queued where
  config : Config
  wanted : Option ConfigParaEx

/-- A command that has been started: what it was configured for, its configuration and the canvases then. -/
structure Started where
  wanted : Option ConfigParaEx
  config : Config
  table : CanvasTable

structure StartContext where
  ctx : Ctx := { config := { hScaleCoefType := 2, vScaleCoefType := 2 } }
  wanted : Option ConfigParaEx := none
  queue : List Queued := []

structure StartSystem where
  context : Nat → StartContext := fun _ => {}
  table : CanvasTable := fun _ => none
  started : List Started := []

def StartSystem.setContext (s : StartSystem) (k : Nat) (c : StartContext) : StartSystem :=
  { s with context := fun k' => if k' = k then c else s.context k' }

inductive StartEvent where
  /-- A successful `ge2d_context_config_ex`, with what is in its variable `tmp`. -/
  | config (k : Nat) (tmp : SrcDstPara) (p : ConfigParaEx)
  | command (k : Nat)
  | start (k : Nat)

namespace StartEvent

def next (s : StartSystem) : StartEvent → Option StartSystem
  | config k tmp p =>
    let c := s.context k
    match ge2dContextConfigEx false tmp p c.ctx with
    | (_, false) => none
    | (ctx, true) => some (s.setContext k { c with ctx, wanted := some p })
  | command k =>
    let c := s.context k
    if c.queue.length = maxGe2dCmd then some s
    else some (s.setContext k { c with
      ctx := { config := { c.ctx.config with updateFlag := 0 }, cmd := {} }
      queue := c.queue ++ [⟨c.ctx.config, c.wanted⟩] })
  | start k =>
    let c := s.context k
    match c.queue with
    | [] => none
    | o :: rest =>
      let r := ge2dSetCanvas o.config
      let table := r.2.foldl canvasConfig s.table
      some { s.setContext k { c with queue := rest } with
        table, started := s.started ++ [⟨o.wanted, r.1, table⟩] }

def Step (s : StartSystem) (e : StartEvent) (s' : StartSystem) : Prop := next s e = some s'

end StartEvent

end Amlogic.Ge2d
