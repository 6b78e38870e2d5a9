import Amlogic.Ge2d.ConfigExMem
import Amlogic.Ge2d.Queue

/-!
# GE2D: who gives the mappings back (`ge2d/ge2d_wq.c`)

A configuration maps dma-bufs and notes the records in the context. A command takes a copy of the configuration with
it, the records included. After the command has been run the worker unmaps what the copy notes and frees the records.
-/

namespace Amlogic.Ge2d

/-- What has happened to the configuration of a context last. -/
inductive LastCall where
  | create
  | config (ok : Bool)
  | command
  deriving DecidableEq

/-- A context with its commands, and what has become of its records. -/
structure MapContext where
  ctx : Ctx := { config := { hScaleCoefType := 2, vScaleCoefType := 2 } }
  next : Nat := 0
  queue : List Config := []
  last : LastCall := .create
  destroyed : Bool := false
  /-- The records that successful configurations have allocated and mapped. -/
  kept : List Nat := []
  /-- The records that have been unmapped and freed, in this order. -/
  released : List Nat := []
  /-- A command has been run with a record that had been released. -/
  ranUnmapped : Bool := false

/-- The entries that the clean-up of a command looks at, in this order. -/
def dmaPlaces : List (DataType × Plane) := (List.finRange 4).flatMap fun i => [(.src, i), (.src2, i), (.dst, i)]

/-- The records that the clean-up of a command finds in use. -/
def usedRecords (cfg : Config) : List Nat :=
  dmaPlaces.filterMap fun (t, i) => if (cfg.dmaCfg t i).dmaUsed then (cfg.dmaCfg t i).dmaCfg else none

inductive MapEvent where
  | config (tmp : SrcDstPara) (env : MemEnv) (m : ConfigParaExMemtype)
  | command
  | run
  | destroy

namespace MapEvent

def next (canvasStatus : Bool) (s : MapContext) : MapEvent → Option MapContext
  | config tmp env m =>
    if s.destroyed then none
    else
      match ge2dContextConfigExMem canvasStatus tmp env m s.ctx s.next with
      | .error _ => none
      | .ok ((ctx, next, mapped), ok) =>
        some { s with ctx, next, last := .config ok, kept := if ok then s.kept ++ mapped else s.kept }
  | command =>
    if s.destroyed then none
    else if s.queue.length = maxGe2dCmd then some s
    else some { s with
      ctx := { config := { s.ctx.config with updateFlag := 0 }, cmd := {} }
      queue := s.queue ++ [s.ctx.config]
      last := .command }
  | run =>
    match s.queue with
    | [] => none
    | cfg :: rest =>
      some { s with
        queue := rest
        ranUnmapped := s.ranUnmapped || (usedRecords cfg).any fun r => decide (r ∈ s.released)
        released := s.released ++ usedRecords cfg }
  | destroy =>
    -- the items are freed, and their records are not
    if s.destroyed then none else some { s with destroyed := true, queue := [] }

def Step (canvasStatus : Bool) (s : MapContext) (e : MapEvent) (s' : MapContext) : Prop :=
  next canvasStatus s e = some s'

end MapEvent

end Amlogic.Ge2d
