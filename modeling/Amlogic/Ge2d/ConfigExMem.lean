import Amlogic.Ge2d.ConfigEx

/-!
# GE2D: `ge2d_context_config_ex_mem` (`ge2d/ge2d_wq.c`)

The memory of a picture may be given by file descriptors. For each dma-buf a record is allocated and noted in the
configuration, and the dma-buf is mapped. The records have numbers, in the order in which they are allocated.
-/

namespace Amlogic.Ge2d

/-- What the system answers during a call. -/
structure MemEnv where
  alloc : DataType → Plane → Bool
  /-- The address from `ge2d_buffer_get_phys` for a plane, if it returns 0. -/
  phys : DataType → Plane → Option (BitVec 64)
  /-- The address from `meson_ion_share_fd_to_phys`, if it returns 0. -/
  ion : DataType → Plane → Option (BitVec 64)

/-- The configuration during a call, the number of records, and those that have been mapped by the call. -/
structure MemState where
  config : Config
  next : Nat
  mapped : List Nat := []

namespace MemState

def setDma (s : MemState) (t : DataType) (i : Plane) (x : DmaCfg) : MemState :=
  { s with config := { s.config with dmaCfg := fun t' i' =>
    if t' = t ∧ i' = i then x else s.config.dmaCfg t' i' } }

/-- `dma_used` is set; the record is the one from before. -/
def markUsed (s : MemState) (t : DataType) (i : Plane) : MemState :=
  s.setDma t i { s.config.dmaCfg t i with dmaUsed := true }

def newRecord (s : MemState) (t : DataType) (i : Plane) : MemState :=
  { s.setDma t i ⟨true, some s.next⟩ with next := s.next + 1 }

def noteMapped (s : MemState) : MemState := { s with mapped := s.mapped ++ [s.next - 1] }

def setCanvas (s : MemState) (t : DataType) (i : Plane) (plane : PlanePara) (format : Word) : MemState :=
  { s with config := updateCanvasCfg t i plane.addr (plane.w * bytesPerPixel format) plane.h s.config }

end MemState

/-! ## Pictures -/

def setAddr (planes : Plane → PlanePara) (i : Plane) (addr : BitVec 64) : Plane → PlanePara :=
  fun i' => if i' = i then { planes i with addr := addr } else planes i'

/-- The end of `build_ge2d_addr_config_ion` and of `build_ge2d_addr_config_dma`; `ok` says whether `ret` is 0. -/
def takeAddr (planes : Plane → PlanePara) (addrTemp : BitVec 64) (ok : Bool) (para : ParaEx) : Option Port :=
  let addr := (planes 0).addr + addrTemp
  if (planes 1).addr ≠ 0 ∨ (planes 2).addr ≠ 0 ∨ (planes 3).addr ≠ 0 then none
  else if addr ≠ 0 then
    some { para, addr := addr.setWidth 32, stride := (planes 0).w * bytesPerPixel para.format }
  else if ok then some { para }
  else none

def buildGe2dAddrConfigIon (env : MemEnv) (t : DataType) (planes : Plane → PlanePara) (para : ParaEx) : Option Port :=
  if (planes 0).sharedFd ≠ 0 then
    match env.ion t 0 with
    | none => none
    | some addr => takeAddr planes addr true para
  else takeAddr planes 0 false para

def buildGe2dAddrConfigDma (env : MemEnv) (t : DataType) (planes : Plane → PlanePara) (para : ParaEx)
    (s : MemState) : Except Fault (MemState × Option Port) :=
  if (planes 0).sharedFd ≠ 0 then
    -- the result of `kzalloc` is not tested
    if !env.alloc t 0 then .error .access
    else
      let s := (s.markUsed t 0).newRecord t 0
      match env.phys t 0 with
      | none => .ok (s, none)
      | some addr => .ok (s.noteMapped, takeAddr planes addr true para)
  else .ok (s, takeAddr planes 0 false para)

/-- The loop of `build_ge2d_config_ex_ion` over the planes; `ok` says whether `ret` is 0. -/
def buildConfigExIonLoop (env : MemEnv) (t : DataType) (format : Word) :
    List Plane → (Plane → PlanePara) → Bool → MemState → MemState × Bool
  | [], _, ok, s => (s, ok)
  | i :: rest, planes, ok, s =>
    if (planes i).sharedFd ≠ 0 then
      match env.ion t i with
      | none => (s, false)
      | some addr =>
        let planes := setAddr planes i addr
        buildConfigExIonLoop env t format rest planes true (s.setCanvas t i (planes i) format)
    else if (planes i).addr ≠ 0 then
      let planes := setAddr planes i ((planes i).addr + (planes 0).addr)
      buildConfigExIonLoop env t format rest planes true (s.setCanvas t i (planes i) format)
    else buildConfigExIonLoop env t format rest planes ok s

/-- The loop of `build_ge2d_config_ex_dma` over the planes. -/
def buildConfigExDmaLoop (env : MemEnv) (t : DataType) (format : Word) :
    List Plane → (Plane → PlanePara) → Bool → MemState → MemState × Bool
  | [], _, ok, s => (s, ok)
  | i :: rest, planes, ok, s =>
    if (planes i).sharedFd ≠ 0 then
      let s := s.markUsed t i
      -- `ret` is what the planes before have made it
      if !env.alloc t i then (s, ok)
      else
        let s := s.newRecord t i
        match env.phys t i with
        | none => (s, false)
        | some addr =>
          let planes := setAddr planes i addr
          buildConfigExDmaLoop env t format rest planes true (s.noteMapped.setCanvas t i (planes i) format)
    else if (planes i).addr ≠ 0 then
      let planes := setAddr planes i ((planes i).addr + (planes 0).addr)
      buildConfigExDmaLoop env t format rest planes ok (s.setCanvas t i (planes i) format)
    else buildConfigExDmaLoop env t format rest planes ok s

/-- The picture gets its canvases when the command is started. -/
def notedPort (para : ParaEx) (r : MemState × Bool) : MemState × Option Port :=
  (r.1, if r.2 then some { para := { para with canvasIndex := 0 } } else none)

def setupAllocMem (canvasStatus : Bool) (env : MemEnv) (t : DataType) (allocType : Word) (planes : Plane → PlanePara)
    (para : ParaEx) (s : MemState) : Except Fault (MemState × Option Port) :=
  if canvasStatus then
    if allocType = amlGe2dMemIon then .ok (s, buildGe2dAddrConfigIon env t planes para)
    else if allocType = amlGe2dMemDmabuf then buildGe2dAddrConfigDma env t planes para s
    else .ok (s, some { para })
  else if allocType = amlGe2dMemIon then
    .ok (notedPort para (buildConfigExIonLoop env t para.format (List.finRange 4) planes false s))
  else if allocType = amlGe2dMemDmabuf then
    .ok (notedPort para (buildConfigExDmaLoop env t para.format (List.finRange 4) planes false s))
  else .ok (s, some { para })

/-- A `switch` statement. -/
def setupPortMem (canvasStatus : Bool) (tmp : SrcDstPara) (env : MemEnv) (t : DataType) (m : ConfigParaExMemtype)
    (s : MemState) : Except Fault (MemState × Option Port) :=
  let para := m.ge2dConfigEx.para t
  let planes := m.ge2dConfigEx.planes t
  if para.memType = canvasOsd0 ∨ para.memType = canvasOsd1 then .ok (s, setupOsd tmp para)
  else if para.memType = canvasAlloc then
    if outOfRange para (planes 0) then .ok (s, none)
    else setupAllocMem canvasStatus env t (m.memAllocType t) planes para s
  else .ok (s, some { para })

def resetDmaUsed (cfg : Config) : Config :=
  { cfg with dmaCfg := fun t i => { cfg.dmaCfg t i with dmaUsed := false } }

def finishMem (m : ConfigParaExMemtype) (src src2 dst : Port) (c : Ctx) : Ctx :=
  let p := m.ge2dConfigEx
  { config := { setDetails p src src2 (p.src1GbAlpha.setWidth 8) (p.src1GbAlphaEn &&& 1) (p.src2GbAlpha.setWidth 8)
        (p.src2GbAlphaEn &&& 1) (genPorts p src src2 dst c.config) with matrixCustom := m.matrixCustom }
    cmd := { setCmdDetails p src src2 dst p.src1CmultAsel p.src2CmultAsel c.cmd with src2CmultAd := p.src2CmultAd } }

/-- `ge2d_context_config_ex_mem`: the context after it, with the number of records and those that it has mapped, and
whether it returns 0. -/
def ge2dContextConfigExMem (canvasStatus : Bool) (tmp : SrcDstPara) (env : MemEnv) (m : ConfigParaExMemtype) (c : Ctx)
    (next : Nat) : Except Fault ((Ctx × Nat × List Nat) × Bool) := do
  let s : MemState := { config := resetDmaUsed c.config, next }
  let failed (s : MemState) := (({ c with config := s.config }, s.next, s.mapped), false)
  match ← setupPortMem canvasStatus tmp env .src m s with
  | (s, none) => return failed s
  | (s, some src) =>
    match ← setupPortMem canvasStatus tmp env .src2 m s with
    | (s, none) => return failed s
    | (s, some src2) =>
      match ← setupPortMem canvasStatus tmp env .dst m s with
      | (s, none) => return failed s
      | (s, some dst) => return ((finishMem m src src2 dst { c with config := s.config }, s.next, s.mapped), true)

end Amlogic.Ge2d
