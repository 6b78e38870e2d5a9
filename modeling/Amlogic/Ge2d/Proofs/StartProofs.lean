import Amlogic.Ge2d.Start
import Amlogic.Ge2d.Proofs.GenProofs
import Amlogic.Ge2d.Proofs.CanvasIdProofs

/-!
# GE2D: a command is started with the canvases of its configuration

A plane that is given as memory is noted in the configuration, and when a command is started it gets the next canvas.
The byte for the plane then names a canvas with the address, the stride and the height that were given.
-/

namespace Amlogic.Ge2d

open PlaneLoop StartEvent

/-! ## What is wanted -/

/-- The picture is given by a canvas: it is neither a display nor memory. -/
def ParaEx.ByIndex (para : ParaEx) : Prop :=
  para.memType ≠ canvasOsd0 ∧ para.memType ≠ canvasOsd1 ∧ para.memType ≠ canvasAlloc

def planeCanvas (p : ConfigParaEx) (t : DataType) (i : Plane) : CanvasCfg :=
  ⟨true, (p.planes t i).w * bytesPerPixel (p.para t).format, (p.planes t i).h, (p.planes t i).addr⟩

def canvasByte (canaddr : Word) (i : Plane) : Word := canaddr >>> (8 * i.val) &&& 0xff

structure Agrees (p : ConfigParaEx) (cfg : Config) (table : CanvasTable) : Prop where
  alloc : ∀ t, (p.para t).memType = canvasAlloc → ∀ i,
    if (p.planes t i).addr ≠ 0 then
      table (canvasByte (cfg.canaddr t) i) = some ⟨(planeCanvas p t i).physAddr, (planeCanvas p t i).stride,
        (planeCanvas p t i).height⟩
    else canvasByte (cfg.canaddr t) i = 0
  index : ∀ t, (p.para t).ByIndex → cfg.canaddr t = (p.para t).canvasIndex

structure Ready (p : ConfigParaEx) (cfg : Config) : Prop where
  alloc : ∀ t, (p.para t).memType = canvasAlloc → cfg.canaddr t = 0 ∧ ∀ i,
    if (p.planes t i).addr ≠ 0 then cfg.canvasCfg t i = planeCanvas p t i
    else (cfg.canvasCfg t i).canvasUsed = false
  index : ∀ t, (p.para t).ByIndex →
    cfg.canaddr t = (p.para t).canvasIndex ∧ ∀ i, (cfg.canvasCfg t i).canvasUsed = false
  single : (p.para .src2).memType = canvasAlloc → ∀ i, i ≠ 0 → (p.planes .src2 i).addr = 0

/-! ## The loop over the planes -/

section Loop

variable (planes : Plane → CanvasCfg)

theorem foldl_writes_mono {l : List Plane} {r : PlaneLoop} {w : CanvasWrite} (hw : w ∈ r.writes) :
    w ∈ (l.foldl (round planes) r).writes := by
  induction l generalizing r with
  | nil => exact hw
  | cons i l ih =>
    refine ih ?_
    unfold PlaneLoop.round
    split_ifs
    · exact List.mem_append.mpr (.inl hw)
    · exact hw

/-- The number of planes before a plane that are used. -/
def rank (i : Plane) : Nat := usedIn planes ((List.finRange 4).take i)

theorem mem_setPlanes_writes (index : Word) {i : Plane} (hi : (planes i).canvasUsed = true) :
    ⟨index + BitVec.ofNat 32 (rank planes i), (planes i).physAddr, (planes i).stride, (planes i).height⟩ ∈
      (setPlanes planes index).writes := by
  have hsplit : ∀ i : Plane,
      List.finRange 4 = (List.finRange 4).take i ++ i :: (List.finRange 4).drop (i + 1) := by
    decide
  unfold setPlanes
  rw [hsplit i, List.foldl_append, List.foldl_cons]
  refine foldl_writes_mono planes ?_
  have hindex := (foldl_round planes ((List.finRange 4).take i) { index := index }).1
  have hround : ∀ r : PlaneLoop, (round planes r i).writes =
      r.writes ++ [⟨r.index, (planes i).physAddr, (planes i).stride, (planes i).height⟩] := by
    intro r
    unfold PlaneLoop.round
    rw [if_pos hi]
  rw [hround, hindex]
  exact List.mem_append.mpr (.inr List.mem_cons_self)

theorem foldl_round_congr {planes' : Plane → CanvasCfg}
    (hused : ∀ i, (planes' i).canvasUsed = (planes i).canvasUsed) (l : List Plane) {r r' : PlaneLoop}
    (hindex : r'.index = r.index) (hids : r'.ids = r.ids) (hset : r'.canvasSet = r.canvasSet) :
    (l.foldl (round planes') r').ids = (l.foldl (round planes) r).ids ∧
      (l.foldl (round planes') r').canvasSet = (l.foldl (round planes) r).canvasSet := by
  induction l generalizing r r' with
  | nil => exact ⟨hids, hset⟩
  | cons i l ih =>
    rw [List.foldl_cons, List.foldl_cons]
    unfold PlaneLoop.round
    rw [hused i]
    split_ifs
    · exact ih (congrArg (· + 1) hindex) (by show r'.ids ||| r'.index <<< _ = _; rw [hids, hindex]) rfl
    · exact ih hindex hids hset

def flags (b₀ b₁ b₂ b₃ : Bool) : Plane → CanvasCfg
  | 0 => { canvasUsed := b₀ }
  | 1 => { canvasUsed := b₁ }
  | 2 => { canvasUsed := b₂ }
  | 3 => { canvasUsed := b₃ }

def flagsOf : Plane → CanvasCfg :=
  flags (planes 0).canvasUsed (planes 1).canvasUsed (planes 2).canvasUsed (planes 3).canvasUsed

theorem flagsOf_used (i : Plane) : (flagsOf planes i).canvasUsed = (planes i).canvasUsed := by
  fin_cases i <;> rfl

theorem rank_flagsOf (i : Plane) : rank (flagsOf planes) i = rank planes i := by
  unfold rank usedIn
  congr 1
  funext j
  exact flagsOf_used planes j

theorem flags_byte : ∀ (k : Fin 9) (b0 b1 b2 b3 : Bool) (i : Plane),
    canvasByte (setPlanes (flags b0 b1 b2 b3) (allocCanvasIndex + BitVec.ofNat 32 k)).ids i =
      if (flags b0 b1 b2 b3 i).canvasUsed then
        allocCanvasIndex + BitVec.ofNat 32 k + BitVec.ofNat 32 (rank (flags b0 b1 b2 b3) i)
      else 0 := by
  decide +kernel

theorem setPlanes_flagsOf (index : Word) :
    (setPlanes (flagsOf planes) index).ids = (setPlanes planes index).ids ∧
      (setPlanes (flagsOf planes) index).canvasSet = (setPlanes planes index).canvasSet :=
  foldl_round_congr planes (flagsOf_used planes) _ rfl rfl rfl

theorem setPlanes_fit (k : Fin 9) (hsingle : ∀ i, i ≠ 0 → (planes i).canvasUsed = false) :
    DataType.fit .src2 (setPlanes planes (allocCanvasIndex + BitVec.ofNat 32 k)).ids =
      (setPlanes planes (allocCanvasIndex + BitVec.ofNat 32 k)).ids := by
  have hflags : ∀ (k : Fin 9) (b : Bool),
      DataType.fit .src2 (setPlanes (flags b false false false) (allocCanvasIndex + BitVec.ofNat 32 k)).ids =
        (setPlanes (flags b false false false) (allocCanvasIndex + BitVec.ofNat 32 k)).ids := by
    decide +kernel
  have hof : flagsOf planes = flags (planes 0).canvasUsed false false false := by
    unfold flagsOf
    rw [hsingle 1 (by decide), hsingle 2 (by decide), hsingle 3 (by decide)]
  rw [← (setPlanes_flagsOf planes _).1, hof]
  exact hflags k _

theorem setPlanes_none (index : Word) (hnone : ∀ i, (planes i).canvasUsed = false) :
    (setPlanes planes index).canvasSet = false := by
  have hround : ∀ (l : List Plane) (r : PlaneLoop), l.foldl (round planes) r = r := by
    intro l r
    induction l generalizing r with
    | nil => rfl
    | cons i l ih =>
      rw [List.foldl_cons, ih]
      unfold PlaneLoop.round
      rw [hnone i]
      rfl
  unfold setPlanes
  rw [hround]

theorem setPlanes_unset (index : Word) (hset : (setPlanes planes index).canvasSet = false) :
    (setPlanes planes index).ids = 0 := by
  have hfold : ∀ (l : List Plane) (r : PlaneLoop), (r.canvasSet = false → r.ids = 0) →
      (l.foldl (round planes) r).canvasSet = false → (l.foldl (round planes) r).ids = 0 := by
    intro l r hr
    induction l generalizing r with
    | nil => exact hr
    | cons i l ih =>
      refine ih _ ?_
      unfold PlaneLoop.round
      split_ifs
      · nofun
      · exact hr
  exact hfold _ _ (fun _ => rfl) hset

end Loop

/-! ## Starting a command -/

theorem usedIn_le (planes : Plane → CanvasCfg) : usedIn planes (List.finRange 4) ≤ 4 := List.countP_le_length

def firstNumber (cfg : Config) : DataType → Fin 9
  | .src => 0
  | .src2 => ⟨usedIn (cfg.canvasCfg .src) (List.finRange 4), Nat.lt_of_le_of_lt (usedIn_le _) (by decide)⟩
  | .dst => ⟨usedIn (cfg.canvasCfg .src) (List.finRange 4) + usedIn (cfg.canvasCfg .src2) (List.finRange 4),
      Nat.lt_succ_of_le (Nat.add_le_add (usedIn_le _) (usedIn_le _))⟩

def pictureLoop (cfg : Config) (t : DataType) : PlaneLoop :=
  setPlanes (cfg.canvasCfg t) (allocCanvasIndex + BitVec.ofNat 32 (firstNumber cfg t))

theorem setPlanes_index (planes : Plane → CanvasCfg) (index : Word) :
    (setPlanes planes index).index = index + BitVec.ofNat 32 (usedIn planes (List.finRange 4)) :=
  (foldl_round planes (List.finRange 4) { index := index }).1

theorem src_loop (cfg : Config) : setPlanes (cfg.canvasCfg .src) allocCanvasIndex = pictureLoop cfg .src := by
  unfold pictureLoop
  rw [show BitVec.ofNat 32 (firstNumber cfg .src).val = 0#32 from rfl, BitVec.add_zero]

theorem src2_loop (cfg : Config) :
    setPlanes (cfg.canvasCfg .src2) (pictureLoop cfg .src).index = pictureLoop cfg .src2 := by
  rw [← src_loop, setPlanes_index]
  rfl

theorem dst_loop (cfg : Config) :
    setPlanes (cfg.canvasCfg .dst) (pictureLoop cfg .src2).index = pictureLoop cfg .dst := by
  have hindex : (pictureLoop cfg .src2).index =
      allocCanvasIndex + BitVec.ofNat 32 (firstNumber cfg .dst) := by
    unfold pictureLoop
    rw [setPlanes_index, BitVec.add_assoc, ← BitVec.ofNat_add]
    rfl
  rw [hindex]
  rfl

theorem setCanvas_writes (cfg : Config) : (ge2dSetCanvas cfg).2 =
    (pictureLoop cfg .src).writes ++ (pictureLoop cfg .src2).writes ++ (pictureLoop cfg .dst).writes := by
  unfold ge2dSetCanvas
  dsimp only
  rw [src_loop, src2_loop, dst_loop]

theorem setCanvas_canaddr (cfg : Config) (t : DataType) : (ge2dSetCanvas cfg).1.canaddr t =
    if (pictureLoop cfg t).canvasSet then t.fit (pictureLoop cfg t).ids else cfg.canaddr t := by
  unfold ge2dSetCanvas
  dsimp only
  rw [src_loop, src2_loop, dst_loop]
  cases t with
  | src | src2 | dst =>
    split_ifs <;> rfl

theorem mem_setCanvas_writes {cfg : Config} {t : DataType} {w : CanvasWrite} (hw : w ∈ (pictureLoop cfg t).writes) :
    w ∈ (ge2dSetCanvas cfg).2 := by
  rw [setCanvas_writes, List.mem_append, List.mem_append]
  cases t with
  | src => exact .inl (.inl hw)
  | src2 => exact .inl (.inr hw)
  | dst => exact .inr hw

/-! ## The table of canvases -/

theorem usedPlanes_le (cfg : Config) : cfg.usedPlanes ≤ 12 := by
  have hle : ∀ t, usedIn (cfg.canvasCfg t) (List.finRange 4) ≤ 4 := fun t => List.countP_le_length
  have h1 := hle .src
  have h2 := hle .src2
  have h3 := hle .dst
  unfold Config.usedPlanes
  omega

theorem setCanvas_nodup (cfg : Config) : ((ge2dSetCanvas cfg).2.map CanvasWrite.index).Nodup := by
  rw [setCanvas_numbers]
  refine List.Nodup.map_on ?_ List.nodup_range
  intro m hm n hn h
  have hle := usedPlanes_le cfg
  have hm := List.mem_range.mp hm
  have hn := List.mem_range.mp hn
  have hall : ∀ m n : Fin 12, allocCanvasIndex + BitVec.ofNat 32 m = allocCanvasIndex + BitVec.ofNat 32 n → m = n := by
    decide
  exact Fin.mk.inj (hall ⟨m, by omega⟩ ⟨n, by omega⟩ h)

theorem setCanvas_valid {cfg : Config} {w : CanvasWrite} (hw : w ∈ (ge2dSetCanvas cfg).2) :
    w.index ≤ canvasIndexEnd := by
  have hmem : w.index ∈ (ge2dSetCanvas cfg).2.map CanvasWrite.index := List.mem_map_of_mem hw
  rw [setCanvas_numbers] at hmem
  obtain ⟨n, hn, hindex⟩ := List.mem_map.mp hmem
  have hlt : n < 12 := Nat.lt_of_lt_of_le (List.mem_range.mp hn) (usedPlanes_le cfg)
  have hall : ∀ n : Fin 12, allocCanvasIndex + BitVec.ofNat 32 n ≤ canvasIndexEnd := by decide
  rw [← hindex]
  exact hall ⟨n, hlt⟩

theorem foldl_canvasConfig {ws : List CanvasWrite} (hnodup : (ws.map CanvasWrite.index).Nodup) {w : CanvasWrite}
    (hw : w ∈ ws) (hvalid : w.index ≤ canvasIndexEnd) (table : CanvasTable) :
    ws.foldl canvasConfig table w.index = some ⟨w.addr, w.width, w.height⟩ := by
  have hother : ∀ (ws : List CanvasWrite) (table : CanvasTable), w.index ∉ ws.map CanvasWrite.index →
      ws.foldl canvasConfig table w.index = table w.index := by
    intro ws table hno
    induction ws generalizing table with
    | nil => rfl
    | cons v ws ih =>
      obtain ⟨hne, hno⟩ := not_or.mp (List.mem_cons.not.mp hno)
      rw [List.foldl_cons, ih _ hno]
      unfold canvasConfig
      split_ifs
      · exact if_neg hne
      · rfl
  induction ws generalizing table with
  | nil => cases hw
  | cons v ws ih =>
    obtain ⟨hv, hnodup⟩ := List.nodup_cons.mp hnodup
    rw [List.foldl_cons]
    rcases List.mem_cons.mp hw with rfl | hw
    · rw [hother ws _ hv]
      unfold canvasConfig
      rw [if_pos hvalid]
      exact if_pos rfl
    · exact ih hnodup hw _

theorem setCanvas_agrees {p : ConfigParaEx} {cfg : Config} (h : Ready p cfg) (table : CanvasTable) :
    Agrees p (ge2dSetCanvas cfg).1 ((ge2dSetCanvas cfg).2.foldl canvasConfig table) := by
  constructor
  · intro t ht i
    obtain ⟨hzero, hplanes⟩ := h.alloc t ht
    -- the canvases are those of the loop, also if there are none
    have hids : (ge2dSetCanvas cfg).1.canaddr t = t.fit (pictureLoop cfg t).ids := by
      rw [setCanvas_canaddr]
      by_cases hset : (pictureLoop cfg t).canvasSet = true
      · rw [if_pos hset]
      · rw [if_neg hset, hzero, show (pictureLoop cfg t).ids = 0 from
          setPlanes_unset _ _ (Bool.eq_false_iff.mpr hset)]
        cases t <;> rfl
    have hfit : t.fit (pictureLoop cfg t).ids = (pictureLoop cfg t).ids := by
      cases t with
      | src => rfl
      | dst => rfl
      | src2 =>
        refine setPlanes_fit _ _ fun i hi => ?_
        have hplane := hplanes i
        rwa [if_neg (not_not.mpr (h.single ht i hi))] at hplane
    have hbyte : canvasByte ((ge2dSetCanvas cfg).1.canaddr t) i = if (cfg.canvasCfg t i).canvasUsed then
        allocCanvasIndex + BitVec.ofNat 32 (firstNumber cfg t) + BitVec.ofNat 32 (rank (cfg.canvasCfg t) i)
        else 0 := by
      rw [hids, hfit, pictureLoop, ← (setPlanes_flagsOf _ _).1, ← rank_flagsOf, ← flagsOf_used]
      exact flags_byte (firstNumber cfg t) _ _ _ _ i
    have hplane := hplanes i
    by_cases haddr : (p.planes t i).addr ≠ 0
    · rw [if_pos haddr] at hplane ⊢
      have hused : (cfg.canvasCfg t i).canvasUsed = true := by
        rw [hplane]
        rfl
      have hw := mem_setCanvas_writes (mem_setPlanes_writes (cfg.canvasCfg t)
        (allocCanvasIndex + BitVec.ofNat 32 (firstNumber cfg t)) hused)
      rw [hbyte, if_pos hused, ← hplane]
      exact foldl_canvasConfig (setCanvas_nodup cfg) hw (setCanvas_valid hw) table
    · rw [if_neg haddr] at hplane ⊢
      rw [hbyte, hplane]
      rfl
  · intro t ht
    obtain ⟨hindex, hnone⟩ := h.index t ht
    rw [setCanvas_canaddr, show (pictureLoop cfg t).canvasSet = false from setPlanes_none _ _ hnone]
    exact hindex

/-! ## Configuring -/

/-- Planes that have been noted before are given again, the pictures that are given as memory do not begin at the
same address, and one canvas is enough for `src2`. -/
structure Admits (cfg : Config) (p : ConfigParaEx) : Prop where
  alloc : ∀ t, (p.para t).memType = canvasAlloc → ∀ i, (p.planes t i).addr = 0 →
    (cfg.canvasCfg t i).canvasUsed = false
  index : ∀ t, (p.para t).ByIndex → ∀ i, (cfg.canvasCfg t i).canvasUsed = false
  src2 : (p.para .src2).memType = canvasAlloc → (p.planes .src2 0).addr ≠ (p.planes .src 0).addr ∧
    ∀ i, i ≠ 0 → (p.planes .src2 i).addr = 0
  dst : (p.para .dst).memType = canvasAlloc → (p.planes .dst 0).addr ≠ (p.planes .src 0).addr ∧
    (p.planes .dst 0).addr ≠ (p.planes .src2 0).addr
  src2Index : (p.para .src2).ByIndex → (p.para .src2).canvasIndex < 256

section Configure

variable {tmp : SrcDstPara} {p : ConfigParaEx} {cfg cfg' : Config} {t : DataType} {port : Port}

theorem buildGe2dConfigEx_canvasCfg (t : DataType) (format : Word) (planes : Plane → PlanePara) (cfg : Config)
    (t' : DataType) (i : Plane) : (buildGe2dConfigEx t planes format cfg).1.canvasCfg t' i =
      if t' = t ∧ (planes i).addr ≠ 0 then
        ⟨true, (planes i).w * bytesPerPixel format, (planes i).h, (planes i).addr⟩
      else cfg.canvasCfg t' i := by
  have hfold : ∀ (l : List Plane) (r : Config × Bool), (l.foldl (fun r i =>
      if (planes i).addr ≠ 0 then
        (updateCanvasCfg t i (planes i).addr ((planes i).w * bytesPerPixel format) (planes i).h r.1, true)
      else r) r).1.canvasCfg t' i =
      if t' = t ∧ i ∈ l ∧ (planes i).addr ≠ 0 then
        ⟨true, (planes i).w * bytesPerPixel format, (planes i).h, (planes i).addr⟩
      else r.1.canvasCfg t' i := by
    intro l r
    induction l generalizing r with
    | nil => simp
    | cons j l ih =>
      rw [List.foldl_cons, ih]
      by_cases hmem : t' = t ∧ i ∈ l ∧ (planes i).addr ≠ 0
      · rw [if_pos hmem, if_pos ⟨hmem.1, List.mem_cons_of_mem j hmem.2.1, hmem.2.2⟩]
      · rw [if_neg hmem]
        by_cases hj : (planes j).addr ≠ 0
        · rw [if_pos hj]
          show (if t' = t ∧ i = j then _ else r.1.canvasCfg t' i) = _
          by_cases heq : t' = t ∧ i = j
          · rw [if_pos heq, if_pos ⟨heq.1, heq.2 ▸ List.mem_cons_self, heq.2 ▸ hj⟩, heq.2]
          · have hno : ¬ (t' = t ∧ i ∈ j :: l ∧ (planes i).addr ≠ 0) := by
              rintro ⟨ht, hi, haddr⟩
              rcases List.mem_cons.mp hi with rfl | hi
              · exact heq ⟨ht, rfl⟩
              · exact hmem ⟨ht, hi, haddr⟩
            rw [if_neg heq, if_neg hno]
        · rw [if_neg hj]
          have hno : ¬ (t' = t ∧ i ∈ j :: l ∧ (planes i).addr ≠ 0) := by
            rintro ⟨ht, hi, haddr⟩
            rcases List.mem_cons.mp hi with rfl | hi
            · exact hj haddr
            · exact hmem ⟨ht, hi, haddr⟩
          rw [if_neg hno]
  have hall := hfold (List.finRange 4) (cfg, false)
  simp only [List.mem_finRange, true_and] at hall
  exact hall

structure PictureSet (p : ConfigParaEx) (t : DataType) (cfg cfg' : Config) (port : Port) : Prop where
  index : (p.para t).ByIndex → cfg'.canvasCfg t = cfg.canvasCfg t ∧ port.para.canvasIndex = (p.para t).canvasIndex
  alloc : (p.para t).memType = canvasAlloc → port.para.canvasIndex = 0 ∧ ∀ i, cfg'.canvasCfg t i =
    if (p.planes t i).addr ≠ 0 then planeCanvas p t i else cfg.canvasCfg t i

structure PortSet (p : ConfigParaEx) (t : DataType) (cfg cfg' : Config) (port : Port) : Prop
    extends PictureSet p t cfg cfg' port where
  others : ∀ t', t' ≠ t → cfg'.canvasCfg t' = cfg.canvasCfg t'

theorem PictureSet.widen {cfg1 cfg2 : Config} (h : PictureSet p t cfg1 cfg2 port)
    (hbefore : cfg1.canvasCfg t = cfg.canvasCfg t) (hafter : cfg'.canvasCfg t = cfg2.canvasCfg t) :
    PictureSet p t cfg cfg' port := by
  obtain ⟨hindex, halloc⟩ := h
  rw [hbefore] at hindex halloc
  rw [← hafter] at hindex halloc
  exact ⟨hindex, halloc⟩

theorem setupPort_set {others : List (DataType × Port)}
    (hapart : (p.para t).memType = canvasAlloc → ∀ o ∈ others, (p.planes t 0).addr ≠ (p.planes o.1 0).addr)
    (hrun : setupPort false tmp t p others cfg = (cfg', some port)) : PortSet p t cfg cfg' port := by
  unfold setupPort at hrun
  by_cases hosd : (p.para t).memType = canvasOsd0 ∨ (p.para t).memType = canvasOsd1
  · rw [if_pos hosd] at hrun
    obtain ⟨rfl, -⟩ := Prod.mk.inj hrun
    refine ⟨⟨fun hindex => ?_, fun halloc => ?_⟩, fun _ _ => rfl⟩
    · exact absurd hosd (not_or.mpr ⟨hindex.1, hindex.2.1⟩)
    · rw [halloc] at hosd
      exact absurd hosd (by decide)
  · rw [if_neg hosd] at hrun
    by_cases halloc : (p.para t).memType = canvasAlloc
    · split_ifs at hrun
      · cases (Prod.mk.inj hrun).2
      · have hnone : (others.find? fun o => (p.planes t 0).addr = (p.planes o.1 0).addr) = none :=
          List.find?_eq_none.mpr fun o ho => by simpa using hapart halloc o ho
        rw [hnone] at hrun
        obtain ⟨rfl, hport⟩ := Prod.mk.inj hrun
        split_ifs at hport
        cases hport
        refine ⟨⟨fun hindex => absurd halloc hindex.2.2, fun _ => ⟨rfl, fun i => ?_⟩⟩, fun t' hne => ?_⟩
        · refine (buildGe2dConfigEx_canvasCfg t _ _ cfg t i).trans ?_
          simp only [true_and]
          rfl
        · funext i
          exact (buildGe2dConfigEx_canvasCfg t _ _ cfg t' i).trans (if_neg fun h => hne h.1)
    · rw [if_neg halloc] at hrun
      obtain ⟨rfl, hport⟩ := Prod.mk.inj hrun
      cases hport
      exact ⟨⟨fun _ => ⟨rfl, rfl⟩, fun h => absurd h halloc⟩, fun _ _ => rfl⟩

theorem port_of_ok {c c' : Ctx} {r : Config × Option Port} {f : Config → Port → Ctx × Bool} (h : (match r with
      | (cfg, none) => ({ c with config := cfg }, false)
      | (cfg, some port) => f cfg port) = (c', true)) :
    ∃ cfg port, r = (cfg, some port) ∧ f cfg port = (c', true) := by
  obtain ⟨cfg, o⟩ := r
  cases o with
  | none => cases (Prod.mk.inj h).2
  | some port => exact ⟨cfg, port, rfl, h⟩

theorem ge2dContextConfigEx_ready {c c' : Ctx} (hadmits : Admits c.config p)
    (hrun : ge2dContextConfigEx false tmp p c = (c', true)) : Ready p c'.config := by
  obtain ⟨cfg1, src, h1, hrun⟩ := port_of_ok hrun
  obtain ⟨cfg2, src2, h2, hrun⟩ := port_of_ok hrun
  obtain ⟨cfg3, dst, h3, hrun⟩ := port_of_ok hrun
  obtain ⟨rfl, -⟩ := Prod.mk.inj hrun
  have hsrc : PortSet p .src c.config cfg1 src :=
    setupPort_set (fun _ o ho => absurd ho List.not_mem_nil) h1
  have hsrc2 : PortSet p .src2 cfg1 cfg2 src2 := by
    refine setupPort_set (fun halloc o ho => ?_) h2
    rw [List.mem_singleton.mp ho]
    exact (hadmits.src2 halloc).1
  have hdst : PortSet p .dst cfg2 cfg3 dst := by
    refine setupPort_set (fun halloc o ho => ?_) h3
    obtain ⟨hne, hne2⟩ := hadmits.dst halloc
    rcases List.mem_cons.mp ho with rfl | ho
    · exact hne
    · rw [List.mem_singleton.mp ho]
      exact hne2
  -- the end of the function writes the canvases and nothing else of the pictures
  have hgen := (genPorts_writes cfg3 p src src2 dst).then_same (setDetails_writes _ p src src2 0xff 0 0xff 0)
  have hset : ∀ t, ∃ port : Port, portCanvases src src2 dst t = some port.para.canvasIndex ∧
      PictureSet p t c.config cfg3 port := by
    intro t
    cases t with
    | src =>
      refine ⟨src, rfl, hsrc.toPictureSet.widen rfl ?_⟩
      rw [hdst.others .src nofun, hsrc2.others .src nofun]
    | src2 => exact ⟨src2, rfl, hsrc2.toPictureSet.widen (hsrc.others .src2 nofun) (hdst.others .src2 nofun)⟩
    | dst =>
      refine ⟨dst, rfl, hdst.toPictureSet.widen ?_ rfl⟩
      rw [hsrc2.others .dst nofun, hsrc.others .dst nofun]
  refine ⟨?_, ?_, fun halloc => (hadmits.src2 halloc).2⟩
  · intro t halloc
    obtain ⟨port, hport, hpicture⟩ := hset t
    obtain ⟨hzero, hplanes⟩ := hpicture.alloc halloc
    constructor
    · rw [hgen.canaddr t, hport, hzero]
      cases t <;> rfl
    · intro i
      rw [hgen.canvasCfg, hplanes i]
      by_cases haddr : (p.planes t i).addr ≠ 0
      · rw [if_pos haddr, if_pos haddr]
      · rw [if_neg haddr, if_neg haddr]
        exact hadmits.alloc t halloc i (not_not.mp haddr)
  · intro t hindex
    obtain ⟨port, hport, hpicture⟩ := hset t
    obtain ⟨hcanvas, hport'⟩ := hpicture.index hindex
    constructor
    · rw [hgen.canaddr t, hport, hport']
      cases t with
      | src => rfl
      | dst => rfl
      | src2 =>
        have hlt := hadmits.src2Index hindex
        show ((p.para .src2).canvasIndex.setWidth 8).setWidth 32 = _
        bv_omega
    · intro i
      rw [hgen.canvasCfg, hcanvas]
      exact hadmits.index t hindex i

end Configure

/-! ## Runs -/

instance Admits.decidable (cfg : Config) (p : ConfigParaEx) : Decidable (Admits cfg p) :=
  decidable_of_iff
    ((∀ t ∈ [DataType.src, .src2, .dst], (p.para t).memType = canvasAlloc → ∀ i, (p.planes t i).addr = 0 →
        (cfg.canvasCfg t i).canvasUsed = false) ∧
      (∀ t ∈ [DataType.src, .src2, .dst], ((p.para t).memType ≠ canvasOsd0 ∧ (p.para t).memType ≠ canvasOsd1 ∧
        (p.para t).memType ≠ canvasAlloc) → ∀ i, (cfg.canvasCfg t i).canvasUsed = false) ∧
      ((p.para .src2).memType = canvasAlloc → (p.planes .src2 0).addr ≠ (p.planes .src 0).addr ∧
        ∀ i, i ≠ 0 → (p.planes .src2 i).addr = 0) ∧
      ((p.para .dst).memType = canvasAlloc → (p.planes .dst 0).addr ≠ (p.planes .src 0).addr ∧
        (p.planes .dst 0).addr ≠ (p.planes .src2 0).addr) ∧
      (((p.para .src2).memType ≠ canvasOsd0 ∧ (p.para .src2).memType ≠ canvasOsd1 ∧
        (p.para .src2).memType ≠ canvasAlloc) → (p.para .src2).canvasIndex < 256))
    ⟨fun ⟨h₁, h₂, h₃, h₄, h₅⟩ => ⟨fun t => h₁ t (by cases t <;> decide), fun t => h₂ t (by cases t <;> decide), h₃, h₄,
        h₅⟩,
      fun ⟨h₁, h₂, h₃, h₄, h₅⟩ => ⟨fun t _ => h₁ t, fun t _ => h₂ t, h₃, h₄, h₅⟩⟩

/-- A configuration is admitted by what the context has noted before. -/
def StartEvent.Fair (s : StartSystem) : StartEvent → Prop
  | config k _ p => Admits (s.context k).ctx.config p
  | command _ | start _ => True

instance StartEvent.decidableFair (s : StartSystem) : ∀ e : StartEvent, Decidable (e.Fair s)
  | .config _ _ _ => inferInstanceAs (Decidable (Admits _ _))
  | .command _ | .start _ => .isTrue trivial

namespace StartSystem

/-- Every command was started with the canvases of its last configuration. -/
def Sound (s : StartSystem) : Prop := ∀ o ∈ s.started, ∀ p, o.wanted = some p → Agrees p o.config o.table

/-- What a context and the commands in its queue are configured for can be made. -/
structure ContextReady (c : StartContext) : Prop where
  now : ∀ p, c.wanted = some p → Ready p c.ctx.config
  queue : ∀ o ∈ c.queue, ∀ p, o.wanted = some p → Ready p o.config

structure Inv (s : StartSystem) : Prop where
  contexts : ∀ k, ContextReady (s.context k)
  sound : s.Sound

variable {s s' : StartSystem}

theorem init_inv : Inv {} :=
  ⟨fun _ => ⟨fun _ h => (Option.some_ne_none _ h.symm).elim, List.forall_mem_nil _⟩, List.forall_mem_nil _⟩

theorem Inv.setContext (h : s.Inv) {k : Nat} {c : StartContext} (hc : ContextReady c) : (s.setContext k c).Inv := by
  refine ⟨fun k' => ?_, h.sound⟩
  show ContextReady (if k' = k then c else s.context k')
  split_ifs
  · exact hc
  · exact h.contexts k'

theorem ready_updateFlag {p : ConfigParaEx} {cfg : Config} (h : Ready p cfg) (flag : Word) :
    Ready p { cfg with updateFlag := flag } := ⟨h.alloc, h.index, h.single⟩

theorem Inv.step (h : s.Inv) {e : StartEvent} (hfair : e.Fair s) (hstep : e.Step s s') : s'.Inv := by
  unfold StartEvent.Step at hstep
  cases e with
  | config k tmp p =>
    unfold next at hstep
    dsimp only at hstep
    split at hstep
    · cases hstep
    · rename_i ctx hrun
      cases hstep
      refine h.setContext ⟨?_, (h.contexts k).queue⟩
      rintro p' ⟨⟩
      exact ge2dContextConfigEx_ready hfair hrun
  | command k =>
    unfold next at hstep
    dsimp only at hstep
    split_ifs at hstep
    · cases hstep
      exact h
    · cases hstep
      refine h.setContext ⟨fun p hp => ready_updateFlag ((h.contexts k).now p hp) 0, fun o ho => ?_⟩
      rcases List.mem_append.mp ho with ho | ho
      · exact (h.contexts k).queue o ho
      · rw [List.mem_singleton.mp ho]
        exact (h.contexts k).now
  | start k =>
    unfold next at hstep
    dsimp only at hstep
    split at hstep
    · cases hstep
    · rename_i o rest hqueue
      cases hstep
      have hcontext := h.contexts k
      have hrest : ContextReady { s.context k with queue := rest } :=
        ⟨hcontext.now, fun o' ho' => hcontext.queue o' (hqueue ▸ List.mem_cons_of_mem o ho')⟩
      refine ⟨(h.setContext hrest).contexts, fun o' ho' p hp => ?_⟩
      rcases List.mem_append.mp ho' with ho' | ho'
      · exact h.sound o' ho' p hp
      · rw [List.mem_singleton.mp ho'] at hp ⊢
        exact setCanvas_agrees (hcontext.queue o (hqueue ▸ List.mem_cons_self) p hp) s.table

end StartSystem

/-- In a run whose configurations are admitted, every command is started with the canvases that it was configured
for. -/
theorem commands_start_with_their_canvases {s : StartSystem} (hrun : Runs StartEvent.Step StartEvent.Fair {} s) :
    s.Sound := by
  have hinv : s.Inv := Runs.keeps (fun h hfair hstep => StartSystem.Inv.step h hfair hstep) hrun StartSystem.init_inv
  exact hinv.sound

def copyPara (dst : BitVec 64) : ConfigParaEx where
  para t := if t = .src2 then { memType := 3 } else { memType := canvasAlloc }
  planes t i := if i = 0 then
      match t with
      | .src => { addr := 0x1000, w := 8, h := 8 }
      | .src2 => {}
      | .dst => { addr := dst, w := 8, h := 8 }
    else {}

/-- Two contexts each start a copy; the canvases are used again. -/
theorem commands_start_with_their_canvases_twice : ∃ s : StartSystem,
    Runs StartEvent.Step StartEvent.Fair {} s ∧ s.started.length = 2 ∧ s.Sound := by
  have hplay : (([.config 0 {} (copyPara 0x2000), .command 0, .config 1 {} (copyPara 0x3000), .command 1, .start 0,
      .start 1] : List StartEvent).foldlM (guarded StartEvent.Fair next) {}).any
      (fun s => s.started.length == 2) = true := by
    decide +kernel
  obtain ⟨s, hrun, hs⟩ : ∃ s, Runs StartEvent.Step StartEvent.Fair {} s ∧ _ := Runs.of_guarded hplay id
  exact ⟨s, hrun, eq_of_beq hs, commands_start_with_their_canvases hrun⟩

def indexPara : ConfigParaEx where
  para t := if t = .src then { memType := 3, canvasIndex := 7 } else (copyPara 0x2000).para t
  planes := (copyPara 0x2000).planes

/-- A picture is copied to itself, and the command has no canvas to write to. Or a picture is given by a canvas, and the
command has the canvas of the memory that was given by the configuration before. -/
theorem command_starts_with_other_canvases :
    (∃ s : StartSystem, Runs StartEvent.Step (fun _ _ => True) {} s ∧ ∃ o ∈ s.started, ∃ p, o.wanted = some p ∧
      (p.planes .dst 0).addr = (p.planes .src 0).addr ∧ ¬ Agrees p o.config o.table) ∧
    ∃ s : StartSystem, Runs StartEvent.Step (fun _ _ => True) {} s ∧ ∃ o ∈ s.started, ∃ p, o.wanted = some p ∧
      (p.para .src).ByIndex ∧ ¬ Agrees p o.config o.table := by
  have hnext : ∀ {s s' : StartSystem} {e : StartEvent}, e.next s = some s' → True ∧ e.Step s s' :=
    fun h => ⟨trivial, h⟩
  constructor
  · have hplay : (([.config 0 {} (copyPara 0x1000), .command 0, .start 0] : List StartEvent).foldlM
        next {}).any (fun s => s.started.any fun o => o.wanted.any fun p =>
          decide ((p.planes .dst 0).addr = (p.planes .src 0).addr ∧ (p.para .dst).memType = canvasAlloc ∧
            (p.planes .dst 0).addr ≠ 0 ∧ o.table (canvasByte (o.config.canaddr .dst) 0) = none)) = true := by
      decide +kernel
    obtain ⟨s, hrun, hs⟩ := Runs.of_play hplay hnext
    obtain ⟨o, ho, hs⟩ := List.any_eq_true.mp hs
    obtain ⟨p, hp, hs⟩ := (Option.any_eq_true _ _).mp hs
    obtain ⟨hsame, halloc, haddr, hnone⟩ := of_decide_eq_true hs
    refine ⟨s, hrun, o, ho, p, hp, hsame, fun hagrees => ?_⟩
    have hcanvas := hagrees.alloc .dst halloc 0
    rw [if_pos haddr, hnone] at hcanvas
    cases hcanvas
  · have hplay : (([.config 0 {} (copyPara 0x2000), .config 0 {} indexPara, .command 0, .start 0] :
        List StartEvent).foldlM next {}).any (fun s => s.started.any fun o => o.wanted.any fun p =>
          decide (((p.para .src).memType ≠ canvasOsd0 ∧ (p.para .src).memType ≠ canvasOsd1 ∧
            (p.para .src).memType ≠ canvasAlloc) ∧ o.config.canaddr .src ≠ (p.para .src).canvasIndex)) = true := by
      decide +kernel
    obtain ⟨s, hrun, hs⟩ := Runs.of_play hplay hnext
    obtain ⟨o, ho, hs⟩ := List.any_eq_true.mp hs
    obtain ⟨p, hp, hs⟩ := (Option.any_eq_true _ _).mp hs
    obtain ⟨hindex, hne⟩ := of_decide_eq_true hs
    exact ⟨s, hrun, o, ho, p, hp, hindex, fun hagrees => hne (hagrees.index .src hindex)⟩

end Amlogic.Ge2d
