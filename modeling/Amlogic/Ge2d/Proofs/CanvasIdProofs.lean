import Amlogic.Ge2d.SetCanvas
import Amlogic.Canvas.Proofs.CanvasRunProofs
import Amlogic.Base.Runs

/-!
# GE2D: the canvases stay in the range that is registered

The canvases of a command are numbered from `ALLOC_CANVAS_INDEX` on, one for each plane that is used. The range that
`canvas_pool_config` registers for GE2D ends at 0x48, so five planes fit in it, and a command may have
twelve.
-/

namespace Amlogic.Ge2d

open Canvas Function

/-! ## The numbers of the canvases -/

section Numbers

variable (planes : Plane → CanvasCfg)

def usedIn (planes : Plane → CanvasCfg) (l : List Plane) : Nat := l.countP fun i => (planes i).canvasUsed

def numbers (index : Word) (n : Nat) : List Word := (List.range n).map fun k => index + BitVec.ofNat 32 k

theorem numbers_add (index : Word) (m n : Nat) :
    numbers index (m + n) = numbers index m ++ numbers (index + BitVec.ofNat 32 m) n := by
  unfold numbers
  rw [List.range_add, List.map_append, List.map_map]
  congr 2
  funext k
  show index + BitVec.ofNat 32 (m + k) = index + BitVec.ofNat 32 m + BitVec.ofNat 32 k
  rw [BitVec.ofNat_add, BitVec.add_assoc]

theorem foldl_round (l : List Plane) (r : PlaneLoop) :
    (l.foldl (PlaneLoop.round planes) r).index = r.index + BitVec.ofNat 32 (usedIn planes l) ∧
      (l.foldl (PlaneLoop.round planes) r).writes.map CanvasWrite.index =
        r.writes.map CanvasWrite.index ++ numbers r.index (usedIn planes l) := by
  induction l generalizing r with
  | nil =>
    constructor
    · exact (BitVec.add_zero _).symm
    · exact (List.append_nil _).symm
  | cons i l ih =>
    obtain ⟨hindex, hwrites⟩ := ih (PlaneLoop.round planes r i)
    rw [List.foldl_cons, hindex, hwrites]
    unfold PlaneLoop.round usedIn
    by_cases hi : (planes i).canvasUsed = true
    · rw [if_pos hi, List.countP_cons_of_pos (p := fun i => (planes i).canvasUsed) hi, Nat.add_comm, numbers_add]
      constructor
      · rw [BitVec.ofNat_add, BitVec.add_assoc]
        rfl
      · rw [List.map_append, List.append_assoc]
        congr 2
        simp [numbers]
    · rw [if_neg hi, List.countP_cons_of_neg (p := fun i => (planes i).canvasUsed) hi]
      exact ⟨rfl, rfl⟩

def Config.usedPlanes (cfg : Config) : Nat :=
  usedIn (cfg.canvasCfg .src) (List.finRange 4) + usedIn (cfg.canvasCfg .src2) (List.finRange 4) +
    usedIn (cfg.canvasCfg .dst) (List.finRange 4)

theorem setCanvas_numbers (cfg : Config) :
    (ge2dSetCanvas cfg).2.map CanvasWrite.index = numbers allocCanvasIndex cfg.usedPlanes := by
  have hloop := fun t index => foldl_round (cfg.canvasCfg t) (List.finRange 4) { index := index }
  obtain ⟨hindex, hwrites⟩ := hloop .src allocCanvasIndex
  obtain ⟨hindex2, hwrites2⟩ := hloop .src2 (setPlanes (cfg.canvasCfg .src) allocCanvasIndex).index
  obtain ⟨-, hwrites3⟩ := hloop .dst (setPlanes (cfg.canvasCfg .src2)
    (setPlanes (cfg.canvasCfg .src) allocCanvasIndex).index).index
  unfold Config.usedPlanes ge2dSetCanvas
  rw [List.map_append, List.map_append, numbers_add, numbers_add, BitVec.ofNat_add, ← BitVec.add_assoc]
  unfold setPlanes at hindex2 hwrites2 hwrites3 ⊢
  rw [hwrites, hwrites2, hwrites3, hindex2, hindex]
  rfl

end Numbers

/-! ## The canvas pool -/

inductive PoolCall where
  | alloc (owner : String)
  | free (index : Int)

def PoolCall.Step (p : CanvasPool) (c : PoolCall) (p' : CanvasPool) : Prop :=
  match c with
  | .alloc owner => p' = (canvasPoolMapAllocCanvasIn owner p).2
  | .free index => p' = canvasPoolMapFreeCanvas index p

def PoolCall.Allowed (p : CanvasPool) : PoolCall → Prop
  | .alloc _ => True
  | .free index => (p.info index.toNat).fixedOnwer = false

/-- `canvas_pool_config` has registered the canvas for GE2D. -/
def RegisteredForGe2d (id : Nat) : Prop := canvasPoolConfig.info id = ⟨some "osd", none, true⟩

instance (id : Nat) : Decidable (RegisteredForGe2d id) := inferInstanceAs (Decidable (_ = _))

/-- The canvas is registered for GE2D, and in no run of the pool a driver gets it. -/
def Reserved (id : Nat) : Prop :=
  RegisteredForGe2d id ∧
    ∀ p, Runs PoolCall.Step PoolCall.Allowed canvasPoolConfig p →
      ∀ owner, (canvasPoolMapAllocCanvasIn owner p).1 ≠ id

section Pool

variable {id : Nat} {p p' : CanvasPool}

def Fixed (id : Nat) (p : CanvasPool) : Prop := p.canvasMap id = true ∧ (p.info id).fixedOnwer = true

theorem alloc_ne_of_fixed (h : Fixed id p) (owner : String) : (canvasPoolMapAllocCanvasIn owner p).1 ≠ id := by
  cases hn : nextFree p.canvasMap p.nextAllocedIndex with
  | none =>
    rw [alloc_of_none owner hn]
    omega
  | some i =>
    rw [(alloc_of_some owner hn).1]
    intro hid
    obtain rfl := Int.ofNat.inj hid
    have hi : p.canvasMap i = false := (nextFree_some hn).2.1
    rw [h.1] at hi
    cases hi

theorem fixed_step (h : Fixed id p) {c : PoolCall} (hok : c.Allowed p) (hstep : c.Step p p') : Fixed id p' := by
  cases c with
  | alloc owner =>
    obtain rfl := hstep
    unfold canvasPoolMapAllocCanvasIn
    cases nextFree p.canvasMap p.nextAllocedIndex with
    | none => exact h
    | some i =>
      have hhold : Fixed id (p.hold i owner) := by
        show update p.canvasMap i true id = true ∧ (update p.info i _ id).fixedOnwer = true
        by_cases hi : id = i
        · subst hi
          rw [update_self, update_self]
          exact ⟨rfl, h.2⟩
        · rw [update_of_ne hi, update_of_ne hi]
          exact h
      dsimp only
      by_cases hi : 0 < i
      · rw [if_pos hi]
        exact hhold
      · rw [if_neg hi]
        exact hhold
  | free index =>
    obtain rfl := hstep
    unfold canvasPoolMapFreeCanvas
    split_ifs
    · have hi : id ≠ index.toNat := by
        rintro rfl
        have hok : (p.info index.toNat).fixedOnwer = false := hok
        rw [h.2] at hok
        cases hok
      unfold Fixed
      dsimp only
      rw [update_of_ne hi, update_of_ne hi]
      exact h
    · exact h

end Pool

/-! ## All commands -/

theorem not_registered_sixth : ¬RegisteredForGe2d 0x49 := by
  decide +kernel

/-- The canvases of a command are reserved if and only if it uses at most five planes. -/
theorem canvas_ids_reserved_iff (cfg : Config) :
    (∀ w ∈ (ge2dSetCanvas cfg).2, Reserved w.index.toNat) ↔ cfg.usedPlanes ≤ 5 := by
  have hids : (∀ w ∈ (ge2dSetCanvas cfg).2, Reserved w.index.toNat) ↔
      ∀ id ∈ numbers allocCanvasIndex cfg.usedPlanes, Reserved id.toNat := by
    rw [← setCanvas_numbers, List.forall_mem_map]
  rw [hids]
  unfold numbers
  rw [List.forall_mem_map]
  constructor
  · intro h
    by_contra hmany
    exact not_registered_sixth (h 5 (List.mem_range.mpr (by omega))).1
  · intro hfew k hk
    have hk : k < 5 := lt_of_lt_of_le (List.mem_range.mp hk) hfew
    have hid : (allocCanvasIndex + BitVec.ofNat 32 k).toNat = 0x44 + k := by
      show (0x44#32 + BitVec.ofNat 32 k).toNat = 0x44 + k
      rw [BitVec.toNat_add, BitVec.toNat_ofNat, BitVec.toNat_ofNat]
      omega
    have hrange : ∀ k < 5, RegisteredForGe2d (0x44 + k) ∧ canvasPoolConfig.canvasMap (0x44 + k) = true := by
      decide +kernel
    obtain ⟨hreg, hmap⟩ := hrange k hk
    rw [hid]
    -- a canvas that is registered for GE2D and not free at the start is not handed out
    refine ⟨hreg, fun p hrun owner => ?_⟩
    have hstart : Fixed (0x44 + k) canvasPoolConfig := ⟨hmap, by rw [hreg]⟩
    exact alloc_ne_of_fixed (hrun.keeps (fun h hok hstep => fixed_step h hok hstep) hstart) owner

def twoYuvPictures : Config where
  canvasCfg t i := { canvasUsed := t ≠ .src2 ∧ i.val < 3 }

/-- A command with six planes programs a canvas that drivers get from the pool. -/
theorem canvas_ids_not_reserved : ¬∀ cfg : Config, ∀ w ∈ (ge2dSetCanvas cfg).2, Reserved w.index.toNat := by
  intro h
  have hw : ⟨0x49, 0, 0, 0⟩ ∈ (ge2dSetCanvas twoYuvPictures).2 := by
    decide
  exact not_registered_sixth (h twoYuvPictures _ hw).1

end Amlogic.Ge2d
