import Amlogic.Canvas.Proofs.CanvasRunProofs

/-!
# Tables of canvases

`canvas_pool_free_canvas_table` gives back what `canvas_pool_alloc_canvas_table` has taken, and canvas 0 as well when
an entry of the table has a byte that is not used.
-/

namespace Amlogic.Canvas

variable {p p' : CanvasPool} {owner : String} {type : CanvasMapType} {size j : Nat} {tab : List (BitVec 32)}

/-! ## Entries -/

def byteOf (v : BitVec 32) (byte : Nat) : BitVec 32 := v >>> (8 * byte) &&& 0xff

def entryCanvases (v : BitVec 32) : List Nat :=
  [(byteOf v 0).toNat, (byteOf v 1).toNat, (byteOf v 2).toNat, (byteOf v 3).toNat]

theorem byteOf_lt (v : BitVec 32) (byte : Nat) : (byteOf v byte).toNat < canvasMaxNum := by
  exact Nat.lt_of_le_of_lt Nat.and_le_right (by decide)

theorem held_freeIf {c : BitVec 32} (hc : c.toNat < canvasMaxNum) (P : Prop) [Decidable P] (p : CanvasPool) :
    (if P then canvasPoolMapFreeCanvas c.toNat p else p).held j = if P ∧ j = c.toNat then none else p.held j := by
  by_cases hP : P
  · rw [if_pos hP, held_free (Int.natCast_nonneg _) (by exact_mod_cast hc)]
    simp [hP]
  · simp [hP]

theorem held_freeEntry (p : CanvasPool) (v : BitVec 32) :
    (freeEntry p v).held j = if j ∈ entryCanvases v then none else p.held j := by
  have h1 := byteOf_lt v 0
  have h2 := byteOf_lt v 1
  have h3 := byteOf_lt v 2
  have h4 := byteOf_lt v 3
  unfold freeEntry entryCanvases
  rw [show v &&& 0xff = byteOf v 0 by simp [byteOf], show v >>> 8 &&& 0xff = byteOf v 1 from rfl,
    show v >>> 16 &&& 0xff = byteOf v 2 from rfl, show v >>> 24 &&& 0xff = byteOf v 3 from rfl]
  generalize byteOf v 0 = c1 at *
  generalize byteOf v 1 = c2 at *
  generalize byteOf v 2 = c3 at *
  generalize byteOf v 3 = c4 at *
  rw [held_freeIf h4, held_freeIf h3, held_freeIf h2,
    held_free (Int.natCast_nonneg _) (by exact_mod_cast h1)]
  -- a byte that is skipped is equal to one before it
  split_ifs <;> grind

theorem held_freeTable (tab : List (BitVec 32)) (p : CanvasPool) :
    (canvasPoolFreeCanvasTable tab p).held j =
      if ∃ v ∈ tab, j ∈ entryCanvases v then none else p.held j := by
  induction tab generalizing p with
  | nil => simp [canvasPoolFreeCanvasTable]
  | cons v tab ih =>
    show (canvasPoolFreeCanvasTable tab (freeEntry p v)).held j = _
    rw [ih, held_freeEntry]
    by_cases hj : j ∈ entryCanvases v <;> simp [hj]

theorem byteOf_inByte {a k m : Nat} (ha : a < canvasMaxNum) (hk : k < 4) (hm : m < 4) :
    byteOf (inByte a k) m = if m = k then BitVec.ofNat 32 a else 0 := by
  have hall : ∀ (a : Fin canvasMaxNum) (k m : Fin 4),
      byteOf (inByte (a : Nat) k) m = if (m : Nat) = k then BitVec.ofNat 32 a else 0 := by decide +kernel
  exact hall ⟨a, ha⟩ ⟨k, hk⟩ ⟨m, hm⟩

theorem byteOf_or (v w : BitVec 32) (m : Nat) : byteOf (v ||| w) m = byteOf v m ||| byteOf w m := by
  unfold byteOf
  rw [BitVec.ushiftRight_or_distrib]
  refine BitVec.eq_of_getLsbD_eq fun i _ => ?_
  simp only [BitVec.getLsbD_and, BitVec.getLsbD_or, Bool.and_or_distrib_right]

theorem mem_entryCanvases {cs : List Int} (hlen : cs.length = type.num)
    (h : ∀ c ∈ cs, ∃ i : Nat, c = i ∧ 0 < i ∧ i < canvasMaxNum) :
    j ∈ entryCanvases (canvasval type cs) ↔ (j : Int) ∈ cs ∨ j = 0 ∧ type ≠ .four := by
  have htoNat : ∀ i : Nat, i < canvasMaxNum → (BitVec.ofNat 32 i).toNat = i := by
    intro i hi
    exact Nat.mod_eq_of_lt (Nat.lt_trans hi (by decide))
  unfold entryCanvases
  cases type with
  | one =>
    obtain ⟨c, rfl⟩ := List.length_eq_one_iff.mp hlen
    obtain ⟨a, rfl, -, ha⟩ := h c (by simp)
    simp (disch := first | assumption | decide) only [canvasval, byteOf_inByte]
    simp [htoNat a ha]
  | nv21 =>
    obtain ⟨c, d, rfl⟩ := List.length_eq_two.mp hlen
    obtain ⟨a, rfl, -, ha⟩ := h c (by simp)
    obtain ⟨b, rfl, -, hb⟩ := h d (by simp)
    simp (disch := first | assumption | decide) only [canvasval, byteOf_or, byteOf_inByte]
    simp [htoNat a ha, htoNat b hb, or_assoc]
  | yuv =>
    obtain ⟨c, d, e, rfl⟩ := List.length_eq_three.mp hlen
    obtain ⟨a, rfl, -, ha⟩ := h c (by simp)
    obtain ⟨b, rfl, -, hb⟩ := h d (by simp)
    obtain ⟨k, rfl, -, hk⟩ := h e (by simp)
    simp (disch := first | assumption | decide) only [canvasval, byteOf_or, byteOf_inByte]
    simp [htoNat a ha, htoNat b hb, htoNat k hk, or_assoc]
  | four =>
    match cs, hlen with
    | [c, d, e, f], _ =>
    obtain ⟨a, rfl, -, ha⟩ := h c (by simp)
    obtain ⟨b, rfl, -, hb⟩ := h d (by simp)
    obtain ⟨k, rfl, -, hk⟩ := h e (by simp)
    obtain ⟨m, rfl, -, hm⟩ := h f (by simp)
    simp (disch := first | assumption | decide) only [canvasval, byteOf_or, byteOf_inByte]
    simp [htoNat a ha, htoNat b hb, htoNat k hk, htoNat m hm]

/-! ## Allocation of a table -/

structure Filled (owner : String) (type : CanvasMapType) (size : Nat) (p : CanvasPool) (tab : List (BitVec 32))
    (p' : CanvasPool) : Prop where
  named : ∀ v ∈ tab, ∀ j ∈ entryCanvases v, j ≠ 0 → p.canvasMap j = false
  zero : ∀ v ∈ tab, 0 ∈ entryCanvases v ↔ type ≠ .four
  nonempty : tab ≠ [] ↔ size ≠ 0 ∧ HasSet p type
  held : ∀ j, j ≠ 0 → (∀ v ∈ tab, j ∉ entryCanvases v) → p'.held j = p.held j
  heldZero : p'.held 0 = if size = 0 then p.held 0 else p.heldWithZero owner 0

theorem allocTableLoop_filled (owner : String) (type : CanvasMapType) (size : Nat) (p : CanvasPool) :
    Filled owner type size p (allocTableLoop owner type size p).1 (allocTableLoop owner type size p).2.2 := by
  induction size generalizing p with
  | zero => exact ⟨by simp [allocTableLoop], by simp [allocTableLoop], by simp [allocTableLoop], fun _ _ _ => rfl, rfl⟩
  | succ n ih =>
    unfold allocTableLoop
    by_cases hset : HasSet p type
    · obtain ⟨cs, p1, hrun, htaken⟩ := continueSet_some owner hset
      have hrest := ih p1
      have hmem := fun j => mem_entryCanvases (j := j) htaken.length fun c hc =>
        (htaken.free c hc).imp fun i hi => ⟨hi.1, hi.2.1, hi.2.2.1⟩
      rw [hrun]
      dsimp only
      generalize allocTableLoop owner type n p1 = r at hrest
      have hheld1 : ∀ j : Nat, j ≠ 0 → p1.held j = if (j : Int) ∈ cs then some (some owner) else p.held j := by
        intro j hj
        rw [htaken.held, heldWithZero_of_ne owner hj]
      -- what is free after the first entry was free before
      have hfree1 : ∀ j, j ≠ 0 → p1.canvasMap j = false → p.canvasMap j = false := by
        intro j hj hfree
        have hnone := held_eq_none.mpr hfree
        rw [hheld1 j hj] at hnone
        split_ifs at hnone
        exact held_eq_none.mp hnone
      refine ⟨?_, ?_, ?_, ?_, ?_⟩
      · intro v hv j hj hne
        rcases List.mem_cons.mp hv with rfl | hv
        · rcases (hmem j).mp hj with hjcs | ⟨hzero, -⟩
          · obtain ⟨i, hi, -, -, hfree⟩ := htaken.free j hjcs
            obtain rfl : j = i := by omega
            exact hfree
          · exact absurd hzero hne
        · exact hfree1 j hne (hrest.named v hv j hj hne)
      · intro v hv
        rcases List.mem_cons.mp hv with rfl | hv
        · have hnot : ((0 : Nat) : Int) ∉ cs := by
            intro hc
            obtain ⟨i, hi, hpos, -⟩ := htaken.free _ hc
            omega
          simp only [hmem, hnot, false_or, true_and]
        · exact hrest.zero v hv
      · simp [hset]
      · intro j hj hnone
        have hjcs : (j : Int) ∉ cs := fun hjcs => hnone _ List.mem_cons_self ((hmem j).mpr (Or.inl hjcs))
        rw [hrest.held j hj fun v hv => hnone v (List.mem_cons_of_mem _ hv), hheld1 j hj, if_neg hjcs]
      · rw [if_neg (Nat.succ_ne_zero n), hrest.heldZero, heldWithZero_of_next owner htaken.next, ite_self, htaken.held]
        refine if_neg fun hc => ?_
        obtain ⟨i, hi, hpos, -⟩ := htaken.free _ hc
        omega
    · obtain ⟨p1, hrun, -, hheld⟩ := continueSet_none owner hset
      rw [hrun]
      exact ⟨by simp, by simp, by simp [hset], fun j hj _ => (hheld j).trans (heldWithZero_of_ne owner hj), hheld 0⟩

theorem Filled.freed (h : Filled owner type size p tab p') (j : Nat) :
    (canvasPoolFreeCanvasTable tab p').held j =
      if j = 0 then
        if tab ≠ [] ∧ type ≠ .four then none else if size = 0 then p.held 0 else p.heldWithZero owner 0
      else p.held j := by
  rw [held_freeTable]
  by_cases hj : j = 0
  · subst hj
    rw [if_pos rfl, h.heldZero]
    refine if_congr ?_ rfl rfl
    constructor
    · rintro ⟨v, hv, hzero⟩
      exact ⟨List.ne_nil_of_mem hv, (h.zero v hv).mp hzero⟩
    · rintro ⟨hne, htype⟩
      obtain ⟨v, hv⟩ := List.exists_mem_of_ne_nil tab hne
      exact ⟨v, hv, (h.zero v hv).mpr htype⟩
  · rw [if_neg hj]
    by_cases hnamed : ∃ v ∈ tab, j ∈ entryCanvases v
    · obtain ⟨v, hv, hmem⟩ := hnamed
      rw [if_pos ⟨v, hv, hmem⟩, held_eq_none.mpr (h.named v hv j hmem hj)]
    · rw [if_neg hnamed]
      exact h.held j hj fun v hv hmem => hnamed ⟨v, hv, hmem⟩

/-! ## The law -/

def CanvasPool.Constant (p : CanvasPool) (i : Nat) : Prop := (p.info i).fixedOnwer = true ∧ p.canvasMap i = true

/-- A table that is given back leaves no trace, as does one that was not allocated, and registered canvases keep their
owners. -/
structure TableLaw (owner : String) (size : Nat) (type : CanvasMapType) (p : CanvasPool) : Prop where
  restored : ∀ tab p', canvasPoolAllocCanvasTable owner size type p = (some tab, p') →
    ∀ i, (canvasPoolFreeCanvasTable tab p').held i = p.held i
  unchanged : ∀ p', canvasPoolAllocCanvasTable owner size type p = (none, p') → ∀ i, p'.held i = p.held i
  constant : ∀ r p', canvasPoolAllocCanvasTable owner size type p = (r, p') → ∀ i, p.Constant i →
    p'.held i = p.held i ∧ ∀ tab, r = some tab → (canvasPoolFreeCanvasTable tab p').held i = p.held i

/-- Canvas 0 is left alone: when there are entries with a byte to spare, nobody owns it, and otherwise it is not the
next canvas to be allocated. -/
def LeavesZero (size : Nat) (type : CanvasMapType) (p : CanvasPool) : Prop :=
  size = 0 ∨ (HasSet p type ∧ type ≠ .four → p.canvasMap 0 = false) ∧ (¬(HasSet p type ∧ type ≠ .four) → ¬p.ZeroNext)

theorem heldWithZero_eq_held : p.heldWithZero owner 0 = p.held 0 ↔ ¬p.ZeroNext := by
  unfold CanvasPool.heldWithZero
  by_cases hz : p.ZeroNext
  · have hnone : p.held 0 = none := held_eq_none.mpr hz.2
    simp [hz, hnone]
  · simp [hz]

theorem Filled.freed_eq_iff (h : Filled owner type size p tab p') :
    (∀ j, (canvasPoolFreeCanvasTable tab p').held j = p.held j) ↔ LeavesZero size type p := by
  have hzero : (∀ j, (canvasPoolFreeCanvasTable tab p').held j = p.held j) ↔
      (canvasPoolFreeCanvasTable tab p').held 0 = p.held 0 := by
    refine ⟨fun hall => hall 0, fun hzero j => ?_⟩
    by_cases hj : j = 0
    · rw [hj]
      exact hzero
    · rw [h.freed, if_neg hj]
  rw [hzero, h.freed, if_pos rfl]
  have hne := h.nonempty
  unfold LeavesZero
  by_cases hsize : size = 0
  · rw [if_neg fun hboth => (hne.mp hboth.1).1 hsize, if_pos hsize]
    simp [hsize]
  · by_cases hset : HasSet p type ∧ type ≠ .four
    · rw [if_pos ⟨hne.mpr ⟨hsize, hset.1⟩, hset.2⟩]
      rw [eq_comm, held_eq_none]
      simp [hsize, hset]
    · rw [if_neg fun hboth => hset ⟨(hne.mp hboth.1).2, hboth.2⟩, if_neg hsize, heldWithZero_eq_held]
      simp [hsize, hset]

theorem Filled.held_constant (h : Filled owner type size p tab p') (hmap : p.canvasMap j = true) :
    p'.held j = p.held j := by
  by_cases hj : j = 0
  · subst hj
    rw [h.heldZero, heldWithZero_eq_held.mpr (fun hz => Bool.false_ne_true (hz.2.symm.trans hmap)), ite_self]
  · refine h.held j hj fun v hv hmem => ?_
    rw [h.named v hv j hmem hj] at hmap
    cases hmap

/-- A table can be given back without a trace exactly when canvas 0 is left alone. -/
theorem table_law_iff (owner : String) (size : Nat) (type : CanvasMapType) (p : CanvasPool) :
    TableLaw owner size type p ↔ LeavesZero size type p := by
  have hfilled := allocTableLoop_filled owner type size p
  have hiff := hfilled.freed_eq_iff
  generalize hrun : allocTableLoop owner type size p = r at hfilled hiff
  obtain ⟨tab, ok, p'⟩ := r
  cases ok with
  | true =>
    have halloc : canvasPoolAllocCanvasTable owner size type p = (some tab, { p' with
        nextAllocedIndex := if p.nextAllocedIndex + 1 ≥ canvasMaxNum then 1 else p.nextAllocedIndex + 1 }) := by
      rw [canvasPoolAllocCanvasTable, hrun]
    have hfree : ∀ k j, (canvasPoolFreeCanvasTable tab { p' with nextAllocedIndex := k }).held j =
        (canvasPoolFreeCanvasTable tab p').held j := by
      intro k j
      rw [held_freeTable, held_freeTable]
      rfl
    rw [← hiff]
    constructor
    · intro h j
      rw [← hfree]
      exact h.restored tab _ halloc j
    · intro h
      refine ⟨?_, ?_, ?_⟩
      · intro tab' p'' heq i
        cases halloc.symm.trans heq
        rw [hfree, h]
      · intro p'' heq
        cases halloc.symm.trans heq
      · intro r p'' heq i hconst
        cases halloc.symm.trans heq
        refine ⟨hfilled.held_constant hconst.2, ?_⟩
        rintro tab' ⟨⟩
        rw [hfree, h]
  | false =>
    have halloc : canvasPoolAllocCanvasTable owner size type p = (none, canvasPoolFreeCanvasTable tab p') := by
      rw [canvasPoolAllocCanvasTable, hrun]
    rw [← hiff]
    constructor
    · intro h j
      exact h.unchanged _ halloc j
    · intro h
      refine ⟨?_, ?_, ?_⟩
      · intro tab' p'' heq
        cases halloc.symm.trans heq
      · intro p'' heq i
        cases halloc.symm.trans heq
        exact h i
      · intro r p'' heq i _
        cases halloc.symm.trans heq
        exact ⟨h i, nofun⟩

/-- A table of single canvases, given back, takes canvas 0 away from its owner. -/
theorem table_takes_zero : ¬∀ owner size type p, TableLaw owner size type p := by
  intro hall
  have hrestored := (hall "ionvideo" 1 .one canvasPoolConfig).restored
  have hloses : canvasPoolConfig.held 0 = some (some "amvdec") ∧
      (match canvasPoolAllocCanvasTable "ionvideo" 1 .one canvasPoolConfig with
      | (some tab, p') => decide ((canvasPoolFreeCanvasTable tab p').held 0 = none)
      | (none, _) => false) = true := by decide +kernel
  obtain ⟨howner, hloses⟩ := hloses
  generalize canvasPoolAllocCanvasTable "ionvideo" 1 .one canvasPoolConfig = r at hrestored hloses
  match r, hrestored, hloses with
  | (some tab, p'), hrestored, hloses =>
    have hnone := of_decide_eq_true hloses
    rw [hrestored tab p' rfl 0, howner] at hnone
    cases hnone

end Amlogic.Canvas
