import Amlogic.Canvas.CanvasMgr

/-!
# Canvases in a row

What `canvas_pool_map_alloc_canvas_continue_set` finds and what it leaves behind. It looks for a run of free canvases
at two places only: where the pool says, and at the canvas after that.
-/

namespace Amlogic.Canvas

open CanvasPool

variable {p : CanvasPool} (owner : String) {map map' : Nat → Bool} {start i j n : Nat}

/-! ## Ownership -/

def CanvasPool.held (p : CanvasPool) (i : Nat) : Option (Option String) :=
  if p.canvasMap i then some (p.info i).owner else none

@[simp] theorem held_eq_none : p.held i = none ↔ p.canvasMap i = false := by
  unfold held
  split_ifs with h <;> simp [h]

theorem held_hold : (p.hold i owner).held j = if j = i then some (some owner) else p.held j := by
  by_cases hj : j = i
  · subst hj
    simp [held, hold]
  · simp [held, hold, hj]

theorem held_free {index : Int} (h : 0 ≤ index) (h' : index < canvasMaxNum) :
    (canvasPoolMapFreeCanvas index p).held j = if (j : Int) = index then none else p.held j := by
  unfold canvasPoolMapFreeCanvas
  rw [if_pos ⟨h, h'⟩]
  by_cases hj : (j : Int) = index
  · rw [if_pos hj, ← hj]
    simp [held]
  · have hne : j ≠ index.toNat := by omega
    rw [if_neg hj]
    simp [held, hne]

/-! ## The search -/

theorem findNextZeroBit_spec (h : findNextZeroBit map canvasMaxNum start < canvasMaxNum) :
    map (findNextZeroBit map canvasMaxNum start) = false ∧ start ≤ findNextZeroBit map canvasMaxNum start := by
  unfold findNextZeroBit at h ⊢
  cases hfind : (List.range' start (canvasMaxNum - start)).find? fun i => !map i with
  | none =>
    rw [hfind] at h
    exact absurd h (lt_irrefl _)
  | some i =>
    have hfree := List.find?_some hfind
    have hmem := List.mem_range'_1.mp (List.mem_of_find?_eq_some hfind)
    exact ⟨by simpa using hfree, hmem.1⟩

theorem findNextZeroBit_self (hlt : start < canvasMaxNum) (hfree : map start = false) :
    findNextZeroBit map canvasMaxNum start = start := by
  unfold findNextZeroBit
  obtain ⟨k, hk⟩ : ∃ k, canvasMaxNum - start = k + 1 := ⟨canvasMaxNum - start - 1, by omega⟩
  rw [hk, List.range'_succ]
  simp [hfree]

theorem nextFree_some (h : nextFree map start = some i) :
    i < canvasMaxNum ∧ map i = false ∧ (i = 0 → start = 0) := by
  unfold nextFree at h
  simp only at h
  split_ifs at h with hlt hone hlt'
  · cases h
    obtain ⟨hfree, hle⟩ := findNextZeroBit_spec hlt
    exact ⟨hlt, hfree, by omega⟩
  · cases h
    obtain ⟨hfree, hle⟩ := findNextZeroBit_spec hlt'
    exact ⟨hlt', hfree, by omega⟩

theorem nextFree_self (hlt : start < canvasMaxNum) (hfree : map start = false) : nextFree map start = some start := by
  unfold nextFree
  simp only [findNextZeroBit_self hlt hfree, if_pos hlt]

theorem nextFree_congr (hstart : start ≠ 0) (h : ∀ i, i ≠ 0 → map i = map' i) :
    nextFree map start = nextFree map' start := by
  have hfind : ∀ start, start ≠ 0 →
      findNextZeroBit map canvasMaxNum start = findNextZeroBit map' canvasMaxNum start := by
    intro start hstart
    unfold findNextZeroBit
    rw [← List.head?_filter, ← List.head?_filter, List.filter_congr]
    intro i hi
    rw [h i (by have := (List.mem_range'_1.mp hi).1; omega)]
  unfold nextFree
  rw [hfind start hstart, hfind 1 one_ne_zero]

/-! ## Single canvases -/

theorem alloc_of_some (h : nextFree p.canvasMap p.nextAllocedIndex = some i) :
    (canvasPoolMapAllocCanvasIn owner p).1 = i ∧
      (∀ j, (canvasPoolMapAllocCanvasIn owner p).2.held j = if j = i then some (some owner) else p.held j) ∧
      (canvasPoolMapAllocCanvasIn owner p).2.canvasMap = Function.update p.canvasMap i true ∧
      (canvasPoolMapAllocCanvasIn owner p).2.nextAllocedIndex =
        if 0 < i then (if i + 1 < canvasMaxNum then i + 1 else 1) else p.nextAllocedIndex := by
  unfold canvasPoolMapAllocCanvasIn
  rw [h]
  by_cases hpos : 0 < i
  · dsimp only
    rw [if_pos hpos, if_pos hpos]
    exact ⟨rfl, fun j => held_hold owner, rfl, rfl⟩
  · dsimp only
    rw [if_neg hpos, if_neg hpos]
    exact ⟨rfl, fun j => held_hold owner, rfl, rfl⟩

theorem alloc_of_none (h : nextFree p.canvasMap p.nextAllocedIndex = none) :
    canvasPoolMapAllocCanvasIn owner p = (-1, p) := by
  unfold canvasPoolMapAllocCanvasIn
  rw [h]

/-! ## A round -/

def CanvasPool.ZeroNext (p : CanvasPool) : Prop := p.nextAllocedIndex = 0 ∧ p.canvasMap 0 = false

theorem allocCanvases_succ (owner : String) (n : Nat) (p : CanvasPool) :
    allocCanvases owner (n + 1) p =
      ((canvasPoolMapAllocCanvasIn owner p).1 :: (allocCanvases owner n (canvasPoolMapAllocCanvasIn owner p).2).1,
        (allocCanvases owner n (canvasPoolMapAllocCanvasIn owner p).2).2) := rfl

theorem allocCanvases_spec (owner : String) (n : Nat) (p : CanvasPool) :
    (∀ c ∈ (allocCanvases owner n p).1, c = -1 ∨ ∃ i : Nat, c = i ∧ i < canvasMaxNum ∧ p.canvasMap i = false) ∧
      ∀ j : Nat, (allocCanvases owner n p).2.held j =
        if (j : Int) ∈ (allocCanvases owner n p).1 then some (some owner) else p.held j := by
  induction n generalizing p with
  | zero => exact ⟨nofun, fun j => rfl⟩
  | succ n ih =>
    rw [allocCanvases_succ]
    cases hfind : nextFree p.canvasMap p.nextAllocedIndex with
    | none =>
      rw [alloc_of_none owner hfind]
      obtain ⟨hfree, hheld⟩ := ih p
      refine ⟨?_, ?_⟩
      · intro c hc
        rcases List.mem_cons.mp hc with rfl | hc
        · exact .inl rfl
        · exact hfree c hc
      · intro j
        have hne : (j : Int) ≠ -1 := by omega
        simp [hheld, hne]
    | some i =>
      obtain ⟨hi, hheld1, hmap, -⟩ := alloc_of_some owner hfind
      obtain ⟨hlt, hifree, -⟩ := nextFree_some hfind
      generalize canvasPoolMapAllocCanvasIn owner p = r at hi hheld1 hmap
      obtain ⟨hfree, hheld⟩ := ih r.2
      refine ⟨?_, ?_⟩
      · intro c hc
        rcases List.mem_cons.mp hc with rfl | hc
        · exact .inr ⟨i, hi, hlt, hifree⟩
        · rcases hfree c hc with hneg | ⟨k, hk, hklt, hkfree⟩
          · exact .inl hneg
          · refine .inr ⟨k, hk, hklt, ?_⟩
            rw [hmap] at hkfree
            by_cases hki : k = i
            · subst hki
              exact hifree
            · rwa [Function.update_of_ne hki] at hkfree
      · intro j
        rw [hheld, hheld1, hi]
        by_cases hj : j = i <;> simp [hj]

theorem zeroNext_of_zero_mem (h : 0 ∈ (allocCanvases owner n p).1) : p.ZeroNext := by
  induction n generalizing p with
  | zero => cases h
  | succ n ih =>
    rw [allocCanvases_succ] at h
    cases hfind : nextFree p.canvasMap p.nextAllocedIndex with
    | none =>
      rw [alloc_of_none owner hfind] at h
      rcases List.mem_cons.mp h with heq | hmem
      · cases heq
      · exact ih hmem
    | some i =>
      obtain ⟨hi, -, hmap, hnext⟩ := alloc_of_some owner hfind
      obtain ⟨-, hfree, hzero⟩ := nextFree_some hfind
      rcases List.mem_cons.mp h with heq | hmem
      · have : i = 0 := by omega
        subst this
        exact ⟨hzero rfl, hfree⟩
      · -- canvas 0 would have been taken first
        obtain ⟨hzero1, hfree1⟩ := ih hmem
        rw [hnext] at hzero1
        rw [hmap] at hfree1
        by_cases hpos : 0 < i
        · split_ifs at hzero1
        · have : i = 0 := by omega
          subst this
          simp at hfree1

theorem zero_mem_allocCanvases : 0 ∈ (allocCanvases owner (n + 1) p).1 ↔ p.ZeroNext := by
  refine ⟨zeroNext_of_zero_mem owner, ?_⟩
  rintro ⟨hzero, hfree⟩
  have hfind : nextFree p.canvasMap p.nextAllocedIndex = some 0 := by
    rw [hzero]
    exact nextFree_self (by decide) hfree
  rw [allocCanvases_succ, (alloc_of_some owner hfind).1]
  exact List.mem_cons_self

def RunAt (map : Nat → Bool) (i n : Nat) : Prop := ∀ j < n, i + j < canvasMaxNum ∧ map (i + j) = false

theorem runAt_succ : RunAt map i (n + 1) ↔ (i < canvasMaxNum ∧ map i = false) ∧ RunAt map (i + 1) n := by
  constructor
  · intro h
    refine ⟨h 0 (Nat.succ_pos n), fun j hj => ?_⟩
    rw [show i + 1 + j = i + (j + 1) by omega]
    exact h (j + 1) (by omega)
  · rintro ⟨hhead, hrest⟩ j hj
    cases j with
    | zero => exact hhead
    | succ j =>
      rw [show i + (j + 1) = i + 1 + j by omega]
      exact hrest j (by omega)

theorem runAt_update {b : Bool} (h : j < i) : RunAt (Function.update map j b) i n ↔ RunAt map i n := by
  refine forall₂_congr fun k _ => ?_
  rw [Function.update_of_ne (by omega)]

theorem follows_iff (hmap : p.canvasMap i = true)
    (hnext : p.nextAllocedIndex = if i + 1 < canvasMaxNum then i + 1 else 1) :
    follows i (allocCanvases owner n p).1 = true ↔ RunAt p.canvasMap (i + 1) n := by
  induction n generalizing i p with
  | zero => exact iff_of_true rfl fun j hj => absurd hj (Nat.not_lt_zero j)
  | succ n ih =>
    rw [allocCanvases_succ]
    by_cases hhead : i + 1 < canvasMaxNum ∧ p.canvasMap (i + 1) = false
    · have hfind : nextFree p.canvasMap p.nextAllocedIndex = some (i + 1) := by
        rw [hnext, if_pos hhead.1]
        exact nextFree_self hhead.1 hhead.2
      obtain ⟨hi, -, hmap1, hnext1⟩ := alloc_of_some owner hfind
      generalize canvasPoolMapAllocCanvasIn owner p = r at hi hmap1 hnext1
      have hrest : follows (i + 1 : Nat) (allocCanvases owner n r.2).1 = true ↔ RunAt r.2.canvasMap (i + 1 + 1) n :=
        ih (by rw [hmap1]; exact Function.update_self ..) hnext1
      have hcons : follows i (r.1 :: (allocCanvases owner n r.2).1) =
          follows (i + 1 : Nat) (allocCanvases owner n r.2).1 := by
        rw [hi]
        simp [follows]
      rw [hcons, hrest, hmap1, runAt_update (Nat.lt_succ_self _), runAt_succ]
      exact (and_iff_right hhead).symm
    · refine iff_of_false ?_ fun h => hhead (h 0 (Nat.succ_pos n))
      -- the canvas that was found is another one, or there is none
      have hne : (canvasPoolMapAllocCanvasIn owner p).1 ≠ (i : Int) + 1 := by
        cases hfind : nextFree p.canvasMap p.nextAllocedIndex with
        | none =>
          rw [alloc_of_none owner hfind]
          omega
        | some k =>
          rw [(alloc_of_some owner hfind).1]
          obtain ⟨hlt, hfree, -⟩ := nextFree_some hfind
          intro heq
          have : k = i + 1 := by omega
          subst this
          exact hhead ⟨hlt, hfree⟩
      simp [follows, hne]

def HasRun (map : Nat → Bool) (start n : Nat) : Prop :=
  ∃ i, nextFree map start = some i ∧ 0 < i ∧ RunAt map i n

theorem isRun_iff : isRun (allocCanvases owner (n + 1) p).1 = true ↔
    HasRun p.canvasMap p.nextAllocedIndex (n + 1) := by
  rw [allocCanvases_succ]
  cases hfind : nextFree p.canvasMap p.nextAllocedIndex with
  | none =>
    rw [alloc_of_none owner hfind]
    refine iff_of_false (by simp [isRun]) ?_
    rintro ⟨i, hi, -⟩
    rw [hfind] at hi
    cases hi
  | some i =>
    obtain ⟨hi, -, hmap, hnext⟩ := alloc_of_some owner hfind
    obtain ⟨hlt, hfree, -⟩ := nextFree_some hfind
    generalize canvasPoolMapAllocCanvasIn owner p = r at hi hmap hnext
    have hhas : HasRun p.canvasMap p.nextAllocedIndex (n + 1) ↔ 0 < i ∧ RunAt p.canvasMap i (n + 1) := by
      constructor
      · rintro ⟨k, hk, hrun⟩
        rw [hfind] at hk
        cases hk
        exact hrun
      · exact fun h => ⟨i, hfind, h⟩
    rw [hhas, isRun, hi]
    by_cases hpos : 0 < i
    · rw [if_pos hpos] at hnext
      have hrest : follows i (allocCanvases owner n r.2).1 = true ↔ RunAt r.2.canvasMap (i + 1) n :=
        follows_iff owner (by rw [hmap]; exact Function.update_self ..) hnext
      rw [hmap, runAt_update (Nat.lt_succ_self _)] at hrest
      simp [hpos, hrest, runAt_succ, hlt, hfree]
    · simp [hpos]

theorem pos_of_follows {c : Int} {cs : List Int} (hc : 0 < c) (h : follows c cs = true) : ∀ d ∈ cs, 0 < d := by
  induction cs generalizing c with
  | nil => exact nofun
  | cons e cs ih =>
    simp only [follows, Bool.and_eq_true, beq_iff_eq] at h
    obtain ⟨rfl, hrest⟩ := h
    intro d hd
    rcases List.mem_cons.mp hd with rfl | hd
    · omega
    · exact ih (by omega) hrest d hd

theorem pos_of_isRun {cs : List Int} (h : isRun cs = true) : ∀ c ∈ cs, 0 < c := by
  cases cs with
  | nil => exact nofun
  | cons c cs =>
    simp only [isRun, Bool.and_eq_true, decide_eq_true_eq] at h
    intro d hd
    rcases List.mem_cons.mp hd with rfl | hd
    · exact h.1
    · exact pos_of_follows h.1 h.2 d hd

theorem length_allocCanvases (owner : String) (n : Nat) (p : CanvasPool) :
    (allocCanvases owner n p).1.length = n := by
  induction n generalizing p with
  | zero => rfl
  | succ n ih => rw [allocCanvases_succ, List.length_cons, ih]

theorem next_ne_zero (h : ∀ c ∈ (allocCanvases owner (n + 1) p).1, 0 < c) :
    (allocCanvases owner (n + 1) p).2.nextAllocedIndex ≠ 0 := by
  induction n generalizing p with
  | zero =>
    rw [allocCanvases_succ] at h ⊢
    have hpos := h _ List.mem_cons_self
    cases hfind : nextFree p.canvasMap p.nextAllocedIndex with
    | none =>
      rw [alloc_of_none owner hfind] at hpos
      cases hpos
    | some i =>
      obtain ⟨hi, -, -, hnext⟩ := alloc_of_some owner hfind
      show (canvasPoolMapAllocCanvasIn owner p).2.nextAllocedIndex ≠ 0
      rw [hnext, if_pos (by omega)]
      split_ifs <;> omega
  | succ n ih =>
    exact ih fun c hc => h c (List.mem_cons_of_mem _ hc)

theorem held_freeCanvases {cs : List Int} (h : ∀ c ∈ cs, c < canvasMaxNum) (p : CanvasPool) (j : Nat) :
    (freeCanvases cs p).held j = if (j : Int) ∈ cs ∧ 0 < j then none else p.held j := by
  induction cs generalizing p with
  | nil => simp [freeCanvases]
  | cons c cs ih =>
    have hrest := ih (fun d hd => h d (List.mem_cons_of_mem c hd))
    have hc := h c List.mem_cons_self
    show (freeCanvases cs (if 0 < c then canvasPoolMapFreeCanvas c p else p)).held j = _
    rw [hrest]
    by_cases hpos : 0 < c
    · rw [if_pos hpos, held_free hpos.le hc]
      by_cases hj : (j : Int) = c
      · simp [hj, show 0 < j by omega]
      · simp [hj]
    · rw [if_neg hpos]
      by_cases hj : (j : Int) = c
      · simp [hj, show ¬0 < j by omega]
      · simp [hj]

instance (p : CanvasPool) : Decidable p.ZeroNext := inferInstanceAs (Decidable (_ ∧ _))

/-- The ownership map after a round that failed: canvas 0 is not given back. -/
def CanvasPool.heldWithZero (p : CanvasPool) (owner : String) (j : Nat) : Option (Option String) :=
  if j = 0 ∧ p.ZeroNext then some (some owner) else p.held j

variable {type : CanvasMapType}

theorem num_pos (type : CanvasMapType) : ∃ n, type.num = n + 1 := by
  cases type <;> exact ⟨_, rfl⟩

theorem continueRound_none (start : Nat) (h : ¬HasRun p.canvasMap p.nextAllocedIndex type.num) :
    ∃ p', continueRound owner type start p = (none, p') ∧ p'.nextAllocedIndex = retryIndex type start ∧
      ∀ j, p'.held j = p.heldWithZero owner j := by
  obtain ⟨n, hn⟩ := num_pos type
  rw [hn, ← isRun_iff owner] at h
  obtain ⟨hfree, hheld⟩ := allocCanvases_spec owner (n + 1) p
  have hzero := zero_mem_allocCanvases owner (n := n) (p := p)
  unfold continueRound
  rw [hn]
  generalize allocCanvases owner (n + 1) p = r at h hfree hheld hzero
  dsimp only
  rw [if_neg h]
  refine ⟨_, rfl, rfl, fun j => ?_⟩
  have hlt : ∀ c ∈ r.1, c < canvasMaxNum := by
    intro c hc
    rcases hfree c hc with rfl | ⟨i, rfl, hi, -⟩
    · decide
    · omega
  show (freeCanvases r.1 r.2).held j = _
  rw [held_freeCanvases hlt, hheld]
  unfold heldWithZero
  by_cases hj : j = 0
  · subst hj
    simp [hzero]
  · rw [if_neg fun hboth : j = 0 ∧ p.ZeroNext => hj hboth.1]
    by_cases hmem : (j : Int) ∈ r.1
    · rcases hfree j hmem with hneg | ⟨i, hi, -, hifree⟩
      · omega
      · obtain rfl : j = i := by omega
        rw [if_pos ⟨hmem, by omega⟩, held_eq_none.mpr hifree]
    · rw [if_neg fun hboth => hmem hboth.1, if_neg hmem]

structure Taken (owner : String) (type : CanvasMapType) (p : CanvasPool) (cs : List Int) (p' : CanvasPool) : Prop where
  length : cs.length = type.num
  run : isRun cs = true
  free : ∀ c ∈ cs, ∃ i : Nat, c = i ∧ 0 < i ∧ i < canvasMaxNum ∧ p.canvasMap i = false
  held : ∀ j : Nat, p'.held j = if (j : Int) ∈ cs then some (some owner) else p.heldWithZero owner j
  next : p'.nextAllocedIndex ≠ 0

theorem continueRound_some (start : Nat) (h : HasRun p.canvasMap p.nextAllocedIndex type.num) :
    ∃ cs p', continueRound owner type start p = (some (canvasval type cs), p') ∧ Taken owner type p cs p' := by
  obtain ⟨n, hn⟩ := num_pos type
  rw [hn, ← isRun_iff owner] at h
  obtain ⟨hfree, hheld⟩ := allocCanvases_spec owner (n + 1) p
  have hpos := pos_of_isRun h
  have hzero := zero_mem_allocCanvases owner (n := n) (p := p)
  have hnext := next_ne_zero owner hpos
  have hlen := length_allocCanvases owner (n + 1) p
  unfold continueRound
  rw [hn]
  generalize allocCanvases owner (n + 1) p = r at h hfree hheld hzero hpos hnext hlen
  dsimp only
  rw [if_pos h]
  refine ⟨r.1, r.2, rfl, hlen.trans hn.symm, h, ?_, ?_, hnext⟩
  · intro c hc
    have hcpos := hpos c hc
    rcases hfree c hc with rfl | ⟨i, rfl, hi, hifree⟩
    · omega
    · exact ⟨i, rfl, by omega, hi, hifree⟩
  · intro j
    rw [hheld, heldWithZero, if_neg (c := j = 0 ∧ p.ZeroNext)]
    rintro ⟨-, hz⟩
    exact absurd (hpos 0 (hzero.mpr hz)) (lt_irrefl 0)

/-! ## All rounds -/

theorem retryIndex_ne_zero (type : CanvasMapType) (start : Nat) : retryIndex type start ≠ 0 := by
  unfold retryIndex
  split_ifs <;> omega

theorem hasRun_congr (hstart : start ≠ 0) (h : ∀ i, i ≠ 0 → map i = map' i) :
    HasRun map start n ↔ HasRun map' start n := by
  unfold HasRun
  rw [nextFree_congr hstart h]
  refine exists_congr fun i => and_congr_right fun _ => and_congr_right fun hpos => ?_
  refine forall₂_congr fun j _ => ?_
  rw [h (i + j) (by omega)]

theorem canvasMap_congr {p p' : CanvasPool} (h : p.held i = p'.held i) : p.canvasMap i = p'.canvasMap i := by
  unfold held at h
  split_ifs at h with h1 h2 h2 <;> simp_all

theorem heldWithZero_of_next (h : p.nextAllocedIndex ≠ 0) (j : Nat) : p.heldWithZero owner j = p.held j :=
  if_neg fun hboth => h hboth.2.1

theorem heldWithZero_of_ne (h : j ≠ 0) : p.heldWithZero owner j = p.held j := if_neg fun hboth => h hboth.1

theorem continueLoop_none (hnext : p.nextAllocedIndex = retryIndex type start)
    (h : ¬HasRun p.canvasMap p.nextAllocedIndex type.num) :
    ∃ p', continueLoop owner type start n p = (none, p') ∧ p'.nextAllocedIndex ≠ 0 ∧ ∀ j, p'.held j = p.held j := by
  have hne : p.nextAllocedIndex ≠ 0 := hnext ▸ retryIndex_ne_zero type start
  induction n generalizing p with
  | zero => exact ⟨p, rfl, hne, fun _ => rfl⟩
  | succ n ih =>
    obtain ⟨p1, hround, hnext1, hheld⟩ := continueRound_none owner start h
    have hheld1 : ∀ j, p1.held j = p.held j := fun j => (hheld j).trans (heldWithZero_of_next owner hne j)
    have hmap : p1.canvasMap = p.canvasMap := funext fun i => canvasMap_congr (hheld1 i)
    obtain ⟨p', hloop, hne', hheld'⟩ := ih hnext1 (by rw [hmap, hnext1, ← hnext]; exact h)
      (hnext1 ▸ retryIndex_ne_zero type start)
    refine ⟨p', ?_, hne', fun j => (hheld' j).trans (hheld1 j)⟩
    rw [continueLoop, hround]
    exact hloop

def HasSet (p : CanvasPool) (type : CanvasMapType) : Prop :=
  HasRun p.canvasMap p.nextAllocedIndex type.num ∨
    HasRun p.canvasMap (retryIndex type p.nextAllocedIndex) type.num

theorem second_round (h : ¬HasRun p.canvasMap p.nextAllocedIndex type.num) :
    ∃ p1, continueRound owner type p.nextAllocedIndex p = (none, p1) ∧
      p1.nextAllocedIndex = retryIndex type p.nextAllocedIndex ∧ p1.nextAllocedIndex ≠ 0 ∧
      (∀ j, p1.held j = p.heldWithZero owner j) ∧ (∀ i, i ≠ 0 → p1.canvasMap i = p.canvasMap i) ∧
      (HasRun p1.canvasMap p1.nextAllocedIndex type.num ↔ HasSet p type) := by
  obtain ⟨p1, hround, hnext, hheld⟩ := continueRound_none owner p.nextAllocedIndex h
  have hne : p1.nextAllocedIndex ≠ 0 := hnext ▸ retryIndex_ne_zero type _
  have hmap : ∀ i, i ≠ 0 → p1.canvasMap i = p.canvasMap i := fun i hi =>
    canvasMap_congr ((hheld i).trans (heldWithZero_of_ne owner hi))
  refine ⟨p1, hround, hnext, hne, hheld, hmap, ?_⟩
  rw [hasRun_congr hne hmap, hnext]
  exact (or_iff_right h).symm

theorem continueSet_some (h : HasSet p type) :
    ∃ cs p', canvasPoolMapAllocCanvasContinueSet owner type p = (some (canvasval type cs), p') ∧
      Taken owner type p cs p' := by
  unfold canvasPoolMapAllocCanvasContinueSet continueLoop
  by_cases hrun : HasRun p.canvasMap p.nextAllocedIndex type.num
  · obtain ⟨cs, p', hround, htaken⟩ := continueRound_some owner p.nextAllocedIndex hrun
    rw [hround]
    exact ⟨cs, p', rfl, htaken⟩
  · obtain ⟨p1, hround1, -, hne, hheld, hmap, hsecond⟩ := second_round owner hrun
    obtain ⟨cs, p', hround, htaken⟩ :=
      continueRound_some owner p.nextAllocedIndex (hsecond.mpr h)
    refine ⟨cs, p', ?_, htaken.length, htaken.run, ?_, ?_, htaken.next⟩
    · rw [hround1]
      show continueLoop owner type p.nextAllocedIndex (canvasMaxNum - 1 + 1) p1 = _
      rw [continueLoop, hround]
    · intro c hc
      obtain ⟨i, hi, hpos, hlt, hfree⟩ := htaken.free c hc
      exact ⟨i, hi, hpos, hlt, (hmap i (by omega)).symm.trans hfree⟩
    · intro j
      rw [htaken.held, heldWithZero_of_next owner hne, hheld]

theorem continueSet_none (h : ¬HasSet p type) :
    ∃ p', canvasPoolMapAllocCanvasContinueSet owner type p = (none, p') ∧ p'.nextAllocedIndex ≠ 0 ∧
      ∀ j, p'.held j = p.heldWithZero owner j := by
  obtain ⟨p1, hround, hnext, -, hheld, -, hsecond⟩ := second_round owner (not_or.mp h).1
  obtain ⟨p', hloop, hne', hheld'⟩ :=
    continueLoop_none owner (n := canvasMaxNum) hnext (mt hsecond.mp h)
  refine ⟨p', ?_, hne', fun j => (hheld' j).trans (hheld j)⟩
  unfold canvasPoolMapAllocCanvasContinueSet continueLoop
  rw [hround]
  exact hloop

/-! ## The law of a consecutive allocation -/

def canvasesFrom (i : Nat) : Nat → List Int
  | 0 => []
  | n + 1 => i :: canvasesFrom (i + 1) n

theorem mem_canvasesFrom : (j : Int) ∈ canvasesFrom i n ↔ i ≤ j ∧ j < i + n := by
  induction n generalizing i with
  | zero => simp [canvasesFrom]
  | succ n ih =>
    simp only [canvasesFrom, List.mem_cons, ih, Nat.cast_inj]
    omega

theorem eq_canvasesFrom_of_follows {cs : List Int} (h : follows i cs = true) :
    cs = canvasesFrom (i + 1) cs.length := by
  induction cs generalizing i with
  | nil => rfl
  | cons c cs ih =>
    simp only [follows, Bool.and_eq_true, beq_iff_eq] at h
    obtain ⟨rfl, hrest⟩ := h
    have hcs := ih (i := i + 1) hrest
    rw [List.length_cons, canvasesFrom, ← hcs, Nat.cast_succ]

theorem Taken.runAt {cs : List Int} {p' : CanvasPool} (h : Taken owner type p cs p') :
    ∃ i, 0 < i ∧ cs = canvasesFrom i type.num ∧ RunAt p.canvasMap i type.num := by
  obtain ⟨hlength, hrun, hfree, -, -⟩ := h
  cases cs with
  | nil => cases hrun
  | cons c cs =>
    obtain ⟨i, rfl, hpos, -⟩ := hfree c List.mem_cons_self
    simp only [isRun, Bool.and_eq_true] at hrun
    have hcs : (i : Int) :: cs = canvasesFrom i type.num := by
      rw [← hlength, List.length_cons, canvasesFrom, ← eq_canvasesFrom_of_follows hrun.2]
    refine ⟨i, hpos, hcs, fun j hj => ?_⟩
    obtain ⟨k, hk, -, hlt, hclear⟩ := hfree (i + j : Nat) (hcs ▸ mem_canvasesFrom.mpr ⟨by omega, by omega⟩)
    obtain rfl := Nat.cast_injective hk
    exact ⟨hlt, hclear⟩

def SetFree (p : CanvasPool) (type : CanvasMapType) : Prop := ∃ i, 0 < i ∧ RunAt p.canvasMap i type.num

/-- A set is found if there is one, it is free canvases in a row, and no other canvas is taken. -/
def ContinueSetLaw (owner : String) (type : CanvasMapType) (p : CanvasPool) : Prop :=
  let r := canvasPoolMapAllocCanvasContinueSet owner type p
  (SetFree p type → r.1 ≠ none) ∧ ∀ canvas, r.1 = some canvas →
    ∃ i, 0 < i ∧ RunAt p.canvasMap i type.num ∧ canvas = canvasval type (canvasesFrom i type.num) ∧
      ∀ j, r.2.canvasMap j = true ↔ p.canvasMap j = true ∨ i ≤ j ∧ j < i + type.num

theorem canvasMap_iff_held : p.canvasMap i = true ↔ p.held i ≠ none := by
  rw [Ne, held_eq_none, Bool.not_eq_false]

theorem continueSetLaw_iff (owner : String) (type : CanvasMapType) (p : CanvasPool) :
    ContinueSetLaw owner type p ↔ (SetFree p type → HasSet p type ∧ ¬p.ZeroNext) := by
  unfold ContinueSetLaw
  by_cases h : HasSet p type
  · obtain ⟨cs, p', hset, htaken⟩ := continueSet_some owner h
    obtain ⟨i, hpos, rfl, hrun⟩ := htaken.runAt
    rw [hset]
    have hfree : SetFree p type := ⟨i, hpos, hrun⟩
    have hmap : ∀ j, p'.canvasMap j = true ↔ (i ≤ j ∧ j < i + type.num) ∨ j = 0 ∧ p.ZeroNext ∨ p.canvasMap j = true := by
      intro j
      rw [canvasMap_iff_held, htaken.held, heldWithZero, canvasMap_iff_held]
      simp only [mem_canvasesFrom]
      split_ifs with hmem hzero <;> simp [*]
    simp only [ne_eq, reduceCtorEq, not_false_eq_true, implies_true, true_and, Option.some.injEq, forall_eq', hfree, h,
      forall_const]
    constructor
    · rintro ⟨k, hk, -, -, hlaw⟩ hzero
      have hmem := (hlaw 0).mp ((hmap 0).mpr (.inr (.inl ⟨rfl, hzero⟩)))
      rw [hzero.2] at hmem
      simp only [Bool.false_eq_true, false_or] at hmem
      omega
    · intro hzero
      refine ⟨i, hpos, hrun, rfl, fun j => ?_⟩
      simp [hmap, hzero, or_comm]
  · obtain ⟨p', hset, -⟩ := continueSet_none owner h
    rw [hset]
    simp [h]

def fragmentedPool : CanvasPool :=
  { (canvasPoolConfig.hold 0x3b "vdin").hold 0x3d "vdin" with nextAllocedIndex := 0x3a }

/-- Canvases 0x3e and 0x3f are free, but the search is at 0x3a and then, in all other rounds, at 0x3b. -/
theorem continueSet_misses_run : ¬ContinueSetLaw "ppmgr" .nv21 fragmentedPool := by
  have hsearch : ∀ start i, nextFree fragmentedPool.canvasMap start = some i →
      fragmentedPool.canvasMap (i + 1) = true → ¬HasRun fragmentedPool.canvasMap start 2 := by
    rintro start i hi hused ⟨k, hk, -, hrun⟩
    obtain rfl := Option.some.inj (hi.symm.trans hk)
    rw [(hrun 1 (by decide)).2] at hused
    cases hused
  have hmiss : ¬HasSet fragmentedPool .nv21 :=
    not_or.mpr ⟨hsearch 0x3a 0x3a (by decide +kernel) (by decide +kernel),
      hsearch 0x3b 0x3c (by decide +kernel) (by decide +kernel)⟩
  obtain ⟨p', hset, -⟩ := continueSet_none "ppmgr" hmiss
  intro hlaw
  refine hlaw.1 ⟨0x3e, by decide, ?_⟩ (by rw [hset])
  unfold RunAt
  decide +kernel

end Amlogic.Canvas
