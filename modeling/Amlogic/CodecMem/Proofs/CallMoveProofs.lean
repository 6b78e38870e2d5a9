import Amlogic.CodecMem.Proofs.AllocMoveProofs

/-!
# Calls make moves

The functions for pools, and all calls but those that share blocks and those for V4L buffers.
-/

namespace Amlogic.CodecMem

open State Does

variable {name : PoolName} {part : PoolPart} {size : CInt}

variable {ω : Type} {E : Externals ω} {s : State ω} {F : Multiset Token}

/-! ## Pools -/

theorem codecMmInitTvpPool_does {mm : Nat} :
    Does PoolMove snap (codecMmInitTvpPool E name mm) s F fun _ _ F' => F' = F := by
  refine does_blockOf_bind ?_
  intro b hb
  refine does_get_bind.mpr (does_ext_bind ?_)
  cases hid : (E.genPoolCreate s.mgt.genPools.keys s.world).1 with
  | none => exact does_pure rfl
  | some id =>
    have hfree : id ∉ s.mgt.genPools := E.genPoolCreate_fresh hid
    refine does_ext_bind ?_
    split
    · refine does_get_bind.mpr ?_
      by_cases hroom : (s.mgt.extPool name).slotNum < tvpMaxSlot
      · simp only [if_pos hroom]
        refine does_of_run ?_
        intro r s' hx
        cases hx
        exact ⟨F, .create hfree hb hroom, rfl⟩
      · simp only [if_neg hroom]
        exact does_throw
    · exact does_pure rfl

theorem protectSlot_does {slot : Option PoolSlot} :
    Does PoolMove snap (protectSlot E slot) s F fun _ _ F' => F' = F := by
  cases slot with
  | none => exact does_throw
  | some sl =>
    refine does_blockOf_bind ?_
    intro b hb
    by_cases hhandle : b.tvpHandle = -1
    · rw [if_pos hhandle]
      exact does_ext_bind (does_modifyMgt (.handle hb) rfl)
    · rw [if_neg hhandle]
      exact does_pure rfl

theorem addSlot_does {mem : Nat} (hF : NoneClosing F) :
    Does Move snap (addSlot E name part mem size) s F fun _ _ F' => F' = F := by
  refine does_blockOf_bind ?_
  intro b _
  have hunmap (s : State ω) (on : Bool) : Does Move snap
      (if part.unmap then ext fun w => ((), E.cmaMmuOp b.memHandle b.pageCount on w) else pure ()) s F
      fun _ _ F' => F' = F := by
    split
    · exact does_ext rfl
    · exact does_pure rfl
  refine bind (hunmap s false) ?_
  intro _ s1 F₁ hF1
  rw [hF1]
  refine bind (codecMmInitTvpPool_does.weaken fun _ _ => Move.pool) ?_
  intro r s2 F₂ hF2
  rw [hF2]
  cases r with
  | true => exact does_modifyMgt_bind (.pool .grow) (does_pure rfl)
  | false =>
    refine bind (hunmap s2 true) ?_
    intro _ s3 F₃ hF3
    rw [hF3]
    refine bind (codecMmRelease_does hF) ?_
    intro _ s4 F₄ hF4
    exact does_pure hF4

theorem poolAllocLoop_does (hF : NoneClosing F) (n : Nat) :
    Does Move snap (poolAllocLoop E name part n size) s F fun _ _ F' => F' = F := by
  induction n generalizing s size with
  | zero => exact does_pure rfl
  | succ n ih =>
    refine bind (codecMmAlloc_does hF) ?_
    rintro r s1 F₁ ⟨hF1, -⟩
    rw [hF1]
    cases r with
    | some mem => exact addSlot_does hF
    | none =>
      show Does Move snap (if _ then _ else _) s1 F _
      split
      · exact does_pure rfl
      · exact ih

theorem codecMmExtpoolPoolAlloc_does {forTvp : Bool} (hF : NoneClosing F) :
    Does Move snap (codecMmExtpoolPoolAlloc E name size forTvp) s F fun _ _ F' => F' = F := by
  have hpart (s : State ω) (c : Prop) [Decidable c] (part : PoolPart) (allocedSize avail : CInt) :
      Does Move snap (if c then poolAllocPart E name part size allocedSize avail else pure allocedSize) s F
        fun _ _ F' => F' = F := by
    split
    · refine bind (poolAllocLoop_does hF _) ?_
      intro n s1 F₁ hF1
      exact does_pure hF1
    · exact does_pure rfl
  refine does_get_bind.mpr ?_
  refine bind (hpart s _ _ _ _) ?_
  intro n1 s1 F₁ hF1
  rw [hF1]
  refine does_get_bind.mpr ?_
  refine bind (hpart s1 _ _ _ _) ?_
  intro n2 s2 F₂ hF2
  rw [hF2]
  refine bind (Q := fun _ _ F' => F' = F) ?_ ?_
  · split
    · exact does_modifyMgt (.pool .size) rfl
    · exact does_pure rfl
  intro _ s3 F₃ hF3
  rw [hF3]
  refine does_get_bind.mpr (bind (Q := fun _ _ F' => F' = F) ?_ ?_)
  · split
    · refine Does.weaken (does_get_bind.mpr (does_forM _ fun _ _ _ => protectSlot_does)) ?_
      exact fun _ _ => Move.pool
    · exact does_pure rfl
  intro _ s4 F₄ hF4
  exact does_pure hF4

/-! ## TVP and fast play -/

theorem does_then_switch {α : Type} {x : Prog (State ω) α} {u : Mgt → Mgt} (w : Mgt → Switches)
    (hx : Does Move snap x s F fun _ _ F' => F' = F) (hu : ∀ m, u m = m.switch (w m)) :
    Does Move snap (do let _ ← x; modifyMgt u) s F fun _ _ F' => F' = F := by
  refine bind hx ?_
  intro _ s1 F₁ hF1
  rw [hF1]
  exact does_switch (w s1.mgt) (hu s1.mgt)

theorem codecMmEnableTvp_does (hF : NoneClosing F) :
    Does Move snap (codecMmEnableTvp E) s F fun _ _ F' => F' = F := by
  refine does_get_bind.mpr ?_
  by_cases hmode : s.mgt.tvpMode = 0
  · rw [if_pos hmode]
    exact does_pure rfl
  · rw [if_neg hmode]
    refine does_switch_bind { s.mgt.switches with tvpUserCount := s.mgt.tvpUserCount + 1 } rfl ?_
    refine bind (Q := fun _ _ F' => F' = F) ?_ ?_
    · split
      · exact does_then_switch (fun m => { m.switches with tvpEnable := 2 }) (codecMmExtpoolPoolAlloc_does hF)
          fun _ => rfl
      · exact does_pure rfl
    intro _ s1 F₁ hF1
    exact does_pure hF1

theorem codecMmDisableTvp_does (hF : NoneClosing F) :
    Does Move snap (codecMmDisableTvp E) s F fun _ _ F' => F' = F := by
  refine does_get_bind.mpr ?_
  by_cases hmode : s.mgt.tvpMode = 0
  · rw [if_pos hmode]
    exact does_pure rfl
  · rw [if_neg hmode]
    refine does_switch_bind { s.mgt.switches with tvpUserCount := s.mgt.tvpUserCount - 1 } rfl ?_
    refine bind (Q := fun _ _ F' => F' = F) ?_ ?_
    · split
      · exact codecMmTvpPoolUnprotect_does.weaken fun _ _ => Move.pool
      · exact does_pure rfl
    intro unprotected s1 F₁ hF1
    rw [hF1]
    cases unprotected with
    | true =>
      refine bind (codecMmExtpoolPoolRelease_does hF) ?_
      intro n s2 F₂ hF2
      rw [hF2]
      exact does_switch_bind { s2.mgt.switches with tvpEnable := 0 } rfl (does_pure rfl)
    | false =>
      refine bind (Q := fun _ _ F' => F' = F) ?_ ?_
      · split
        · exact does_switch { s1.mgt.switches with tvpUserCount := 0 } rfl
        · exact does_pure rfl
      intro _ s2 F₂ hF2
      exact does_pure hF2

theorem tvpEnableStore_does {val : CInt} (hF : NoneClosing F) :
    Does Move snap (tvpEnableStore E val) s F fun _ _ F' => F' = F := by
  refine does_get_bind.mpr (does_ite (fun _ => ?_) fun _ => does_ite (fun _ => ?_) fun _ => does_pure rfl)
  · refine bind (codecMmKeeperFreeAllKeep_does hF) ?_
    intro _ s1 F₁ hF1
    rw [hF1]
    refine bind (codecMmScatterFreeAllIgnorecache_does hF) ?_
    intro _ s2 F₂ hF2
    rw [hF2]
    refine does_ite (fun _ => ?_) fun _ => does_ite (fun _ => ?_) fun _ => does_ite (fun _ => ?_) fun _ =>
      does_pure rfl
    · exact does_then_switch (fun m => { m.switches with tvpEnable := 0 }) (codecMmExtpoolPoolRelease_does hF)
        fun _ => rfl
    · exact does_then_switch (fun m => { m.switches with tvpEnable := 1 }) (codecMmExtpoolPoolAlloc_does hF)
        fun _ => rfl
    · exact does_then_switch (fun m => { m.switches with tvpEnable := 2 }) (codecMmExtpoolPoolAlloc_does hF)
        fun _ => rfl
  · refine does_ite (fun _ => ?_) fun _ => does_ite (fun _ => ?_) fun _ => does_pure rfl
    · exact bind (codecMmDisableTvp_does hF) fun _ _ _ hF1 => does_pure hF1
    · exact bind (codecMmEnableTvp_does hF) fun _ _ _ hF1 => does_pure hF1

/-! ## Calls -/

def Op.MakesMoves : Op → Prop
  | .requestSharedMem .. | .v4lReqbufs .. | .v4lFreebufs .. => False
  | _ => True

theorem does_then_pure {α β : Type} {x : Prog (State ω) α} {f : α → β}
    (hx : Does Move snap x s F fun _ _ F' => F' = F) :
    Does Move snap (do let a ← x; return f a) s F fun _ _ F' => F' = F :=
  bind hx fun _ _ _ hF => does_pure hF

theorem exec_does {op : Op} (hop : op.MakesMoves) (hF : NoneClosing F) :
    Does Move snap (exec E op) s F fun _ _ F' => F' = F := by
  cases op with
  | alloc owner size align2n memflags | allocForDma owner pageCnt align2n memflags =>
    exact does_then_pure ((codecMmAlloc_does hF).mono fun _ _ _ h => h.1)
  | requestSharedMem mem owner | v4lReqbufs owner addr size | v4lFreebufs owner mem => exact hop.elim
  | release mem owner => exact does_then_pure (codecMmRelease_does hF)
  | releaseWithCheck mem owner => exact does_then_pure (codecMmReleaseWithCheck_does hF)
  | freeForDma owner phyAddr =>
    refine does_then_pure (does_get_bind.mpr ?_)
    split
    · exact does_then_pure (codecMmRelease_does hF)
    · exact does_pure rfl
  | dmaAllocCoherent size | dmaFreeCoherent cpuAddr size => exact does_then_pure (does_ext rfl)
  | enoughForSize size withWait =>
    refine does_then_pure (does_get_bind.mpr (does_ite (fun _ => ?_) fun _ => does_pure rfl))
    refine bind (codecMmScatterFreeAllIgnorecache_does hF) ?_
    intro _ s1 F₁ hF1
    exact does_get_bind.mpr (does_ite (fun _ => does_pure hF1) fun _ => does_pure hF1)
  | enableTvp => exact does_then_pure (codecMmEnableTvp_does hF)
  | disableTvp => exact does_then_pure (codecMmDisableTvp_does hF)
  | tvpEnableStore val => exact does_then_pure (tvpEnableStore_does hF)
  | fastplayEnableStore val =>
    refine does_then_pure ?_
    refine does_ite (fun _ => ?_) fun _ => does_ite (fun _ => ?_) fun _ => does_pure rfl
    · exact does_then_switch (fun m => { m.switches with fastplayEnable := 0 }) (codecMmExtpoolPoolRelease_does hF)
        fun _ => rfl
    · refine does_get_bind.mpr ?_
      exact does_then_switch (fun m => { m.switches with fastplayEnable := 1 }) (codecMmExtpoolPoolAlloc_does hF)
        fun _ => rfl
  | poolAlloc name size forTvp => exact does_then_pure (codecMmExtpoolPoolAlloc_does hF)
  | poolRelease name => exact does_then_pure (codecMmExtpoolPoolRelease_does hF)
  | scatterFreeAll flags => exact does_then_pure (codecMmScatterFreeAllIgnorecache_does hF)
  | keeperFreeAll force => exact does_then_pure (codecMmKeeperFreeAllKeep_does hF)
  | setModes debugMode tvpMode =>
    exact does_then_pure (does_switch { s.mgt.switches with debugMode := debugMode, tvpMode := tvpMode } rfl)
  | setDefaults tvpSize tvp4kSize cmaResSize =>
    exact does_then_pure (does_switch { s.mgt.switches with
      defaultTvpSize := tvpSize, defaultTvp4kSize := tvp4kSize, defaultCmaResSize := cmaResSize } rfl)

end Amlogic.CodecMem
