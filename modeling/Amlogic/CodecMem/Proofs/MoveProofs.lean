import Amlogic.CodecMem.Moves

/-!
# The code of the codec memory makes moves

For each function: whatever it does to blocks and pools is a sequence of moves. The tokens say what it leaves half
done.
-/

namespace Amlogic.CodecMem

open State Does

variable {mem id : Nat} {u : Mgt → Mgt} {owner : String} {name : PoolName}

section Basic

variable {ω α : Type} {R : Snap → Snap → Prop} {s : State ω} {F : Multiset Token}
  {Q : α → State ω → Multiset Token → Prop}

theorem blockOf_eq_ok {r : Block × State ω} :
    blockOf mem s = .ok r ↔ ∃ b, s.mgt.blocks.lookup mem = some b ∧ (b, s) = r := by
  unfold blockOf
  rw [run_get_bind]
  cases h : s.mgt.blocks.lookup mem with
  | none => exact ⟨nofun, nofun⟩
  | some b => simp [run_pure_eq_ok]

theorem genPoolOf_eq_ok {r : GenPool × State ω} :
    genPoolOf id s = .ok r ↔ ∃ p, s.mgt.genPools.lookup id = some p ∧ (p, s) = r := by
  unfold genPoolOf
  rw [run_get_bind]
  cases h : s.mgt.genPools.lookup id with
  | none => exact ⟨nofun, nofun⟩
  | some b => simp [run_pure_eq_ok]

theorem does_ext_bind {β : Type} {f : ω → β × ω} {k : β → Prog (State ω) α}
    (h : Does R snap (k (f s.world).1) { s with world := (f s.world).2 } F Q) :
    Does R snap (ext f >>= k) s F Q := h

theorem does_ext {f : ω → α × ω} (h : Q (f s.world).1 { s with world := (f s.world).2 } F) :
    Does R snap (ext f) s F Q := by
  refine does_of_same ?_
  intro a s' hx
  cases hx
  exact ⟨rfl, h⟩

theorem does_blockOf_bind {k : Block → Prog (State ω) α}
    (h : ∀ b, s.mgt.blocks.lookup mem = some b → Does R snap (k b) s F Q) :
    Does R snap (blockOf mem >>= k) s F Q := by
  intro a s' hrun
  obtain ⟨b, s1, h1, h2⟩ := run_bind_eq_ok.mp hrun
  obtain ⟨b', hb, hr⟩ := blockOf_eq_ok.mp h1
  cases hr
  exact h b hb a s' h2

theorem does_genPoolOf_bind {k : GenPool → Prog (State ω) α}
    (h : ∀ p, s.mgt.genPools.lookup id = some p → Does R snap (k p) s F Q) :
    Does R snap (genPoolOf id >>= k) s F Q := by
  intro a s' hrun
  obtain ⟨b, s1, h1, h2⟩ := run_bind_eq_ok.mp hrun
  obtain ⟨b', hb, hr⟩ := genPoolOf_eq_ok.mp h1
  cases hr
  exact h b hb a s' h2

theorem does_modifyMgt_bind {k : Unit → Prog (State ω) α} {F' : Multiset Token}
    (hmove : R (s.snap F) (snap { s with mgt := u s.mgt } F'))
    (h : Does R snap (k ()) { s with mgt := u s.mgt } F' Q) : Does R snap (modifyMgt u >>= k) s F Q :=
  does_modify_bind hmove h

theorem does_modifyMgt {F' : Multiset Token} {Q : Unit → State ω → Multiset Token → Prop}
    (hmove : R (s.snap F) (snap { s with mgt := u s.mgt } F'))
    (h : Q () { s with mgt := u s.mgt } F') : Does R snap (modifyMgt u) s F Q :=
  does_modify hmove h

theorem does_forM {β : Type} {f : β → Prog (State ω) Unit} (l : List β)
    (h : ∀ b ∈ l, ∀ s, Does R snap (f b) s F fun _ _ F' => F' = F) :
    Does R snap (l.forM f) s F fun _ _ F' => F' = F := by
  induction l generalizing s with
  | nil => exact does_pure rfl
  | cons b l ih =>
    refine bind (h b List.mem_cons_self s) ?_
    intro _ s' F' hF
    rw [hF]
    exact ih fun c hc => h c (List.mem_cons_of_mem b hc)

end Basic

section Release

variable {ω : Type} {E : Externals ω} {s : State ω} {F : Multiset Token}

/-! ## Release -/

theorem genPoolFree_eq_ok {addr size : Nat} {r : Unit × State ω} (h : genPoolFree id addr size s = .ok r) :
    ∃ p, s.mgt.genPools.lookup id = some p ∧ (addr, size) ∈ p.used ∧
      r.2 = { s with mgt := s.mgt.setGenPool id { p with used := p.used.erase (addr, size) } } := by
  obtain ⟨p, s1, h1, h2⟩ := run_bind_eq_ok.mp h
  obtain ⟨p', hp, hr⟩ := genPoolOf_eq_ok.mp h1
  cases hr
  by_cases hused : (addr, size) ∈ p.used
  · rw [if_pos hused] at h2
    cases h2
    exact ⟨p, hp, hused, rfl⟩
  · rw [if_neg hused] at h2
    cases h2

theorem genPoolFree_does {b : Block} (hpool : s.mgt.poolOf b = some id) :
    Does BlockMove snap (genPoolFree id b.memHandle (toSize b.bufferSize)) s (.owed mem b ::ₘ F)
      fun _ _ F' => F' = .given mem b ::ₘ F := by
  refine does_of_run ?_
  intro _ s' hx
  obtain ⟨p, hp, hused, rfl⟩ := genPoolFree_eq_ok hx
  exact ⟨_, .give (.piece hpool hp hused), rfl⟩

theorem freeMemory_does {b : Block} :
    Does BlockMove snap (freeMemory E b) s (.owed mem b ::ₘ F) fun _ _ F' => F' = .given mem b ::ₘ F := by
  unfold freeMemory
  -- memory of the system is not seen, the rest comes from a pool
  have hsystem (hb : b.fromFlags = .pages ∨ b.fromFlags = .cma ∨ b.fromFlags = .coherent) (s' : State ω)
      (hs' : s'.snap (.given mem b ::ₘ F) = s.snap (.given mem b ::ₘ F)) :
      BlockMove (s.snap (.owed mem b ::ₘ F)) (s'.snap (.given mem b ::ₘ F)) := by
    rw [hs']
    exact .give (.system hb)
  cases hfrom : b.fromFlags with
  | cma =>
    refine does_of_run ?_
    intro _ s' hx
    cases hx
    exact ⟨_, hsystem (Or.inr (Or.inl hfrom)) _ rfl, rfl⟩
  | pages =>
    refine does_of_run ?_
    intro _ s' hx
    cases hx
    exact ⟨_, hsystem (Or.inl hfrom) _ rfl, rfl⟩
  | coherent =>
    refine does_of_run ?_
    intro _ s' hx
    cases hx
    exact ⟨_, hsystem (Or.inr (Or.inr hfrom)) _ rfl, rfl⟩
  | reversed =>
    refine does_get_bind.mpr ?_
    cases hres : s.mgt.resPool with
    | none => exact does_throw
    | some id => exact genPoolFree_does (by simp [Mgt.poolOf, hfrom, hres])
  | tvp | cmaRes =>
    cases hext : b.fromExt with
    | none => exact does_throw
    | some id => exact genPoolFree_does (by simp [Mgt.poolOf, hfrom, hext])

theorem codecMmFreeInWith_does {R : Snap → Snap → Prop} (hR : ∀ v v', BlockMove v v' → R v v')
    {unuse : Prog (State ω) Unit} {b : Block}
    (hunuse : b.fromFlags = .tvp → ∀ s, Does R snap unuse s (.dead mem ::ₘ F) fun _ _ F' => F' = .dead mem ::ₘ F) :
    Does R snap (codecMmFreeInWith E unuse b) s (.owed mem b ::ₘ F) fun _ _ F' => F' = .dead mem ::ₘ F := by
  refine bind (freeMemory_does.weaken hR) ?_
  rintro - s1 - rfl
  refine does_modifyMgt_bind (hR _ _ .uncount) ?_
  refine does_get_bind.mpr ?_
  by_cases hunused : b.fromFlags = .tvp ∧ (s1.mgt.uncount b).tvpMode ≠ 0
  · rw [if_pos hunused]
    exact hunuse hunused.1 _
  · rw [if_neg hunused]
    exact does_pure rfl

theorem ownerAt_eq_ok {owners : List (Option String)} {index : CInt} {r : Option String × State ω}
    (h : ownerAt owners index s = .ok r) : 0 ≤ index.toInt ∧ owners[index.toNat]? = some r.1 ∧ s = r.2 := by
  unfold ownerAt at h
  by_cases hpos : 0 ≤ index.toInt
  · rw [if_pos hpos] at h
    cases ho : owners[index.toNat]? with
    | none => rw [ho] at h; cases h
    | some o =>
      rw [ho] at h
      cases h
      exact ⟨hpos, rfl, rfl⟩
  · rw [if_neg hpos] at h
    cases h

theorem dropReference_does (hmem : mem ∈ s.mgt.memList) :
    Does BlockMove snap (dropReference mem owner) s F fun r _ F' =>
      match r with
      | none => F' = F
      | some b => F' = .owed mem b ::ₘ F ∧ ∃ b0, s.mgt.blocks.lookup mem = some b0 ∧ b.fromFlags = b0.fromFlags := by
  refine does_of_run ?_
  intro r s' hx
  obtain ⟨b, s1, h1, hx⟩ := run_bind_eq_ok.mp hx
  obtain ⟨b', hb, hr⟩ := blockOf_eq_ok.mp h1
  cases hr
  obtain ⟨maxOwner, s1, h1, hx⟩ := run_bind_eq_ok.mp hx
  obtain ⟨hpos, hentry, rfl⟩ := ownerAt_eq_ok h1
  by_cases hlast : b.useCnt - 1 = 0
  · have hrun : (r, s') = (some (b.released maxOwner owner), { s with
        mgt := { s.mgt.setBlock mem (b.released maxOwner owner) with memList := s.mgt.memList.erase mem }
        log := s.log ++ [.release mem] }) := by
      simp only [if_pos hlast] at hx
      exact (Except.ok.inj hx).symm
    cases hrun
    refine ⟨_, .unlist hmem hb ?_ hlast, rfl, b, hb, rfl⟩
    rw [hlast] at hentry
    exact hentry
  · have hrun : (r, s') = (none, { s with
        mgt := s.mgt.setBlock mem (b.released maxOwner owner), log := s.log ++ [.release mem] }) := by
      simp only [if_neg hlast] at hx
      exact (Except.ok.inj hx).symm
    cases hrun
    exact ⟨_, .drop hmem hb hpos hentry hlast, rfl⟩

theorem codecMmReleaseWith_does {R : Snap → Snap → Prop} (hR : ∀ v v', BlockMove v v' → R v v')
    {unuse : Prog (State ω) Unit} {mem : Option Nat}
    (hunuse : ∀ p b, mem = some p → s.mgt.blocks.lookup p = some b → b.fromFlags = .tvp →
      ∀ s, Does R snap unuse s (.dead p ::ₘ F) fun _ _ F' => F' = .dead p ::ₘ F) :
    Does R snap (codecMmReleaseWith E unuse mem owner) s F fun _ _ F' => F' = F := by
  cases mem with
  | none => exact does_pure rfl
  | some p =>
    refine does_get_bind.mpr ?_
    by_cases hmem : p ∈ s.mgt.memList
    · rw [if_pos hmem]
      refine bind ((dropReference_does hmem).weaken hR) ?_
      intro r s1 F₁ hr
      cases r with
      | none => exact does_pure hr
      | some b =>
        obtain ⟨rfl, b0, hb0, hfrom⟩ := hr
        refine bind (codecMmFreeInWith_does hR ?_) ?_
        · intro htvp
          exact hunuse p b0 rfl hb0 (hfrom ▸ htvp)
        · rintro - s2 - rfl
          refine Does.weaken ?_ hR
          refine does_of_run ?_
          intro _ s' hx
          cases hx
          exact ⟨F, .kfree, rfl⟩
    · rw [if_neg hmem]
      exact does_pure rfl

/-! ## Release of pools -/

theorem NoneClosing.cons {t : Token} (hF : NoneClosing F) (ht : ∀ name i, t ≠ .closing name i) :
    NoneClosing (t ::ₘ F) := by
  intro name i hmem
  rcases Multiset.mem_cons.mp hmem with heq | hmem
  · exact ht name i heq.symm
  · exact hF name i hmem

theorem unprotectSlot_does {slot : Option PoolSlot} :
    Does PoolMove snap (unprotectSlot E slot) s F fun _ _ F' => F' = F := by
  cases slot with
  | none => exact does_throw
  | some sl =>
    refine does_blockOf_bind ?_
    intro b hb
    by_cases hhandle : b.tvpHandle ≠ 0
    · rw [if_pos hhandle]
      exact does_ext_bind (does_modifyMgt (.handle hb) rfl)
    · rw [if_neg hhandle]
      exact does_pure rfl

theorem codecMmTvpPoolUnprotect_does :
    Does PoolMove snap (codecMmTvpPoolUnprotect E) s F fun _ _ F' => F' = F := by
  refine does_get_bind.mpr ?_
  by_cases hfree : (s.mgt.extPool .tvp).allocedSize.sle 0 = true
  · rw [if_pos hfree]
    refine bind (does_forM _ fun slot _ s => unprotectSlot_does) ?_
    rintro - s' F' hF
    exact does_pure hF
  · rw [if_neg hfree]
    exact does_pure rfl

theorem releaseBacking_does {mem : Option Nat} :
    Does BlockMove snap (codecMmReleaseWith E (throw .fuel) mem owner) s F fun _ _ F' => F' = F :=
  codecMmReleaseWith_does (fun _ _ h => h) fun _ _ _ _ _ _ => does_throw

theorem releaseSlot_does {i : Nat} (hF : NoneClosing F) :
    Does Move snap (releaseSlot E name i) s F fun _ _ F' => F' = F := by
  refine does_get_bind.mpr ?_
  cases hslot : (s.mgt.extPool name).slots[i]?.join with
  | none => exact does_pure rfl
  | some sl =>
    refine does_genPoolOf_bind ?_
    intro p hp
    by_cases hused : p.avail ≠ p.size
    · rw [if_pos hused]
      exact does_pure rfl
    · rw [if_neg hused]
      refine does_modifyMgt_bind (.pool (.destroy hslot hp (not_not.mp hused) (hF name i))) ?_
      refine does_blockOf_bind fun b _ => does_ext_bind ?_
      refine bind (releaseBacking_does.weaken fun _ _ => Move.block) ?_
      rintro - s1 - rfl
      refine does_modifyMgt_bind (.pool .size) ?_
      exact does_modifyMgt_bind (.pool .close) (does_pure rfl)

theorem releaseSlots_does (hF : NoneClosing F) (l : List Nat) :
    Does Move snap (releaseSlots E name l) s F fun _ _ F' => F' = F := by
  induction l generalizing s with
  | nil => exact does_pure rfl
  | cons i l ih =>
    refine bind (releaseSlot_does hF) ?_
    intro ignored s1 F₁ hF1
    rw [hF1]
    refine bind ih ?_
    intro n s2 F₂ hF2
    exact does_pure hF2

theorem codecMmExtpoolPoolRelease_does (hF : NoneClosing F) :
    Does Move snap (codecMmExtpoolPoolRelease E name) s F fun _ _ F' => F' = F := by
  refine does_get_bind.mpr ?_
  refine bind (releaseSlots_does hF _) ?_
  intro ignored s1 F₁ hF1
  rw [hF1]
  exact does_modifyMgt_bind (.pool (.settle hF)) (does_pure rfl)

theorem does_switch_bind {α : Type} {Q : α → State ω → Multiset Token → Prop} {k : Unit → Prog (State ω) α}
    (w : Switches) (hu : u s.mgt = s.mgt.switch w) (h : Does Move snap (k ()) { s with mgt := u s.mgt } F Q) :
    Does Move snap (modifyMgt u >>= k) s F Q := by
  refine does_modifyMgt_bind ?_ h
  rw [hu]
  exact .pool .switch

theorem does_switch (w : Switches) (hu : u s.mgt = s.mgt.switch w) :
    Does Move snap (modifyMgt u) s F fun _ _ F' => F' = F := by
  exact does_switch_bind w hu (does_pure rfl)

theorem tvpUnuse_does (hF : NoneClosing F) : Does Move snap (tvpUnuse E) s F fun _ _ F' => F' = F := by
  refine does_get_bind.mpr ?_
  by_cases hcount : s.mgt.tvpUserCount = 0
  · rw [if_pos hcount]
    refine bind (codecMmTvpPoolUnprotect_does.weaken fun _ _ => Move.pool) ?_
    intro unprotected s1 F₁ hF1
    rw [hF1]
    cases unprotected with
    | false => exact does_pure rfl
    | true =>
      refine bind (codecMmExtpoolPoolRelease_does hF) ?_
      intro n s2 F₂ hF2
      rw [hF2]
      exact does_switch { s2.mgt.switches with tvpEnable := 0 } rfl
  · rw [if_neg hcount]
    exact does_pure rfl

theorem codecMmRelease_does {mem : Option Nat} (hF : NoneClosing F) :
    Does Move snap (codecMmRelease E mem owner) s F fun _ _ F' => F' = F :=
  codecMmReleaseWith_does (fun _ _ => Move.block) fun _ _ _ _ _ _ => tvpUnuse_does (hF.cons nofun)

theorem codecMmReleaseWithCheck_does {mem : Option Nat} (hF : NoneClosing F) :
    Does Move snap (codecMmReleaseWithCheck E mem owner) s F fun _ _ F' => F' = F := by
  refine does_get_bind.mpr ?_
  by_cases hmem : ∃ p ∈ mem, p ∈ s.mgt.memList
  · rw [if_pos hmem]
    exact codecMmRelease_does hF
  · rw [if_neg hmem]
    exact does_pure rfl

theorem releaseAll_does (hF : NoneClosing F) (l : List (Nat × String)) :
    Does Move snap (releaseAll E l) s F fun _ _ F' => F' = F :=
  does_forM l fun _ _ _ => codecMmRelease_does hF

theorem codecMmScatterFreeAllIgnorecache_does {flags : CInt} (hF : NoneClosing F) :
    Does Move snap (codecMmScatterFreeAllIgnorecache E flags) s F fun _ _ F' => F' = F :=
  does_get_bind.mpr (does_ext_bind (releaseAll_does hF _))

theorem codecMmKeeperFreeAllKeep_does {force : CInt} (hF : NoneClosing F) :
    Does Move snap (codecMmKeeperFreeAllKeep E force) s F fun _ _ F' => F' = F :=
  does_get_bind.mpr (does_ext_bind (releaseAll_does hF _))

end Release

end Amlogic.CodecMem
