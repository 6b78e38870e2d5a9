import Amlogic.CodecMem.Proofs.MoveProofs

/-!
# Allocation makes moves

A block that `codec_mm_alloc` returns was granted by one of the attempts of `codec_mm_alloc_in`.
-/

namespace Amlogic.CodecMem

open State

variable {mem : Nat} {a : Attempt} {req : Block} {owner : String}

section Alloc

variable {ω : Type} {E : Externals ω} {s : State ω} {F : Multiset Token}

/-! ## Memory for a block -/

def Attempt.source : Attempt → Source
  | .pages => .pages
  | .cma _ => .cma
  | .reserved => .reversed
  | .cmaRes => .cmaRes
  | .tvp => .tvp

structure Granted (req : Block) (a : Attempt) (b : Block) (m : Mgt) : Prop where
  owner : b.owner = req.owner
  source : b.fromFlags = a.source
  flags : b.flags = req.flags ∨ b.flags = req.flags ||| flagsForPhysVmaped
  slot : ∀ name, a.source.extPool = some name → ∃ id, b.fromExt = some id ∧ m.IsSlotPool name id
  noSlot : a.source.extPool = none → b.fromExt = req.fromExt

theorem genPoolAlloc_eq_ok {id size : Nat} {r : Option Nat × State ω} (h : genPoolAlloc E id size s = .ok r) :
    ∃ p w, s.mgt.genPools.lookup id = some p ∧
      match r.1 with
      | none => r.2 = { s with world := w }
      | some a => 0 < size ∧ size < 2 ^ 31 ∧ p.usedSize + size ≤ p.size ∧
        r.2 = ⟨w, s.mgt.setGenPool id { p with used := (a, size) :: p.used }, s.log⟩ := by
  obtain ⟨p, s1, h1, h⟩ := run_bind_eq_ok.mp h
  obtain ⟨p', hp, hr⟩ := genPoolOf_eq_ok.mp h1
  cases hr
  obtain ⟨a, s1, h1, h⟩ := run_bind_eq_ok.mp h
  cases h1
  refine ⟨p, (E.genPoolAlloc p size s.world).2, hp, ?_⟩
  cases ha : (E.genPoolAlloc p size s.world).1 with
  | none =>
    rw [ha] at h
    cases h
    rfl
  | some a =>
    rw [ha] at h
    cases h
    obtain ⟨hpos, hlt, hfit⟩ := E.genPoolAlloc_fits ha
    exact ⟨hpos, hlt, hfit, rfl⟩

theorem extpoolAllocLoop_eq_ok {size : Nat} {slots : List (Option PoolSlot)} {r : Option (Nat × Nat) × State ω}
    (h : extpoolAllocLoop E size slots s = .ok r) :
    match r.1 with
    | none => ∃ w, r.2 = { s with world := w }
    | some (a, id) => ∃ sl p w, some sl ∈ slots ∧ sl.genPool = id ∧ s.mgt.genPools.lookup id = some p ∧
        0 < size ∧ size < 2 ^ 31 ∧ p.usedSize + size ≤ p.size ∧
        r.2 = ⟨w, s.mgt.setGenPool id { p with used := (a, size) :: p.used }, s.log⟩ := by
  induction slots generalizing s with
  | nil =>
    cases h
    exact ⟨s.world, rfl⟩
  | cons slot rest ih =>
    cases slot with
    | none =>
      cases h
      exact ⟨s.world, rfl⟩
    | some sl =>
      obtain ⟨a, s1, h1, h⟩ := run_bind_eq_ok.mp h
      obtain ⟨p, w, hp, hr⟩ := genPoolAlloc_eq_ok h1
      cases a with
      | some a =>
        cases h
        obtain ⟨hpos, hlt, hfit, rfl⟩ := hr
        exact ⟨sl, p, w, List.mem_cons_self, rfl, hp, hpos, hlt, hfit, rfl⟩
      | none =>
        cases hr
        have hrest := ih h
        obtain ⟨found, s'⟩ := r
        cases found with
        | none => exact hrest
        | some q =>
          obtain ⟨sl', p', w', hmem, hall⟩ := hrest
          exact ⟨sl', p', w', List.mem_cons_of_mem _ hmem, hall⟩

theorem isSlotPool_of_mem {m : Mgt} {name : PoolName} {sl : PoolSlot}
    (h : some sl ∈ (m.extPool name).slots.take (m.extPool name).slotNum) : m.IsSlotPool name sl.genPool := by
  obtain ⟨i, hi⟩ := List.mem_iff_getElem?.mp h
  rw [List.getElem?_take] at hi
  by_cases hlt : i < (m.extPool name).slotNum
  · rw [if_pos hlt] at hi
    exact ⟨i, sl, hlt, by simp [Mgt.slotAt, hi], rfl⟩
  · rw [if_neg hlt] at hi
    cases hi

theorem take_piece {m : Mgt} {l : List Event} {id handle n : Nat} {p : GenPool} {b : Block}
    (hpiece : b.piece = (handle, n)) (hpool : m.poolOf b = some id) (hp : m.genPools.lookup id = some p)
    (hpos : 0 < n) (hlt : n < 2 ^ 31) (hfit : p.usedSize + n ≤ p.size)
    (hslot : ∀ name, b.fromFlags.extPool = some name → m.IsSlotPool name id)
    (htvp : b.fromFlags = .tvp → Has b.flags flagsTvp) (hlen : b.owner.length = 8) :
    BlockMove ⟨m, l, .fresh mem ::ₘ F⟩
      ⟨m.setGenPool id { p with used := (handle, n) :: p.used }, l, .taken mem b ::ₘ F⟩ := by
  rw [← hpiece]
  exact .take (.piece hpool hp (by rw [hpiece]; exact hpos) (by rw [hpiece]; exact hlt)
    (by rw [hpiece]; exact hfit) hslot) htvp hlen

def Outcome (s : State ω) (req : Block) (mem : Nat) (F : Multiset Token) (good : Attempt → Prop) (r : Option Block)
    (s' : State ω) (F' : Multiset Token) : Prop :=
  match r with
  | none => s'.mgt = s.mgt ∧ s'.log = s.log ∧ F' = .fresh mem ::ₘ F
  | some b => F' = .taken mem b ::ₘ F ∧ ∃ a, good a ∧ Granted req a b s'.mgt

theorem outcome_of_take {b : Block} {s' : State ω}
    (hmove : BlockMove (s.snap (.fresh mem ::ₘ F)) (s'.snap (.taken mem b ::ₘ F))) (hgrant : Granted req a b s'.mgt) :
    ∃ F', Relation.ReflTransGen BlockMove (s.snap (.fresh mem ::ₘ F)) (s'.snap F') ∧
      Outcome s req mem F (· = a) (some b) s' F' :=
  ⟨_, .single hmove, rfl, a, rfl, hgrant⟩

theorem attemptPool_does {name : PoolName} (hsource : a.source.extPool = some name)
    (htvp : a = .tvp → Has req.flags flagsTvp) (hlen : req.owner.length = 8) :
    Does BlockMove snap (attemptPool E name a.source req) s (.fresh mem ::ₘ F)
      (Outcome s req mem F (· = a)) := by
  intro r s' hx
  obtain ⟨found, s1, h1, hx⟩ := run_bind_eq_ok.mp hx
  have hloop := extpoolAllocLoop_eq_ok (show extpoolAllocLoop E _ _ s = .ok (found, s1) from h1)
  cases found with
  | none =>
    obtain ⟨w, rfl⟩ := hloop
    cases hx
    exact ⟨_, .refl, rfl, rfl, rfl⟩
  | some q =>
    obtain ⟨handle, id⟩ := q
    obtain ⟨sl, p, w, hmem, rfl, hp, hpos, hlt, hfit, rfl⟩ := hloop
    cases hx
    have hslot : s.mgt.IsSlotPool name sl.genPool := isSlotPool_of_mem hmem
    refine outcome_of_take (take_piece rfl ?_ hp hpos hlt hfit ?_ ?_ hlen) ⟨rfl, rfl, Or.inl rfl, ?_, ?_⟩
    · cases a <;> first | rfl | cases hsource
    · intro name' hname'
      rw [show name' = name from Option.some.inj (hname'.symm.trans hsource)]
      exact hslot
    · intro hfrom
      refine htvp ?_
      cases a <;> first | rfl | cases hfrom
    · intro name' hname'
      rw [show name' = name from Option.some.inj (hname'.symm.trans hsource)]
      exact ⟨_, rfl, hslot⟩
    · intro hnone
      rw [hsource] at hnone
      cases hnone

theorem attempt_does (htvp : a = .tvp → Has req.flags flagsTvp) (hlen : req.owner.length = 8) :
    Does BlockMove snap (attempt E req a) s (.fresh mem ::ₘ F) (Outcome s req mem F (· = a)) := by
  cases a with
  | pages =>
    intro r s' hx
    obtain ⟨found, s1, h1, hx⟩ := run_bind_eq_ok.mp hx
    cases h1
    cases hfound : (E.getFreePages (getOrder req.bufferSize) s.world).1 with
    | none =>
      rw [hfound] at hx
      cases hx
      exact ⟨_, .refl, rfl, rfl, rfl⟩
    | some handle =>
      rw [hfound] at hx
      cases hx
      exact outcome_of_take (.take (.system (Or.inl rfl)) nofun hlen) ⟨rfl, rfl, Or.inl rfl, nofun, fun _ => rfl⟩
  | cma map =>
    intro r s' hx
    obtain ⟨found, s1, h1, hx⟩ := run_bind_eq_ok.mp hx
    cases h1
    cases hfound : (E.dmaAllocFromContiguous req.pageCount (req.align - pageShift) s.world).1 with
    | none =>
      rw [hfound] at hx
      cases hx
      exact ⟨_, .refl, rfl, rfl, rfl⟩
    | some handle =>
      rw [hfound] at hx
      cases hx
      refine outcome_of_take (.take (.system (Or.inr rfl)) nofun hlen) ⟨rfl, rfl, ?_, nofun, fun _ => rfl⟩
      split_ifs
      · exact .inr rfl
      · exact .inl rfl
  | reserved =>
    refine does_get_bind.mpr ?_
    cases hres : s.mgt.resPool with
    | none => exact does_pure ⟨rfl, rfl, rfl⟩
    | some id =>
      intro r s' hx
      obtain ⟨found, s1, h1, hx⟩ := run_bind_eq_ok.mp hx
      obtain ⟨p, w, hp, hfound⟩ := genPoolAlloc_eq_ok h1
      cases found with
      | none =>
        cases hfound
        cases hx
        exact ⟨_, .refl, rfl, rfl, rfl⟩
      | some handle =>
        obtain ⟨hpos, hlt, hfit, rfl⟩ := hfound
        cases hx
        exact outcome_of_take (take_piece rfl hres hp hpos hlt hfit nofun nofun hlen)
          ⟨rfl, rfl, Or.inl rfl, nofun, fun _ => rfl⟩
  | cmaRes => exact attemptPool_does (a := .cmaRes) rfl htvp hlen
  | tvp => exact attemptPool_does (a := .tvp) rfl htvp hlen

theorem firstAttempt_does {l : List Attempt}
    (htvp : .tvp ∈ l → Has req.flags flagsTvp) (hlen : req.owner.length = 8) :
    Does BlockMove snap (firstAttempt E req l) s (.fresh mem ::ₘ F) (Outcome s req mem F (· ∈ l)) := by
  induction l generalizing s with
  | nil => exact does_pure ⟨rfl, rfl, rfl⟩
  | cons a l ih =>
    refine Does.bind (attempt_does (fun ha => htvp (ha ▸ List.mem_cons_self)) hlen) ?_
    intro r s1 F₁ hr
    cases r with
    | some b =>
      obtain ⟨hF, a', rfl, hgrant⟩ := hr
      exact does_pure ⟨hF, a', List.mem_cons_self, hgrant⟩
    | none =>
      obtain ⟨hmgt, hlog, rfl⟩ := hr
      refine (ih fun hmem => htvp (List.mem_cons_of_mem a hmem)).mono ?_
      intro r s2 F₂ hr
      cases r with
      | none => exact ⟨hr.1.trans hmgt, hr.2.1.trans hlog, hr.2.2⟩
      | some b =>
        obtain ⟨hF, a', ha', hgrant⟩ := hr
        exact ⟨hF, a', List.mem_cons_of_mem a ha', hgrant⟩

/-! ## Which attempts are made -/

/-- A request for TVP memory is tried on the TVP pool, but also on the pages of the system; other requests are
not tried on the TVP pool. -/
theorem mem_attempts {m : Mgt} {l : List Attempt} (h : attempts m req = .ok l) (hmem : a ∈ l) :
    a = .tvp ∧ Has req.flags flagsTvp ∨
    a = .pages ∧ Has req.flags flagsDmaCpu ∧
      (req.pageCount.sle m.allocFromSysPagesMax ∧ req.align.sle pageShift ∨ m.enableKmallocOnNomem ≠ 0) ∨
    a ≠ .tvp ∧ ¬Has req.flags flagsTvp := by
  unfold attempts at h
  simp only at h
  split at h
  · cases h
  split at h
  · cases h
  cases h
  simp only [List.mem_append, List.mem_ite_nil_right, List.mem_singleton, canFromSys, Bool.and_eq_true,
    decide_eq_true_eq, Bool.not_eq_true', decide_eq_false_iff_not] at hmem
  rcases hmem with ((((((⟨⟨⟨hflags, hpages⟩, halign⟩, rfl⟩ | ⟨⟨-, ⟨hno, -⟩, -⟩, rfl⟩) | ⟨⟨⟨⟨⟨hno, -⟩, -⟩, -⟩, -⟩, rfl⟩) |
    ⟨⟨⟨⟨hno, -⟩, -⟩, -⟩, rfl⟩) | ⟨⟨⟨hno, -⟩, -⟩, rfl⟩) | ⟨⟨⟨htvp, -⟩, -⟩, rfl⟩) | ⟨⟨hflags, hkmalloc, -⟩, rfl⟩)
  · exact .inr (Or.inl ⟨rfl, hflags, Or.inl ⟨hpages, halign⟩⟩)
  · exact .inr (Or.inr ⟨nofun, hno⟩)
  · exact .inr (Or.inr ⟨nofun, hno⟩)
  · exact .inr (Or.inr ⟨nofun, hno⟩)
  · exact .inr (Or.inr ⟨nofun, hno⟩)
  · exact .inl ⟨rfl, htvp⟩
  · exact .inr (Or.inl ⟨rfl, hflags, Or.inr hkmalloc⟩)

def AllocOutcome (s : State ω) (req : Block) (mem : Nat) (F : Multiset Token) (r : Except CInt Block)
    (s' : State ω) (F' : Multiset Token) : Prop :=
  match r with
  | .error _ => s'.mgt = s.mgt ∧ s'.log = s.log ∧ F' = .fresh mem ::ₘ F
  | .ok b => F' = .taken mem b ::ₘ F ∧ ∃ l a, attempts s.mgt req = .ok l ∧ a ∈ l ∧ Granted req a b s'.mgt

theorem codecMmAllocIn_does (hlen : req.owner.length = 8) :
    Does BlockMove snap (codecMmAllocIn E req) s (.fresh mem ::ₘ F) (AllocOutcome s req mem F) := by
  refine does_get_bind.mpr ?_
  cases hl : attempts s.mgt req with
  | error e => exact does_pure ⟨rfl, rfl, rfl⟩
  | ok l =>
    refine Does.bind (firstAttempt_does (l := l) ?_ hlen) ?_
    · intro hmem
      rcases mem_attempts hl hmem with ⟨-, htvp⟩ | ⟨hpages, -⟩ | ⟨hne, -⟩
      · exact htvp
      · cases hpages
      · exact absurd rfl hne
    · intro r s' F' hr
      cases r with
      | none => exact does_pure hr
      | some b =>
        obtain ⟨hF, a, ha, hgrant⟩ := hr
        exact does_pure ⟨hF, l, a, hl, ha, hgrant⟩

/-! ## `codec_mm_alloc` -/

theorem newBlock_does {b : Block} :
    Does BlockMove snap (newBlock E b) s F fun r s' F' =>
      match r with
      | none => s'.mgt = s.mgt ∧ F' = F
      | some mem => F' = .fresh mem ::ₘ F ∧ mem ∉ s.mgt.blocks ∧ s'.mgt = s.mgt.setBlock mem b := by
  refine does_get_bind.mpr (does_ext_bind ?_)
  cases hmem : (E.kmalloc s.mgt.blocks.keys s.world).1 with
  | none => exact does_pure ⟨rfl, rfl⟩
  | some mem =>
    refine does_modifyMgt_bind (.new (E.kmalloc_fresh hmem)) ?_
    exact does_pure ⟨rfl, E.kmalloc_fresh hmem, rfl⟩

theorem dropBlock_does :
    Does BlockMove snap (dropBlock mem) s (.fresh mem ::ₘ F) fun _ _ F' => F' = F :=
  does_modifyMgt .scrap rfl

theorem enterBlock_does {b : Block} :
    Does BlockMove snap (enterBlock mem owner b) s (.taken mem b ::ₘ F) fun _ s' F' =>
      F' = F ∧ s'.mgt = s.mgt.count mem (b.first owner) := by
  refine does_of_run ?_
  intro _ s' hx
  cases hx
  exact ⟨F, .enter, rfl, rfl⟩

def TakeOutcome (R : Snap → Snap → Prop) (s : State ω) (req : Block) (mem : Nat) (F : Multiset Token)
    (r : Except CInt Block) (s' : State ω) (F' : Multiset Token) : Prop :=
  match r with
  | .error _ => F' = .fresh mem ::ₘ F
  | .ok b => F' = .taken mem b ::ₘ F ∧ ∃ (s₁ : State ω) (l : List Attempt) (a : Attempt),
      Relation.ReflTransGen R (s.snap (.fresh mem ::ₘ F)) (s₁.snap (.fresh mem ::ₘ F)) ∧
      attempts s₁.mgt req = .ok l ∧ a ∈ l ∧ Granted req a b s'.mgt

def scatterFlags (flags : CInt) : CInt := if Has flags flagsTvp then 2 else 1

theorem takeMemory_does {R : Snap → Snap → Prop} (hR : ∀ v v', BlockMove v v' → R v v') (hlen : req.owner.length = 8)
    (hscatter : ∀ s1 : State ω, s1.mgt = s.mgt →
      Does R snap (codecMmScatterFreeAllIgnorecache E (scatterFlags req.flags)) s1 (.fresh mem ::ₘ F)
        fun _ _ F' => F' = .fresh mem ::ₘ F) :
    Does R snap (takeMemory E req) s (.fresh mem ::ₘ F) (TakeOutcome R s req mem F) := by
  refine Does.bind ((codecMmAllocIn_does hlen).weaken hR) ?_
  intro r s1 F₁ hr
  cases r with
  | ok b =>
    obtain ⟨hF, l, a, hl, ha, hgrant⟩ := hr
    exact does_pure ⟨hF, s, l, a, .refl, hl, ha, hgrant⟩
  | error e =>
    obtain ⟨hmgt, hlog, rfl⟩ := hr
    refine does_get_bind.mpr ?_
    by_cases hretry : (0 : CInt).slt s1.mgt.allocedForScCnt = true ∧ ¬Has req.flags flagsForScatter
    · rw [if_pos hretry]
      have hsnap : s1.snap (.fresh mem ::ₘ F) = s.snap (.fresh mem ::ₘ F) := by
        rw [snap, snap, hmgt, hlog]
      intro r s3 hrun
      obtain ⟨u, s2, h2, h3⟩ := run_bind_eq_ok.mp hrun
      obtain ⟨F₂, hpath2, rfl⟩ := hscatter s1 hmgt u s2 h2
      obtain ⟨F₃, hpath3, hr⟩ := ((codecMmAllocIn_does hlen).weaken hR) r s3 h3
      refine ⟨F₃, hpath2.trans hpath3, ?_⟩
      cases r with
      | error e => exact hr.2.2
      | ok b =>
        obtain ⟨hF, l, a, hl, ha, hgrant⟩ := hr
        exact ⟨hF, s2, l, a, hsnap ▸ hpath2, hl, ha, hgrant⟩
    · rw [if_neg hretry]
      exact does_pure rfl

def BlockOutcome (R : Snap → Snap → Prop) (s : State ω) (owner : String) (req : Block) (F : Multiset Token)
    (r : Option Nat) (s' : State ω) (F' : Multiset Token) : Prop :=
  F' = F ∧ ∀ mem, r = some mem → ∃ (s₁ s₂ : State ω) (l : List Attempt) (a : Attempt) (b : Block),
    Relation.ReflTransGen R (s.snap F) (s₁.snap (.fresh mem ::ₘ F)) ∧
    attempts s₁.mgt req = .ok l ∧ a ∈ l ∧ Granted req a b s₂.mgt ∧
    s'.mgt = s₂.mgt.count mem (b.first owner)

theorem codecMmAlloc_does_of {R : Snap → Snap → Prop} (hR : ∀ v v', BlockMove v v' → R v v')
    {size align2n memflags : CInt} (hreq : req = Block.request size align2n (allocFlags s.mgt.tvpEnable memflags))
    (hscatter : ∀ (s1 : State ω) (mem : Nat), s1.mgt = s.mgt.setBlock mem req → mem ∉ s.mgt.blocks →
      Does R snap (codecMmScatterFreeAllIgnorecache E (scatterFlags req.flags)) s1 (.fresh mem ::ₘ F)
        fun _ _ F' => F' = .fresh mem ::ₘ F) :
    Does R snap (codecMmAlloc E owner size align2n memflags) s F (BlockOutcome R s owner req F) := by
  have hlen : req.owner.length = 8 := by rw [hreq]; rfl
  intro r s' hrun
  rw [codecMmAlloc, run_get_bind, ← hreq] at hrun
  obtain ⟨found, s1, h1, hrun⟩ := run_bind_eq_ok.mp hrun
  obtain ⟨F₁, hpath1, hfound⟩ := (newBlock_does.weaken hR) found s1 h1
  cases found with
  | none =>
    cases hrun
    exact ⟨F₁, hpath1, hfound.2, nofun⟩
  | some mem =>
    obtain ⟨rfl, hnew, hmgt⟩ := hfound
    obtain ⟨taken, s2, h2, hrun⟩ := run_bind_eq_ok.mp hrun
    have htake := takeMemory_does hR hlen fun s3 hs3 => hscatter s3 mem (hs3.trans hmgt) hnew
    obtain ⟨F₂, hpath2, htaken⟩ := htake taken s2 h2
    cases taken with
    | error e =>
      obtain ⟨u, s3, h3, hrun⟩ := run_bind_eq_ok.mp hrun
      cases hrun
      rw [show F₂ = _ from htaken] at hpath2
      obtain ⟨F₃, hpath3, hF3⟩ := (dropBlock_does.weaken hR) u s' h3
      exact ⟨F₃, (hpath1.trans hpath2).trans hpath3, hF3, nofun⟩
    | ok b =>
      obtain ⟨rfl, s3, l, a, hpath, hl, ha, hgrant⟩ := htaken
      obtain ⟨u, s4, h4, hrun⟩ := run_bind_eq_ok.mp hrun
      cases hrun
      obtain ⟨F₄, hpath4, hF4, hcount⟩ := (enterBlock_does.weaken hR) u s' h4
      refine ⟨F₄, (hpath1.trans hpath2).trans hpath4, hF4, ?_⟩
      intro mem' hmem'
      cases hmem'
      exact ⟨s3, s2, l, a, b, hpath1.trans hpath, hl, ha, hgrant, hcount⟩

theorem codecMmAlloc_does {size align2n memflags : CInt} (hF : NoneClosing F) :
    Does Move snap (codecMmAlloc E owner size align2n memflags) s F
      (BlockOutcome Move s owner (Block.request size align2n (allocFlags s.mgt.tvpEnable memflags)) F) :=
  codecMmAlloc_does_of (fun _ _ => Move.block) rfl fun _ _ _ _ =>
    codecMmScatterFreeAllIgnorecache_does (hF.cons nofun)

end Alloc

end Amlogic.CodecMem
