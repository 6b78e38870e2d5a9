import Amlogic.CodecMem.Proofs.ListProofs

/-!
# Runs of the codec memory

How the codec memory starts, what the calls do that are not moves, and the rule of induction over runs.
-/

namespace Amlogic.CodecMem

variable {ω : Type} {E : Externals ω} {s s' : State ω}

/-! ## The start -/

structure Fresh (m : Mgt) : Prop where
  blocks : m.blocks = ∅
  memList : m.memList = []
  extPool : m.extPool = fun _ => ExtPool.empty
  genPools : ∀ id, id ∈ m.genPools ↔ m.resPool = some id
  unused : ∀ id p, m.genPools.lookup id = some p → p.used = []
  totalAllocedSize : m.totalAllocedSize = 0
  allocedSysSize : m.allocedSysSize = 0
  allocedCmaSize : m.allocedCmaSize = 0
  allocedResSize : m.allocedResSize = 0
  allocFromSysPagesMax : m.allocFromSysPagesMax = 4
  enableKmallocOnNomem : m.enableKmallocOnNomem = 0
  tvpEnable : m.tvpEnable = 0
  tvpUserCount : m.tvpUserCount = 0

theorem initReserved_eq_ok {base size : Nat} {m : Mgt} (hm : Fresh m) (hres : m.resPool = none) (hmgt : s.mgt = m)
    {r : Bool × State ω} (h : initReserved E base size s = .ok r) : Fresh r.2.mgt ∧ r.2.log = s.log := by
  subst hmgt
  unfold initReserved at h
  by_cases hsize : 0 < size
  · rw [if_pos hsize, run_get_bind] at h
    obtain ⟨found, s1, h1, h⟩ := run_bind_eq_ok.mp h
    cases h1
    cases hid : (E.genPoolCreate s.mgt.genPools.keys s.world).1 with
    | none =>
      rw [hid] at h
      cases h
      exact ⟨hm, rfl⟩
    | some id =>
      rw [hid] at h
      obtain ⟨added, s2, h2, h⟩ := run_bind_eq_ok.mp h
      cases h2
      cases h
      refine ⟨⟨hm.blocks, hm.memList, hm.extPool, ?_, ?_, hm.totalAllocedSize, hm.allocedSysSize, hm.allocedCmaSize,
        hm.allocedResSize, hm.allocFromSysPagesMax, hm.enableKmallocOnNomem, hm.tvpEnable, hm.tvpUserCount⟩, rfl⟩
      · intro x
        have hold := hm.genPools x
        simp only [Mgt.setGenPool, AList.mem_insert, hold, hres, Option.some.injEq]
        simp [eq_comm]
      · intro x p hx
        rcases Heap.lookup_insert_iff.mp hx with ⟨-, rfl⟩ | ⟨-, hold⟩
        · rfl
        · exact hm.unused x p hold
  · rw [if_neg hsize] at h
    cases h
    exact ⟨hm, rfl⟩

theorem Start.fresh (h : Start E s) : Fresh s.mgt ∧ s.log = [] := by
  obtain ⟨w, tvpMode, base, size, cmaSize, hrun⟩ := h
  obtain ⟨u, s1, h1, hrun⟩ := run_bind_eq_ok.mp hrun
  cases h1
  obtain ⟨ok, s2, h2, hrun⟩ := run_bind_eq_ok.mp hrun
  have hzero : Fresh { Mgt.zero tvpMode with memList := [], allocFromSysPagesMax := 4 } := by
    refine ⟨rfl, rfl, rfl, ?_, nofun, rfl, rfl, rfl, rfl, rfl, rfl, rfl, rfl⟩
    intro id
    constructor <;> intro h <;> cases h
  obtain ⟨hfresh, hlog⟩ := initReserved_eq_ok hzero rfl rfl h2
  cases ok with
  | false => cases hrun
  | true =>
    cases hrun
    exact ⟨⟨hfresh.blocks, hfresh.memList, hfresh.extPool, hfresh.genPools, hfresh.unused, hfresh.totalAllocedSize,
      hfresh.allocedSysSize, hfresh.allocedCmaSize, hfresh.allocedResSize, hfresh.allocFromSysPagesMax,
      hfresh.enableKmallocOnNomem, hfresh.tvpEnable, hfresh.tvpUserCount⟩, hlog⟩

theorem Fresh.whole {m : Mgt} {l : List Event} (h : Fresh m) : Whole ⟨m, l, 0⟩ := by
  show (m.blocks.keys : Multiset Nat) = m.memList + halfDone 0
  rw [h.blocks, h.memList]
  rfl

/-! ## Calls that are not moves -/

def Block.sharedBy (b : Block) (owner : String) : Block :=
  { b with useCnt := b.useCnt + 1, owner := b.owner.set b.useCnt.toNat (some owner) }

theorem requestSharedMem_eq_ok {mem : Nat} {owner : String} {r : Reply}
    (h : exec E (.requestSharedMem mem owner) s = .ok (r, s')) :
    r = .code 0 ∧ s'.log = s.log ++ [.acquire mem] ∧
      ((∃ b, mem ∈ s.mgt.memList ∧ s.mgt.blocks.lookup mem = some b ∧ b.useCnt.toInt ≤ 7 ∧ 0 ≤ b.useCnt.toInt ∧
          s'.mgt = s.mgt.setBlock mem (b.sharedBy owner)) ∨
        (mem ∈ s.mgt.memList → ∃ b, s.mgt.blocks.lookup mem = some b ∧ 7 < b.useCnt.toInt) ∧ s'.mgt = s.mgt) := by
  obtain ⟨code, s1, h1, h⟩ := run_bind_eq_ok.mp h
  cases h
  obtain ⟨ret, s2, h2, h1⟩ := run_bind_eq_ok.mp h1
  cases h1
  unfold requestShared at h2
  rw [run_get_bind] at h2
  by_cases hmem : mem ∈ s.mgt.memList
  · rw [if_pos hmem] at h2
    obtain ⟨b, s3, h3, h2⟩ := run_bind_eq_ok.mp h2
    obtain ⟨b', hb, hr⟩ := blockOf_eq_ok.mp h3
    cases hr
    by_cases hfull : (7 : CInt).slt b.useCnt = true
    · rw [if_pos hfull] at h2
      cases h2
      refine ⟨rfl, rfl, Or.inr ⟨fun _ => ⟨b, hb, ?_⟩, rfl⟩⟩
      simpa [BitVec.slt] using hfull
    · rw [if_neg hfull] at h2
      have hle : b.useCnt.toInt ≤ 7 := by simpa [BitVec.slt] using hfull
      by_cases hpos : 0 ≤ b.useCnt.toInt
      · rw [if_pos hpos] at h2
        cases h2
        exact ⟨rfl, rfl, Or.inl ⟨b, hmem, hb, hle, hpos, rfl⟩⟩
      · rw [if_neg hpos] at h2
        cases h2
  · rw [if_neg hmem] at h2
    cases h2
    exact ⟨rfl, rfl, Or.inr ⟨fun h => absurd h hmem, rfl⟩⟩

theorem v4lReqbufs_eq_ok {owner : String} {addr : Nat} {size : CInt} {r : Reply}
    (h : exec E (.v4lReqbufs owner addr size) s = .ok (r, s')) :
    s'.log = s.log ∧ (s'.mgt = s.mgt ∨ ∃ mem, mem ∉ s.mgt.blocks ∧
      s'.mgt = (s.mgt.setBlock mem (Block.coherent owner addr size)).countCoherent mem
        (Block.coherent owner addr size)) := by
  obtain ⟨found, s1, h1, h⟩ := run_bind_eq_ok.mp h
  cases h
  obtain ⟨mem, s2, h2, h1⟩ := run_bind_eq_ok.mp h1
  rw [newBlock, run_get_bind] at h2
  obtain ⟨got, s3, h3, h2⟩ := run_bind_eq_ok.mp h2
  cases h3
  cases hmem : (E.kmalloc s.mgt.blocks.keys s.world).1 with
  | none =>
    rw [hmem] at h2
    cases h2
    cases h1
    exact ⟨rfl, Or.inl rfl⟩
  | some p =>
    rw [hmem] at h2
    cases h2
    cases h1
    exact ⟨rfl, Or.inr ⟨p, E.kmalloc_fresh hmem, rfl⟩⟩

theorem v4lFreebufs_eq_ok {owner : String} {mem : Option Nat} {r : Reply}
    (h : exec E (.v4lFreebufs owner mem) s = .ok (r, s')) :
    mem = none ∧ s'.mgt = s.mgt ∧ s'.log = s.log ∨
      ∃ p b, mem = some p ∧ s.mgt.blocks.lookup p = some b ∧ s'.log = s.log ++ [.free p] ∧
        s'.mgt = { (if b.owner[0]? = some (some owner) ∧ b.bufferSize ≠ 0 then s.mgt.uncountCoherent p b
          else s.mgt) with blocks := s.mgt.blocks.erase p } := by
  obtain ⟨u, s1, h1, h⟩ := run_bind_eq_ok.mp h
  cases h
  cases mem with
  | none =>
    cases h1
    exact .inl ⟨rfl, rfl, rfl⟩
  | some p =>
    obtain ⟨b, s2, h2, h1⟩ := run_bind_eq_ok.mp h1
    obtain ⟨b', hb, hr⟩ := blockOf_eq_ok.mp h2
    cases hr
    refine .inr ⟨p, b, rfl, hb, ?_⟩
    obtain ⟨u1, s3, h3, h1⟩ := run_bind_eq_ok.mp h1
    by_cases hown : b.owner[0]? = some (some owner) ∧ b.bufferSize ≠ 0
    · rw [if_pos hown] at h3 ⊢
      cases h3
      cases h1
      exact ⟨rfl, rfl⟩
    · rw [if_neg hown] at h3 ⊢
      cases h3
      cases h1
      exact ⟨rfl, rfl⟩

/-! ## Induction -/

theorem noneClosing_zero : NoneClosing 0 := fun _ _ => Multiset.notMem_zero _

theorem exec_keeps {P : Snap → Prop} (hkeep : ∀ v v', Move v v' → P v → P v') {op : Op} {r : Reply}
    (hexec : exec E op s = .ok (r, s')) (hop : op.MakesMoves) (h : P (s.snap 0)) : P (s'.snap 0) := by
  obtain ⟨F', hF', rfl⟩ := (exec_does hop noneClosing_zero).keeps hkeep h hexec
  exact hF'

theorem Reached.induct {allowed : State ω → Op → Prop} {P : State ω → Prop} (hstart : ∀ s, Start E s → P s)
    (hstep : ∀ s op r s', P s → allowed s op → exec E op s = .ok (r, s') → P s') (h : Reached E allowed s) : P s := by
  obtain ⟨s0, hs0, hrun⟩ := h
  induction hrun with
  | nil => exact hstart s0 hs0
  | call _ hok hexec ih => exact hstep _ _ _ _ ih hok hexec

end Amlogic.CodecMem
