import Amlogic.CodecMem.System

/-!
# A simple system around the codec memory

The allocators hand out one address after the other and never run out; the secure monitor numbers the regions that it
protects. The state is the next address.
-/

namespace Amlogic.CodecMem

def unusedAddr (l : List Nat) : Nat := l.foldr (fun a n => max a n) 0 + 1

theorem lt_unusedAddr {l : List Nat} {a : Nat} (h : a ∈ l) : a < unusedAddr l := by
  induction l with
  | nil => cases h
  | cons b l ih =>
    unfold unusedAddr at ih ⊢
    rw [List.foldr_cons]
    rcases List.mem_cons.mp h with rfl | h
    · omega
    · have := ih h
      omega

theorem unusedAddr_notMem (l : List Nat) : unusedAddr l ∉ l := fun h => (lt_unusedAddr h).false

def nextRegion (size : Nat) (w : Nat) : Option Nat × Nat := (some w, w + size)

def plain : Externals Nat where
  kmalloc l w := (some (unusedAddr l), w)
  getFreePages n w := if n < 11 then nextRegion (4096 * 2 ^ n) w else (none, w)
  freePages _ _ w := w
  dmaAllocFromContiguous n _ w := if 0 < n.toInt then nextRegion (4096 * n.toNat) w else (none, w)
  dmaReleaseFromContiguous _ _ w := w
  genPoolCreate l w := (some (unusedAddr l), w)
  genPoolAdd _ _ w := (true, w)
  genPoolAlloc p n w :=
    (if 0 < n ∧ n < 2 ^ 31 ∧ p.usedSize + n ≤ p.size then some (p.start + p.usedSize) else none, w)
  pageHighMem _ := false
  cmaMmuOp _ _ _ w := w
  teeProtectTvpMem _ _ _ w := (BitVec.ofNat 32 w, w + 1)
  teeUnprotectTvpMem _ w := w
  scatterFree _ _ w := ([], w)
  keeperFree _ _ w := ([], w)
  dmaAllocCoherent n w := nextRegion n.toNat w
  dmaFreeCoherent _ _ w := w
  kmalloc_fresh := by
    intro l w p h
    cases h
    exact unusedAddr_notMem l
  getFreePages_order := by
    intro n w p h
    by_contra hn
    rw [if_neg hn] at h
    cases h
  dmaAlloc_pos := by
    intro n a w p h
    by_contra hn
    rw [if_neg hn] at h
    cases h
  genPoolCreate_fresh := by
    intro l w p h
    cases h
    exact unusedAddr_notMem l
  genPoolAlloc_fits := by
    intro p n w a h
    by_contra hn
    simp only [if_neg hn] at h
    cases h
  scatterFree_sublist := List.nil_sublist _
  keeperFree_sublist := List.nil_sublist _

def execAll {ω : Type} (E : Externals ω) : List Op → State ω → Except Fault (State ω)
  | [], s => .ok s
  | op :: ops, s =>
    match exec E op s with
    | .ok (_, s') => execAll E ops s'
    | .error e => .error e

/-- The state in which the plain system starts, with 64 MB of memory in the CMA area. -/
def plainStart (tvpMode : CInt) : Except Fault (Bool × State Nat) :=
  codecMmMgtInit plain 0 0 (64 * sz1M) ⟨0x10000000, Mgt.zero tvpMode, []⟩

def plainRun (tvpMode : CInt) (ops : List Op) : Except Fault (State Nat) :=
  match plainStart tvpMode with
  | .ok (true, s) => execAll plain ops s
  | .ok (false, _) => .error .access
  | .error e => .error e

def plainCheck (tvpMode : CInt) (ops : List Op) (p : State Nat → Bool) : Bool :=
  match plainRun tvpMode ops with
  | .ok s => p s
  | .error _ => false

theorem exists_of_plainCheck (tvpMode : CInt) (ops : List Op) (p : State Nat → Bool)
    (h : plainCheck tvpMode ops p = true) : ∃ s, plainRun tvpMode ops = .ok s ∧ p s = true := by
  unfold plainCheck at h
  split at h
  next s hs => exact ⟨s, hs, h⟩
  next => cases h

section Runs

variable {ω : Type} {E : Externals ω}

theorem run_of_execAll {allowed : State ω → Op → Prop} {ops : List Op} {s0 s s' : State ω}
    (hallowed : ∀ s, ∀ op ∈ ops, allowed s op) (hrun : Run E allowed s0 s) (h : execAll E ops s = .ok s') :
    Run E allowed s0 s' := by
  induction ops generalizing s with
  | nil =>
    cases h
    exact hrun
  | cons op ops ih =>
    unfold execAll at h
    split at h
    next r s1 hexec =>
      exact ih (fun s op hop => hallowed s op (List.mem_cons_of_mem _ hop))
        (.call hrun (hallowed s op List.mem_cons_self) hexec) h
    next => cases h

theorem reached_of_plainRun {allowed : State Nat → Op → Prop} {tvpMode : CInt} {ops : List Op} {s : State Nat}
    (hallowed : ∀ s, ∀ op ∈ ops, allowed s op) (h : plainRun tvpMode ops = .ok s) : Reached plain allowed s := by
  unfold plainRun at h
  split at h
  next s0 hstart => exact ⟨s0, ⟨_, tvpMode, _, _, _, hstart⟩, run_of_execAll hallowed .nil h⟩
  next => cases h
  next => cases h

end Runs

end Amlogic.CodecMem
