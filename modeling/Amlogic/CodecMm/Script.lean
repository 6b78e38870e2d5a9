import Amlogic.CodecMm.System

/-!
# Allocators that follow a script

Allocators that hand out page after page and scatter after scatter, never the same one twice, and that
refuse a request when their script says so. They show that the conditions on `Externals` can be met, and
they run the code on examples.
-/

namespace Amlogic.CodecMm

/-- The state of the allocators: everything below `next` has been handed out, and `answers` tells for the
next requests whether they are granted. Later ones are granted. -/
structure Script where
  clock : Nat
  next : Nat
  answers : List Bool
  deriving DecidableEq

namespace Script

def number : Resource → Nat
  | .frame n => n
  | .scatter n => n

def inUse (w : Script) : Set Resource := {r | number r < w.next}

def ask (w : Script) : Bool × Script :=
  match w.answers with
  | [] => (true, w)
  | answer :: rest => (answer, { w with answers := rest })

def take (pages : Nat) (w : Script) : Option Nat × Script :=
  if w.ask.1 ∧ 0 < pages ∧ pages < 2 ^ 19 ∧ w.next + pages ≤ 2 ^ 20 then
    (some w.next, { w.ask.2 with next := w.next + pages })
  else (none, w.ask.2)

theorem ask_next (w : Script) : w.ask.2.next = w.next := by
  unfold ask
  cases w.answers <;> rfl

theorem ask_keeps (w : Script) : w.inUse ⊆ w.ask.2.inUse := by
  intro r hr
  show number r < w.ask.2.next
  rw [w.ask_next]
  exact hr

theorem take_cases (pages : Nat) (w : Script) : w.take pages = (none, w.ask.2) ∨
    w.take pages = (some w.next, { w.ask.2 with next := w.next + pages }) ∧
      0 < pages ∧ pages < 2 ^ 19 ∧ w.next + pages ≤ 2 ^ 20 := by
  unfold take
  by_cases h : w.ask.1 ∧ 0 < pages ∧ pages < 2 ^ 19 ∧ w.next + pages ≤ 2 ^ 20
  · exact .inr ⟨if_pos h, h.2⟩
  · exact .inl (if_neg h)

theorem take_grants {α : Type} {part : α → Set Resource} (pages : Nat) (f : Nat → α)
    (hpart : ∀ n, ∀ r ∈ part (f n), n ≤ number r ∧ number r < n + pages) (w : Script) :
    Grants inUse part w ((w.take pages).1.map f, (w.take pages).2) := by
  rcases take_cases pages w with he | ⟨he, -⟩
  · rw [he]
    exact ⟨w.ask_keeps, nofun, nofun⟩
  · rw [he]
    refine ⟨fun r hr => Nat.lt_of_lt_of_le hr (Nat.le_add_right ..), ?_, ?_⟩
    · intro a ha r hr hin
      cases ha
      exact absurd hin (not_lt.mpr (hpart _ r hr).1)
    · intro a ha r hr
      cases ha
      exact (hpart _ r hr).2

theorem number_of_area {n pages : Nat} {r : Resource} (hr : r ∈ (Area.mk (n * 4096) pages).resources) :
    n ≤ number r ∧ number r < n + pages := by
  obtain ⟨f, hf, rfl⟩ := hr
  obtain ⟨i, hi, rfl⟩ := Multiset.mem_map.mp hf
  have hlt : i < pages := Multiset.mem_range.mp hi
  have hp : pageSize = 4096 := rfl
  show n ≤ n * 4096 / pageSize + i ∧ n * 4096 / pageSize + i < n + pages
  rw [hp]
  omega

theorem take_ok {pages : Nat} {w : Script} {p : Nat} (h : (w.take pages).1.map (· * 4096) = some p) :
    (Area.mk p pages).Ok := by
  rcases take_cases pages w with he | ⟨he, hpos, hsmall, hroom⟩
  · rw [he] at h
    cases h
  · rw [he] at h
    cases h
    have hp : pageSize = 4096 := rfl
    refine ⟨Nat.mul_mod_left .., hpos, hsmall, ?_⟩
    show w.next * 4096 + pageSize * pages ≤ 2 ^ 32
    rw [hp]
    omega

end Script

/-- The allocators of the script. The codec memory hands out blocks of eight pages. -/
def scripted : Externals Script where
  jiffies w := (w.clock, { w with clock := w.clock + 1 })
  hz := 100
  kmalloc := Script.ask
  scAlloc w := ((w.take 1).1.map id, (w.take 1).2)
  scFree _ w := w
  codecMmGetFreeSize _ := 2 ^ 30
  codecMmAlloc _ _ w := ((w.take 8).1.map fun n => ⟨n * 4096, 8⟩, (w.take 8).2)
  codecMmRelease _ w := w
  getFreePages n w := ((w.take (2 ^ n)).1.map (· * 4096), (w.take (2 ^ n)).2)
  freePages _ _ w := w
  getFreePage w := ((w.take 1).1.map (· * 4096), (w.take 1).2)
  freePage _ w := w
  inUse := Script.inUse
  jiffies_keeps _ := subset_rfl
  kmalloc_keeps := Script.ask_keeps
  scAlloc_grants := Script.take_grants 1 id fun n r hr => by
    obtain rfl := Set.mem_singleton_iff.mp hr
    exact ⟨le_rfl, Nat.lt_succ_self n⟩
  scFree_frees _ _ := Set.sdiff_subset
  codecMmAlloc_grants _ _ := Script.take_grants 8 (fun n => Area.mk (n * 4096) 8) fun _ _ =>
    Script.number_of_area
  codecMmAlloc_ok _ _ w a ha := by
    obtain ⟨n, hn, rfl⟩ := Option.map_eq_some_iff.mp ha
    exact Script.take_ok (w := w) (by rw [hn]; rfl)
  codecMmRelease_frees _ _ := Set.sdiff_subset
  getFreePages_grants n := Script.take_grants (2 ^ n) (· * 4096) fun _ _ => Script.number_of_area
  getFreePages_ok _ _ _ := Script.take_ok
  freePages_frees _ _ _ := Set.sdiff_subset
  getFreePage_grants := Script.take_grants 1 (· * 4096) fun _ _ => Script.number_of_area
  getFreePage_ok _ _ := Script.take_ok
  freePage_frees _ _ := Set.sdiff_subset

section Execute

variable {ω : Type} {E : Externals ω} {ok : System ω → Op → Prop} {s₀ s : System ω}

def Op.after (E : Externals ω) (op : Op) (s : System ω) : System ω :=
  match op.exec E s with
  | .ok (_, s') => s'
  | .error _ => s

theorem Run.next (hrun : Run E ok s₀ s) (op : Op) (hallow : op.Allowed s) (hok : ok s op)
    (hend : (op.exec E s).isOk = true) : Run E ok s₀ (op.after E s) := by
  refine .step hrun op hallow hok ?_
  unfold Op.after
  cases hexec : op.exec E s with
  | ok r => rfl
  | error e =>
    rw [hexec] at hend
    cases hend

end Execute

end Amlogic.CodecMm
