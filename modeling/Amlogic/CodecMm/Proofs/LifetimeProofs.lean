import Amlogic.CodecMm.Script
import Amlogic.CodecMm.Proofs.SectionProofs
import Amlogic.CodecMm.Proofs.ThreadProofs

/-!
# The life of a scatter

However the sections of the calls and of the passes follow each other, a scatter is freed when nobody holds
it, and once.
-/

namespace Amlogic.CodecMm

open Multiset

/-! ## Who holds a scatter -/

section Holders

variable {σ : Type} {good : σ → Prop} {view : σ → Bool → View} {s : Threads σ} {v : Bool → View} {b : Bool}
  {mms cnt : Nat} {after : After}

theorem sum_ne_zero_of_mem {α : Type} {f : α → Tokens} {l : Multiset α} {a : α} (h : a ∈ l)
    (ha : f a b mms ≠ 0) : (l.map f).sum b mms ≠ 0 := by
  obtain ⟨l', rfl⟩ := exists_cons_of_mem h
  rw [map_cons, sum_cons]
  exact fun hzero => ha (add_eq_zero.mp hzero).1

theorem Call.tokens_ne_zero {c : Call} (h : c.Holds b mms) : c.tokens b mms ≠ 0 := by
  have honly : ∀ t : Token, only b mms {t} b mms ≠ 0 := fun t => by
    rw [only_self]
    exact singleton_ne_zero t
  cases c with
  | dec | born | owned | want | giveBack =>
    obtain ⟨rfl, rfl⟩ := h
    exact honly _
  | inc | find | create | switch => exact absurd h id

theorem Safe.not_held (h : Safe good view s) (hpass : s.pass b = .free mms cnt after) :
    mms ∈ (view s.mem b).live ∧ ¬s.Held (view s.mem) b mms ∧ some mms ∉ (view s.mem b).scmap := by
  have hfit := h.pass_fit hpass (add_comm ..)
  have hwaits := h.waits b
  rw [hpass, Pass.waits_free] at hwaits
  -- the pass has the only token
  obtain ⟨hothers, hafter⟩ := add_eq_zero.mp (hfit.eq_zero_of_bare trivial)
  unfold Threads.others Threads.tokens at hothers
  simp only [Pi.add_apply] at hothers
  obtain ⟨hothers, hcaches⟩ := add_eq_zero.mp hothers
  obtain ⟨hothers, -⟩ := add_eq_zero.mp hothers
  obtain ⟨hheld, hcalls⟩ := add_eq_zero.mp hothers
  refine ⟨hfit.live, ?_, hfit.hidden (mem_add_self _) trivial⟩
  rintro (⟨share, hmem⟩ | ⟨c, hmem, hc⟩ | hholds | hcache)
  · refine sum_ne_zero_of_mem hmem ?_ hheld
    unfold heldTokens
    rw [only_self]
    exact singleton_ne_zero _
  · exact sum_ne_zero_of_mem hmem (Call.tokens_ne_zero hc) hcalls
  · rw [hpass] at hholds
    rcases after with rest | _ | x
    · have hkept := mem_keptTokens hholds
      rw [show keptTokens rest mms = 0 from hafter] at hkept
      exact notMem_zero _ hkept
    · cases hholds
    · exact hwaits.1 (Option.some.inj hholds)
  · have hkept := mem_keptTokens (mem_caches.mpr hcache)
    rw [hcaches] at hkept
    exact notMem_zero _ hkept

end Holders

/-! ## Interleavings of the code -/

section Interleavings

variable {ω : Type} {E : Externals ω} {w : ω} {lessMemory : Bool} {s : Threads (System ω)}

def System.views (s : System ω) (b : Bool) : View := (s.mgt b).view

theorem SysInv.section_ok {α : Type} {m : System ω} {b : Bool} (h : SysInv E m) (sec : Sec α)
    (hpre : sec.Pre (m.views b)) :
    Meets (CodecMm.onMgt b (sec.code E)) m fun r m' => SysInv E m' ∧ m'.mgt (!b) = m.mgt (!b) ∧
      sec.Effect (m.views !b).live (m.views b) (m'.views b) r :=
  h.onMgt b (R := fun r m' => sec.Effect (m.views !b).live (m.views b) m'.view r) (sec.code_ok (h b) hpre)

theorem Interleaving.safe (hrun : Interleaving E w lessMemory s) : Safe (SysInv E) System.views s := by
  induction hrun with
  | refl =>
    refine ⟨System.init_inv w lessMemory, fun b mms => ?_, fun _ => trivial, fun _ => rfl⟩
    have hnone : (System.views (System.init w lessMemory) b).users mms = none := rfl
    have hzero : (Threads.init w lessMemory).tokens (System.views (System.init w lessMemory)) b mms = 0 := rfl
    exact ⟨fun _ => rfl, fun hn => absurd (hnone.symm.trans hn) nofun, Nat.zero_le 1,
      fun hp => absurd hp (notMem_zero _), fun hp => absurd hp (notMem_zero _),
      fun hp => absurd hp (notMem_zero _)⟩
  | tail _ hstep ih =>
    -- the code does what the protocol says
    refine hstep.safe ⟨fun h b => (h b).view, ?_⟩ ih
    intro α m m' b sec r h hexec hpre
    obtain ⟨hgood, hother, heffect⟩ := (h.section_ok sec hpre).of_ok hexec
    exact ⟨hgood, congrArg Mgt.view hother, heffect⟩

theorem SysInv.alive_le {m : System ω} (h : SysInv E m) (mms : Nat) : alive m.views mms ≤ 1 := by
  rw [alive_eq _ false]
  by_cases hlive : mms ∈ (m.views false).live
  · have hother : mms ∉ (m.views !false).live := (h false).view.others hlive
    rw [isSome_of_not_live hother]
    exact Bool.toNat_le _
  · rw [isSome_of_not_live hlive, Bool.toNat_false, zero_add]
    exact Bool.toNat_le _

def Sec.after {α : Type} (E : Externals ω) (b : Bool) (sec : Sec α) (s : System ω) : System ω :=
  match onMgt b (sec.code E) s with
  | .ok (_, s') => s'
  | .error _ => s

def Sec.result {α : Type} (E : Externals ω) (b : Bool) (sec : Sec α) (s : System ω) : Option α :=
  match onMgt b (sec.code E) s with
  | .ok (r, _) => some r
  | .error _ => none

theorem codeExec_after {α : Type} {b : Bool} {sec : Sec α} {s : System ω} {r : α}
    (h : sec.result E b s = some r) : codeExec E b sec s r (sec.after E b s) := by
  unfold codeExec Sec.after
  unfold Sec.result at h
  cases hexec : onMgt b (sec.code E) s with
  | ok p =>
    rw [hexec] at h
    cases h
    rfl
  | error e =>
    rw [hexec] at h
    cases h

end Interleavings

end Amlogic.CodecMm
