import Amlogic.CodecMm.Proofs.ConservationProofs
import Amlogic.CodecMm.Proofs.LifetimeProofs

/-!
# Pages and users in interleavings

What holds between any two sections of the drivers' calls and the clean-up passes, in any order of them.
-/

namespace Amlogic.CodecMm

open Multiset

/-- Four pages for a scatter, by a call that has ended. -/
theorem interleaving_alloc : ∃ s, Interleaving scripted ⟨0, 1, []⟩ false s ∧ s.mem.held.card = 4 ∧
    (s.mem.views false).users 1 = some 1000 ∧ (s.mem.views false).list = [1] ∧
    (false, 1, .owner) ∈ s.held ∧ s.calls = 0 ∧ ∀ b, s.pass b = .idle := by
  have hcalls : ∀ (c : Call) {l : Multiset Call}, l = {c} → l = c ::ₘ 0 := fun _ _ => id
  have hrun := Relation.ReflTransGen.refl (r := Step (codeExec scripted))
    (a := Threads.init ⟨0, 1, []⟩ false)
  have hrun := hrun.tail (.call (.startAlloc false 16 4))
  have hrun := hrun.tail (.call (.notFound (hcalls (.find false 16 4) rfl) (codeExec_after (by decide +kernel))))
  have hrun := hrun.tail (.call (.create (hcalls (.create false 16 4) rfl)
    (codeExec_after (r := some 1) (by decide +kernel))))
  have hrun := hrun.tail (.call (.own (hcalls (.born false 1 4) rfl) (codeExec_after (by decide +kernel))))
  have hrun := hrun.tail (.call (.register (hcalls (.owned false 1 4) rfl) (codeExec_after (by decide +kernel))))
  have hrun := hrun.tail (.call (.want (hcalls (.want false 1 4) rfl)
    (codeExec_after (r := 0) (by decide +kernel)) le_rfl))
  exact ⟨_, hrun, by decide +kernel, by decide +kernel, by decide +kernel,
    mem_singleton_self _, rfl, fun _ => rfl⟩

section Interleavings

variable {ω : Type} {E : Externals ω} {w : ω} {lessMemory : Bool} {s : Threads (System ω)}

theorem mem_scatters_iff {m : Mgt} {mms : Nat} : mms ∈ m.scatters ↔ mms ∈ m.view.live := by
  rw [mem_live_iff, ← AList.lookup_isSome, Option.isSome_iff_exists]

/-- In any interleaving, a scatter is on the list, in the map or among the caches only while it is there,
at most once and for one manager. -/
theorem lists_sound_interleaved (hrun : Interleaving E w lessMemory s) (b : Bool) :
    (s.mem.mgt b).scatterList.Nodup ∧ (∀ mms, (s.mem.mgt b).scmap.count (some mms) ≤ 1) ∧
    ∀ mms, (mms ∈ (s.mem.mgt b).scatterList ∨ some mms ∈ (s.mem.mgt b).scmap ∨
        (s.mem.mgt b).cacheSc0 = some mms ∨ (s.mem.mgt b).cacheSc1 = some mms) →
      mms ∈ (s.mem.mgt b).scatters ∧ mms ∉ (s.mem.mgt !b).scatters := by
  have h := (hrun.safe.mem b).view
  refine ⟨h.list_nodup, h.map_once, fun mms hin => ?_⟩
  have hlive : mms ∈ (s.mem.mgt b).view.live := by
    rcases hin with hin | hin | hin
    · exact h.list_live hin
    · exact h.map_live hin
    · exact h.cache_live hin
  exact ⟨mem_scatters_iff.mpr hlive, fun ho => h.others hlive (mem_scatters_iff.mp ho)⟩

theorem lists_sound_interleaved_alloc : ∃ s, Interleaving scripted ⟨0, 1, []⟩ false s ∧
    1 ∈ (s.mem.mgt false).scatters ∧ 1 ∉ (s.mem.mgt true).scatters := by
  obtain ⟨s, hrun, -, -, hlist, -⟩ := interleaving_alloc
  refine ⟨s, hrun, (lists_sound_interleaved hrun false).2.2 1 (Or.inl ?_)⟩
  have hlist : (s.mem.mgt false).scatterList = [1] := hlist
  rw [hlist]
  exact List.mem_singleton_self 1

/-- In any interleaving, a scatter that a driver or a keeper holds, or that a call is at work on, is not freed. -/
theorem held_scatters_live (hrun : Interleaving E w lessMemory s) (b : Bool) (mms : Nat)
    (hheld : (∃ share, (b, mms, share) ∈ s.held) ∨ ∃ c ∈ s.calls, c.Holds b mms) :
    mms ∈ (s.mem.mgt b).scatters := by
  by_contra hdead
  have hzero := (hrun.safe.fits b mms).dead (not_not.mp fun hlive => hdead (mem_scatters_iff.mpr hlive))
  unfold Threads.tokens at hzero
  simp only [Pi.add_apply, add_eq_zero] at hzero
  obtain ⟨⟨⟨hshares, hcalls⟩, -⟩, -⟩ := hzero
  rcases hheld with ⟨share, hmem⟩ | ⟨c, hmem, hc⟩
  · refine sum_ne_zero_of_mem hmem ?_ hshares
    unfold heldTokens
    rw [only_self]
    exact singleton_ne_zero _
  · exact sum_ne_zero_of_mem hmem (Call.tokens_ne_zero hc) hcalls

theorem held_scatters_live_alloc : ∃ s, Interleaving scripted ⟨0, 1, []⟩ false s ∧
    (false, 1, .owner) ∈ s.held ∧ 1 ∈ (s.mem.mgt false).scatters := by
  obtain ⟨s, hrun, -, -, -, hshare, -⟩ := interleaving_alloc
  exact ⟨s, hrun, hshare, held_scatters_live hrun false 1 (Or.inl ⟨_, hshare⟩)⟩

theorem sum_weight_held (l : Multiset (Bool × Nat × Share)) (b : Bool) (mms : Nat) :
    (((l.map heldTokens).sum b mms).map Token.weight).sum =
      ((l.filter fun h => h.1 = b ∧ h.2.1 = mms).map fun h => h.2.2.weight).sum := by
  induction l using Multiset.induction_on with
  | empty => rfl
  | cons h l ih =>
    rw [map_cons, sum_cons, Pi.add_apply, Pi.add_apply, Multiset.map_add, sum_add, ih, filter_cons,
      Multiset.map_add, sum_add]
    congr 1
    by_cases hh : h.1 = b ∧ h.2.1 = mms
    · obtain ⟨rfl, rfl⟩ := hh
      rw [if_pos ⟨rfl, rfl⟩]
      unfold heldTokens
      rw [only_self]
      rfl
    · rw [if_neg hh]
      unfold heldTokens
      rw [only_of_ne fun he => hh ⟨he.1.symm, he.2.symm⟩]
      rfl

theorem sum_weight_kept (l : List Nat) (mms : Nat) :
    ((keptTokens l mms).map Token.weight).sum = 1000 * l.count mms := by
  induction l with
  | nil => rfl
  | cons x l ih =>
    rw [keptTokens_cons, Pi.add_apply, Multiset.map_add, sum_add, ih, List.count_cons]
    by_cases hx : x = mms
    · subst hx
      have hkept : (({.share .owner, .role .kept} : Multiset Token).map Token.weight).sum = 1000 := rfl
      rw [Pi.single_eq_same, hkept, if_pos (beq_self_eq_true x)]
      push_cast
      ring
    · rw [Pi.single_eq_of_ne (Ne.symm hx)]
      simp [hx]

/-- When no call and no pass is at work, the user count of a scatter is 1000 for each owner and 100 for each
keeper, the manager being the owner of its caches. -/
theorem users_counted_at_rest (hrun : Interleaving E w lessMemory s) (hcalls : s.calls = 0)
    (hidle : ∀ b, s.pass b = .idle) (b : Bool) (mms : Nat) (sc : Scatter)
    (hlive : (s.mem.mgt b).scatters.lookup mms = some sc) :
    sc.userCnt = ((s.held.filter fun h => h.1 = b ∧ h.2.1 = mms).map fun h => h.2.2.weight).sum +
      1000 * (s.mem.views b).caches.count mms := by
  rw [(hrun.safe.fits b mms).count (view_users_of_lookup hlive), ← sum_weight_held, ← sum_weight_kept,
    ← sum_add, ← Multiset.map_add]
  unfold Threads.tokens
  simp only [hcalls, hidle, Pi.add_apply]
  congr 2
  simp [Pass.tokens]

theorem users_counted_at_rest_alloc : ∃ s sc, Interleaving scripted ⟨0, 1, []⟩ false s ∧
    (s.mem.mgt false).scatters.lookup 1 = some sc ∧
    sc.userCnt = ((s.held.filter fun h => h.1 = false ∧ h.2.1 = 1).map fun h => h.2.2.weight).sum +
      1000 * (s.mem.views false).caches.count 1 := by
  obtain ⟨s, hrun, -, huser, -, -, hcalls, hidle⟩ := interleaving_alloc
  obtain ⟨sc, hl, -⟩ := Option.map_eq_some_iff.mp huser
  exact ⟨s, sc, hrun, hl, users_counted_at_rest hrun hcalls hidle false 1 sc hl⟩

end Interleavings

end Amlogic.CodecMm
