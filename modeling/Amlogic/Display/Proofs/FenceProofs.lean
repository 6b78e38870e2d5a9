import Amlogic.Base.Runs
import Amlogic.Display.Layer

/-!
# Fences of the buffers

`SetLayerBuffer` replaces the buffer of a layer by each call, but the fence only if the call gives one.
-/

namespace Amlogic.Display

variable {l l' : FenceLayer}

namespace FenceLayer

/-- Every frame uses the fence of its buffer, and none if there was none; and descriptors are closed once. -/
structure FencesRight (l : FenceLayer) : Prop where
  frames : ∀ x ∈ l.frames, x.2 = x.1.filter (· ∈ l.duped)
  once : l.closed.Nodup
  all : l.deleted = true → l.closed.Perm l.duped

/-- A buffer without a fence is set only if the layer has no fence. -/
def Fair (l : FenceLayer) : FenceCall → Prop
  | .setLayerBuffer _ fence _ => -1 < fence ∨ l.mAcquireFence = none
  | _ => True

def Own (l : FenceLayer) (buffer fence : Option Nat) : Prop :=
  fence = buffer.filter (· ∈ l.duped) ∧ ∀ n, buffer = some n → n < l.calls

structure Inv (l : FenceLayer) : Prop where
  owned : (l.mAcquireFence.toList ++ l.closed).Perm l.duped
  nodup : l.duped.Nodup
  below : ∀ n ∈ l.duped, n < l.calls
  fence : if l.deleted then l.mAcquireFence = none else l.Own l.mHdiBuffer l.mAcquireFence
  frames : ∀ x ∈ l.frames, l.Own x.1 x.2

theorem Own.call {buffer fence : Option Nat} (h : l.Own buffer fence) (hcalls : l'.calls = l.calls + 1)
    (hduped : ∀ n < l.calls, n ∈ l'.duped ↔ n ∈ l.duped) : l'.Own buffer fence := by
  refine ⟨?_, fun n hn => hcalls ▸ Nat.lt_succ_of_lt (h.2 n hn)⟩
  rw [h.1]
  cases buffer with
  | none => rfl
  | some n => simp only [Option.filter_some, hduped n (h.2 n rfl)]

theorem Inv.setLayerBuffer {fence : Int} {dup : Bool} (h : l.Inv) (hlive : l.deleted = false)
    (hfair : -1 < fence ∨ l.mAcquireFence = none)
    (hnext : FenceCall.next l (.setLayerBuffer true fence dup) = some l') : l'.Inv := by
  have hnew : l.calls ∉ l.duped := fun hmem => Nat.lt_irrefl _ (h.below _ hmem)
  simp only [FenceCall.next, hlive, Bool.not_true, Bool.false_eq_true, if_false, Option.some.injEq] at hnext
  by_cases hfence : -1 < fence
  · rw [if_pos hfence] at hnext
    subst hnext
    have hduped : ∀ n < l.calls, n ∈ (if dup then some l.calls else none).toList ++ l.duped ↔ n ∈ l.duped := by
      intro n hn
      cases dup <;> simp [Nat.ne_of_lt hn]
    refine ⟨h.owned.append_left _, ?_, fun n hn => ?_, ?_, fun x hx => (h.frames x hx).call rfl hduped⟩
    · cases dup
      · exact h.nodup
      · exact List.nodup_cons.mpr ⟨hnew, h.nodup⟩
    · obtain hn | hn := List.mem_append.mp hn
      · cases dup <;> simp_all [setFd]
      · exact Nat.lt_succ_of_lt (h.below n hn)
    · cases dup <;> simp [setFd, Own, hnew, Option.filter_some]
  · rw [if_neg hfence] at hnext
    subst hnext
    refine ⟨h.owned, h.nodup, fun n hn => Nat.lt_succ_of_lt (h.below n hn), ?_,
      fun x hx => (h.frames x hx).call rfl fun _ _ => Iff.rfl⟩
    simp [Own, hnew, hfair.resolve_left hfence, Option.filter_some]

theorem Inv.step {c : FenceCall} (h : l.Inv) (hfair : l.Fair c) (hnext : c.next l = some l') : l'.Inv := by
  cases hlive : l.deleted with
  | true => simp [FenceCall.next, hlive] at hnext
  | false =>
    have hfence : l.Own l.mHdiBuffer l.mAcquireFence := by simpa [hlive] using h.fence
    cases c with
    | setLayerBuffer buffer fence dup =>
      cases buffer with
      | true => exact h.setLayerBuffer hlive hfair hnext
      | false =>
        obtain rfl : l = l' := by simpa [FenceCall.next, hlive] using hnext
        exact h
    | frame =>
      simp only [FenceCall.next, hlive, Bool.false_eq_true, if_false, Option.some.injEq] at hnext
      subst hnext
      exact ⟨h.owned, h.nodup, h.below, hfence, List.forall_mem_cons.mpr ⟨hfence, h.frames⟩⟩
    | delete =>
      simp only [FenceCall.next, hlive, Bool.false_eq_true, if_false, Option.some.injEq] at hnext
      subst hnext
      exact ⟨h.owned, h.nodup, h.below, by simp [setFd], h.frames⟩

end FenceLayer

/-- In every fair run a frame uses the fence that was given with its buffer, and descriptors are closed once. -/
theorem fences_right (hrun : Runs (fun l c l' => FenceCall.next l c = some l') FenceLayer.Fair {} l) :
    l.FencesRight := by
  have hinv : l.Inv := Runs.keeps (fun h hfair hnext => h.step hfair hnext) hrun
    ⟨.nil, .nil, nofun, ⟨rfl, nofun⟩, nofun⟩
  refine ⟨fun x hx => (hinv.frames x hx).1, ?_, fun hdeleted => ?_⟩
  · exact (List.nodup_append.mp (hinv.owned.nodup_iff.mpr hinv.nodup)).2.1
  · have hfence := hinv.fence
    rw [if_pos hdeleted] at hfence
    simpa [hfence] using hinv.owned

theorem fences_right_twice : ∃ l, Runs (fun l c l' => FenceCall.next l c = some l') FenceLayer.Fair {} l ∧
    l.frames = [(some 1, some 1), (some 0, some 0)] ∧ l.FencesRight := by
  have h : Runs (fun l c l' => FenceCall.next l c = some l') FenceLayer.Fair {} _ :=
    .snoc (e := .setLayerBuffer true 3 true) .nil (.inl (by decide)) rfl
  have h := h.snoc (e := FenceCall.frame) trivial rfl
  have h := h.snoc (e := FenceCall.setLayerBuffer true 4 true) (.inl (by decide)) rfl
  have h := h.snoc (e := FenceCall.frame) trivial rfl
  exact ⟨_, h, rfl, fences_right h⟩

/-- The second buffer has no fence, and its frame uses that of the first. -/
theorem fences_wrong : ([.setLayerBuffer true 3 true, .frame, .setLayerBuffer true (-1) true, .frame].foldlM
    FenceCall.next {}).map FenceLayer.frames = some [(some 1, some 0), (some 0, some 0)] := by
  decide

end Amlogic.Display
