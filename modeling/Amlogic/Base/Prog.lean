import Amlogic.Base.Bytes

/-!
# Code with a state

C code that changes memory is a computation over a state. It either ends with a result and a new
state, or in a fault. `Meets` is the weakest precondition of such code: no access is out of bounds,
and if the loops end, the result and the new state satisfy the postcondition.
-/

namespace Amlogic

/-- Code with a state of type `σ`, which may end in a fault. -/
abbrev Prog (σ α : Type) := StateT σ (Except Fault) α

/-- Run from `s`, the code makes no bad access, and if it ends, the result and the state meet `Q`. -/
def Meets {σ α : Type} (x : Prog σ α) (s : σ) (Q : α → σ → Prop) : Prop :=
  match x s with
  | .ok (a, s') => Q a s'
  | .error e => e = .fuel

def Prog.zoom {σ τ α : Type} (part : σ → τ) (put : σ → τ → σ) (x : Prog τ α) : Prog σ α := fun s =>
  match x (part s) with
  | .ok (a, t) => .ok (a, put s t)
  | .error e => .error e

section Rules

variable {σ τ α β : Type} {s : σ} {Q : α → σ → Prop}

variable {x : Prog σ α} {f : α → Prog σ β}

theorem Meets.mono {Q' : α → σ → Prop} (h : Meets x s Q)
    (himp : ∀ a s', Q a s' → Q' a s') : Meets x s Q' := by
  unfold Meets at h ⊢
  cases hx : x s with
  | ok r => rw [hx] at h; exact himp _ _ h
  | error e => rw [hx] at h; exact h

theorem Meets.bind {R : β → σ → Prop} (hx : Meets x s Q)
    (hf : ∀ a s', Q a s' → Meets (f a) s' R) : Meets (x >>= f) s R := by
  show match (x s >>= fun p => f p.1 p.2 : Except Fault (β × σ)) with
    | .ok (b, s') => R b s'
    | .error e => e = .fuel
  unfold Meets at hx
  cases h : x s with
  | ok r => rw [h] at hx; exact hf _ _ hx
  | error e => rw [h] at hx; exact hx

theorem run_bind_of_ok {x : Prog σ β} {f : β → Prog σ α} {b : β} {s' : σ} (hx : x s = .ok (b, s')) :
    (x >>= f) s = f b s' := by
  show (x s >>= fun p => f p.1 p.2) = f b s'
  rw [hx]
  rfl

theorem meets_bind_of_ok {x : Prog σ β} {f : β → Prog σ α} {b : β} {s' : σ} (hx : x s = .ok (b, s')) :
    Meets (x >>= f) s Q ↔ Meets (f b) s' Q := by
  unfold Meets
  rw [run_bind_of_ok hx]

theorem meets_pure {a : α} : Meets (pure a) s Q ↔ Q a s := Iff.rfl

theorem run_get_bind {f : σ → Prog σ α} : (get >>= f) s = f s s := rfl

theorem meets_get_bind {f : σ → Prog σ α} : Meets (get >>= f) s Q ↔ Meets (f s) s Q := Iff.rfl

theorem meets_pure_bind {a : β} {f : β → Prog σ α} : Meets (pure a >>= f) s Q ↔ Meets (f a) s Q :=
  Iff.rfl

theorem meets_fuel : Meets (throw .fuel : Prog σ α) s Q := rfl

theorem Meets.zoom {part : σ → τ} {put : σ → τ → σ} {x : Prog τ α} {R : α → τ → Prop}
    (h : Meets x (part s) R) : Meets (Prog.zoom part put x) s fun a s' => ∃ t, s' = put s t ∧ R a t := by
  unfold Meets at h ⊢
  unfold Prog.zoom
  cases hx : x (part s) with
  | ok r => rw [hx] at h; exact ⟨_, rfl, h⟩
  | error e => rw [hx] at h; exact h

theorem Meets.of_ok {a : α} {s' : σ} (h : Meets x s Q) (hx : x s = .ok (a, s')) :
    Q a s' := by
  unfold Meets at h
  rw [hx] at h
  exact h

/-! ## Ending -/

/-- Run from `s`, the code ends without a fault. -/
def Ends (x : Prog σ α) (s : σ) : Prop := ∃ a s', x s = .ok (a, s')

theorem ends_pure {a : α} : Ends (pure a) s := ⟨a, s, rfl⟩

theorem ends_bind_of_ok {a : α} {s' : σ} (hx : x s = .ok (a, s')) :
    Ends (x >>= f) s ↔ Ends (f a) s' := by
  unfold Ends
  rw [run_bind_of_ok hx]

theorem ends_get_bind {f : σ → Prog σ α} : Ends (get >>= f) s ↔ Ends (f s) s := Iff.rfl

theorem Ends.bind (hx : Ends x s)
    (hf : ∀ a s', x s = .ok (a, s') → Ends (f a) s') : Ends (x >>= f) s := by
  obtain ⟨a, s', hx⟩ := hx
  exact (ends_bind_of_ok hx).mpr (hf a s' hx)

theorem Ends.zoom {part : σ → τ} {put : σ → τ → σ} {x : Prog τ α} (h : Ends x (part s)) :
    Ends (Prog.zoom part put x) s := by
  obtain ⟨a, t, hx⟩ := h
  refine ⟨a, put s t, ?_⟩
  unfold Prog.zoom
  rw [hx]

theorem Meets.of_ends (h : Meets x s Q) (hend : Ends x s) :
    ∃ a s', x s = .ok (a, s') ∧ Q a s' := by
  obtain ⟨a, s', hx⟩ := hend
  exact ⟨a, s', hx, h.of_ok hx⟩

end Rules

end Amlogic
