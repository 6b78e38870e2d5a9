import Mathlib

/-!
# Runs

A step relation says which states may follow a state by an event: a call that is made, or a part of a thread
that is executed. A run is a sequence of such steps, each of them allowed in the state where it is taken.
-/

namespace Amlogic

section Runs

variable {σ ε : Type} {step : σ → ε → σ → Prop} {allowed : σ → ε → Prop} {s s₁ s₂ : σ}

/-- The states that a run of allowed steps reaches from `s`. -/
inductive Runs (step : σ → ε → σ → Prop) (allowed : σ → ε → Prop) (s : σ) : σ → Prop
  | nil : Runs step allowed s s
  | snoc {s₁ s₂ : σ} {e : ε} (run : Runs step allowed s s₁) (ok : allowed s₁ e) (next : step s₁ e s₂) :
      Runs step allowed s s₂

/-- What every allowed step keeps, every run keeps. -/
theorem Runs.keeps {P : σ → Prop} (hstep : ∀ {s e s'}, P s → allowed s e → step s e s' → P s')
    (hrun : Runs step allowed s s₁) (hs : P s) : P s₁ := by
  induction hrun with
  | nil => exact hs
  | snoc _ ok next ih => exact hstep ih ok next

theorem Runs.mono {allowed' : σ → ε → Prop} (himp : ∀ {s e}, allowed s e → allowed' s e)
    (hrun : Runs step allowed s s₁) : Runs step allowed' s s₁ := by
  induction hrun with
  | nil => exact .nil
  | snoc _ ok next ih => exact .snoc ih (himp ok) next

theorem Runs.trans (h1 : Runs step allowed s s₁) (h2 : Runs step allowed s₁ s₂) : Runs step allowed s s₂ := by
  induction h2 with
  | nil => exact h1
  | snoc _ ok next ih => exact .snoc ih ok next

theorem Runs.of_foldlM {next : σ → ε → Option σ}
    (hnext : ∀ {s e s'}, next s e = some s' → allowed s e ∧ step s e s') {es : List ε}
    (hes : es.foldlM next s = some s₁) : Runs step allowed s s₁ := by
  induction es generalizing s with
  | nil =>
    cases hes
    exact .nil
  | cons e es ih =>
    obtain ⟨s', hs', hes⟩ := Option.bind_eq_some_iff.mp hes
    obtain ⟨ok, hstep⟩ := hnext hs'
    exact (Runs.snoc .nil ok hstep).trans (ih hes)

theorem Runs.of_play {next : σ → ε → Option σ} {es : List ε} {p : σ → Bool}
    (hplay : (es.foldlM next s).any p = true) (hnext : ∀ {s e s'}, next s e = some s' → allowed s e ∧ step s e s') :
    ∃ s₁, Runs step allowed s s₁ ∧ p s₁ = true := by
  cases hes : es.foldlM next s with
  | none =>
    rw [hes] at hplay
    cases hplay
  | some s₁ =>
    rw [hes] at hplay
    exact ⟨s₁, .of_foldlM hnext hes, hplay⟩

/-- A step that is only taken where it is allowed. -/
def guarded (allowed : σ → ε → Prop) [∀ s e, Decidable (allowed s e)] (next : σ → ε → Option σ) (s : σ) (e : ε) :
    Option σ :=
  if allowed s e then next s e else none

theorem Runs.of_guarded [∀ s e, Decidable (allowed s e)] {next : σ → ε → Option σ} {es : List ε} {p : σ → Bool}
    (hplay : (es.foldlM (guarded allowed next) s).any p = true)
    (hnext : ∀ {s e s'}, next s e = some s' → step s e s') : ∃ s₁, Runs step allowed s s₁ ∧ p s₁ = true := by
  refine Runs.of_play hplay ?_
  intro s e s' h
  unfold guarded at h
  split_ifs at h with hok
  exact ⟨hok, hnext h⟩

end Runs

end Amlogic
