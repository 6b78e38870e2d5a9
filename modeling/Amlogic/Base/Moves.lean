import Amlogic.Base.Prog

/-!
# Code as a sequence of moves

A large piece of code is often easier to understand as a sequence of moves: small changes of the state, each of
which says what may change and when. The moves may speak about a ghost state as well, such as who is in the
middle of what. What every move keeps, the code keeps.
-/

namespace Amlogic

section Results

variable {σ α β : Type} {s : σ}

variable {x : Prog σ α}

theorem run_bind_eq_ok {f : α → Prog σ β} {r : β × σ} :
    (x >>= f) s = .ok r ↔ ∃ a s', x s = .ok (a, s') ∧ f a s' = .ok r := by
  show (x s >>= fun p => f p.1 p.2 : Except Fault (β × σ)) = .ok r ↔ _
  cases h : x s with
  | ok p =>
    constructor
    · intro hf
      exact ⟨p.1, p.2, rfl, hf⟩
    · rintro ⟨a, s', hp, hf⟩
      cases hp
      exact hf
  | error e =>
    constructor
    · intro hf
      cases hf
    · rintro ⟨a, s', hp, -⟩
      cases hp

theorem run_pure_eq_ok {a : α} {r : α × σ} : (pure a : Prog σ α) s = .ok r ↔ (a, s) = r := by
  constructor
  · intro h
    cases h
    rfl
  · rintro rfl
    rfl

theorem run_modify_bind {g : σ → σ} {f : Unit → Prog σ α} : (modify g >>= f) s = f () (g s) := rfl

theorem run_modify {g : σ → σ} : (modify g : Prog σ Unit) s = .ok ((), g s) := rfl

end Results

section Rules

variable {σ γ V α β : Type} {R : V → V → Prop} {view : σ → γ → V} {s : σ} {g : γ} {Q : α → σ → γ → Prop}

/-- Run from `s`, with the ghost state `g`, the code makes moves and ends in a state that meets `Q`, if it
ends. -/
def Does (R : V → V → Prop) (view : σ → γ → V) (x : Prog σ α) (s : σ) (g : γ) (Q : α → σ → γ → Prop) : Prop :=
  ∀ a s', x s = .ok (a, s') → ∃ g', Relation.ReflTransGen R (view s g) (view s' g') ∧ Q a s' g'

theorem does_pure {a : α} (h : Q a s g) : Does R view (pure a) s g Q := by
  intro a' s' hx
  cases hx
  exact ⟨g, .refl, h⟩

theorem does_throw {e : Fault} : Does R view (throw e) s g Q := nofun

theorem Does.mono {Q' : α → σ → γ → Prop} (h : Does R view x s g Q)
    (himp : ∀ a s' g', Q a s' g' → Q' a s' g') : Does R view x s g Q' := by
  intro a s' hx
  obtain ⟨g', hpath, hq⟩ := h a s' hx
  exact ⟨g', hpath, himp a s' g' hq⟩

theorem Does.weaken {R' : V → V → Prop} (h : Does R view x s g Q)
    (himp : ∀ v v', R v v' → R' v v') : Does R' view x s g Q := by
  intro a s' hx
  obtain ⟨g', hpath, hq⟩ := h a s' hx
  exact ⟨g', Relation.ReflTransGen.mono himp _ _ hpath, hq⟩

theorem Does.bind {f : α → Prog σ β} {Q' : β → σ → γ → Prop} (hx : Does R view x s g Q)
    (hf : ∀ a s' g', Q a s' g' → Does R view (f a) s' g' Q') : Does R view (x >>= f) s g Q' := by
  intro b s2 hrun
  obtain ⟨a, s1, h1, h2⟩ := run_bind_eq_ok.mp hrun
  obtain ⟨g1, hp1, hq⟩ := hx a s1 h1
  obtain ⟨g2, hp2, hq'⟩ := hf a s1 g1 hq b s2 h2
  exact ⟨g2, hp1.trans hp2, hq'⟩

theorem does_get_bind {f : σ → Prog σ α} : Does R view (get >>= f) s g Q ↔ Does R view (f s) s g Q := Iff.rfl

theorem does_ite {c : Prop} [Decidable c] {y : Prog σ α} (hx : c → Does R view x s g Q)
    (hy : ¬c → Does R view y s g Q) : Does R view (if c then x else y) s g Q := by
  by_cases hc : c
  · rw [if_pos hc]
    exact hx hc
  · rw [if_neg hc]
    exact hy hc

theorem does_modify_bind {u : σ → σ} {f : Unit → Prog σ α} {g' : γ} (hmove : R (view s g) (view (u s) g'))
    (hf : Does R view (f ()) (u s) g' Q) : Does R view (modify u >>= f) s g Q := by
  intro a s' hrun
  obtain ⟨g2, hp, hq⟩ := hf a s' hrun
  exact ⟨g2, .head hmove hp, hq⟩

theorem does_modify {u : σ → σ} {g' : γ} {Q : Unit → σ → γ → Prop} (hmove : R (view s g) (view (u s) g'))
    (hq : Q () (u s) g') : Does R view (modify u) s g Q := by
  intro a s' hrun
  cases hrun
  exact ⟨g', .single hmove, hq⟩

theorem does_of_run (h : ∀ a s', x s = .ok (a, s') → ∃ g', R (view s g) (view s' g') ∧ Q a s' g') :
    Does R view x s g Q := by
  intro a s' hx
  obtain ⟨g', hmove, hq⟩ := h a s' hx
  exact ⟨g', .single hmove, hq⟩

theorem does_of_same (h : ∀ a s', x s = .ok (a, s') → view s' g = view s g ∧ Q a s' g) :
    Does R view x s g Q := by
  intro a s' hx
  obtain ⟨hsame, hq⟩ := h a s' hx
  exact ⟨g, hsame ▸ .refl, hq⟩

theorem path_keeps {P : V → Prop} (hkeep : ∀ v v', R v v' → P v → P v') {v v' : V}
    (hpath : Relation.ReflTransGen R v v') (hv : P v) : P v' := by
  induction hpath with
  | refl => exact hv
  | tail _ hmove ih => exact hkeep _ _ hmove ih

theorem Does.keeps {P : V → Prop} (h : Does R view x s g Q) (hkeep : ∀ v v', R v v' → P v → P v')
    (hs : P (view s g)) {a : α} {s' : σ} (hx : x s = .ok (a, s')) : ∃ g', P (view s' g') ∧ Q a s' g' := by
  obtain ⟨g', hpath, hq⟩ := h a s' hx
  exact ⟨g', path_keeps hkeep hpath hs, hq⟩

end Rules

end Amlogic
