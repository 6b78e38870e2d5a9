import Amlogic.Base.Bytes

/-!
# Machines that answer calls

A component answers calls one after another and may fault; what it is for is said by another machine, which answers
every call. The component refines that machine on the calls that are allowed if it never faults on them and gives the
same answers.
-/

namespace Amlogic

section Refine

variable {σ τ ι ο : Type}

/-- The answers to a sequence of calls, and the state after them. -/
def answers (step : σ → ι → Except Fault (ο × σ)) : List ι → σ → Except Fault (List ο × σ)
  | [], s => .ok ([], s)
  | c :: cs, s => do
    let (r, s) ← step s c
    let (rs, s) ← answers step cs s
    return (r :: rs, s)

/-- The answers of a machine that does not fault. -/
def specAnswers (spec : τ → ι → ο × τ) : List ι → τ → List ο × τ
  | [], t => ([], t)
  | c :: cs, t => ((spec t c).1 :: (specAnswers spec cs (spec t c).2).1, (specAnswers spec cs (spec t c).2).2)

theorem answers_cons {step : σ → ι → Except Fault (ο × σ)} {c : ι} {cs : List ι} {r : ο} {rs : List ο} {s s1 s2 : σ}
    (hc : step s c = .ok (r, s1)) (hcs : answers step cs s1 = .ok (rs, s2)) :
    answers step (c :: cs) s = .ok (r :: rs, s2) := by
  rw [answers, hc, ok_bind]
  dsimp only
  rw [hcs, ok_bind]
  rfl

/-- If related states give the same answer to each allowed call and stay related, they give the same answers to every
sequence of allowed calls. -/
theorem answers_eq_spec {step : σ → ι → Except Fault (ο × σ)} {spec : τ → ι → ο × τ} {R : σ → τ → Prop}
    {allowed : ι → Prop}
    (hstep : ∀ {s t c}, R s t → allowed c → ∃ s', step s c = .ok ((spec t c).1, s') ∧ R s' (spec t c).2)
    {cs : List ι} (hcs : ∀ c ∈ cs, allowed c) {s : σ} {t : τ} (hst : R s t) :
    ∃ s', answers step cs s = .ok ((specAnswers spec cs t).1, s') ∧ R s' (specAnswers spec cs t).2 := by
  induction cs generalizing s t with
  | nil => exact ⟨s, rfl, hst⟩
  | cons c cs ih =>
    obtain ⟨s1, hs1, hst1⟩ := hstep hst (hcs c List.mem_cons_self)
    obtain ⟨s2, hs2, hst2⟩ := ih (fun c hc => hcs c (List.mem_cons_of_mem _ hc)) hst1
    exact ⟨s2, answers_cons hs1 hs2, hst2⟩

end Refine

end Amlogic
