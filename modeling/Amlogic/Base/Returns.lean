import Amlogic.Base.Bytes

/-!
# Loops with a bound on their rounds

A loop of the source that has no bound of its own is given a number of rounds, and faults when it
has used them up. `Returns` says that the code does end: from some number of rounds on, it has one
and the same result.
-/

namespace Amlogic

/-- Given enough rounds, the code ends with `a`. -/
def Returns {α : Type} (x : Nat → Except Fault α) (a : α) : Prop :=
  ∃ bound, ∀ rounds, bound ≤ rounds → x rounds = .ok a

namespace Returns

variable {α β : Type} {x : Nat → Except Fault α} {a b : α}

theorem pure (a : α) : Returns (fun _ => .ok a) a := ⟨0, fun _ _ => rfl⟩

theorem unique (ha : Returns x a) (hb : Returns x b) : a = b := by
  obtain ⟨n, hn⟩ := ha
  obtain ⟨m, hm⟩ := hb
  have h := (hn (max n m) (le_max_left n m)).symm.trans (hm (max n m) (le_max_right n m))
  exact Except.ok.inj h

theorem bind {f : Nat → α → Except Fault β} {c : β} (hx : Returns x a)
    (hf : Returns (fun rounds => f rounds a) c) : Returns (fun rounds => x rounds >>= f rounds) c := by
  obtain ⟨n, hn⟩ := hx
  obtain ⟨m, hm⟩ := hf
  refine ⟨max n m, ?_⟩
  intro rounds hrounds
  show (x rounds >>= f rounds) = _
  rw [hn rounds (le_trans (le_max_left n m) hrounds), ok_bind]
  exact hm rounds (le_trans (le_max_right n m) hrounds)

theorem reply (hx : Returns x a) (ret : β) : Returns (fun rounds => x rounds >>= fun a => .ok (ret, a)) (ret, a) :=
  hx.bind (f := fun _ a => .ok (ret, a)) (Returns.pure _)

theorem congr {y : Nat → Except Fault α} (hx : Returns x a) (h : ∀ rounds, y rounds = x rounds) :
    Returns y a := by
  obtain ⟨n, hn⟩ := hx
  exact ⟨n, fun rounds hrounds => (h rounds).trans (hn rounds hrounds)⟩

end Returns

end Amlogic
