import Mathlib

/-!
# Numbers of displays and of layers (`HdiDisplay::GetIdleId`, `HdiLayer::GetIdleId`)

Both classes have the same static variables and the same function.
-/

namespace Amlogic.Display

/-- `0xffffffff`, which stands for no id. -/
def noId : Nat := 0xffffffff

/-- The static variables `mIdleId` and `mIdSets`. -/
structure IdPool where
  mIdleId : Nat := 0
  mIdSets : List Nat := []

namespace IdPool

/-- The loop: the id that is found, or `noId`, and `mIdleId`. It has no end if all ids are used and `mIdleId` was
`0xffffffff` before. -/
def search (used : List Nat) (oldIdleId : Nat) : Nat → Nat → Option (Nat × Nat)
  | 0, _ => none
  | rounds + 1, idle =>
    if idle ∉ used then some (idle, idle)
    else if oldIdleId ≠ (idle + 1) % noId then search used oldIdleId rounds ((idle + 1) % noId)
    else some (noId, (idle + 1) % noId)

/-- `GetIdleId`. After `2 ^ 32` rounds `mIdleId` has had all its values. -/
def getIdleId (p : IdPool) : Option (Nat × IdPool) :=
  match search p.mIdSets p.mIdleId (2 ^ 32) (p.mIdleId % noId) with
  | none => none
  | some (id, idle) => some (id, ⟨idle + 1, id :: p.mIdSets⟩)

def erase (p : IdPool) (id : Nat) : IdPool := { p with mIdSets := p.mIdSets.filter (· ≠ id) }

end IdPool

end Amlogic.Display
