import Amlogic.Unifykey.NormalKey

/-!
# The room that a key list needs

Whether `normalkey_writetoblock` finds room for a list is a matter of a few sizes: the declared name
and data size of each object and the size of its data buffer. This file computes the outcome from
these sizes alone, with the 32-bit arithmetic of the writer.
-/

namespace Amlogic.Unifykey

/-- What a step of the writer does with `room` bytes: the bytes it takes, nothing when they do not
suffice, or a fault when it leaves one of its buffers. -/
abbrev Need := Nat → Except Fault (Option Nat)

def Need.skip : Need := fun _ => .ok (some 0)

def Need.andThen (f g : Need) : Need := fun room => do
  match ← f room with
  | none => return none
  | some n => return (← g (room - n)).map (n + ·)

def needBytes (n : Nat) : Need := fun room => .ok (if room < n then none else some n)

/-- A buffer record of `length` bytes from a buffer of `avail` bytes. -/
def needBuf (length avail : Nat) : Need := fun room =>
  let tmplen := u32 ((length + 3) / 4 * 4)
  if (room : Int) < s32 (8 + tmplen) then .ok none
  else if length ≤ avail ∧ length ≤ tmplen ∧ 8 + tmplen ≤ room then .ok (some (8 + tmplen))
  else .error .access

/-- The sizes of an object that decide about its records: its declared name size, and the declared
size and the size of its data buffer. -/
structure Shape where
  namesize : Nat
  data : Option (Nat × Nat)

def StorageObject.shape (o : StorageObject) : Shape :=
  ⟨o.namesize.toNat, o.dataptr.map fun data => (o.datasize.toNat, data.length)⟩

def needName (s : Shape) : Need :=
  if s.namesize ≠ 0 then (needBytes 12).andThen (needBuf s.namesize 80) else .skip

def needData (s : Shape) : Need :=
  match s.data with
  | some (datasize, avail) =>
    if datasize ≠ 0 then (needBytes 12).andThen (needBuf datasize avail) else .skip
  | none => .skip

def needObject (s : Shape) : Need :=
  (needBytes 8).andThen ((needName s).andThen ((needData s).andThen
    ((needBuf 32 32).andThen ((needBytes 12).andThen (needBytes 12)))))

def needObjects : List Shape → Nat → Except Fault Bool
  | [], _ => .ok true
  | s :: ss, room => do
    match ← needObject s room with
    | none => return false
    | some n => needObjects ss (room - n)

end Amlogic.Unifykey
