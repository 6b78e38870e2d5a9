import Amlogic.Base.Refine
import Amlogic.Unifykey.NormalKey

/-!
# The key store as a map

The calls of `unifykey/normal_key.c` on a key list that is ready, among them saving the list in a block and reading it
again after a restart, and the map from names to data that they stand for.
-/

namespace Amlogic.Unifykey

structure KernelAnswers where
  kmalloc : Nat → Nat → Bool
  shash : Nat → Bool

def KernelAnswers.env (a : KernelAnswers) (sha : List UInt8 → Bytes 32) : Env := ⟨sha, a.kmalloc, a.shash⟩

/-- The data of a key, and its attributes. -/
structure Value where
  data : List UInt8
  attr : UInt32
  deriving DecidableEq

inductive StoreCall where
  | add (a : KernelAnswers) (name : Option CStr) (buffer : Option (List UInt8)) (len attr : UInt32)
  | del (name : Option CStr)
  | get (name : Option CStr)
  /-- `normalkey_writetoblock` into a buffer and, if that succeeds, a restart and `normalkey_readfromblock`. -/
  | reload (write read : KernelAnswers) (block : List UInt8)

inductive Reply where
  | code (r : Int)
  | object (value : Option Value)
  | reloaded
  deriving DecidableEq

/-- The data behind the object that `normalkey_get` returns. -/
def getValue (s : NormalKey) (name : Option CStr) : Except Fault (Option Value) := do
  match ← normalkeyGet s name with
  | none => return none
  | some o => return some ⟨← objectData o, o.attr⟩

def reload (sha : List UInt8 → Bytes 32) (write read : KernelAnswers) (block : List UInt8) (s : NormalKey) :
    Except Fault NormalKey := do
  let (ret, s, out) ← normalkeyWritetoblock (write.env sha) (some block) block.length s
  if ret ≠ 0 then return s
  else return (← normalkeyReadfromblock (read.env sha) out block.length (normalkeyInit .initial).2).2

def StoreCall.run (sha : List UInt8 → Bytes 32) (s : NormalKey) : StoreCall → Except Fault (Reply × NormalKey)
  | add a name buffer len attr => do
    let (r, s) ← normalkeyAdd (a.env sha) name buffer len attr s
    return (.code r, s)
  | del name => do
    let (r, s) ← normalkeyDel name s
    return (.code r, s)
  | get name => return (.object (← getValue s name), s)
  | reload write read block => return (.reloaded, ← Unifykey.reload sha write read block s)

/-! ## The map -/

/-- The map that the key list stands for. -/
abbrev KeyMap := CStr → Option Value

def KeyMap.empty : KeyMap := fun _ => none

def KeyMap.set (f : KeyMap) (name : CStr) (value : Option Value) : KeyMap :=
  fun other => if other = name then value else f other

/-- Memory is needed for a new key, and for data that are longer than those the key has. -/
def KernelAnswers.grants (a : KernelAnswers) (len : UInt32) : Option Value → Bool
  | none => a.kmalloc 0 storageNodeSize && a.kmalloc 1 len.toNat
  | some value => decide (len.toNat ≤ value.data.length) || a.kmalloc 0 len.toNat

/-- Arguments that are in order, attributes that agree with those of the key, and memory as far as it is needed. -/
def KeyMap.accepts (f : KeyMap) (a : KernelAnswers) (name : CStr) (len attr : UInt32) : Bool :=
  decide (len ≠ 0) && decide (attr &&& objAttrSecure = 0) && decide (name.1.length ≤ maxObjNameLen) &&
    (f name).all (·.attr = attr) && a.grants len (f name)

def KeyMap.step (f : KeyMap) : StoreCall → Reply × KeyMap
  | .add a (some name) (some buffer) len attr =>
    if f.accepts a name len attr then (.code 0, f.set name (some ⟨buffer.take len.toNat, attr⟩)) else (.code (-1), f)
  | .add _ _ _ _ _ => (.code (-1), f)
  | .del (some name) => if (f name).isSome then (.code 0, f.set name none) else (.code (-1), f)
  | .del none => (.code (-1), f)
  | .get name => (.object (name.bind f), f)
  | .reload _ _ _ => (.reloaded, f)

end Amlogic.Unifykey
