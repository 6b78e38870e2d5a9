import Amlogic.Unifykey.NormalKey

/-!
# What a key block says

The layout of a block as a matter of its bytes alone: the records of an object, and for every field
of the object the range of bytes it is copied from. The reader of `normal_key.c` is compared with
this description in `Proofs/ParseProofs.lean`.
-/

namespace Amlogic.Unifykey

/-- The `n` bytes of `m` at offset `off`, as far as `m` goes. -/
def slice (m : List UInt8) (off n : Nat) : List UInt8 := (m.drop off).take n

def word (m : List UInt8) (off : Nat) : UInt32 := getLe32 (slice m off 4)

/-- A record of an object: its tag, the offset of its value from the start of the object, and its
length field. -/
structure Rec where
  tag : UInt32
  off : Nat
  length : UInt32

/-- The records of an object of `sum` bytes at `input` from offset `idx` on, up to the first one that
does not fit into the `len` bytes left in the block; and whether the end of the object was
reached. -/
def records (m : List UInt8) (input len sum : Nat) : Nat → Nat → List Rec × Bool
  | 0, _ => ([], false)
  | fuel + 1, idx =>
    if idx < sum then
      let length := word m (input + idx + 4)
      if idx + 8 + length.toNat ≤ len then
        let rest := records m input len sum fuel (idx + 8 + length.toNat)
        (⟨word m (input + idx), idx + 8, length⟩ :: rest.1, rest.2)
      else ([], false)
    else ([], true)

/-- The length of the last record with a tag; 0 if there is none. -/
def lastLength (t : EmTLVTag) (recs : List Rec) : Nat :=
  match (recs.filter (fun r => r.tag = t.code)).getLast? with
  | some r => r.length.toNat
  | none => 0

/-! ## The sources of an object -/

inductive Field where
  | namesize | name | type | attr | datasize | data | hash
  deriving DecidableEq

def Field.ofTag (tag : UInt32) : Option Field :=
  match EmTLVTag.ofCode tag with
  | some .objnamesize => some .namesize
  | some .objname => some .name
  | some .objtype => some .type
  | some .objattr => some .attr
  | some .objdatasize => some .datasize
  | some .objdatabuf => some .data
  | some .objhashbuf => some .hash
  | _ => none

/-- For every field of an object the range of bytes, from the start of the object, that it is copied
from. -/
abbrev Source := Field → Option (Nat × Nat)

def Source.bytes (src : Source) (m : List UInt8) (input : Nat) (f : Field) : List UInt8 :=
  match src f with
  | some (off, n) => slice m (input + off) n
  | none => []

def hashOf (l : List UInt8) : Bytes 32 := ⟨(l ++ List.replicate 32 0).take 32, by simp⟩

/-- The object that is made of the bytes of its fields. -/
def Source.object (src : Source) (m : List UInt8) (input : Nat) : StorageObject :=
  { name := newName (src.bytes m input .name)
    namesize := getLe32 (src.bytes m input .namesize)
    attr := getLe32 (src.bytes m input .attr)
    type := getLe32 (src.bytes m input .type)
    datasize := getLe32 (src.bytes m input .datasize)
    dataptr := (src .data).map fun _ => src.bytes m input .data
    hashptr := hashOf (src.bytes m input .hash) }

/-- The number of bytes that is copied for a field: what has been declared so far for the name and
the data. -/
def Source.count (src : Source) (m : List UInt8) (input : Nat) : Field → Nat
  | .name => (src.object m input).namesize.toNat
  | .data => (src.object m input).datasize.toNat
  | .hash => 32
  | _ => 4

def Source.step (src : Source) (m : List UInt8) (input : Nat) (r : Rec) : Source :=
  match Field.ofTag r.tag with
  | some f => Function.update src f (some (r.off, src.count m input f))
  | none => src

def Source.accepts (src : Source) (env : Env) (m : List UInt8) (input k : Nat) (r : Rec) : Bool :=
  match Field.ofTag r.tag with
  | some .hash => r.length = 32
  | some .data => env.kmalloc k (src.count m input .data)
  | _ => true

/-- Does copying the field of a record stay inside the block, and for the name inside its array? -/
def Source.safe (src : Source) (m : List UInt8) (input : Nat) (r : Rec) : Bool :=
  match Field.ofTag r.tag with
  | some .name =>
    src.count m input .name ≤ 80 && input + r.off + src.count m input .name ≤ m.length
  | some f => input + r.off + src.count m input f ≤ m.length
  | none => true

/-- The number of the next memory request after a record. -/
def nextRequest (k : Nat) (r : Rec) : Nat :=
  if Field.ofTag r.tag = some .data then k + 1 else k

/-- The sources of an object with the given records; false when a record is refused. -/
def scanFields (env : Env) (m : List UInt8) (input : Nat) :
    List Rec → Source → Nat → Except Fault (Bool × Source × Nat)
  | [], src, k => .ok (true, src, k)
  | r :: rs, src, k =>
    if src.accepts env m input k r then
      if src.safe m input r then
        scanFields env m input rs (src.step m input r) (nextRequest k r)
      else .error .access
    else .ok (false, src, k)

/-- The bytes that the object at `input` takes up by its own length field. -/
def windowSize (m : List UInt8) (input : Nat) : Nat := 8 + (word m (input + 4)).toNat

/-- The records of the object at `input`, of which `len` bytes are left in the block. -/
def objectRecords (m : List UInt8) (input len : Nat) : List Rec × Bool :=
  records m input len (windowSize m input) (windowSize m input + 1) 8

/-- The sources of the object at `input`, if the block holds an object there that the reader takes,
and the number of the next memory request. -/
def scanObject (env : Env) (m : List UInt8) (input len k : Nat) :
    Except Fault (Option (Source × Nat)) :=
  if windowSize m input ≤ len ∧ word m input = EmTLVTag.object.code then do
    let (ok, src, k) ← scanFields env m input (objectRecords m input len).1 (fun _ => none) k
    return if ok && (objectRecords m input len).2 then some (src, k) else none
  else .ok none

/-- The object at `input` keeps to its bounds: the declared sizes to their records, the name also to
its array, and the records and everything that is copied to the window of the object. -/
structure Contained (m : List UInt8) (input len : Nat) (src : Source) : Prop where
  namesize_le : (src.object m input).namesize.toNat ≤ maxObjNameLen
  name_le : (src.object m input).namesize.toNat ≤ lastLength .objname (objectRecords m input len).1
  data_le : (src.object m input).datasize.toNat ≤ lastLength .objdatabuf (objectRecords m input len).1
  records_le : ∀ r ∈ (objectRecords m input len).1, r.off + r.length.toNat ≤ windowSize m input
  sources_le : ∀ f off n, src f = some (off, n) → off + n ≤ windowSize m input

end Amlogic.Unifykey
