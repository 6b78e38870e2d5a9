import Amlogic.Unifykey.NormalKey

/-!
# The normal storage interface (`unifykey/storage_key.c`)

`storage_key.c` puts the key list of `normal_key.c` behind the functions of `struct amlkey_if`. A
write changes the list, lays it out in `normal_block` and hands the block to the storage driver that
has registered itself; an init fetches the block from there. What the storage driver does in a call
is a parameter of the call: `none` when no driver is registered, else the code that it returns and,
for a read, the bytes that it leaves in the buffer.
-/

namespace Amlogic.Unifykey

def defNormalBlockSize : Nat := 256 * 1024

def pageSize : Nat := 4096

/-- The static variables of the interface, with those of the key list. -/
structure AmlkeyNormal where
  nk : NormalKey
  normalBlksz : Nat
  normalFlashsize : Nat
  normalBlock : Option (List UInt8)

/-- The static variables when the module is loaded. -/
def AmlkeyNormal.initial : AmlkeyNormal :=
  ⟨.initial, defNormalBlockSize, defNormalBlockSize, none⟩

/-- `normal_key_init`; `blocksize` is the property of the device tree. The contents of fresh memory
are not used before a block has been read into it. -/
def normalKeyInit (env : Env) (blocksize : Option UInt32) (s : AmlkeyNormal) : Int × AmlkeyNormal :=
  let blksz := match blocksize with
    | some b => if b ≠ 0 ∧ b.toNat % pageSize = 0 then b.toNat else s.normalBlksz
    | none => s.normalBlksz
  if env.kmalloc 0 blksz then
    (0, { s with normalBlksz := blksz, normalBlock := some (List.replicate blksz 0) })
  else (-1, { s with normalBlksz := blksz, normalBlock := none })

/-- The bytes of a buffer after the storage driver has read `content` into it. -/
def fillBlock (m content : List UInt8) : List UInt8 :=
  content.take m.length ++ m.drop content.length

/-- `_amlkey_init_normal`. The driver reports the length that it was asked for as the size of the
storage. -/
def amlkeyInitNormal (env : Env) (read : Option (Int × List UInt8)) (s : AmlkeyNormal) :
    Except Fault (Int × AmlkeyNormal) :=
  match s.normalBlock, read with
  | some m, some (ret, content) =>
    if (normalkeyInit s.nk).1 ≠ 0 then .ok (-1, s)
    else
      let m := fillBlock m content
      let s := { s with
        nk := (normalkeyInit s.nk).2, normalBlock := some m, normalFlashsize := s.normalBlksz }
      if ret ≠ 0 then .ok (ret, { s with nk := normalkeyDeinit s.nk })
      else do
        let (ret, nk) ← normalkeyReadfromblock env (some m) s.normalFlashsize s.nk
        if ret ≠ 0 then return (ret, { s with nk := normalkeyDeinit nk })
        else return (0, { s with nk := nk })
  | _, _ => .ok (-1, s)

def amlkeyExistNormal (s : AmlkeyNormal) (name : Option CStr) : Except Fault Bool :=
  return (← normalkeyGet s.nk name).isSome

def amlkeyGetAttrNormal (s : AmlkeyNormal) (name : Option CStr) : Except Fault UInt32 := do
  match ← normalkeyGet s.nk name with
  | some obj => return obj.attr
  | none => return 0

def amlkeySizeNormal (s : AmlkeyNormal) (name : Option CStr) : Except Fault UInt32 := do
  match ← normalkeyGet s.nk name with
  | some obj => return obj.datasize
  | none => return 0

/-- `_amlkey_read_normal`: the bytes that are copied to a buffer of `len` bytes. Their number is the
returned size. -/
def amlkeyReadNormal (s : AmlkeyNormal) (name : Option CStr) (len : UInt32) :
    Except Fault (List UInt8) := do
  match ← normalkeyGet s.nk name with
  | some obj => if obj.datasize ≤ len then objectData obj else return []
  | none => return []

/-- `_amlkey_write_normal`: the number of bytes written, 0 on failure. -/
def amlkeyWriteNormal (env : Env) (write : Option Int) (name : Option CStr)
    (buffer : Option (List UInt8)) (len attr : UInt32) (s : AmlkeyNormal) :
    Except Fault (Int × AmlkeyNormal) :=
  if attr &&& objAttrSecure ≠ 0 then .ok (0, s)
  else match write with
    | none => .ok (0, s)
    | some wret => do
      let (ret, nk) ← normalkeyAdd env name buffer len attr s.nk
      let s := { s with nk := nk }
      if ret ≠ 0 then return (0, s)
      else
        let (ret, nk, block) ← normalkeyWritetoblock env s.normalBlock s.normalFlashsize s.nk
        let s := { s with nk := nk, normalBlock := block }
        if ret ≠ 0 then return (0, s)
        else if wret ≠ 0 then return (0, s)
        else return (s32 len.toNat, s)

/-- `_amlkey_hash_normal`: the returned code and the digest. -/
def amlkeyHashNormal (s : AmlkeyNormal) (name : Option CStr) :
    Except Fault (Int × Option (Bytes 32)) := do
  match ← normalkeyGet s.nk name with
  | some obj => return (0, some obj.hashptr)
  | none => return (-1, none)

/-! ## Runs -/

/-- No kernel hands out a gigabyte by `kmalloc`. -/
def Env.Bounded (env : Env) : Prop := ∀ k n, env.kmalloc k n = true → n < 2 ^ 30

inductive AmlkeyNormal.Reachable : AmlkeyNormal → Prop
  | initial : Reachable .initial
  | probe {s : AmlkeyNormal} (env : Env) (blocksize : Option UInt32) : env.Bounded →
    Reachable s → s.normalBlock = none → Reachable (normalKeyInit env blocksize s).2
  | init {s s' : AmlkeyNormal} {r : Int} (env : Env) (read : Option (Int × List UInt8)) :
    Reachable s → amlkeyInitNormal env read s = .ok (r, s') → Reachable s'
  | write {s s' : AmlkeyNormal} {r : Int} (env : Env) (write : Option Int) (name : Option CStr)
    (buffer : Option (List UInt8)) (len attr : UInt32) : Reachable s →
    amlkeyWriteNormal env write name buffer len attr s = .ok (r, s') → Reachable s'
  | del {s : AmlkeyNormal} {nk : NormalKey} {r : Int} (name : Option CStr) : Reachable s →
    normalkeyDel name s.nk = .ok (r, nk) → Reachable { s with nk := nk }

end Amlogic.Unifykey
