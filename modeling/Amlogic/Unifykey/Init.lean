import Amlogic.Base.Runs
import Amlogic.Unifykey.Unifykey

/-!
# Initialisation of the key store (`unifykey/storage_key.c`, `unifykey/unifykey.c`)

`key_unify_init` calls the function `init` of the storage interface, `_amlkey_init` with secure storage and
`_amlkey_init_normal` without. Either reads the stored key block into its buffer, and either can be tried again.
-/

namespace Amlogic.Unifykey

structure StoragekeyInfo where
  buffer : Option (List UInt8) := none
  size : Nat := 0x40000

def secuestorageHeadSize : Nat := 256

structure Answers where
  env : Env
  /-- `secure_storage_getbuf`: the memory that is shared with bl31, if there is any. -/
  getbuf : Option (List UInt8)
  validType : Bool
  /-- The function `read` of `unifykey_types`, if there is one: what it returns, the bytes that it leaves in the buffer
  and the size that it reports. -/
  read : Option (Int × List UInt8 × Nat)

/-- `memset(buffer, 0, SECUESTORAGE_HEAD_SIZE)`. -/
def clearHead (m : List UInt8) : List UInt8 := fillBlock m (List.replicate secuestorageHeadSize 0)

/-- The end of an attempt to initialise: what is returned, the state, and the buffer as the function `read` has left it
if that has returned 0. -/
structure Attempted (σ : Type) where
  ret : Int
  state : σ
  fetched : Option (List UInt8) := none

def amlkeyInit (a : Answers) (s : StoragekeyInfo) : Attempted StoragekeyInfo :=
  -- already init!
  if s.buffer.isSome then ⟨0, s, none⟩
  else
    match a.getbuf with
    | none => ⟨-einval, ⟨none, 0⟩, none⟩
    | some m =>
      let s : StoragekeyInfo := ⟨some m, m.length⟩
      if !a.validType then ⟨-einval, s, none⟩
      else
        match a.read with
        | none => ⟨-einval, s, none⟩
        | some (ret, content, actualSize) =>
          let m' := fillBlock m content
          if ret ≠ 0 then ⟨ret, { s with buffer := some (clearHead m') }, none⟩
          else if 1 <<< 20 ≤ actualSize then ⟨-einval, { s with buffer := some (clearHead m') }, some m'⟩
          else ⟨0, ⟨some m', if s32 actualSize < s32 s.size then actualSize else s.size⟩, some m'⟩

/-- `_amlkey_init_normal`, with the buffer after a successful read. -/
def attemptNormal (a : Answers) (s : AmlkeyNormal) : Except Fault (Attempted AmlkeyNormal) := do
  let (ret, s') ← amlkeyInitNormal a.env (a.read.map fun (ret, content, _) => (ret, content)) s
  let fetched :=
    match s.normalBlock, a.read with
    | some m, some (0, content, _) => if (normalkeyInit s.nk).1 = 0 then some (fillBlock m content) else none
    | _, _ => none
  return ⟨ret, s', fetched⟩

/-! ## Attempts -/

/-- What an attempt reports, with the key buffer at that time and the buffers that successful reads have left until
then. -/
structure Report where
  ret : Int
  keyBuffer : Option (List UInt8)
  fetched : List (List UInt8)

/-- Success is only reported if the stored key block has been read into the key buffer. -/
def Report.Honest (r : Report) : Prop := r.ret = 0 → ∃ m ∈ r.fetched, r.keyBuffer = some m

instance (r : Report) : Decidable r.Honest := inferInstanceAs (Decidable (_ → _))

structure KeyStore where
  secure : Bool
  info : StoragekeyInfo := {}
  normal : AmlkeyNormal
  initFlag : Bool := false
  /-- What the calls of `_amlkey_init` that got memory from bl31 have returned. -/
  answered : List Int := []
  fetched : List (List UInt8) := []
  reports : List Report := []

namespace KeyStore

/-- The key store after `amlkey_if_init`. -/
def boot (env : Env) (blocksize : Option UInt32) (secure : Bool) : KeyStore where
  secure := secure
  normal := if secure then .initial else (normalKeyInit env blocksize .initial).2

def keyBuffer (s : KeyStore) : Option (List UInt8) := if s.secure then s.info.buffer else s.normal.normalBlock

/-- `amlkey_init`. -/
def init (a : Answers) (s : KeyStore) : Except Fault (Int × KeyStore) :=
  if s.secure then
    let r := amlkeyInit a s.info
    .ok (r.ret, { s with
      info := r.state
      answered := if s.info.buffer.isNone && a.getbuf.isSome then r.ret :: s.answered else s.answered
      fetched := r.fetched.toList ++ s.fetched })
  else do
    let r ← attemptNormal a s.normal
    return (r.ret, { s with normal := r.state, fetched := r.fetched.toList ++ s.fetched })

def keyUnifyInit (a : Answers) (s : KeyStore) : Except Fault (Int × KeyStore) := do
  if s.initFlag then return (0, s)
  else
    let (ret, s) ← s.init a
    if ret < 0 then return (ret, s)
    else return (0, { s with initFlag := true })

def report (ret : Int) (s : KeyStore) : KeyStore :=
  { s with reports := ⟨ret, s.keyBuffer, s.fetched⟩ :: s.reports }

end KeyStore

inductive InitEvent where
  | unify (a : Answers)
  /-- `amlkey_init`, which is `_amlkey_init` or `_amlkey_init_normal`. -/
  | direct (a : Answers)

namespace InitEvent

def next (s : KeyStore) : InitEvent → Option KeyStore
  | unify a =>
    match s.keyUnifyInit a with
    | .ok (ret, s') => some (s'.report ret)
    | .error _ => none
  | direct a =>
    match s.init a with
    | .ok (ret, s') => some (s'.report ret)
    | .error _ => none

def Step (s : KeyStore) (e : InitEvent) (s' : KeyStore) : Prop := next s e = some s'

end InitEvent

end Amlogic.Unifykey
