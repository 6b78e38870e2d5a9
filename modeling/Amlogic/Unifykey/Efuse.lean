import Amlogic.Base.Text
import Amlogic.Unifykey.NormalKey

/-!
# Writing an efuse key (`efuse.c`, `efuse_api.c`)

A key of the efuse has a name, a place and a size. Its attribute is written by the user either as
raw bytes or as hexadecimal fields with colons between them; which of the two it is, the code tells
by looking for a colon. The secure monitor that burns the bytes is a parameter.
-/

namespace Amlogic.Efuse

open Unifykey (CStr)

structure EfusekeyInfo where
  keyname : CStr
  offset : UInt32
  size : UInt32

structure Env where
  kzalloc : Bool
  kmalloc : Bool
  /-- The zero bytes that `kzalloc` leaves behind a request, up to the end of the object. -/
  slack : Nat → Nat
  /-- The answer of the secure monitor to a write: the result, and the number of bytes. -/
  monitor : Nat → List UInt8 → Int × UInt32

/-- How a request ends: the result, and the write the monitor was asked for. -/
structure Outcome where
  ret : Int
  burned : Option (Nat × List UInt8) := none
  deriving DecidableEq

def efuseGetinfo (infos : List EfusekeyInfo) (item : CStr) : Option EfusekeyInfo :=
  infos.find? fun info => info.keyname = item

def efuseWrite (env : Env) (buf : List UInt8) (pos : Nat) : Outcome :=
  let (ret, retcnt) := env.monitor pos buf
  ⟨if ret = 0 then retcnt.toNat else ret, some (pos, buf)⟩

def efuseWriteUsr (env : Env) (buf : List UInt8) (count pos : Nat) : Except Fault Outcome := do
  if env.kmalloc then
    let pdata ← load buf 0 count
    return efuseWrite env pdata pos
  else
    return ⟨-12, none⟩

/-- One field of the text at `s`: all fields but the last end with a colon. -/
def readField (last : Bool) (s : List UInt8) : Except Fault (Except Int Nat) := do
  if last then
    kstrtou 8 s 16
  else
    match ← scanHex s with
    | none => return .error (-22)
    | some val => return if 0xff < val % 2 ^ 32 then .error (-22) else .ok (val % 2 ^ 32)

/-- The loop over the fields, with `rounds` of them to go: field `i` is read at `s` and stored as byte
`i` of the same buffer. -/
def readFields : Nat → Nat → Nat → List UInt8 → Except Fault (Except Int (List UInt8))
  | 0, _, _, op => .ok (.ok op)
  | rounds + 1, i, s, op => do
    match ← readField (rounds = 0) (op.drop s) with
    | .error e => return .error e
    | .ok val =>
      let op ← store op i [UInt8.ofNat val]
      let c ← charAt (op.drop (s + 2)) 0
      readFields rounds (i + 1) (if c = charColon then s + 3 else s + 2) op

/-- The last part of `efuse_user_attr_store`. -/
def writeKey (env : Env) (info : EfusekeyInfo) (op : List UInt8) (count : Nat) : Except Fault Outcome := do
  let out ← efuseWriteUsr env op info.size.toNat info.offset.toNat
  return if out.ret < 0 then out else { out with ret := count }

def efuseUserAttrStore (env : Env) (infos : List EfusekeyInfo) (name : CStr) (buf : List UInt8) :
    Except Fault Outcome :=
  match efuseGetinfo infos name with
  | none => .ok ⟨-22, none⟩
  | some info =>
    if !env.kzalloc then .ok ⟨-12, none⟩
    else do
      -- no memory is behind the address that a request for zero bytes yields
      let count := buf.length
      let op := if count = 0 then [] else buf ++ List.replicate (env.slack count) 0
      if ← strchr charColon op then
        match ← readFields info.size.toNat 0 0 op with
        | .error e => return ⟨e, none⟩
        | .ok op => writeKey env info op count
      else
        let last ← charAt op (count - 1)
        if (last ≠ charNewline ∧ count ≠ info.size.toNat) ∨ count - 1 > info.size.toNat ∨
            count < info.size.toNat then
          return ⟨-22, none⟩
        else
          writeKey env info op count

end Amlogic.Efuse
