import Amlogic.Unifykey.StorageKey

/-!
# Key items (`unifykey/unifykey.c`, `unifykey/unifykey_dts.c`)

The device tree lists the keys of a board: their names, the device that keeps them, the permissions
and whether they are encrypted. `key_unify_write` and `key_unify_read` find the item of a name and go
on to its device. Keys of the normal and of the secure device are kept by the interface that
`amlkey_if_init` has chosen, here the normal storage. What an efuse access does is a parameter of the
call.
-/

namespace Amlogic.Unifykey

def keyPermRead : UInt32 := 1
def keyPermWrite : UInt32 := 2
def keyAttrEncrypt : UInt32 := 0x100
def keyAttrSecure : UInt32 := 1
def keyUnifyNameLen : Nat := 48
def sha256SumLen : UInt32 := 32
def einval : Int := 22
def eperm : Int := 1

inductive KeyManagerDev where
  | unknownDev | efuse | normal | secure
  deriving Repr, DecidableEq

structure KeyItem where
  name : CStr
  id : Nat
  dev : KeyManagerDev
  perm : UInt32
  attr : UInt32
  name_lt : name.1.length < keyUnifyNameLen

/-! ## The device tree -/

/-- The properties of a key node that the driver reads. -/
structure KeyNode where
  keyName : Option CStr
  keyDevice : Option String
  permitRead : Bool
  permitWrite : Bool
  keyEncrypt : Bool

def keyDev (device : String) : KeyManagerDev :=
  if device = "efuse" then .efuse
  else if device = "normal" then .normal
  else if device = "secure" then .secure
  else .unknownDev

/-- The name of an item: the property, cut to what fits into its array. -/
def itemName (name : CStr) : CStr :=
  ⟨name.1.take (keyUnifyNameLen - 1), fun h => name.2 (List.mem_of_mem_take h)⟩

theorem itemName_lt (name : CStr) : (itemName name).1.length < keyUnifyNameLen := by
  have := List.length_take_le (keyUnifyNameLen - 1) name.1
  exact Nat.lt_of_le_of_lt this (by decide)

/-- `uk_item_parse_dt`, when its memory is granted. -/
def ukItemParseDt (node : KeyNode) (id : Nat) : Option KeyItem := do
  let name ← node.keyName
  let device ← node.keyDevice
  return {
    name := itemName name
    id := id
    dev := keyDev device
    perm := (if node.permitRead then keyPermRead else 0) ||| (if node.permitWrite then keyPermWrite else 0)
    attr := if node.keyEncrypt then keyAttrEncrypt else 0
    name_lt := itemName_lt name }

/-- `uk_item_create`: the items of the nodes, the last one first. Beside each node stands whether
`kzalloc` grants the memory for its item. -/
def ukItemCreate (nodes : List (Bool × KeyNode)) : List KeyItem :=
  nodes.foldl (fun items (granted, node) =>
    match (if granted then ukItemParseDt node items.length else none) with
    | some item => item :: items
    | none => items) []

/-- `uk_find_item_by_name`: `strncmp` over the longer length finds equal names only. -/
def ukFindItemByName (items : List KeyItem) (name : CStr) : Option KeyItem :=
  items.find? fun item => item.name = name

/-! ## Reading and writing -/

/-- `key_storage_read`: the returned code, the bytes copied into the buffer of the caller and the
reported length. -/
def keyStorageRead (s : AmlkeyNormal) (name : CStr) (len flag : UInt32) :
    Except Fault (Int × List UInt8 × Option UInt32) := do
  let attr ← amlkeyGetAttrNormal s (some name)
  if attr &&& keyAttrSecure ≠ 0 then return (-einval, [], none)
  else
    let encrypt := attr &&& keyAttrEncrypt
    let encryptDts : UInt32 := if flag &&& keyAttrEncrypt ≠ 0 then 1 else 0
    if encrypt ≠ encryptDts then return (-einval, [], none)
    else
      let data ← amlkeyReadNormal s (some name) len
      if data.length ≠ len.toNat then return (-einval, data, none)
      else return (0, data, some len)

/-- The attribute under which `key_unify_write` stores a key. -/
def writeAttr (key : KeyItem) : UInt32 :=
  (if key.dev = .secure then keyAttrSecure else 0) |||
    (if key.attr &&& keyAttrEncrypt ≠ 0 then keyAttrEncrypt else 0)

/-- `key_unify_write`; `efuse` is what a write of an efuse key returns. -/
def keyUnifyWrite (env : Env) (write : Option Int) (efuse : Int) (items : List KeyItem) (name : CStr)
    (data : Option (List UInt8)) (len : UInt32) (s : AmlkeyNormal) :
    Except Fault (Int × AmlkeyNormal) :=
  match ukFindItemByName items name with
  | none => .ok (-einval, s)
  | some key =>
    if key.perm &&& keyPermWrite ≠ keyPermWrite then .ok (-eperm, s)
    else match key.dev with
      | .efuse => .ok (efuse, s)
      | .secure | .normal => do
        let (writeLen, s) ← amlkeyWriteNormal env write (some name) data len (writeAttr key) s
        return (if writeLen ≠ len.toNat then -einval else 0, s)
      | .unknownDev => .ok (0, s)

/-- `key_unify_read` into a buffer of `len` bytes, if the caller has one; `efuse` is what a read of an
efuse key gives. -/
def keyUnifyRead (efuse : Int × List UInt8 × Option UInt32) (items : List KeyItem) (name : CStr)
    (data : Bool) (len : UInt32) (s : AmlkeyNormal) :
    Except Fault (Int × List UInt8 × Option UInt32) :=
  if !data then .ok (-einval, [], none)
  else match ukFindItemByName items name with
    | none => .ok (-einval, [], none)
    | some key =>
      if key.perm &&& keyPermRead ≠ keyPermRead then .ok (-eperm, [], none)
      else match key.dev with
        | .efuse => .ok efuse
        | .secure => do
          let (ret, hash) ← amlkeyHashNormal s (some name)
          return (ret, (hash.map Subtype.val).getD [], some sha256SumLen)
        | .normal => keyStorageRead s name len key.attr
        | .unknownDev => .ok (0, [], none)

/-- A sequence of successful writes of keys with other names. -/
inductive OtherWrites (items : List KeyItem) (name : CStr) : AmlkeyNormal → AmlkeyNormal → Prop
  | refl (s : AmlkeyNormal) : OtherWrites items name s s
  | step {s s1 s2 : AmlkeyNormal} (env : Env) (write : Option Int) (efuse : Int) (name' : CStr)
    (data : Option (List UInt8)) (len : UInt32) : OtherWrites items name s s1 → name' ≠ name →
    keyUnifyWrite env write efuse items name' data len s1 = .ok (0, s2) →
    OtherWrites items name s s2

end Amlogic.Unifykey
