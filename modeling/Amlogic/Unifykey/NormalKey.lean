import Amlogic.Base.Bytes

/-!
# The normal key store (`unifykey/normal_key.c`)

The driver keeps its keys in a list of objects in memory. `normalkeyWritetoblock` lays the list out
in a block: 512 bytes of raw head (a mark, counters and two hashes), 512 bytes of encoded head, and
from offset 1024 on one tag-length-value record per object. `normalkeyReadfromblock` rebuilds the
list from such a block.

Pointers into the block are offsets. `int32_t` lengths are integers, `u32` cursors are naturals with
the wrap-around of C written out. What the kernel provides (memory, SHA-256) is the parameter `Env`.
-/

namespace Amlogic.Unifykey

/-- The services of the kernel that one call of the driver uses. Memory requests are numbered
within the call. -/
structure Env where
  sha256 : List UInt8 → Bytes 32
  /-- Does the memory request with this number, for this many bytes, succeed? -/
  kmalloc : Nat → Nat → Bool
  /-- Can the digest with this number be computed (its transform and descriptor be allocated)? -/
  shash : Nat → Bool

/-- A C string: the bytes before the terminating zero. -/
abbrev CStr := { l : List UInt8 // 0 ∉ l }

/-- The bytes before the first zero of a character array. -/
def cstr (l : List UInt8) : List UInt8 := l.takeWhile (· ≠ 0)

/-! ## Constants -/

def storageBlockRawHeadSize : Nat := 512
def storageBlockEncHeadSize : Nat := 512
def maxObjNameLen : Nat := 80
def objAttrSecure : UInt32 := 1
def objTypeGeneric : UInt32 := 0xA00000BF

def errHeader : UInt32 := 0x1
def errKeymemfail : UInt32 := 0x2
def errKeyrdfail : UInt32 := 0x4
def errKeychkfail : UInt32 := 0x8
def errEnchdfail : UInt32 := 0x10
def errDatasz : UInt32 := 0x20

/-- `blockmark`, the string "AMLNORMAL". -/
def blockmark : List UInt8 := [65, 77, 76, 78, 79, 82, 77, 65, 76]

inductive EmTLVTag where
  | none | head | headsize | object | objnamesize | objname | objdatasize | objdatabuf | objtype
  | objattr | objhashbuf | headflashsize
  deriving Repr, DecidableEq

def EmTLVTag.code : EmTLVTag → UInt32
  | none => 0 | head => 1 | headsize => 2 | object => 3 | objnamesize => 4 | objname => 5
  | objdatasize => 6 | objdatabuf => 7 | objtype => 8 | objattr => 9 | objhashbuf => 10
  | headflashsize => 11

def EmTLVTag.ofCode (c : UInt32) : Option EmTLVTag :=
  [none, head, headsize, object, objnamesize, objname, objdatasize, objdatabuf, objtype, objattr,
    objhashbuf, headflashsize].find? (fun t => t.code = c)

/-! ## Data -/

structure RawHead where
  mark : Bytes 16
  version : UInt32
  enctype : UInt32
  keycnt : UInt32
  initcnt : UInt32
  wrtcnt : UInt32
  errcnt : UInt32
  flags : UInt32
  headhash : Bytes 32
  hash : Bytes 32
  deriving DecidableEq

/-- The bytes of a raw head that its head hash covers: all but the two hashes. -/
def RawHead.hashed (h : RawHead) : List UInt8 :=
  h.mark.1 ++ (le32 h.version ++ (le32 h.enctype ++ (le32 h.keycnt ++ (le32 h.initcnt ++
    (le32 h.wrtcnt ++ (le32 h.errcnt ++ le32 h.flags))))))

def RawHead.bytes (h : RawHead) : List UInt8 := h.hashed ++ (h.headhash.1 ++ h.hash.1)

structure EncHead where
  blocksize : UInt32
  flashsize : UInt32
  deriving DecidableEq

/-- `struct storage_object`. The buffer behind `dataptr` is a list as long as its allocation. -/
structure StorageObject where
  name : Bytes 80
  namesize : UInt32
  attr : UInt32
  type : UInt32
  datasize : UInt32
  dataptr : Option (List UInt8)
  hashptr : Bytes 32
  deriving DecidableEq

def StorageObject.zero : StorageObject := ⟨.zero 80, 0, 0, 0, 0, none, .zero 32⟩

def storageNodeSize : Nat := 152

/-- The static variables of the driver. -/
structure NormalKey where
  keys : List StorageObject
  blockinited : Nat
  rawhead : RawHead
  enchead : EncHead

/-! ## Writing records -/

/-- `Tlv_WriteUint32`: the bytes used (0 when there is no room) and the block. -/
def tlvWriteUint32 (m : List UInt8) (output : Nat) (len : Int) (tag value : UInt32) :
    Except Fault (Nat × List UInt8) :=
  if len < 12 then .ok (0, m)
  else do
    let m ← store m output (le32 tag)
    let m ← store m (output + 4) (le32 4)
    let m ← store m (output + 8) (le32 value)
    return (12, m)

/-- `Tlv_WriteBuf`: the length is rounded up to whole words and the rest is filled with zeros. -/
def tlvWriteBuf (m : List UInt8) (output : Nat) (len : Int) (tag : UInt32) (length : Nat)
    (input : List UInt8) : Except Fault (Nat × List UInt8) :=
  let tmplen := u32 ((length + 3) / 4 * 4)
  if len < s32 (8 + tmplen) then .ok (0, m)
  else do
    let m ← store m output (le32 tag)
    let m ← store m (output + 4) (le32 (UInt32.ofNat tmplen))
    let m ← store m (output + 8) (List.replicate tmplen 0)
    let data ← load input 0 length
    let m ← store m (output + 8) data
    return (u32 (tmplen + 8), m)

/-- The block and the cursor of a record group that is being written. -/
structure WrtState where
  mem : List UInt8
  idx : Nat

/-- A step of a record group: whether it found room, and the state after it. -/
abbrev Wrt := WrtState → Except Fault (Bool × WrtState)

def wrtUint32 (output : Nat) (len : Int) (tag : EmTLVTag) (value : UInt32) : Wrt := fun w => do
  let (tmp, m) ← tlvWriteUint32 w.mem (output + w.idx) (s32 (len - w.idx)) tag.code value
  return (tmp ≠ 0, ⟨m, u32 (w.idx + tmp)⟩)

def wrtBuf (output : Nat) (len : Int) (tag : EmTLVTag) (buflen : Nat) (buf : List UInt8) : Wrt :=
  fun w => do
    let (tmp, m) ← tlvWriteBuf w.mem (output + w.idx) (s32 (len - w.idx)) tag.code buflen buf
    return (tmp ≠ 0, ⟨m, u32 (w.idx + tmp)⟩)

def Wrt.skip : Wrt := fun w => .ok (true, w)

/-- Two steps, the second only if the first found room (`if (!...) return 0`). -/
def Wrt.andThen (f g : Wrt) : Wrt := fun w => do
  let (ok, w) ← f w
  if ok then g w else return (false, w)

/-- A record group with the given tag: its header, the records of `body`, and last the length field,
which stays unset when a record finds no room. -/
def tlvWriteGroup (tag : EmTLVTag) (body : Wrt) (m : List UInt8) (output : Nat) (len : Int) :
    Except Fault (Nat × List UInt8) :=
  if len < 8 then .ok (0, m)
  else do
    let m ← store m output (le32 tag.code)
    let (ok, w) ← body ⟨m, 8⟩
    if ok then
      let m ← store w.mem (output + 4) (le32 (UInt32.ofNat (u32 (w.idx + (2 ^ 32 - 8)))))
      return (w.idx, m)
    else return (0, w.mem)

def tlvWriteHead (h : EncHead) (m : List UInt8) (output : Nat) (len : Int) :
    Except Fault (Nat × List UInt8) :=
  tlvWriteGroup .head
    ((wrtUint32 output len .headsize h.blocksize).andThen
      (wrtUint32 output len .headflashsize h.flashsize))
    m output len

/-- The name records of an object; an empty name has none. -/
def wrtName (o : StorageObject) (output : Nat) (len : Int) : Wrt :=
  if o.namesize ≠ 0 then
    (wrtUint32 output len .objnamesize o.namesize).andThen
      (wrtBuf output len .objname o.namesize.toNat o.name.1)
  else .skip

/-- The data records of an object; an object without data has none. -/
def wrtData (o : StorageObject) (output : Nat) (len : Int) : Wrt :=
  match o.dataptr with
  | some data =>
    if o.datasize ≠ 0 then
      (wrtUint32 output len .objdatasize o.datasize).andThen
        (wrtBuf output len .objdatabuf o.datasize.toNat data)
    else .skip
  | none => .skip

def tlvWriteObject (o : StorageObject) (m : List UInt8) (output : Nat) (len : Int) :
    Except Fault (Nat × List UInt8) :=
  tlvWriteGroup .object
    ((wrtName o output len).andThen ((wrtData o output len).andThen
      ((wrtBuf output len .objhashbuf 32 o.hashptr.1).andThen
        ((wrtUint32 output len .objtype o.type).andThen
          (wrtUint32 output len .objattr o.attr)))))
    m output len

/-! ## Reading records -/

/-- `Tlv_ReadTl`: the tag and the length at `input`, or nothing when the record does not fit into
`len` bytes. -/
def tlvReadTl (m : List UInt8) (input : Nat) (len : Int) : Except Fault (Option (UInt32 × UInt32)) :=
  if len < 8 then .ok none
  else do
    let tag ← load32 m input
    let length ← load32 m (input + 4)
    return if (8 + length.toNat : Int) > len then none else some (tag, length)

/-- The `switch` of `Tlv_ReadHead`; `input` is the offset of the value. -/
def readHeadField (m : List UInt8) (input : Nat) (tag : UInt32) (h : EncHead) :
    Except Fault EncHead :=
  match EmTLVTag.ofCode tag with
  | some .headsize => return { h with blocksize := ← load32 m input }
  | some .headflashsize => return { h with flashsize := ← load32 m input }
  | _ => .ok h

def readHeadLoop (m : List UInt8) (input : Nat) (len : Int) (sum : Nat) :
    Nat → Nat → EncHead → Except Fault (Nat × EncHead)
  | 0, _, _ => .error .fuel
  | fuel + 1, idx, h =>
    if idx < sum then do
      match ← tlvReadTl m (input + idx) (s32 (len - idx)) with
      | none => return (0, h)
      | some (tag, length) =>
        let h ← readHeadField m (input + u32 (idx + 8)) tag h
        readHeadLoop m input len sum fuel (u32 (u32 (idx + 8) + length.toNat)) h
    else .ok (sum, h)

/-- `Tlv_ReadHead`: the bytes used (0 on failure) and the head, of which fields without a record
keep their value. -/
def tlvReadHead (m : List UInt8) (input : Nat) (len : Int) (h : EncHead) :
    Except Fault (Nat × EncHead) := do
  match ← tlvReadTl m input len with
  | none => return (0, h)
  | some (tag, length) =>
    if tag ≠ EmTLVTag.head.code then return (0, h)
    else
      let sum := u32 (length.toNat + 8)
      readHeadLoop m input len sum (sum + 1) 8 h

/-- The `switch` of `Tlv_ReadObject`; `input` is the offset of the value and `k` the number of the
next memory request. Nothing when the code jumps to its error exit. -/
def readObjectField (env : Env) (m : List UInt8) (input : Nat) (tag length : UInt32)
    (o : StorageObject) (k : Nat) : Except Fault (Option (StorageObject × Nat)) :=
  match EmTLVTag.ofCode tag with
  | some .objnamesize => return some ({ o with namesize := ← load32 m input }, k)
  | some .objname => do
    let src ← load m input o.namesize.toNat
    let name ← store (Bytes.zero maxObjNameLen).1 0 src
    -- a copy that stays inside the array keeps its length
    if h : name.length = 80 then return some ({ o with name := ⟨name, h⟩ }, k)
    else .error .access
  | some .objtype => return some ({ o with type := ← load32 m input }, k)
  | some .objattr => return some ({ o with attr := ← load32 m input }, k)
  | some .objdatasize => return some ({ o with datasize := ← load32 m input }, k)
  | some .objhashbuf => do
    if length ≠ 32 then return none
    let src ← load m input 32
    if h : src.length = 32 then return some ({ o with hashptr := ⟨src, h⟩ }, k)
    else .error .access
  | some .objdatabuf =>
    if env.kmalloc k o.datasize.toNat then do
      let src ← load m input o.datasize.toNat
      return some ({ o with dataptr := some src }, k + 1)
    else .ok none
  | _ => .ok (some (o, k))

def readObjectLoop (env : Env) (m : List UInt8) (input : Nat) (len : Int) (sum : Nat) :
    Nat → Nat → StorageObject → Nat → Except Fault (Nat × StorageObject × Nat)
  | 0, _, _, _ => .error .fuel
  | fuel + 1, idx, o, k =>
    if idx < sum then do
      match ← tlvReadTl m (input + idx) (s32 (len - idx)) with
      | none => return (0, o, k)
      | some (tag, length) =>
        match ← readObjectField env m (input + u32 (idx + 8)) tag length o k with
        | none => return (0, o, k)
        | some (o, k) =>
          readObjectLoop env m input len sum fuel (u32 (u32 (idx + 8) + length.toNat)) o k
    else .ok (sum, o, k)

/-- `Tlv_ReadObject`: the bytes used (0 on failure), the object, and the number of the next memory
request. -/
def tlvReadObject (env : Env) (m : List UInt8) (input : Nat) (len : Int) (k : Nat) :
    Except Fault (Nat × StorageObject × Nat) := do
  match ← tlvReadTl m input len with
  | none => return (0, .zero, k)
  | some (tag, length) =>
    if tag ≠ EmTLVTag.object.code then return (0, .zero, k)
    else
      let sum := u32 (length.toNat + 8)
      readObjectLoop env m input len sum (sum + 1) 8 .zero k

/-! ## The key list -/

/-- `normalkey_hash`: the digest, or zeros when it cannot be computed. No caller looks at the
returned error code. -/
def normalkeyHash (env : Env) (k : Nat) (data : List UInt8) : Bytes 32 :=
  if env.shash k then env.sha256 data else .zero 32

def normalkeyInit (s : NormalKey) : Int × NormalKey :=
  if s.blockinited ≠ 0 then (-1, s) else (0, { s with blockinited := 1 })

def normalkeyDeinit (s : NormalKey) : NormalKey :=
  if s.blockinited = 0 then s else { s with blockinited := 0, keys := [] }

/-- The test of `normalkey_get`: the lengths agree and `memcmp` finds no difference. -/
def keyMatches (name : CStr) (o : StorageObject) : Except Fault Bool :=
  if name.1.length = o.namesize.toNat then
    return (← load o.name.1 0 o.namesize.toNat) = name.1
  else .ok false

/-- The search of `normalkey_get`: the position of the first object with the name. -/
def findKey (name : CStr) : List StorageObject → Except Fault (Option Nat)
  | [] => .ok none
  | o :: os => do
    if ← keyMatches name o then return some 0
    else return (← findKey name os).map (· + 1)

def normalkeyGet (s : NormalKey) (name : Option CStr) : Except Fault (Option StorageObject) :=
  match name with
  | none => .ok none
  | some name => return (← findKey name s.keys).bind (s.keys[·]?)

/-- The name array of a new object. Its bytes past the name are never read. -/
def newName (name : List UInt8) : Bytes 80 :=
  ⟨(name ++ List.replicate 80 0).take 80, by simp⟩

/-- The end of `normalkey_add`: the data, its size and its hash are stored in the object. -/
def fillObject (env : Env) (k : Nat) (buffer : List UInt8) (len : UInt32) (o : StorageObject)
    (dataptr : List UInt8) : Except Fault StorageObject := do
  let src ← load buffer 0 len.toNat
  let dataptr ← store dataptr 0 src
  return { o with datasize := len, dataptr := some dataptr, hashptr := normalkeyHash env k src }

/-- The branch of `normalkey_add` for a key that exists: its buffer is reused unless it is too
small. -/
def updateKey (env : Env) (buffer : List UInt8) (len attr : UInt32) (i : Nat) (o : StorageObject)
    (s : NormalKey) : Except Fault (Int × NormalKey) :=
  if attr ≠ o.attr then .ok (-1, s)
  else if len > o.datasize then
    if env.kmalloc 0 len.toNat then do
      let o ← fillObject env 1 buffer len o (List.replicate len.toNat 0)
      return (0, { s with keys := s.keys.set i o })
    else .ok (-1, s)
  else do
    let o ← fillObject env 0 buffer len o (o.dataptr.getD [])
    return (0, { s with keys := s.keys.set i o })

def insertKey (env : Env) (name : CStr) (buffer : List UInt8) (len attr : UInt32) (s : NormalKey) :
    Except Fault (Int × NormalKey) :=
  if !env.kmalloc 0 storageNodeSize then .ok (-1, s)
  else if !env.kmalloc 1 len.toNat then .ok (-1, s)
  else do
    let o : StorageObject :=
      { name := newName name.1, namesize := UInt32.ofNat name.1.length, attr := attr,
        type := objTypeGeneric, datasize := 0, dataptr := none, hashptr := .zero 32 }
    let o ← fillObject env 2 buffer len o (List.replicate len.toNat 0)
    return (0, { s with keys := o :: s.keys })

def normalkeyAdd (env : Env) (name : Option CStr) (buffer : Option (List UInt8)) (len attr : UInt32)
    (s : NormalKey) : Except Fault (Int × NormalKey) :=
  if s.blockinited ≠ 2 then .ok (-1, s)
  else match name, buffer with
    | some name, some buffer =>
      if len = 0 ∨ attr &&& objAttrSecure ≠ 0 then .ok (-1, s)
      else if maxObjNameLen < name.1.length then .ok (-1, s)
      else do
        match ← findKey name s.keys with
        | some i =>
          match s.keys[i]? with
          | some o => updateKey env buffer len attr i o s
          | none => .error .access
        | none => insertKey env name buffer len attr s
    | _, _ => .ok (-1, s)

def normalkeyDel (name : Option CStr) (s : NormalKey) : Except Fault (Int × NormalKey) :=
  if s.blockinited ≠ 2 then .ok (-1, s)
  else match name with
    | none => .ok (-1, s)
    | some name => do
      match ← findKey name s.keys with
      | none => return (-1, s)
      | some i => return (0, { s with keys := s.keys.eraseIdx i })

/-! ## Blocks -/

/-- The data of an object that is hashed: `datasize` bytes behind `dataptr`. -/
def objectData (o : StorageObject) : Except Fault (List UInt8) :=
  load (o.dataptr.getD []) 0 o.datasize.toNat

/-- The object loop of `normalkey_readfromblock`. `node` tells whether a node is left over from an
object that failed its hash; `k` counts the requests to the kernel. The result is the key list and
the error flags. -/
def readObjects (env : Env) (m : List UInt8) (blocksize : Nat) :
    Nat → Nat → Nat → Bool → List StorageObject → UInt32 →
      Except Fault (List StorageObject × UInt32)
  | 0, _, _, _, _, _ => .error .fuel
  | fuel + 1, idx, k, node, keys, flags =>
    if idx < blocksize then
      if !node && !env.kmalloc k storageNodeSize then .ok (keys, flags ||| errKeymemfail)
      else do
        let pdata := storageBlockRawHeadSize + storageBlockEncHeadSize
        let (ret, o, k) ← tlvReadObject env m (pdata + idx) (s32 (blocksize - idx)) (k + 1)
        if ret = 0 then return (keys, flags ||| errKeyrdfail)
        else
          let idx := u32 (idx + ret)
          let data ← objectData o
          if normalkeyHash env k data ≠ o.hashptr then
            readObjects env m blocksize fuel idx (k + 1) true keys (flags ||| errKeychkfail)
          else readObjects env m blocksize fuel idx (k + 1) false (o :: keys) flags
    else .ok (keys, flags)

def loadRawHead (m : List UInt8) : Except Fault RawHead := do
  let mark ← load m 0 16
  let version ← load32 m 16
  let enctype ← load32 m 20
  let keycnt ← load32 m 24
  let initcnt ← load32 m 28
  let wrtcnt ← load32 m 32
  let errcnt ← load32 m 36
  let flags ← load32 m 40
  let headhash ← load m 44 32
  let hash ← load m 76 32
  if h : mark.length = 16 ∧ headhash.length = 32 ∧ hash.length = 32 then
    return ⟨⟨mark, h.1⟩, version, enctype, keycnt, initcnt, wrtcnt, errcnt, flags,
      ⟨headhash, h.2.1⟩, ⟨hash, h.2.2⟩⟩
  else .error .access

/-- The raw head after `memset` and `strncpy` of the mark. -/
def freshRawHead : RawHead :=
  ⟨⟨blockmark ++ List.replicate 7 0, by decide⟩, 0, 0, 0, 0, 0, 0, 0, .zero 32, .zero 32⟩

/-- The head part of `normalkey_readfromblock`: the counters of the block are taken over when its
head hash is right. -/
def readRawHead (env : Env) (m : List UInt8) (p : RawHead) : Except Fault RawHead := do
  let headhash := normalkeyHash env 0 (← load m 0 44)
  let h :=
    if headhash ≠ p.headhash then
      { freshRawHead with headhash := headhash, flags := errHeader }
    else
      { freshRawHead with
        headhash := headhash, keycnt := p.keycnt, initcnt := p.initcnt, wrtcnt := p.wrtcnt,
        errcnt := p.errcnt, flags := p.flags }
  return { h with initcnt := h.initcnt + 1 }

/-- The part of `normalkey_readfromblock` behind the mark check. -/
def readBlock (env : Env) (m : List UInt8) (size : Nat) (p : RawHead) (s : NormalKey) :
    Except Fault NormalKey := do
  let h ← readRawHead env m p
  let hash := normalkeyHash env 1
    (← load m storageBlockRawHeadSize (u32 (size - storageBlockRawHeadSize)))
  let h := { h with hash := hash }
  if hash ≠ p.hash then
    return { s with rawhead := { h with errcnt := h.errcnt + 1 } }
  else
    let (ret, enchead) ← tlvReadHead m storageBlockRawHeadSize storageBlockEncHeadSize s.enchead
    let s := { s with enchead := enchead }
    if ret = 0 then
      return { s with rawhead := { h with flags := h.flags ||| errEnchdfail } }
    else if size < u32 (enchead.blocksize.toNat + storageBlockEncHeadSize + storageBlockRawHeadSize)
    then return { s with rawhead := { h with flags := h.flags ||| errDatasz } }
    else
      let (keys, flags) ← readObjects env m enchead.blocksize.toNat (enchead.blocksize.toNat + 1)
        0 2 false s.keys h.flags
      return { s with keys := keys, rawhead := { h with flags := flags } }

def normalkeyReadfromblock (env : Env) (block : Option (List UInt8)) (size : Nat) (s : NormalKey) :
    Except Fault (Int × NormalKey) :=
  if s.blockinited ≠ 1 then .ok (-1, s)
  else match block with
    | none => .ok (-1, s)
    | some m =>
      if size ≤ storageBlockEncHeadSize + storageBlockRawHeadSize then .ok (-1, s)
      else do
        let s := { s with
          blockinited := 2
          rawhead := freshRawHead
          enchead := { s.enchead with flashsize := UInt32.ofNat (u32 size) } }
        let p ← loadRawHead m
        if cstr p.mark.1 ≠ blockmark then return (0, s)
        else return (0, ← readBlock env m size p s)

/-- The list walk of `normalkey_writetoblock` over a block with `size` bytes for objects: whether
all objects found room, the cursor, the number of keys and the block. -/
def writeObjects (size : Nat) :
    List StorageObject → Nat → UInt32 → List UInt8 →
      Except Fault (Bool × Nat × UInt32 × List UInt8)
  | [], idx, keycnt, m => .ok (true, idx, keycnt, m)
  | o :: os, idx, keycnt, m => do
    let pdata := storageBlockRawHeadSize + storageBlockEncHeadSize
    let (ret, m) ← tlvWriteObject o m (pdata + idx) (s32 ((size : Int) - idx))
    if ret = 0 then return (false, idx, keycnt, m)
    else writeObjects size os (u32 (idx + ret)) (keycnt + 1) m

/-- The end of `normalkey_writetoblock`: the encoded head, both hashes and the raw head. -/
def writeHeads (env : Env) (m : List UInt8) (s : NormalKey) :
    Except Fault (Int × NormalKey × List UInt8) := do
  let (ret, m) ← tlvWriteHead s.enchead m storageBlockRawHeadSize storageBlockEncHeadSize
  if ret = 0 then return (-1, s, m)
  else
    let h := { s.rawhead with wrtcnt := s.rawhead.wrtcnt + 1 }
    let h := { h with headhash := normalkeyHash env 0 h.hashed }
    let data ← load m storageBlockRawHeadSize
      (u32 (s.enchead.flashsize.toNat + (2 ^ 32 - storageBlockRawHeadSize)))
    let h := { h with hash := normalkeyHash env 1 data }
    let m ← store m 0 h.bytes
    return (0, { s with rawhead := h }, m)

/-- `normalkey_writetoblock`: the returned code, the state and the block. -/
def normalkeyWritetoblock (env : Env) (block : Option (List UInt8)) (size : Nat) (s : NormalKey) :
    Except Fault (Int × NormalKey × Option (List UInt8)) :=
  if s.blockinited ≠ 2 then .ok (-1, s, block)
  else match block with
    | none => .ok (-1, s, none)
    | some m =>
      if size ≤ storageBlockEncHeadSize + storageBlockRawHeadSize then .ok (-1, s, some m)
      else do
        let s := { s with enchead := { s.enchead with flashsize := UInt32.ofNat (u32 size) } }
        let (ok, idx, keycnt, m) ← writeObjects
          (size - (storageBlockEncHeadSize + storageBlockRawHeadSize)) s.keys 0 0 m
        let s := { s with rawhead := { s.rawhead with keycnt := keycnt } }
        if !ok then return (-1, s, some m)
        else
          let s := { s with enchead := { s.enchead with blocksize := UInt32.ofNat idx } }
          let (ret, s, m) ← writeHeads env m s
          return (ret, s, some m)

/-! ## Sequences of calls -/

inductive KeyCall where
  | add (name : Option CStr) (buffer : Option (List UInt8)) (len attr : UInt32)
  | del (name : Option CStr)

def KeyCall.run (env : Env) (s : NormalKey) : KeyCall → Except Fault NormalKey
  | add name buffer len attr => return (← normalkeyAdd env name buffer len attr s).2
  | del name => return (← normalkeyDel name s).2

def runCalls (env : Env) (calls : List KeyCall) (s : NormalKey) : Except Fault NormalKey :=
  calls.foldlM (KeyCall.run env) s

/-- The static variables when the module is loaded. -/
def NormalKey.initial : NormalKey :=
  ⟨[], 0, ⟨.zero 16, 0, 0, 0, 0, 0, 0, 0, .zero 32, .zero 32⟩, ⟨0, 0⟩⟩

/-- The states that the calls of the store lead to. -/
inductive Reachable : NormalKey → Prop
  | initial : Reachable .initial
  | init {s : NormalKey} : Reachable s → Reachable (normalkeyInit s).2
  | deinit {s : NormalKey} : Reachable s → Reachable (normalkeyDeinit s)
  | call {s s' : NormalKey} (env : Env) (c : KeyCall) :
    Reachable s → c.run env s = .ok s' → Reachable s'
  | read {s s' : NormalKey} {r : Int} (env : Env) (block : Option (List UInt8)) (size : Nat) :
    Reachable s → normalkeyReadfromblock env block size s = .ok (r, s') → Reachable s'
  | write {s s' : NormalKey} {r : Int} {out : Option (List UInt8)} (env : Env)
    (block : Option (List UInt8)) (size : Nat) :
    Reachable s → normalkeyWritetoblock env block size s = .ok (r, s', out) → Reachable s'

end Amlogic.Unifykey
