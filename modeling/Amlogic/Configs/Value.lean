import Amlogic.Base.Text

/-!
# Config entries and their text (`configs.c`)

An entry holds its value in a union of eight bytes, or holds there a pointer to it. It is shown to
the user as text (`configs_config2str`) and set from text (`configs_str2config`).
-/

namespace Amlogic.Configs

inductive ConfigType where
  | pi32 | pu32 | pu64 | pbool | pstr | pcstr | i32 | u32 | u64 | bool | func | other
  deriving DecidableEq, Repr

structure Mconfig where
  type : ConfigType
  itemName : List UInt8
  /-- The first eight bytes of the union, a value or a pointer. -/
  data : BitVec 64
  /-- The object a pointer to a number leads to, in its low bytes. -/
  object : BitVec 64 := 0
  str : List UInt8 := []
  /-- What the callbacks of a trigger return. -/
  fGet : Option (Int → Int × List UInt8) := none
  fSet : Option (List UInt8 → Int) := none
  size : Nat := 0

namespace Mconfig

def u32val (c : Mconfig) : BitVec 32 := c.data.setWidth 32
def boolval (c : Mconfig) : Bool := c.data.setWidth 8 ≠ 0
def pu32val (c : Mconfig) : BitVec 32 := c.object.setWidth 32
def pboolval (c : Mconfig) : Bool := c.object.setWidth 8 ≠ 0

end Mconfig

def setLow32 (x : BitVec 64) (v : BitVec 32) : BitVec 64 := x.extractLsb' 32 32 ++ v

def setLowBool (x : BitVec 64) (v : Bool) : BitVec 64 := x.extractLsb' 8 56 ++ (if v then 1 else 0 : BitVec 8)

def textTrue : List UInt8 := [0x74, 0x72, 0x75, 0x65]
def textFalse : List UInt8 := [0x66, 0x61, 0x6c, 0x73, 0x65]
def textTRUE : List UInt8 := [0x54, 0x52, 0x55, 0x45]
def textFALSE : List UInt8 := [0x46, 0x41, 0x4c, 0x53, 0x45]
def textFalse' : List UInt8 := [0x46, 0x61, 0x6c, 0x73, 0x65]
def text0x : List UInt8 := [0x30, 0x78]

def boolText (b : Bool) : List UInt8 := if b then textTrue else textFalse

/-! ## From an entry to text -/

/-- `snprintf`: the length of the text, and what of it is in the buffer. -/
def snprintf (size : Nat) (text : List UInt8) : Int × List UInt8 := (text.length, text.take (size - 1))

/-- The text that the switch of `configs_config2str` prints for a value or a string. -/
def configText (c : Mconfig) : List UInt8 :=
  match c.type with
  | .pbool => boolText c.pboolval
  | .pi32 => printNat 10 c.pu32val.toNat
  | .pu32 => printInt c.pu32val.toInt
  | .pu64 => printNat 16 c.object.toNat
  | .pstr | .pcstr => c.str
  -- the pointer of the union is tested, not the boolean
  | .bool => boolText (c.data ≠ 0)
  | .i32 => printInt c.u32val.toInt
  | .u32 => printNat 10 c.u32val.toNat
  | .u64 => text0x ++ printNat 16 c.data.toNat
  | .func | .other => []

/-- The switch of `configs_config2str`. -/
def printConfig (c : Mconfig) (size : Nat) : Int × List UInt8 :=
  match c.type with
  | .func =>
    match c.fGet with
    | none => (0, [])
    | some f => f size
  | .other => (-4, [])
  | _ => snprintf size (configText c)

/-- `configs_config2str`: the result and the text in the buffer. -/
def configsConfig2str (c : Mconfig) (size : Int) : Int × List UInt8 :=
  if size < 1 then (0, [])
  else
    let (ret, text) := printConfig c size.toNat
    if ret ≤ 0 then (ret, text)
    else if ret ≥ size then (size - 1, text.take (size.toNat - 1))
    else (ret, text)

/-! ## From text to an entry -/

def hasPair (x y : UInt8) : List UInt8 → Bool
  | c :: d :: s => (c = x && d = y) || hasPair x y (d :: s)
  | _ => false

/-- The parser of a number of `w` bits: the result, and the number if there is one; `neg` is what is
stored for a number behind a minus. -/
def parseValue (w : Nat) (neg : Int → BitVec w) (str : List UInt8) : Except Fault (Int × BitVec w) := do
  if str.length ≤ 0 then return (0, 0)
  let pstr := str.dropWhile (· = charSpace)
  if pstr.head? = some charMinus then
    match ← scanInt (pstr.drop 1 ++ [0]) with
    | none => return (0, 0)
    | some val => return (1, neg val)
  else if hasPair 0x30 0x78 pstr then
    match ← scanLiteral text0x (pstr ++ [0]) with
    | none => return (0, 0)
    | some rest =>
      match ← scanHex rest with
      | none => return (0, 0)
      | some val => return (1, BitVec.ofNat w val)
  else
    match ← kstrtou w (pstr ++ [0]) 0 with
    | .error e => return (e, 0)
    | .ok val => return (1, BitVec.ofNat w val)

def configsParserValueU32 (str : List UInt8) : Except Fault (Int × BitVec 32) :=
  parseValue 32 (fun val => -BitVec.ofInt 32 val) str

/-- `configs_parser_value_u64`, whose negation is one of `int`. -/
def configsParserValueU64 (str : List UInt8) : Except Fault (Int × BitVec 64) :=
  parseValue 64 (fun val => (-BitVec.ofInt 32 val).signExtend 64) str

/-- `configs_parser_value_bool`. The test for `false` lacks its negation. -/
def configsParserValueBool (str : List UInt8) : Int × Bool :=
  if str.length ≤ 0 then (0, false)
  else if str.head? = some 0x31 then (1, true)
  else if str.head? = some 0x30 then (1, false)
  else if str = textTrue ∨ str = textTRUE ∨ str = textTrue then (1, true)
  else if str ≠ textFalse ∨ str = textFALSE ∨ str = textFalse' then (1, false)
  else (0, false)

/-- The string in the destination after `strncpy` of `n` characters: without room for the terminator
the old string goes on behind them. -/
def strncpy (dst src : List UInt8) (n : Nat) : List UInt8 :=
  if src.length < n then src else src.take n ++ dst.drop n

/-- `configs_str2config`: the result, and the entry after the call. -/
def configsStr2config (c : Mconfig) (str : List UInt8) : Except Fault (Int × Mconfig) := do
  if str.length ≤ 0 then return (0, c)
  match c.type with
  | .pbool =>
    let (ret, bval) := configsParserValueBool str
    return (ret, if ret ≤ 0 then c else { c with object := setLowBool c.object bval })
  | .bool =>
    let (ret, bval) := configsParserValueBool str
    return (ret, if ret ≤ 0 then c else { c with data := setLowBool c.data bval })
  | .pi32 | .pu32 =>
    let (ret, val) ← configsParserValueU32 str
    return (ret, if ret > 0 then { c with object := setLow32 c.object val } else c)
  | .pu64 =>
    let (ret, val) ← configsParserValueU64 str
    return (ret, if ret > 0 then { c with object := val } else c)
  | .pstr =>
    let copied := strncpy c.str str c.size
    return (copied.length, { c with str := copied })
  | .i32 | .u32 =>
    let (ret, val) ← configsParserValueU32 str
    return (ret, if ret > 0 then { c with data := setLow32 c.data val } else c)
  | .u64 =>
    let (ret, val) ← configsParserValueU64 str
    return (ret, if ret > 0 then { c with data := val } else c)
  | .func =>
    match c.fSet with
    | none => return (-1, c)
    | some f => return (f str, c)
  | .pcstr | .other => return (-4, c)

/-! ## Values in the caller's memory -/

/-- What the caller's pointer leads to, as a number and as a string. -/
structure UserVal where
  num : BitVec 64 := 0
  text : List UInt8 := []

/-- `configs_setget_config_value`: the result, the entry and the caller's memory after the call. The
union is read as a pointer first, whatever the type of the entry. -/
def configsSetgetConfigValue (c : Mconfig) (valSet valGet : Option UserVal) (size : Int) (set : Bool) :
    Int × Mconfig × Option UserVal :=
  match if c.data = 0 then none else if set then valSet else valGet with
  | none => (-1, c, valGet)
  | some v =>
    match c.type with
    | .pu32 | .pi32 =>
      if size < 4 then (-2, c, valGet)
      else if set then (4, { c with object := setLow32 c.object (v.num.setWidth 32) }, valGet)
      else (4, c, some { v with num := setLow32 v.num c.pu32val })
    | .pu64 =>
      if size < 8 then (-2, c, valGet)
      else if set then (8, { c with object := v.num }, valGet)
      else (8, c, some { v with num := c.object })
    | .pcstr | .pstr =>
      if set ∧ c.type = .pcstr then (-3, c, valGet)
      else
        let n := min (size - 1) (c.size - 1)
        if n > 0 then
          if set then (n, { c with str := strncpy c.str v.text n.toNat }, valGet)
          else (n, c, some { v with text := strncpy v.text c.str n.toNat })
        else (-3, c, valGet)
    | .u32 | .i32 =>
      if size < 4 then (-2, c, valGet)
      else if set then (4, { c with data := setLow32 c.data (v.num.setWidth 32) }, valGet)
      else (4, c, some { v with num := setLow32 v.num c.u32val })
    | .u64 =>
      if size < 8 then (-2, c, valGet)
      else if set then (8, { c with data := v.num }, valGet)
      else (8, c, some { v with num := c.data })
    | .pbool | .bool | .func | .other => (-4, c, valGet)

end Amlogic.Configs
