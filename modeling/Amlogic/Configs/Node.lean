import Amlogic.Configs.Value

/-!
# The tree of config nodes (`configs.c`)

Nodes hang below a root; each has sons, entries and a count of the calls that use it. A path such as
`media.decoder.h264.size` is followed from the root or from a top node: every node on the way is
counted up (`configs_get_node_with_name`) and is to be counted down again by `configs_put_node`, which
climbs along the parents. What the rounds of the loops get from the path is a datum of its own
(`Parts`), since it does not depend on the tree.
-/

namespace Amlogic.Configs

abbrev NodeId := Nat

def rootNode : NodeId := 0

/-- `struct mconfig_node`; `rwFlags` has the bits `CONFIG_FOR_R`, `CONFIG_FOR_W` and `CONFIG_FOR_T`. -/
structure Node where
  pathPrefix : List UInt8 := []
  name : List UInt8
  active : Bool := true
  depth : Nat := 0
  parentNode : Option NodeId := none
  sons : List NodeId := []
  configs : Option (List Mconfig) := none
  rwFlags : BitVec 32 := 3

/-- The nodes, and their counts `ref_cnt`. -/
structure Tree where
  node : NodeId → Node
  refCnt : NodeId → BitVec 32

def maxDepth : Nat := 8
def maxItemName : Nat := 128
def maxPrefixName : Nat := 128
def configForR : BitVec 32 := 1
def configForW : BitVec 32 := 2

namespace Tree

/-- `configs_inc_node_ref`. -/
def incRef (t : Tree) (n : NodeId) : Tree :=
  { t with refCnt := fun m => if m = n then t.refCnt m + 1 else t.refCnt m }

/-- `configs_dec_node_ref`. -/
def decRef (t : Tree) (n : NodeId) : Tree :=
  { t with refCnt := fun m => if m = n then t.refCnt m - 1 else t.refCnt m }

def setNode (t : Tree) (n : NodeId) (x : Node) : Tree :=
  { t with node := fun m => if m = n then x else t.node m }

end Tree

/-! ## References -/

/-- The climb of `configs_put_node` along the parents. -/
def climb (stop : Option NodeId) : Nat → Tree → Option NodeId → Except Fault Tree
  | 0, _, _ => .error .fuel
  | rounds + 1, t, pnode =>
    match pnode with
    | none => .ok t
    | some p =>
      if some p = stop then .ok t
      else climb stop rounds (t.decRef p) (t.node p).parentNode

def configsPutNode (rounds : Nat) (t : Tree) (node : Option NodeId) (delParentRef : Bool)
    (stop : Option NodeId) : Except Fault Tree :=
  match node with
  | none => .ok t
  | some n =>
    let t := t.decRef n
    if !delParentRef then .ok t
    else climb stop rounds t (t.node n).parentNode

def configsGetNodeWithName (t : Tree) (parent : NodeId) (name : List UInt8) : Option NodeId × Tree :=
  match (t.node parent).sons.find? fun n => (t.node n).name = name with
  | none => (none, t)
  | some n =>
    if !(t.node n).active then (none, t)
    else
      let t := t.incRef n
      if (t.refCnt n).toInt < 0 then (none, t) else (some n, t)

/-! ## Paths -/

def charDot : UInt8 := 0x2e
def charEquals : UInt8 := 0x3d

def isBlank (c : UInt8) : Bool := c = charSpace || c = 0x0d || c = 0x0a

/-- `configs_parser_first_node`: the size of the first part, its name, and whether it is the last. -/
def configsParserFirstNode (s : List UInt8) : Nat × List UInt8 × Bool :=
  let (size, isEnd) :=
    if charDot ∈ s then (s.idxOf charDot, false)
    else if charEquals ∈ s then (s.idxOf charEquals, true)
    else (s.length, true)
  let size := if size ≥ maxItemName - 1 then maxItemName - 1 else size
  (size, (s.take size).takeWhile fun c => !isBlank c, isEnd)

/-- The parts of a path, one for each round of the loops that follow it. -/
inductive Parts where
  | bad
  | last (name : List UInt8)
  | more (name : List UInt8) (rest : Parts)
  deriving DecidableEq, Repr

/-- The parts of a path of at most so many characters. -/
def partsOf : Nat → List UInt8 → Parts
  | 0, _ => .bad
  | n + 1, path =>
    let (size, name, isEnd) := configsParserFirstNode path
    if size = 0 ∨ name = [] then .bad
    else if isEnd then .last name
    else .more name (partsOf n (path.drop (size + 1)))

def parts (path : List UInt8) : Parts := partsOf (path.length + 1) path

/-- The loop of `configs_get_node_path_end_node` from `node`; only without a given root may the last
name be that of the root itself. -/
def endNodeFrom (given : Bool) (start : NodeId) : Tree → NodeId → Parts → Option NodeId × Tree
  | t, _, .bad => (none, t)
  | t, node, .last name =>
    if !given ∧ node = start ∧ (t.node node).name = name then (some node, t)
    else configsGetNodeWithName t node name
  | t, node, .more name rest =>
    match configsGetNodeWithName t node name with
    | (none, t) => (none, t)
    | (some n, t) => endNodeFrom given start t n rest

def configsGetNodePathEndNode (t : Tree) (root : Option NodeId) (path : Option (List UInt8)) :
    Option NodeId × Tree :=
  match path with
  | none => (none, t)
  | some path => endNodeFrom root.isSome (root.getD rootNode) t (root.getD rootNode) (parts path)

/-! ## Registration -/

/-- The changes of `configs_register_node`, once the node may be added. -/
def addNode (t : Tree) (parent new : NodeId) : Tree :=
  let p := t.node parent
  let x := t.node new
  let depth := p.depth + 1
  let pathPrefix :=
    if depth ≥ 2 then
      (if p.pathPrefix ≠ [] then p.pathPrefix ++ [charDot] else x.pathPrefix) ++ p.name
    else x.pathPrefix
  let t := t.setNode new
    { x with depth, pathPrefix, parentNode := some parent, rwFlags := p.rwFlags &&& x.rwFlags, active := true }
  t.setNode parent { t.node parent with sons := (t.node parent).sons ++ [new] }

def configsRegisterNode (t : Tree) (parent : Option NodeId) (new : NodeId) : Int × Tree :=
  let parent := parent.getD rootNode
  let p := t.node parent
  if new = parent then (0, t)
  else if p.depth ≥ maxDepth then (-1, t)
  else if p.pathPrefix.length + p.name.length ≥ maxPrefixName - 2 then (-2, t)
  else
    match configsGetNodeWithName t parent (t.node new).name with
    | (some _, t) => (-3, t)
    | (none, t) => (0, addNode t parent new)

def configsRegisterPathNode (rounds : Nat) (t : Tree) (path : Option (List UInt8)) (new : NodeId) :
    Except Fault (Int × Tree) :=
  match path with
  | none | some [] => .ok (configsRegisterNode t none new)
  | some path =>
    match configsGetNodePathEndNode t none (some path) with
    | (none, t) => .ok (-1, t)
    | (some parent, t) => do
      let (ret, t) := configsRegisterNode t (some parent) new
      let t ← configsPutNode rounds t (some parent) true none
      return (ret, t)

def configsRegisterConfigs (t : Tree) (n : NodeId) (configs : List Mconfig) : Int × Tree :=
  match (t.node n).configs with
  | some _ => (-2, t)
  | none => (0, t.setNode n { t.node n with configs := some configs })

def configsRegisterPathConfigs (rounds : Nat) (t : Tree) (path : Option (List UInt8))
    (configs : List Mconfig) : Except Fault (Int × Tree) :=
  match path with
  | none | some [] => .ok (-1, t)
  | some path =>
    match configsGetNodePathEndNode t none (some path) with
    | (none, t) => .ok (-1, t)
    | (some parent, t) => do
      let (ret, t) := configsRegisterConfigs t parent configs
      let t ← configsPutNode rounds t (some parent) true none
      return (ret, t)

/-- `configs_list_path_nodes`. The listing itself (`configs_list_nodes`) only reads the tree. -/
def configsListPathNodes (listNodes : Tree → NodeId → Int) (rounds : Nat) (t : Tree)
    (path : Option (List UInt8)) : Except Fault (Int × Tree) :=
  match configsGetNodePathEndNode t none path with
  | (none, t) => .ok (0, t)
  | (some n, t) => do
    let ret := listNodes t n
    let t ← configsPutNode rounds t (some n) true none
    return (ret, t)

/-! ## Entries -/

/-- `configs_get_node_config`: the position of the entry, which counts as a use of the node. -/
def configsGetNodeConfig (t : Tree) (n : NodeId) (name : List UInt8) : Option Nat × Tree :=
  match ((t.node n).configs.getD []).findIdx? fun c => c.itemName = name with
  | none => (none, t)
  | some i => (some i, t.incRef n)

/-- How the loop of `configs_get_node_path_config` ends. -/
inductive LoopEnd where
  | malformed
  /-- A name is missing; below the top node the last node found is to be released. -/
  | missing (node : Option NodeId)
  | arrived (node : NodeId) (name : List UInt8)

def pathConfigFrom (top : NodeId) : Tree → NodeId → Parts → LoopEnd × Tree
  | t, _, .bad => (.malformed, t)
  | t, node, .last name => (.arrived node name, t)
  | t, node, .more name rest =>
    match configsGetNodeWithName t node name with
    | (none, t) => (.missing (if node ≠ top then some node else none), t)
    | (some n, t) => pathConfigFrom top t n rest

/-- The tests behind the loop of `configs_get_node_path_config`. -/
def configOf (t : Tree) (n : NodeId) (name : List UInt8) (set : Bool) : Except Int Nat × Tree :=
  if set ∧ (t.node n).rwFlags &&& configForW = 0 then (.error (-2), t)
  else if !set ∧ (t.node n).rwFlags &&& configForR = 0 then (.error (-1), t)
  else
    match configsGetNodeConfig t n name with
    | (none, t) => (.error (-1), t)
    | (some i, t) => (.ok i, t)

/-- `configs_get_node_path_config`: an error, or the node and the position of the entry. -/
def configsGetNodePathConfig (rounds : Nat) (t : Tree) (root : Option NodeId) (path : Option (List UInt8))
    (set : Bool) : Except Fault (Except Int (NodeId × Nat) × Tree) :=
  match path with
  | none => .ok (.error (-5), t)
  | some path =>
    let top := root.getD rootNode
    match pathConfigFrom top t top (parts path) with
    | (.malformed, t) => .ok (.error (-1), t)
    | (.missing none, t) => .ok (.error (-2), t)
    | (.missing (some n), t) => do
      let t ← configsPutNode rounds t (some n) true (some top)
      return (.error (-1), t)
    | (.arrived n name, t) =>
      match configOf t n name set with
      | (.error e, t) => do
        let t ← configsPutNode rounds t (some n) true (some top)
        return (.error e, t)
      | (.ok i, t) => .ok (.ok (n, i), t)

def entryAt (t : Tree) (n : NodeId) (i : Nat) : Except Fault Mconfig :=
  match ((t.node n).configs.getD [])[i]? with
  | some c => .ok c
  | none => .error .access

def setEntry (t : Tree) (n : NodeId) (i : Nat) (c : Mconfig) : Tree :=
  t.setNode n { t.node n with configs := (t.node n).configs.map fun l => l.set i c }

/-- The two calls of `configs_put_node` that end a successful access to an entry. -/
def releaseEntry (rounds : Nat) (t : Tree) (n : NodeId) (top : Option NodeId) : Except Fault Tree := do
  let t ← configsPutNode rounds t (some n) false top
  configsPutNode rounds t (some n) true top

def configsSetgetNodePathValue (rounds : Nat) (t : Tree) (top : Option NodeId) (path : Option (List UInt8))
    (valSet valGet : Option UserVal) (size : Int) (set : Bool) : Except Fault (Int × Tree) := do
  match ← configsGetNodePathConfig rounds t top path set with
  | (.error e, t) => return (e, t)
  | (.ok (n, i), t) =>
    let (ret, c, _) := configsSetgetConfigValue (← entryAt t n i) valSet valGet size set
    let t ← releaseEntry rounds (setEntry t n i c) n top
    return (ret, t)

def configsSetNodePathStr (rounds : Nat) (t : Tree) (top : Option NodeId) (path val : Option (List UInt8)) :
    Except Fault (Int × Tree) :=
  match path, val with
  | some (p :: path), some (v :: val) => do
    match ← configsGetNodePathConfig rounds t top (some (p :: path)) true with
    | (.error e, t) => return (e, t)
    | (.ok (n, i), t) =>
      let (ret, c) ← configsStr2config (← entryAt t n i) (v :: val)
      let t ← releaseEntry rounds (setEntry t n i c) n top
      return (if ret > 0 then 0 else if ret = 0 then -1 else ret, t)
  | _, _ => .ok (-1, t)

def configsGetNodePathStr (rounds : Nat) (t : Tree) (top : Option NodeId) (path : Option (List UInt8))
    (size : Int) : Except Fault (Int × Tree) :=
  match path with
  | none | some [] => .ok (-1, t)
  | some path => do
    match ← configsGetNodePathConfig rounds t top (some path) false with
    | (.error e, t) => return (e, t)
    | (.ok (n, i), t) =>
      let (ret, _) := configsConfig2str (← entryAt t n i) size
      let t ← releaseEntry rounds t n top
      return (ret, t)

/-- The path behind the name of a node with which it must start. The place behind a path that is the
name alone is not part of the string any more. -/
def behindName (name path : List UInt8) : Except Fault (Option (List UInt8)) :=
  if path.take name.length ≠ name then .ok none
  else if path.length = name.length then .error .access
  else .ok (some (path.drop (name.length + 1)))

def configsSetNodeNodepathStr (rounds : Nat) (t : Tree) (top : Option NodeId) (path val : List UInt8) :
    Except Fault (Int × Tree) :=
  match top with
  | none => configsSetNodePathStr rounds t top (some path) (some val)
  | some n => do
    match ← behindName (t.node n).name path with
    | none => return (-1, t)
    | some path => configsSetNodePathStr rounds t top (some path) (some val)

def configsGetNodeNodepathStr (rounds : Nat) (t : Tree) (top : Option NodeId) (path : List UInt8)
    (size : Int) : Except Fault (Int × Tree) :=
  match top with
  | none => configsGetNodePathStr rounds t top (some path) size
  | some n => do
    match ← behindName (t.node n).name path with
    | none => return (-1, t)
    | some path => configsGetNodePathStr rounds t top (some path) size

/-- `configs_parser_str_valstr`: what is behind the first `=`. -/
def configsParserStrValstr (path : List UInt8) : Option (List UInt8) :=
  if charEquals ∈ path then some (path.drop (path.idxOf charEquals + 1)) else none

def configsSetPrefixPathStr (rounds : Nat) (t : Tree) (pathPrefix path val : Option (List UInt8)) :
    Except Fault (Int × Tree) :=
  match pathPrefix with
  | none | some [] => configsSetNodePathStr rounds t none path val
  | some pathPrefix =>
    match configsGetNodePathEndNode t none (some pathPrefix) with
    | (none, t) => .ok (-1, t)
    | (some top, t) => do
      let (ret, t) ← configsSetNodePathStr rounds t (some top) path val
      let t ← configsPutNode rounds t (some top) true none
      return (ret, t)

def configsSetNodePathValonpath (rounds : Nat) (t : Tree) (top : Option NodeId) (path : List UInt8) :
    Except Fault (Int × Tree) :=
  configsSetNodePathStr rounds t top (some path) (configsParserStrValstr path)

/-- `configs_set_prefix_path_valonpath`, which follows the prefix as `configs_set_prefix_path_str` does. -/
def configsSetPrefixPathValonpath (rounds : Nat) (t : Tree) (pathPrefix : Option (List UInt8))
    (path : List UInt8) : Except Fault (Int × Tree) :=
  configsSetPrefixPathStr rounds t pathPrefix (some path) (configsParserStrValstr path)

end Amlogic.Configs
