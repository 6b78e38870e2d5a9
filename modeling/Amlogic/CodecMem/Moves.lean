import Amlogic.Base.Moves
import Amlogic.CodecMem.System

/-!
# The moves of the codec memory

What the code does to blocks and pools, in small steps. Between two steps a block may be on its way in or out: it
has a structure but no memory, or memory but is not on the list, or has left the list but is still counted. A token
stands for each of them.
-/

namespace Amlogic.CodecMem

inductive Token where
  /-- A structure without memory. -/
  | fresh (mem : Nat)
  /-- A block with memory that is not counted yet. -/
  | taken (mem : Nat) (b : Block)
  /-- A block that has left the list. -/
  | owed (mem : Nat) (b : Block)
  /-- A block that has given its memory back and is still counted. -/
  | given (mem : Nat) (b : Block)
  /-- A structure that is only left to be freed. -/
  | dead (mem : Nat)
  /-- A slot whose pool is destroyed. -/
  | closing (name : PoolName) (i : Nat)

/-- The codec memory, the events, and what is half done. -/
structure Snap where
  mgt : Mgt
  log : List Event
  tokens : Multiset Token

def State.snap {ω : Type} (s : State ω) (F : Multiset Token) : Snap := ⟨s.mgt, s.log, F⟩

/-! ## Memory of blocks -/

def Source.extPool : Source → Option PoolName
  | .tvp => some .tvp
  | .cmaRes => some .cmaRes
  | _ => none

def Mgt.poolOf (m : Mgt) (b : Block) : Option Nat :=
  match b.fromFlags with
  | .reversed => m.resPool
  | .tvp | .cmaRes => b.fromExt
  | _ => none

def Block.piece (b : Block) : Nat × Nat := (b.memHandle, toSize b.bufferSize)

def Mgt.slotAt (m : Mgt) (name : PoolName) (i : Nat) : Option PoolSlot := (m.extPool name).slots[i]?.join

def Mgt.IsSlotPool (m : Mgt) (name : PoolName) (id : Nat) : Prop :=
  ∃ i sl, i < (m.extPool name).slotNum ∧ m.slotAt name i = some sl ∧ sl.genPool = id

inductive Takes (m : Mgt) (b : Block) : Mgt → Prop
  | system (source : b.fromFlags = .pages ∨ b.fromFlags = .cma) : Takes m b m
  | piece {id : Nat} {p : GenPool} (pool : m.poolOf b = some id) (live : m.genPools.lookup id = some p)
      (pos : 0 < b.piece.2) (small : b.piece.2 < 2 ^ 31) (fits : p.usedSize + b.piece.2 ≤ p.size)
      (slot : ∀ name, b.fromFlags.extPool = some name → m.IsSlotPool name id) :
      Takes m b (m.setGenPool id { p with used := b.piece :: p.used })

inductive Gives (m : Mgt) (b : Block) : Mgt → Prop
  | system (pool : b.fromFlags = .pages ∨ b.fromFlags = .cma ∨ b.fromFlags = .coherent) : Gives m b m
  | piece {id : Nat} {p : GenPool} (pool : m.poolOf b = some id) (live : m.genPools.lookup id = some p)
      (used : b.piece ∈ p.used) : Gives m b (m.setGenPool id { p with used := p.used.erase b.piece })

/-! ## Moves of blocks -/

def Block.first (b : Block) (owner : String) : Block :=
  { b with useCnt := 1, owner := b.owner.set 0 (some owner) }

def Block.released (b : Block) (maxOwner : Option String) (owner : String) : Block :=
  { b with useCnt := b.useCnt - 1, owner := b.dropOwner (b.useCnt - 1) maxOwner owner }

inductive BlockMove : Snap → Snap → Prop
  | new {m : Mgt} {l : List Event} {F : Multiset Token} {mem : Nat} {b : Block} (free : mem ∉ m.blocks) :
      BlockMove ⟨m, l, F⟩ ⟨m.setBlock mem b, l, .fresh mem ::ₘ F⟩
  | take {m m' : Mgt} {l : List Event} {F : Multiset Token} {mem : Nat} {b : Block} (memory : Takes m b m')
      (tvp : b.fromFlags = .tvp → Has b.flags flagsTvp) (owners : b.owner.length = 8) :
      BlockMove ⟨m, l, .fresh mem ::ₘ F⟩ ⟨m', l, .taken mem b ::ₘ F⟩
  | scrap {m : Mgt} {l : List Event} {F : Multiset Token} {mem : Nat} :
      BlockMove ⟨m, l, .fresh mem ::ₘ F⟩ ⟨{ m with blocks := m.blocks.erase mem }, l, F⟩
  | enter {m : Mgt} {l : List Event} {F : Multiset Token} {mem : Nat} {b : Block} {owner : String} :
      BlockMove ⟨m, l, .taken mem b ::ₘ F⟩ ⟨m.count mem (b.first owner), l ++ [.acquire mem], F⟩
  | drop {m : Mgt} {l : List Event} {F : Multiset Token} {mem : Nat} {b : Block} {maxOwner : Option String}
      {owner : String} (listed : mem ∈ m.memList) (live : m.blocks.lookup mem = some b)
      (index : 0 ≤ (b.useCnt - 1).toInt) (entry : b.owner[(b.useCnt - 1).toNat]? = some maxOwner)
      (more : b.useCnt - 1 ≠ 0) :
      BlockMove ⟨m, l, F⟩ ⟨m.setBlock mem (b.released maxOwner owner), l ++ [.release mem], F⟩
  | unlist {m : Mgt} {l : List Event} {F : Multiset Token} {mem : Nat} {b : Block} {maxOwner : Option String}
      {owner : String} (listed : mem ∈ m.memList) (live : m.blocks.lookup mem = some b)
      (entry : b.owner[0]? = some maxOwner) (last : b.useCnt - 1 = 0) :
      BlockMove ⟨m, l, F⟩
        ⟨{ m.setBlock mem (b.released maxOwner owner) with memList := m.memList.erase mem },
          l ++ [.release mem], .owed mem (b.released maxOwner owner) ::ₘ F⟩
  | give {m m' : Mgt} {l : List Event} {F : Multiset Token} {mem : Nat} {b : Block} (memory : Gives m b m') :
      BlockMove ⟨m, l, .owed mem b ::ₘ F⟩ ⟨m', l, .given mem b ::ₘ F⟩
  | uncount {m : Mgt} {l : List Event} {F : Multiset Token} {mem : Nat} {b : Block} :
      BlockMove ⟨m, l, .given mem b ::ₘ F⟩ ⟨m.uncount b, l, .dead mem ::ₘ F⟩
  | kfree {m : Mgt} {l : List Event} {F : Multiset Token} {mem : Nat} :
      BlockMove ⟨m, l, .dead mem ::ₘ F⟩ ⟨{ m with blocks := m.blocks.erase mem }, l ++ [.free mem], F⟩

/-! ## Moves of pools -/

structure Switches where
  tvpEnable : CInt
  fastplayEnable : CInt
  tvpUserCount : CInt
  debugMode : CInt
  tvpMode : CInt
  defaultTvpSize : CInt
  defaultTvp4kSize : CInt
  defaultCmaResSize : CInt

def Mgt.switches (m : Mgt) : Switches where
  tvpEnable := m.tvpEnable
  fastplayEnable := m.fastplayEnable
  tvpUserCount := m.tvpUserCount
  debugMode := m.debugMode
  tvpMode := m.tvpMode
  defaultTvpSize := m.defaultTvpSize
  defaultTvp4kSize := m.defaultTvp4kSize
  defaultCmaResSize := m.defaultCmaResSize

def Mgt.switch (m : Mgt) (w : Switches) : Mgt :=
  { m with
    tvpEnable := w.tvpEnable, fastplayEnable := w.fastplayEnable, tvpUserCount := w.tvpUserCount
    debugMode := w.debugMode, tvpMode := w.tvpMode, defaultTvpSize := w.defaultTvpSize
    defaultTvp4kSize := w.defaultTvp4kSize, defaultCmaResSize := w.defaultCmaResSize }

def NoneClosing (F : Multiset Token) : Prop := ∀ name i, .closing name i ∉ F

inductive PoolMove : Snap → Snap → Prop
  | create {m : Mgt} {l : List Event} {F : Multiset Token} {name : PoolName} {id mm : Nat} {b : Block}
      (free : id ∉ m.genPools) (live : m.blocks.lookup mm = some b) (room : (m.extPool name).slotNum < tvpMaxSlot) :
      PoolMove ⟨m, l, F⟩
        ⟨((m.setGenPool id ⟨b.phyAddr, toSize b.bufferSize, []⟩).setSlot name (m.extPool name).slotNum
            (some ⟨id, mm⟩)).setBlock mm { b with tvpHandle := -1 }, l, F⟩
  | grow {m : Mgt} {l : List Event} {F : Multiset Token} {name : PoolName} :
      PoolMove ⟨m, l, F⟩
        ⟨m.setPool name { m.extPool name with slotNum := (m.extPool name).slotNum + 1 }, l, F⟩
  | size {m : Mgt} {l : List Event} {F : Multiset Token} {name : PoolName} {n : CInt} :
      PoolMove ⟨m, l, F⟩ ⟨m.setPool name { m.extPool name with totalSize := n }, l, F⟩
  | destroy {m : Mgt} {l : List Event} {F : Multiset Token} {name : PoolName} {i : Nat} {sl : PoolSlot}
      {p : GenPool} (slot : m.slotAt name i = some sl) (live : m.genPools.lookup sl.genPool = some p)
      (unused : p.avail = p.size) (other : .closing name i ∉ F) :
      PoolMove ⟨m, l, F⟩ ⟨{ m with genPools := m.genPools.erase sl.genPool }, l, .closing name i ::ₘ F⟩
  | close {m : Mgt} {l : List Event} {F : Multiset Token} {name : PoolName} {i : Nat} :
      PoolMove ⟨m, l, .closing name i ::ₘ F⟩ ⟨m.setSlot name i none, l, F⟩
  | settle {m : Mgt} {l : List Event} {F : Multiset Token} {name : PoolName} {n ignored : Nat}
      (closed : NoneClosing F) :
      PoolMove ⟨m, l, F⟩
        ⟨m.setPool name { m.extPool name with
          slots := if ignored > 0 then compact (m.extPool name).slots n else (m.extPool name).slots
          slotNum := ignored }, l, F⟩
  | handle {m : Mgt} {l : List Event} {F : Multiset Token} {mm : Nat} {b : Block} {h : CInt}
      (live : m.blocks.lookup mm = some b) :
      PoolMove ⟨m, l, F⟩ ⟨m.setBlock mm { b with tvpHandle := h }, l, F⟩
  | switch {m : Mgt} {l : List Event} {F : Multiset Token} {w : Switches} :
      PoolMove ⟨m, l, F⟩ ⟨m.switch w, l, F⟩

inductive Move (v v' : Snap) : Prop
  | block (move : BlockMove v v')
  | pool (move : PoolMove v v')

end Amlogic.CodecMem
