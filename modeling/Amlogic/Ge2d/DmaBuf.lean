import Amlogic.Base.Moves
import Amlogic.Base.Runs
import Amlogic.CodecMem.Block

/-!
# GE2D: the table of dma-bufs (`ge2d/ge2d_dmabuf.c`)

A client of the GE2D driver requests memory, exports it as dma-bufs and frees it. The driver has one table of 32
entries for all clients. The memory is reference counted: the owner has one reference, and every dma-buf that is
exported has one.

Every buffer structure and every dma-buf has a name of its own. The log records what the clients and the
driver do with them.
-/

namespace Amlogic.Ge2d

open CodecMem (CInt pageAlign)

def amlMaxDmabuf : Nat := 32

def eInval : CInt := 22
def eNomem : CInt := 12

structure AmlDmaBuf where
  vaddr : Bool
  size : CInt
  dmaDir : CInt
  index : Nat
  refcount : CInt
  priv : Bool
  deriving DecidableEq

/-- `struct aml_dma_buf_priv`, an entry of the table. -/
structure AmlDmaBufPriv where
  memPriv : Option Nat
  index : Nat
  fd : CInt
  alloc : Bool
  dbuf : Option Nat
  deriving DecidableEq

inductive DmaEvent where
  | request (buf : Nat)
  | free (buf : Nat)
  | export (index buf dbuf : Nat)
  | close (dbuf : Nat)
  | release (buf : Nat)
  deriving DecidableEq

/-- The table (`struct aml_dma_buffer`), the buffers and the dma-bufs that are not released, each with its
buffer. -/
structure DmaState where
  gdBuffer : List AmlDmaBufPriv
  bufs : Heap AmlDmaBuf
  dbufs : Heap Nat
  log : List DmaEvent

section Code

def deref {α : Type} (x : Option α) : Prog DmaState α :=
  match x with
  | some a => pure a
  | none => throw .access

def record (e : DmaEvent) : Prog DmaState Unit := modify fun s => { s with log := s.log ++ [e] }

def clearDmaBuffer (priv : Bool) (index : Nat) : Prog DmaState Unit := do
  -- without a table, `buffer->lock` is a null pointer
  if priv then
    let e ← deref (← get).gdBuffer[index]?
    modify fun s => { s with
      gdBuffer := s.gdBuffer.set index { e with memPriv := none, index := 0, alloc := false } }
  else throw .access

def amlDmaPut (buf : Nat) : Prog DmaState Unit := do
  let b ← deref ((← get).bufs.lookup buf)
  modify fun s => { s with bufs := s.bufs.insert buf { b with refcount := b.refcount - 1 } }
  if b.refcount - 1 ≠ 0 then return ()
  else
    record (.release buf)
    clearDmaBuffer b.priv b.index
    modify fun s => { s with bufs := s.bufs.erase buf }

/-- `got` is the new structure and whether its memory could be mapped, or nothing if there is no memory. -/
def amlDmaAlloc (size dmaDir : CInt) (got : Option (Nat × Bool)) : Prog DmaState (Option Nat) := do
  match got with
  | none => return none
  | some (buf, mapped) =>
    modify fun s => { s with bufs := s.bufs.insert buf ⟨mapped, size, dmaDir, 0, 1, false⟩ }
    return some buf

def findEmptyDmaBuffer (gdBuffer : List AmlDmaBufPriv) : Option Nat := gdBuffer.findIdx? fun e => !e.alloc

def ge2dDmaBufferAlloc (len dmaDir : CInt) (got : Option (Nat × Bool)) : Prog DmaState CInt := do
  let size := pageAlign len
  if size = 0 then return -eInval
  else
    match ← amlDmaAlloc size dmaDir got with
    | none => return -eNomem
    | some buf =>
      match findEmptyDmaBuffer (← get).gdBuffer with
      | none =>
        amlDmaPut buf
        return -eNomem
      | some index =>
        let b ← deref ((← get).bufs.lookup buf)
        let e ← deref (← get).gdBuffer[index]?
        modify fun s => { s with
          bufs := s.bufs.insert buf { b with priv := true, index := index }
          gdBuffer := s.gdBuffer.set index { e with memPriv := some buf, index := index, alloc := true } }
        record (.request buf)
        return 0

def indexOf (index : CInt) : Option Nat :=
  if index.toInt < 0 ∨ amlMaxDmabuf ≤ index.toInt then none else some index.toNat

def ge2dDmaBufferFree (index : CInt) : Prog DmaState CInt := do
  match indexOf index with
  | none => return -eInval
  | some index =>
    let e ← deref (← get).gdBuffer[index]?
    match e.memPriv with
    | none => return -eInval
    | some buf =>
      record (.free buf)
      amlDmaPut buf
      return 0

/-- `dbuf` is the new dma-buf, or nothing if it cannot be made. -/
def getDmabuf (index buf : Nat) (dbuf : Option Nat) : Prog DmaState (Option Nat) := do
  let b ← deref ((← get).bufs.lookup buf)
  if !b.vaddr then return none
  else
    match dbuf with
    | none => return none
    | some d =>
      modify fun s => { s with
        dbufs := s.dbufs.insert d buf
        bufs := s.bufs.insert buf { b with refcount := b.refcount + 1 } }
      record (.export index buf d)
      return some d

/-- The last reference to a dma-buf is dropped: `aml_dmabuf_ops_release`. -/
def amlDmabufOpsRelease (dbuf : Nat) : Prog DmaState Unit := do
  let buf ← deref ((← get).dbufs.lookup dbuf)
  modify fun s => { s with dbufs := s.dbufs.erase dbuf }
  record (.close dbuf)
  amlDmaPut buf

/-- `dbuf` is the new dma-buf, if there is one, and `fd` what `dma_buf_fd` returns. -/
def ge2dDmaBufferExport (index : CInt) (dbuf : Option Nat) (fd : CInt) : Prog DmaState CInt := do
  match indexOf index with
  | none => return -eInval
  | some index =>
    let e ← deref (← get).gdBuffer[index]?
    match e.memPriv with
    | none => return -eInval
    | some buf =>
      match ← getDmabuf index buf dbuf with
      | none => return -eInval
      | some d =>
        if fd.toInt < 0 then
          amlDmabufOpsRelease d
          return fd
        else
          let e ← deref (← get).gdBuffer[index]?
          modify fun s => { s with gdBuffer := s.gdBuffer.set index { e with fd := fd, dbuf := some d } }
          return 0

end Code

/-! ## Runs -/

def ge2dDmaBufferCreate : DmaState :=
  ⟨List.replicate amlMaxDmabuf ⟨none, 0, 0, false, none⟩, ∅, ∅, []⟩

/-- A call of a client, or the release of a dma-buf. -/
inductive DmaCall where
  | request (len dmaDir : CInt) (got : Option (Nat × Bool))
  | free (index : CInt)
  | export (index : CInt) (dbuf : Option Nat) (fd : CInt)
  | close (dbuf : Nat)
  deriving DecidableEq

def DmaCall.exec : DmaCall → Prog DmaState CInt
  | .request len dmaDir got => ge2dDmaBufferAlloc len dmaDir got
  | .free index => ge2dDmaBufferFree index
  | .export index dbuf fd => ge2dDmaBufferExport index dbuf fd
  | .close dbuf => do
    amlDmabufOpsRelease dbuf
    return 0

/-- New structures have new names, and only a dma-buf that exists is released. -/
def DmaCall.Possible (s : DmaState) : DmaCall → Prop
  | .request _ _ (some (buf, _)) => buf ∉ s.bufs ∧ DmaEvent.request buf ∉ s.log
  | .export _ (some dbuf) _ => dbuf ∉ s.dbufs ∧ DmaEvent.close dbuf ∉ s.log
  | .close dbuf => dbuf ∈ s.dbufs
  | _ => True

def DmaCall.Step (s : DmaState) (c : DmaCall) (s' : DmaState) : Prop :=
  c.Possible s ∧ ∃ ret, c.exec s = .ok (ret, s')

/-- The entry that a call addresses: the one whose index it gives, or that it gets, or that the dma-buf is made
from. -/
def DmaCall.addresses (s : DmaState) : DmaCall → Option Nat
  | .request _ _ _ => findEmptyDmaBuffer s.gdBuffer
  | .free index => indexOf index
  | .export index _ _ => indexOf index
  | .close dbuf => s.log.findSome? fun
    | .export index _ d => if d = dbuf then some index else none
    | _ => none

end Amlogic.Ge2d
