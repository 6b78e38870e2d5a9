import Mathlib

/-!
# Secure memory as dma-bufs

An export in `secmem.c` allocates a record for a block of secure memory, and a dma-buf that refers to it. The
dma-buf is released with its last descriptor. What the record says about the memory is left out.
-/

namespace Amlogic.Secmem

structure State where
  /-- How many records `kzalloc` has given. -/
  records : Nat := 0
  /-- The records that were given to `kfree`. -/
  freed : List Nat := []
  /-- The record behind each open descriptor. -/
  descriptors : List Nat := []
  /-- The records for which `dma_buf_fd` has failed. -/
  fdFailed : List Nat := []

structure ExportAnswers where
  kzalloc : Bool := true
  copyFromUser : Bool := true
  dmaBufExport : Bool := true
  dmaBufFd : Int

def State.kfree (s : State) (r : Nat) : State := { s with freed := r :: s.freed }

/-- `secmem_export`: the descriptor or `-EFAULT`. -/
def secmemExport (s : State) (answers : ExportAnswers) : Int × State :=
  if !answers.kzalloc then (-14, s)
  else
    let r := s.records
    let s := { s with records := r + 1 }
    if !answers.copyFromUser || !answers.dmaBufExport then (-14, s.kfree r)
    else if answers.dmaBufFd < 0 then
      -- `dma_buf_put` drops the only reference, so that `secmem_dma_release` frees the record first
      (-14, ({ s with fdFailed := r :: s.fdFailed }.kfree r).kfree r)
    else (answers.dmaBufFd, { s with descriptors := r :: s.descriptors })

/-- A descriptor is closed; with the last one `secmem_dma_release` is called. -/
def closeFd (s : State) (r : Nat) : State :=
  let s := { s with descriptors := s.descriptors.erase r }
  if r ∈ s.descriptors then s else s.kfree r

inductive Call where
  | secmemExport (answers : ExportAnswers)
  /-- A descriptor is duplicated, or passed to another process. -/
  | dup (r : Nat)
  | closeFd (r : Nat)

def Call.Step (s : State) : Call → State → Prop
  | .secmemExport answers, s' => s' = (Secmem.secmemExport s answers).2
  | .dup r, s' => r ∈ s.descriptors ∧ s' = { s with descriptors := r :: s.descriptors }
  | .closeFd r, s' => r ∈ s.descriptors ∧ s' = Secmem.closeFd s r

end Amlogic.Secmem
