import Mathlib

/-!
# eMMC transfers (`mmc/emmc_partitions.c`)

`mmc_transfer` moves blocks between a buffer and the user area of the card. If the card is at another partition, it is
switched to the user area first and back afterwards. How the commands end is up to the card.
-/

namespace Amlogic.Mmc

/-- `struct mmc_card`, as far as a transfer reads it. -/
structure MmcCard where
  isSd : Bool := false
  isBlockaddr : Bool := true
  sectors : BitVec 32 := 0
  csdCapacity : BitVec 32 := 0
  readBlkbits : BitVec 32 := 9
  partConfig : BitVec 8 := 0
  deriving DecidableEq

def accMask : BitVec 8 := 7

/-- `mmc_capacity`. The shift is only defined if `read_blkbits` is not below 9. -/
def mmcCapacity (card : MmcCard) : BitVec 32 :=
  if !card.isSd && card.isBlockaddr then card.sectors
  else card.csdCapacity <<< (card.readBlkbits - 9)

/-! ## Requests -/

inductive Opcode where
  | readSingleBlock | readMultipleBlock | writeBlock | writeMultipleBlock
  deriving DecidableEq

/-- `struct mmc_request`, with its command and its data. -/
structure MmcRequest where
  opcode : Opcode
  arg : BitVec 32
  stop : Bool
  blksz : BitVec 32
  blocks : BitVec 32
  write : Bool
  deriving DecidableEq

structure Completion where
  cmdError : Int := 0
  dataError : Int := 0
  stopError : Int := 0
  bytesXfered : BitVec 32 := 0

def mmcPrepareMrq (card : MmcCard) (devAddr blocks blksz : BitVec 32) (write : Bool) : MmcRequest where
  opcode :=
    if 1 < blocks then if write then .writeMultipleBlock else .readMultipleBlock
    else if write then .writeBlock else .readSingleBlock
  arg := if card.isBlockaddr then devAddr else devAddr <<< 9
  stop := blocks ≠ 1
  blksz := blksz
  blocks := blocks
  write := write

def einval : Int := 22
def resultFail : Int := 1
def resultUnsupHost : Int := 2

def mmcCheckResult (mrq : MmcRequest) (c : Completion) : Int :=
  let ret : Int := 0
  let ret := if ret = 0 ∧ c.cmdError ≠ 0 then c.cmdError else ret
  let ret := if ret = 0 ∧ c.dataError ≠ 0 then c.dataError else ret
  let ret := if ret = 0 ∧ mrq.stop = true ∧ c.stopError ≠ 0 then c.stopError else ret
  let ret := if ret = 0 ∧ c.bytesXfered ≠ mrq.blocks * mrq.blksz then resultFail else ret
  if ret = -einval then resultUnsupHost else ret

/-! ## `mmc_transfer` -/

/-- How the commands of a transfer end, if they are given. -/
structure Outcomes where
  switchTo : Int := 0
  request : Completion := {}
  switchBack : Int := 0

inductive Command where
  | switch (value : BitVec 8) (ret : Int)
  | request (mrq : MmcRequest)
  deriving DecidableEq

structure Transferred where
  ret : Int
  card : MmcCard
  commands : List Command

def mmcTransfer (card : MmcCard) (devAddr blocks : BitVec 32) (write : Bool) (o : Outcomes) : Transferred :=
  let original := card.partConfig
  let switchPartition := original &&& accMask ≠ 0
  let user := original &&& ~~~accMask
  if switchPartition ∧ o.switchTo ≠ 0 then ⟨o.switchTo, card, [.switch user o.switchTo]⟩
  else
    let card := if switchPartition then { card with partConfig := user } else card
    let before := if switchPartition then [Command.switch user o.switchTo] else []
    if mmcCapacity card ≤ devAddr + blocks then ⟨-1, card, before⟩
    else
      let mrq := mmcPrepareMrq card devAddr blocks ((1 : BitVec 32) <<< card.readBlkbits) write
      let ret := mmcCheckResult mrq o.request
      if switchPartition then
        let commands := before ++ [.request mrq, .switch original o.switchBack]
        -- the result of the request is overwritten
        let ret := o.switchBack
        if ret ≠ 0 then ⟨ret, card, commands⟩
        else ⟨ret, { card with partConfig := original }, commands⟩
      else ⟨ret, card, before ++ [.request mrq]⟩

end Amlogic.Mmc
