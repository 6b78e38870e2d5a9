import Amlogic.Mmc.EmmcKey

/-!
# The device tree on the eMMC (`mmc/emmc_partitions.c`)

The character device `dtb` keeps a device tree blob of 256 KB, in two copies behind the start of the reserved
partition. `mmc_dtb_write` merges what the user writes into the buffer `glb_dtb_buf` and stores all of it;
`mmc_dtb_read` fills the same buffer from the card first.

The card has sectors of 512 bytes (`read_blkbits` is 9) and is addressed by bytes here. Card accesses, memory requests
and copies from and to the user are numbered, and the environment tells how each of them ends. The headers that define
the size of the tree and the layout of the partition table are those of the kernel: the tree takes two transfers of
`MAX_TRANS_BLK` sectors.
-/

namespace Amlogic.Dtb

open Amlogic.Mmc (words efault enomem stampAfter)

/-! ## Constants -/

def sz1M : Nat := 0x00100000
def mmcDtbPartOffset : Nat := 40 * sz1M
def dtbReserveOffset : Int := 4 * sz1M
def bit : Nat := 9
def dtbBlkSize : Nat := 0x200
def dtbBlkCnt : Nat := 512
def dtbCopies : Nat := 2
def maxTransBlk : Nat := 256
def maxTransSize : Nat := maxTransBlk * dtbBlkSize
/-- `CONFIG_DTB_SIZE`, two transfers. -/
def configDtbSize : Nat := 2 * maxTransSize
/-- The offset of `magic` in `struct aml_dtb_rsv`. -/
def trailerOffset : Nat := configDtbSize - 16

/-! ## The partition table -/

structure Partition where
  name : Bytes 16
  size : UInt64
  offset : UInt64
  maskFlags : UInt32
  pad : UInt32
  deriving DecidableEq

def Partition.words (p : Partition) : List UInt32 :=
  Mmc.words (p.name.1 ++ (le64 p.size ++ (le64 p.offset ++ (le32 p.maskFlags ++ le32 p.pad))))

def maxMmcPartNum : Nat := 32

structure PartitionsFmt where
  magic : Bytes 4
  partNum : Int
  checksum : UInt32
  partitions : List Partition
  deriving DecidableEq

/-- `MMC_PARTITIONS_MAGIC`, the string "MPT". -/
def mmcPartitionsMagic : List UInt8 := [77, 80, 84, 0]

/-- `MMC_RESERVED_NAME`, the string "reserved". -/
def mmcReservedName : List UInt8 := [114, 101, 115, 101, 114, 118, 101, 100]

/-- `mmc_partition_tbl_checksum_calc`: each round starts at the first entry again. -/
def mmcPartitionTblChecksumCalc (part : List Partition) (partNum : Nat) : UInt32 :=
  (List.range partNum).foldl
    (fun checksum _ => ((part.head?.map Partition.words).getD []).foldl (· + ·) checksum) 0

/-- The checks of `mmc_read_partition_tbl`. -/
def PartitionsFmt.accepted (t : PartitionsFmt) : Bool :=
  decide (t.magic.1 = mmcPartitionsMagic) && decide (0 < t.partNum) && decide (t.partNum ≤ maxMmcPartNum) &&
    decide (t.checksum = mmcPartitionTblChecksumCalc t.partitions t.partNum.toNat)

def Partition.isReserved (p : Partition) : Bool := p.name.1.takeWhile (· ≠ 0) = mmcReservedName

def PartitionsFmt.reserved (t : PartitionsFmt) : Option Partition :=
  (t.partitions.take t.partNum.toNat).find? Partition.isReserved

/-- `get_reserve_partition_off_from_tbl`: the offset is returned as an `int`. -/
def getReservePartitionOffFromTbl (t : PartitionsFmt) : Int :=
  match t.reserved with
  | some p => s32 p.offset.toNat
  | none => -1

/-! ## Card and driver -/

structure DtbEnv where
  /-- `DTB_CELL_SIZE`, in sectors. -/
  cellBlocks : Nat
  cells : Nat
  cells_eq : cells * cellBlocks = dtbBlkCnt
  /-- How the card access with this number ends: the returned code and, if it is not 0, the number of sectors that
  still reach the card or the buffer. -/
  io : Nat → Int × Nat
  kmalloc : Nat → Bool
  /-- The bytes that the copy with this number, from or to the user, leaves out. -/
  user : Nat → Nat

/-- The card, and the static variables of the driver. -/
structure Machine where
  disk : Disk UInt8
  table : PartitionsFmt
  buf : Option (List UInt8)
  /-- `dtb_infos.stamp`, of which the entries 0 and 1 exist. -/
  stamp : Nat → UInt32
  valid : Nat → Bool
  claims : Int
  accesses : Nat
  requests : Nat
  copies : Nat

def Machine.claim (m : Machine) : Machine := { m with claims := m.claims + 1 }

def Machine.release (m : Machine) : Machine := { m with claims := m.claims - 1 }

/-- The place of a block number: `dev_addr` is an `unsigned int`. -/
def byteAddr (blk : Int) : Nat := (blk % 2 ^ 32).toNat * dtbBlkSize

/-- `mmc_write_internal` of the bytes from `src` on. -/
def mmcWriteInternal (env : DtbEnv) (blk : Int) (blocks : Nat) (buf : List UInt8) (src : Nat) (m : Machine) :
    Except Fault (Int × Machine) := do
  let data ← load buf src (blocks * dtbBlkSize)
  let (ret, done) := env.io m.accesses
  let ts := transfersAt (byteAddr blk) (if ret = 0 then data else data.take (done * dtbBlkSize))
  return (ret, { m with disk := m.disk.apply ts, accesses := m.accesses + 1 })

/-- `mmc_read_internal` into the bytes from `dst` on. -/
def mmcReadInternal (env : DtbEnv) (blk : Int) (blocks : Nat) (buf : List UInt8) (dst : Nat) (m : Machine) :
    Except Fault (Int × List UInt8 × Machine) := do
  let (ret, done) := env.io m.accesses
  let data := m.disk.sectors (byteAddr blk) (blocks * dtbBlkSize)
  let buf ← store buf dst (if ret = 0 then data else data.take (done * dtbBlkSize))
  return (ret, buf, { m with accesses := m.accesses + 1 })

/-! ## Copies -/

def calcDtbChecksum (buf : List UInt8) : UInt32 := ((words buf).take (configDtbSize / 4 - 1)).foldl (· + ·) 0

/-- The rounds of `_dtb_write` and `_dtb_read`. -/
def dtbRounds : Nat := (configDtbSize >>> bit) / maxTransBlk

/-- The loop of `_dtb_write`; from the second round on it uses the second half of the buffer. -/
def dtbWriteLoop (env : DtbEnv) (buf : List UInt8) : Nat → Int → Nat → Machine → Except Fault (Int × Machine)
  | 0, _, _, m => .ok (0, m)
  | rounds + 1, blk, src, m => do
    let (ret, m) ← mmcWriteInternal env blk maxTransBlk buf src m
    if ret ≠ 0 then return (-efault, m)
    else dtbWriteLoop env buf rounds (blk + maxTransBlk) maxTransSize m

def dtbWrite (env : DtbEnv) (blk : Int) (buf : List UInt8) (m : Machine) : Except Fault (Int × Machine) := do
  let (ret, m) ← dtbWriteLoop env buf dtbRounds blk 0 m.claim
  return (ret, m.release)

def PartitionsFmt.dtbBlk (t : PartitionsFmt) (cpy : Nat) : Int :=
  s32 (getReservePartitionOffFromTbl t + dtbReserveOffset) / 2 ^ bit + cpy * dtbBlkCnt

/-- The timestamp that `amlmmc_dtb_write` gives a tree. -/
def nextTimestamp (m : Machine) : UInt32 :=
  match m.valid 0, m.valid 1 with
  | false, false => 0
  | true, false => 1 + m.stamp 0
  | false, true => 1 + m.stamp 1
  | true, true =>
    if m.stamp 0 ≠ m.stamp 1 then 1 + (if stampAfter (m.stamp 1) (m.stamp 0) then m.stamp 1 else m.stamp 0)
    else 1 + m.stamp 0

/-- The trailer that `amlmmc_dtb_write` puts behind a tree. -/
def setTrailer (m : Machine) (buf : List UInt8) : Except Fault (List UInt8) := do
  let buf ← store buf (trailerOffset + 8) (le32 (nextTimestamp m))
  let buf ← store buf (trailerOffset + 4) (le32 1)
  let buf ← store buf trailerOffset (le32 0x00447e41)
  store buf (trailerOffset + 12) (le32 (calcDtbChecksum buf))

/-- `amlmmc_dtb_write` of `glb_dtb_buf`. Both copies are stored, whatever becomes of the first one; the codes that are
or-ed are 0 or `-EFAULT`. -/
def amlmmcDtbWrite (env : DtbEnv) (buf : List UInt8) (m : Machine) : Except Fault (Int × Machine) := do
  let buf ← setTrailer m buf
  let m := { m with buf := some buf }
  let (ret0, m) ← dtbWrite env (m.table.dtbBlk 0) buf m
  let (ret1, m) ← dtbWrite env (m.table.dtbBlk 1) buf m
  return (if ret0 ≠ 0 then ret0 else ret1, m)

/-- The loop of `amlmmc_dtb_read`, cell by cell. -/
def dtbReadCells (env : DtbEnv) : Nat → Nat → Nat → List UInt8 → Machine → Except Fault (Int × List UInt8 × Machine)
  | 0, _, _, buf, m => .ok (0, buf, m)
  | cells + 1, startBlk, dst, buf, m => do
    let cell := List.replicate (env.cellBlocks * dtbBlkSize) 0
    let (ret, cell, m) ← mmcReadInternal env startBlk env.cellBlocks cell 0 m
    if ret ≠ 0 then return (-efault, buf, m)
    else
      let buf ← store buf dst cell
      dtbReadCells env cells (startBlk + env.cellBlocks) (dst + env.cellBlocks * dtbBlkSize) buf m

/-- `amlmmc_dtb_read` into `glb_dtb_buf`, which is cleared first. -/
def amlmmcDtbRead (env : DtbEnv) (buf : List UInt8) (m : Machine) : Except Fault (Int × List UInt8 × Machine) := do
  let buf ← store buf 0 (List.replicate configDtbSize 0)
  let granted := env.kmalloc m.requests
  let m := { m with requests := m.requests + 1 }
  if !granted then return (-enomem, buf, m)
  else dtbReadCells env env.cells (mmcDtbPartOffset >>> bit) 0 buf m

/-! ## The device -/

/-- A sum of `loff_t` and `size_t`. -/
def u64 (n : Nat) : Nat := n % 2 ^ 64

/-- The bytes from a position to the end of the tree, or `count`. -/
def clip (ppos count : Nat) : Nat := if configDtbSize < u64 (ppos + count) then configDtbSize - ppos else count

/-- `mmc_dtb_read`: the returned code, the bytes that the user gets, the position and the machine. -/
def mmcDtbRead (env : DtbEnv) (ppos count : Nat) (m : Machine) : Except Fault (Int × List UInt8 × Nat × Machine) :=
  if ppos = configDtbSize then .ok (0, [], ppos, m)
  else if configDtbSize ≤ ppos then .ok (-efault, [], ppos, m)
  else match m.buf with
    | none => .ok (-enomem, [], ppos, m)
    | some buf => do
      let (ret, buf, m) ← amlmmcDtbRead env buf m.claim
      let m := { m with buf := some buf }
      if ret ≠ 0 then return (0, [], ppos, m.release)
      else
        let readSize := clip ppos count
        let data ← load buf ppos readSize
        let missing := env.user m.copies
        let m := { m with copies := m.copies + 1 }
        return (readSize, data.take (readSize - missing), ppos + readSize, m.release)

/-- `mmc_dtb_write`: the returned code, the position and the machine. What is not copied from the user is cleared. -/
def mmcDtbWrite (env : DtbEnv) (ppos : Nat) (user : List UInt8) (m : Machine) : Except Fault (Int × Nat × Machine) :=
  if ppos = configDtbSize then .ok (0, ppos, m)
  else if configDtbSize ≤ ppos then .ok (-efault, ppos, m)
  else match m.buf with
    | none => .ok (-enomem, ppos, m)
    | some buf => do
      let m := m.claim
      let writeSize := clip ppos user.length
      let data ← load user 0 writeSize
      let missing := min (env.user m.copies) writeSize
      let m := { m with copies := m.copies + 1 }
      let buf ← store buf ppos (data.take (writeSize - missing) ++ List.replicate missing 0)
      let (ret, m) ← amlmmcDtbWrite env buf { m with buf := some buf }
      return (writeSize, if ret ≠ 0 then ppos else ppos + writeSize, m.release)

/-! ## Sequences of calls -/

inductive DtbCall where
  | read (ppos count : Nat)
  | write (ppos : Nat) (user : List UInt8)

/-- The machine after a call, whatever it returns. -/
def DtbCall.run (env : DtbEnv) (m : Machine) : DtbCall → Except Fault Machine
  | read ppos count => return (← mmcDtbRead env ppos count m).2.2.2
  | write ppos user => return (← mmcDtbWrite env ppos user m).2.2

def runCalls (env : DtbEnv) (calls : List DtbCall) (m : Machine) : Except Fault Machine :=
  calls.foldlM (DtbCall.run env) m

end Amlogic.Dtb
