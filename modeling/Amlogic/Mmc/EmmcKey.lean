import Amlogic.Base.Disk

/-!
# The key area of the eMMC (`mmc/emmc_key.c`, with `KEY_BACKUP`)

The key area holds two copies of the key data, 256 KB each, and behind them two info sectors with a
checksum, a stamp and a magic number. `emmc_key_write` stores the second copy first; `_key_init`
checks both copies when the driver starts and repairs one from the other.

The card has sectors of 512 bytes (`read_blkbits` is 9). Buffers are lists of sectors. Card accesses
and memory requests are numbered, and the environment tells how each of them ends.
-/

namespace Amlogic.Mmc

abbrev Sector := Bytes 512

structure MmcEnv where
  /-- `get_reserve_partition_off_from_tbl() + EMMCKEY_RESERVE_OFFSET`, in bytes. -/
  keyGlbOffset : Nat
  /-- How the card access with this number ends: the returned code and, if it is not 0, the number
  of sectors that still reach the card. -/
  io : Nat → Int × Nat
  kmalloc : Nat → Bool

structure AmlKeyInfo where
  checksum : UInt64
  stamp : UInt32
  magic : UInt32
  deriving DecidableEq

def AmlKeyInfo.ofSector (s : Sector) : AmlKeyInfo :=
  ⟨getLe64 s.1, getLe32 (s.1.drop 8), getLe32 (s.1.drop 12)⟩

def AmlKeyInfo.bytes (i : AmlKeyInfo) : List UInt8 :=
  le64 i.checksum ++ (le32 i.stamp ++ le32 i.magic)

/-- A cleared sector with the info copied to its start. -/
def AmlKeyInfo.toSector (i : AmlKeyInfo) : Sector :=
  ⟨i.bytes ++ List.replicate 496 0, by rw [List.length_append, List.length_replicate]; rfl⟩

/-- The card, and the static variables of the driver. -/
structure Emmc where
  disk : Disk Sector
  log : List (Transfer Sector)
  accesses : Nat
  requests : Nat
  claims : Int
  keyStamp : UInt32
  /-- `key_infos`, of which the entries 0 and 1 exist. -/
  keyInfos : Nat → AmlKeyInfo

/-! ## Constants -/

def emmcKeyareaSize : Nat := 256 * 1024
/-- `EMMC_BLOCK_SIZE` and `MAX_TRANS_BLK`, in sectors. -/
def emmcBlockSize : Nat := 0x100
def readBlkbits : Nat := 9
def efault : Int := 14
def enomem : Int := 12

def keyareaSectors : Nat := emmcKeyareaSize >>> readBlkbits

/-- `stamp_after`, with the wrap-around of `int`. -/
def stampAfter (a b : UInt32) : Prop := s32 (s32 b.toNat - s32 a.toNat) < 0

instance (a b : UInt32) : Decidable (stampAfter a b) := inferInstanceAs (Decidable (_ < _))

def MmcEnv.keyBlk (env : MmcEnv) (cpy : Nat) : Nat :=
  (env.keyGlbOffset + cpy * emmcKeyareaSize) >>> readBlkbits

def MmcEnv.infoBlk (env : MmcEnv) (cpy : Nat) : Nat :=
  ((env.keyGlbOffset + 2 * emmcKeyareaSize) >>> readBlkbits) + cpy

/-! ## Card accesses -/

def Emmc.claim (m : Emmc) : Emmc := { m with claims := m.claims + 1 }

def Emmc.release (m : Emmc) : Emmc := { m with claims := m.claims - 1 }

def Emmc.kmalloc (env : MmcEnv) (m : Emmc) : Bool × Emmc :=
  (env.kmalloc m.requests, { m with requests := m.requests + 1 })

/-- `mmc_write_internal`: stores `blocks` sectors of a buffer, from its sector `src` on. -/
def mmcWriteInternal (env : MmcEnv) (blk blocks : Nat) (buf : List Sector) (src : Nat) (m : Emmc) :
    Except Fault (Int × Emmc) := do
  let data ← load buf src blocks
  let (ret, done) := env.io m.accesses
  let ts := transfersAt blk (if ret = 0 then data else data.take done)
  return (ret, { m with
    disk := m.disk.apply ts, log := m.log ++ ts, accesses := m.accesses + 1 })

/-- `mmc_read_internal`: reads `blocks` sectors into a buffer, from its sector `dst` on. No caller
uses a buffer after a failed read. -/
def mmcReadInternal (env : MmcEnv) (blk blocks : Nat) (buf : List Sector) (dst : Nat) (m : Emmc) :
    Except Fault (Int × List Sector × Emmc) := do
  let (ret, _) := env.io m.accesses
  let m' := { m with accesses := m.accesses + 1 }
  if ret ≠ 0 then return (ret, buf, m')
  else return (0, ← store buf dst (m.disk.sectors blk blocks), m')

/-- The transfer loops over a whole key area, `rounds` times `EMMC_BLOCK_SIZE` sectors. From the
second round on they use the second half of the buffer. -/
def writeRounds (env : MmcEnv) (buf : List Sector) :
    Nat → Nat → Nat → Emmc → Except Fault (Int × Emmc)
  | 0, _, _, m => .ok (0, m)
  | rounds + 1, blk, src, m => do
    let (ret, m) ← mmcWriteInternal env blk emmcBlockSize buf src m
    if ret ≠ 0 then return (ret, m)
    else writeRounds env buf rounds (blk + emmcBlockSize) emmcBlockSize m

def readRounds (env : MmcEnv) :
    Nat → Nat → Nat → List Sector → Emmc → Except Fault (Int × List Sector × Emmc)
  | 0, _, _, buf, m => .ok (0, buf, m)
  | rounds + 1, blk, dst, buf, m => do
    let (ret, buf, m) ← mmcReadInternal env blk emmcBlockSize buf dst m
    if ret ≠ 0 then return (ret, buf, m)
    else readRounds env rounds (blk + emmcBlockSize) emmcBlockSize buf m

def keyRounds : Nat := keyareaSectors / emmcBlockSize

/-! ## Checksums -/

def words : List UInt8 → List UInt32
  | b0 :: b1 :: b2 :: b3 :: bs => getLe32 [b0, b1, b2, b3] :: words bs
  | _ => []

def checksumOf (ss : List Sector) : UInt64 :=
  (ss.flatMap fun s => words s.1).foldl (fun c w => c + w.toUInt64) 0

/-- `_calc_key_checksum` over `size` bytes, a whole number of sectors. -/
def calcKeyChecksum (buf : List Sector) (size : Nat) : Except Fault UInt64 :=
  return checksumOf (← load buf 0 (size >>> readBlkbits))

/-! ## Copies -/

def emmcReadValidKey (env : MmcEnv) (buf : List Sector) (validFlag : Nat) (m : Emmc) :
    Except Fault (Int × List Sector × Emmc) := do
  let (ret, buf, m) ← readRounds env keyRounds (env.keyBlk (validFlag - 1)) 0 buf m.claim
  return (ret, buf, m.release)

/-- `emmc_write_one_key`: stores a copy that is not valid, when the copy `validFlag - 1` is. A failed
data transfer leaves through `exit_err`, past `mmc_release_host`. -/
def emmcWriteOneKey (env : MmcEnv) (buf : List Sector) (validFlag : Nat) (m : Emmc) :
    Except Fault (Int × Emmc) := do
  let (granted, m) := m.kmalloc env
  if !granted then return (-1, m)
  else
    let checksumInfo := (m.keyInfos (validFlag - 1)).toSector
    let (ret, m) ← writeRounds env buf keyRounds (env.keyBlk (validFlag % 2)) 0 m.claim
    if ret ≠ 0 then return (ret, m)
    else
      let (ret, m) ← mmcWriteInternal env (env.infoBlk (validFlag % 2)) 1 [checksumInfo] 0 m
      return (ret, m.release)

def updateOldKey (env : MmcEnv) (addr : List Sector) (m : Emmc) : Except Fault (Int × Emmc) :=
  let writeOld (validFlag : Nat) (m : Emmc) : Except Fault (Int × Emmc) := do
    let (ret, m) ← emmcWriteOneKey env addr validFlag m
    if ret ≠ 0 then return (ret, m)
    else return (ret, { m with keyStamp := (m.keyInfos 0).stamp })
  if stampAfter (m.keyInfos 1).stamp (m.keyInfos 0).stamp then
    writeOld 2 { m with keyInfos := Function.update m.keyInfos 1 (m.keyInfos 0) }
  else if stampAfter (m.keyInfos 0).stamp (m.keyInfos 1).stamp then
    writeOld 1 { m with keyInfos := Function.update m.keyInfos 0 (m.keyInfos 1) }
  else .ok (0, m)

def verifyKeyChecksum (env : MmcEnv) (addr : List Sector) (cpy : Nat) (m : Emmc) :
    Except Fault (Int × Emmc) := do
  let (granted, m) := m.kmalloc env
  if !granted then return (-1, m)
  else
    let (ret, info, m) ←
      mmcReadInternal env (env.infoBlk cpy) 1 [.zero 512] 0 m.claim
    let m := m.release
    if ret ≠ 0 then return (ret, m)
    else
      let info := AmlKeyInfo.ofSector (info.headD (.zero 512))
      let m := { m with keyInfos := Function.update m.keyInfos cpy info }
      let checksum ← calcKeyChecksum addr emmcKeyareaSize
      return (if checksum = info.checksum then 0 else 1, m)

def writeInvalidKey (env : MmcEnv) (addr : List Sector) (validFlag : Nat) (m : Emmc) :
    Except Fault (Int × Emmc) :=
  if validFlag > 2 ∨ validFlag < 1 then .ok (-1, m)
  else do
    let (ret, addr, m) ← emmcReadValidKey env addr validFlag m
    if ret ≠ 0 then return (ret, m) else emmcWriteOneKey env addr validFlag m

/-- `_amlmmc_read` over a key area. -/
def amlmmcRead (env : MmcEnv) (blk : Nat) (buf : List Sector) (m : Emmc) :
    Except Fault (Int × List Sector × Emmc) := do
  let (ret, buf, m) ← readRounds env keyRounds blk 0 buf m.claim
  return (if ret ≠ 0 then -efault else 0, buf, m.release)

/-- One round of the loop of `update_key_info`. -/
def checkCopy (env : MmcEnv) (cpy : Nat) (addr : List Sector) (validFlag : Nat) (m : Emmc) :
    Except Fault (List Sector × Nat × Emmc) := do
  let (ret, addr, m) ← amlmmcRead env (env.keyBlk cpy) addr m
  if ret ≠ 0 then return (addr, validFlag, m)
  else
    let (ret, m) ← verifyKeyChecksum env addr cpy m
    if ret = 0 ∧ (m.keyInfos cpy).magic ≠ 0 then return (addr, validFlag + (cpy + 1), m)
    else return (addr, validFlag, m)

/-- `update_key_info`: the valid copies, 1 for the first one plus 2 for the second one. -/
def updateKeyInfo (env : MmcEnv) (addr : List Sector) (m : Emmc) :
    Except Fault (Nat × List Sector × Emmc) := do
  let (addr, validFlag, m) ← checkCopy env 1 addr 0 m
  let (addr, validFlag, m) ← checkCopy env 0 addr validFlag m
  let stamp := if (m.keyInfos 0).stamp > (m.keyInfos 1).stamp then (m.keyInfos 0).stamp
    else (m.keyInfos 1).stamp
  return (validFlag, addr, { m with keyStamp := stamp })

def keyInit (env : MmcEnv) (m : Emmc) : Except Fault (Int × Emmc) := do
  let (granted, m) := m.kmalloc env
  if !granted then return (-enomem, m)
  else
    let (valid, key, m) ← updateKeyInfo env (List.replicate keyareaSectors (.zero 512)) m
    match valid with
    | 1 => return (0, (← writeInvalidKey env key 1 m).2)
    | 2 => return (0, (← writeInvalidKey env key 2 m).2)
    | 3 => return (0, (← updateOldKey env key m).2)
    | _ => return (0, m)

/-! ## The storage operations -/

/-- One round of the loop of `emmc_key_write`. -/
def writeCopy (env : MmcEnv) (buf : List Sector) (length : Nat) (cpy : Nat) (m : Emmc) :
    Except Fault (Int × Emmc) := do
  let info : AmlKeyInfo := ⟨← calcKeyChecksum buf length, m.keyStamp + 1, 9⟩
  emmcWriteOneKey env buf cpy { m with keyInfos := Function.update m.keyInfos (cpy - 1) info }

def emmcKeyWrite (env : MmcEnv) (buf : List Sector) (length : Nat) (m : Emmc) :
    Except Fault (Int × Emmc) := do
  let (ret, m) ← writeCopy env buf length 1 m
  if ret ≠ 0 then return (ret, m) else writeCopy env buf length 2 m

/-- The loop of `emmc_key_read`. -/
def keyReadLoop (env : MmcEnv) :
    Nat → Nat → Nat → Nat → List Sector → Emmc → Except Fault (Int × List Sector × Emmc)
  | 0, _, _, _, _, _ => .error .fuel
  | fuel + 1, blk, cnt, dst, buf, m => do
    let (ret, buf, m) ← mmcReadInternal env blk (min emmcBlockSize cnt) buf dst m
    if ret ≠ 0 then return (ret, buf, m)
    else if cnt > emmcBlockSize then
      keyReadLoop env fuel (blk + emmcBlockSize) (cnt - emmcBlockSize) emmcBlockSize buf m
    else return (0, buf, m)

def emmcKeyRead (env : MmcEnv) (buf : List Sector) (length : Nat) (m : Emmc) :
    Except Fault (Int × List Sector × Emmc) := do
  let cnt := length >>> readBlkbits
  let (ret, buf, m) ← keyReadLoop env (cnt + 1) (env.keyBlk 0) cnt 0 buf m.claim
  return (ret, buf, m.release)

end Amlogic.Mmc
