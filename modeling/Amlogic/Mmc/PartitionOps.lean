import Amlogic.Mmc.EmmcKey
import Amlogic.Mmc.Transfer

/-!
# The start on a card (`aml_emmc_partition_ops` in `mmc/emmc_partitions.c`)

The start reads the partition table into `pt_fmt` and creates what works on it: two entries in /proc, the key
operations, the DTB device and the file `part_table` of the store class. A step that fails may lead to the exit
that frees the table. The answers tell how the steps end; claims of the host are left out here.
-/

namespace Amlogic.Mmc

inductive Interface where
  | inand
  | ntd
  | keyOps
  | dtb
  | partTable
  deriving DecidableEq

/-- `pt_fmt`: a null pointer, a table, or a table that has been freed. -/
inductive TablePtr where
  | null
  | live
  | freed
  deriving DecidableEq

/-- What the steps return: a code, or for a pointer whether there is one. -/
structure StartAnswers where
  isCardEmmc : Bool
  buffer : Bool
  readGpt : Int
  gpt : Bool
  ptFmt : Bool
  mmcReadPartitionTbl : Int
  procInand : Bool
  procNtd : Bool
  emmckeyInfo : Bool
  ukType : Bool
  getReservePartitionOffFromTbl : Int
  amlEmmcKeyCheck : Int
  registerUnifykeyTypes : Int
  allocChrdevRegion : Int
  cdevAdd : Int
  dtbClass : Bool
  dtbFile : Int
  dtbDev : Bool
  amlStoreClass : Bool
  amlVersion : Int
  amlPartTable : Int
  amlStoreDevice : Int
  bootloaderOffset : Int

structure Start where
  ptFmt : TablePtr
  interfaces : List Interface := []

namespace Start

variable (a : StartAnswers) (s : Start)

def create (created : Bool) (i : Interface) : Start := if created then { s with interfaces := i :: s.interfaces } else s

def out : Start := { s with ptFmt := if s.ptFmt = .live then .freed else s.ptFmt }

/-- `add_emmc_partition`: an entry that cannot be created is only reported. -/
def addEmmcPartition : Start := (s.create a.procInand .inand).create a.procNtd .ntd

def emmcKeyInit : Int × Start :=
  if !a.emmckeyInfo then (-enomem, s)
  else if !a.ukType then (-enomem, s)
  else if a.getReservePartitionOffFromTbl < 0 then (-einval, s)
  else if a.amlEmmcKeyCheck ≠ 0 then (a.amlEmmcKeyCheck, s)
  else if a.registerUnifykeyTypes ≠ 0 then (-einval, s)
  else (0, s.create true .keyOps)

/-- `amlmmc_dtb_init`, whose result is not used: a step that fails takes the device back. -/
def amlmmcDtbInit : Start :=
  s.create (decide (0 ≤ a.allocChrdevRegion) && decide (a.cdevAdd = 0) && a.dtbClass && decide (a.dtbFile = 0) &&
    a.dtbDev) .dtb

/-- The files of the store class. After a failure the class goes, and `part_table` with it. -/
def createStoreClass : Int × Start :=
  if !a.amlStoreClass then (-1, s.out)
  else if a.amlVersion ≠ 0 then (a.amlVersion, s.out)
  else if a.amlPartTable ≠ 0 then (a.amlPartTable, s.out)
  else if a.amlStoreDevice ≠ 0 then (a.amlStoreDevice, s.out)
  else if a.bootloaderOffset ≠ 0 then (a.bootloaderOffset, s.out)
  else (0, s.create true .partTable)

def amlEmmcPartitionOps : Int × Start :=
  if !a.isCardEmmc then (0, s)
  else if !a.buffer then (-enomem, s)
  else if a.readGpt ≠ 0 then (a.readGpt, s.out)
  else if a.gpt then (0, s)
  else if !a.ptFmt then (-enomem, { s with ptFmt := .null })
  else
    let s := { s with ptFmt := .live }
    if a.mmcReadPartitionTbl ≠ 0 then (a.mmcReadPartitionTbl, s.out)
    else
      let (ret, s) := (s.addEmmcPartition a).emmcKeyInit a
      if ret ≠ 0 then (ret, s.out) else (s.amlmmcDtbInit a).createStoreClass a

end Start

end Amlogic.Mmc
