import Amlogic.Mmc.Dtb

/-!
# The partition table for the user (`mmc/emmc_partitions.c`)

`emmc_part_table_get` copies the entries of the partition table, group by group, into memory that it has just got, and
then all of that memory to the user. The masks are those of the kernel.
-/

namespace Amlogic.Dtb

def storeCode : UInt32 := 1
def storeCache : UInt32 := 2
def storeData : UInt32 := 4

/-- `strncpy` of a name: what follows the first zero is cleared. -/
def strncpyName (src : Bytes 16) : Bytes 16 :=
  ⟨(src.1.takeWhile (· ≠ 0) ++ List.replicate 16 0).take 16, by simp⟩

/-- The fields of an entry are copied; the bytes behind the last one are those of the memory. -/
def copyEntry (p slot : Partition) : Partition :=
  { slot with name := strncpyName p.name, size := p.size, offset := p.offset, maskFlags := p.maskFlags }

/-- The partition "data" gets what is left of the card. -/
def copyData (p slot : Partition) : Partition :=
  let slot := copyEntry p slot
  if slot.name.1.takeWhile (· ≠ 0) = [100, 97, 116, 97] then { slot with size := 0 - 1 } else slot

/-- A loop of `emmc_part_table_get`: `part_table` and `part_num` after the entries with one mask are copied. -/
def copyGroup (mask : UInt32) (copy : Partition → Partition → Partition) (table : List Partition)
    (r : List Partition × Nat) : List Partition × Nat :=
  table.foldl (fun r p => if p.maskFlags = mask then (r.1.modify r.2 (copy p), r.2 + 1) else r) r

/-- `emmc_part_table_get`; `heap` is what the memory of `part_table` held before. -/
def emmcPartTableGet (t : PartitionsFmt) (heap : List Partition) : List Partition :=
  let r := copyGroup storeCode copyEntry t.partitions (heap, 0)
  let r := copyGroup storeCache copyEntry t.partitions r
  (copyGroup storeData copyData t.partitions r).1

end Amlogic.Dtb
