import Amlogic.Mmc.PartTable

/-!
# What the partition table's checksum and export are worth

`mmc_partition_tbl_checksum_calc` adds up the first entry once for every entry, so that it says nothing about the
others. `emmc_part_table_get` writes neither the padding of an entry nor the entries that are left over.
-/

namespace Amlogic.Dtb

/-! ## The checksum -/

theorem foldl_add_eq (ws : List UInt32) (c : UInt32) : ws.foldl (· + ·) c = c + ws.foldl (· + ·) 0 := by
  induction ws generalizing c with
  | nil => exact (UInt32.add_zero c).symm
  | cons w ws ih => rw [List.foldl_cons, List.foldl_cons, ih, ih (0 + w), UInt32.zero_add, UInt32.add_assoc]

theorem foldl_cons_eq (w : UInt32) (ws : List UInt32) :
    (w :: ws).foldl (· + ·) 0 = w + ws.foldl (· + ·) 0 := by
  rw [List.foldl_cons, foldl_add_eq, UInt32.zero_add]

theorem foldl_add_set {ws : List UInt32} {j : Nat} {old : UInt32} (h : ws[j]? = some old) (w : UInt32) :
    (ws.set j w).foldl (· + ·) 0 = ws.foldl (· + ·) 0 + (w - old) := by
  induction ws generalizing j with
  | nil => cases h
  | cons x ws ih =>
    cases j with
    | zero =>
      cases h
      rw [List.set_cons_zero, foldl_cons_eq, foldl_cons_eq]
      grind
    | succ j => rw [List.set_cons_succ, foldl_cons_eq, foldl_cons_eq, ih h, UInt32.add_assoc]

theorem checksum_eq (part : List Partition) (n : Nat) : mmcPartitionTblChecksumCalc part n =
    UInt32.ofNat n * ((part.head?.map Partition.words).getD []).foldl (· + ·) 0 := by
  unfold mmcPartitionTblChecksumCalc
  induction n with
  | zero => exact UInt32.zero_mul.symm
  | succ n ih =>
    rw [List.range_succ, List.foldl_append, List.foldl_cons, List.foldl_nil, ih, foldl_add_eq, UInt32.ofNat_add]
    grind

/-- The word `j` of the entry `i` is another one, and all else is the same. -/
structure WordChanged (t t' : PartitionsFmt) (i j : Nat) (old new : UInt32) : Prop where
  entry : ∃ p p', t.partitions[i]? = some p ∧ t'.partitions = t.partitions.set i p' ∧ p.words[j]? = some old ∧
    p'.words = p.words.set j new
  ne : new ≠ old
  magic : t'.magic = t.magic
  partNum : t'.partNum = t.partNum
  checksum : t'.checksum = t.checksum

/-- A table in which one word of an entry is changed is rejected if it is a word of the first entry, and the
difference times the number of entries is not lost in 32 bits. -/
theorem changed_rejected_iff {t t' : PartitionsFmt} {i j : Nat} {old new : UInt32} (ht : t.accepted = true)
    (hi : (i : Int) < t.partNum) (h : WordChanged t t' i j old new) :
    t'.accepted = false ↔ i = 0 ∧ UInt32.ofNat t.partNum.toNat * (new - old) ≠ 0 := by
  obtain ⟨p, p', hp, hp', hold, hnew⟩ := h.entry
  unfold PartitionsFmt.accepted at ht ⊢
  simp only [Bool.and_eq_true, decide_eq_true_eq] at ht
  obtain ⟨⟨⟨hmagic, hpos⟩, hle⟩, hsum⟩ := ht
  rw [checksum_eq] at hsum
  simp only [h.magic, h.partNum, h.checksum, hmagic, hpos, hle, decide_true, Bool.true_and, decide_eq_false_iff_not,
    checksum_eq, hp']
  rw [hsum]
  cases i with
  | zero =>
    obtain ⟨l, hl⟩ : ∃ l, t.partitions = p :: l := by
      cases hl : t.partitions with
      | nil => rw [hl] at hp; cases hp
      | cons q l => rw [hl] at hp; cases hp; exact ⟨l, rfl⟩
    rw [hl, List.set_cons_zero, List.head?_cons, List.head?_cons, Option.map_some, Option.map_some,
      Option.getD_some, Option.getD_some, hnew, foldl_add_set hold]
    grind
  | succ i =>
    have hhead : (t.partitions.set (i + 1) p').head? = t.partitions.head? := by
      cases t.partitions <;> rfl
    rw [hhead]
    exact ⟨fun hne => absurd rfl hne, fun hand => absurd hand.1 (Nat.succ_ne_zero i)⟩

def sizedEntry (size : UInt64) : Partition := ⟨.zero 16, size, 0, 0, 0⟩

def sizedTable (n : UInt32) (sizes : List UInt64) : PartitionsFmt :=
  ⟨⟨mmcPartitionsMagic, rfl⟩, sizes.length, n, sizes.map sizedEntry⟩

theorem changed_rejected_in_first :
    WordChanged (sizedTable 5 [5]) (sizedTable 5 [6]) 0 4 5 6 ∧ (sizedTable 5 [6]).accepted = false := by
  have h : WordChanged (sizedTable 5 [5]) (sizedTable 5 [6]) 0 4 5 6 :=
    ⟨⟨sizedEntry 5, sizedEntry 6, rfl, rfl, by decide, by decide⟩, by decide, rfl, rfl, rfl⟩
  exact ⟨h, (changed_rejected_iff (by decide) (by decide) h).mpr ⟨rfl, by decide⟩⟩

/-- The size of the second entry is changed, and then the highest bit of a word of the first one. -/
theorem changed_accepted :
    (WordChanged (sizedTable 10 [5, 7]) (sizedTable 10 [5, 8]) 1 4 7 8 ∧ (sizedTable 10 [5, 7]).accepted = true ∧
      (sizedTable 10 [5, 8]).accepted = true) ∧
    WordChanged (sizedTable 10 [5, 7]) (sizedTable 10 [0x80000005, 7]) 0 4 5 0x80000005 ∧
      (sizedTable 10 [0x80000005, 7]).accepted = true := by
  refine ⟨⟨⟨⟨sizedEntry 7, sizedEntry 8, rfl, rfl, ?_, ?_⟩, ?_, rfl, rfl, rfl⟩, ?_, ?_⟩,
    ⟨⟨sizedEntry 5, sizedEntry 0x80000005, rfl, rfl, ?_, ?_⟩, ?_, rfl, rfl, rfl⟩, ?_⟩
  all_goals decide

/-! ## The export -/

theorem copyGroup_pad {mask : UInt32} {copy : Partition → Partition → Partition} {table : List Partition}
    {r : List Partition × Nat} (h : ∀ p slot, (copy p slot).pad = slot.pad) :
    (copyGroup mask copy table r).1.map Partition.pad = r.1.map Partition.pad := by
  unfold copyGroup
  induction table generalizing r with
  | nil => rfl
  | cons p table ih =>
    rw [List.foldl_cons]
    split_ifs
    · rw [ih]
      refine List.ext_getElem? fun i => ?_
      rw [List.getElem?_map, List.getElem?_map, List.getElem?_modify, Option.map_eq_map, Option.map_map]
      refine congrFun (congrArg _ (funext fun slot => ?_)) _
      split_ifs
      · exact h p slot
      · rfl
    · exact ih

theorem copyEntry_pad (p slot : Partition) : (copyEntry p slot).pad = slot.pad := rfl

theorem copyData_pad (p slot : Partition) : (copyData p slot).pad = slot.pad := by
  unfold copyData
  dsimp only
  split_ifs <;> rfl

theorem emmcPartTableGet_pad (t : PartitionsFmt) (heap : List Partition) :
    (emmcPartTableGet t heap).map Partition.pad = heap.map Partition.pad := by
  unfold emmcPartTableGet
  rw [copyGroup_pad copyData_pad, copyGroup_pad copyEntry_pad, copyGroup_pad copyEntry_pad]

/-- The entries with a mask, group by group. -/
def PartitionsFmt.grouped (t : PartitionsFmt) : List Partition :=
  [storeCode, storeCache, storeData].flatMap fun mask => t.partitions.filter (·.maskFlags = mask)

/-- What is returned is told by the table, and it lists the entries with a mask. -/
def ExportsTable (t : PartitionsFmt) : Prop :=
  ∃ out, (∀ heap, heap.length = maxMmcPartNum → emmcPartTableGet t heap = out) ∧
    out.filter (fun p => p.maskFlags = storeCode ∨ p.maskFlags = storeCache ∨ p.maskFlags = storeData) = t.grouped

def codeTable : PartitionsFmt :=
  { sizedTable 6 [5] with partitions := [{ sizedEntry 5 with maskFlags := storeCode }] }

def exported (pad : UInt32) : List (UInt64 × UInt32) :=
  ((emmcPartTableGet codeTable (List.replicate maxMmcPartNum { sizedEntry 9 with pad })).take 2).map
    fun p => (p.size, p.pad)

end Amlogic.Dtb
