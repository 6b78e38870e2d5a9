import Amlogic.Mmc.Dtb

/-!
# Reading back what was written to the device tree

`mmc_dtb_write` stores the two copies behind the reserved partition of the table, `mmc_dtb_read` reads from a fixed
place. What was written is read back just if one of the copies is there.
-/

namespace Amlogic.Dtb

open DtbCall Disk

open Amlogic.Mmc (efault enomem)

variable {blk ppos count : Nat}

/-- No card access, memory request or copy fails. -/
structure DtbEnv.NoFail (env : DtbEnv) : Prop where
  io : ∀ k, (env.io k).1 = 0
  kmalloc : ∀ k, env.kmalloc k = true
  user : ∀ k, env.user k = 0

/-- A position and a count that the file system layer lets through. -/
def DtbCall.InFile : DtbCall → Prop
  | read ppos count => ppos + count < 2 ^ 64
  | write ppos user => ppos + user.length < 2 ^ 64

/-- The bytes that were last written, by position. -/
def DtbCall.written (w : Nat → Option UInt8) : DtbCall → Nat → Option UInt8
  | read _ _ => w
  | write ppos user => fun p => if ppos ≤ p ∧ p < ppos + user.length ∧ p < configDtbSize then user[p - ppos]? else w p

def lastWritten (calls : List DtbCall) : Nat → Option UInt8 := calls.foldl written fun _ => none

/-- With a table, every sequence of reads and writes can be followed by a read at any position, which returns the bytes
that were last written there, outside the trailer. -/
def ReadsBack (env : DtbEnv) (t : PartitionsFmt) : Prop :=
  ∀ m b calls, m.table = t → m.buf = some b → b.length = configDtbSize → (∀ c ∈ calls, DtbCall.InFile c) →
    ∃ m', runCalls env calls m = .ok m' ∧ ∀ ppos count, ppos < configDtbSize → ppos + count < 2 ^ 64 →
      ∃ out m'', mmcDtbRead env ppos count m' = .ok (out.length, out, ppos + out.length, m'') ∧
        out.length = min count (configDtbSize - ppos) ∧
        ∀ i v, i < out.length → ppos + i < trailerOffset → lastWritten calls (ppos + i) = some v → out[i]? = some v

def partBlk : Nat := mmcDtbPartOffset >>> bit

/-- One of the copies is where `mmc_dtb_read` looks. -/
def PartitionsFmt.Placed (t : PartitionsFmt) : Prop := t.dtbBlk 0 = partBlk ∨ t.dtbBlk 1 = partBlk

theorem configDtbSize_eq : configDtbSize = 262144 := rfl

theorem maxTransSize_eq : maxTransSize = 131072 := rfl

theorem trailerOffset_eq : trailerOffset = 262128 := rfl

theorem partBlk_eq : partBlk = 81920 := rfl

theorem byteAddr_of_nat (h : blk < 2 ^ 32) : byteAddr blk = blk * dtbBlkSize := by
  unfold byteAddr dtbBlkSize
  omega

/-! ## Storing the copies -/

section Write

variable {env : DtbEnv} {m : Machine} {b : List UInt8}

def copied (d : Disk UInt8) (blk : Int) (b : List UInt8) : Disk UInt8 :=
  (d.apply (transfersAt (byteAddr blk) (b.take maxTransSize))).apply
    (transfersAt (byteAddr (blk + maxTransBlk)) (b.drop maxTransSize))

theorem mmcWriteInternal_ok (henv : env.NoFail) {src : Nat} (h : src + maxTransSize ≤ b.length) (blk : Int)
    (m : Machine) :
    mmcWriteInternal env blk maxTransBlk b src m =
      .ok (0, { m with
        disk := m.disk.apply (transfersAt (byteAddr blk) ((b.drop src).take maxTransSize))
        accesses := m.accesses + 1 }) := by
  unfold mmcWriteInternal
  rw [show maxTransBlk * dtbBlkSize = maxTransSize from rfl, load_of_le h, ok_bind]
  dsimp only
  rw [if_pos (henv.io _), henv.io]
  rfl

theorem dtbWrite_ok (henv : env.NoFail) (hb : b.length = configDtbSize) (blk : Int) (m : Machine) :
    ∃ m', dtbWrite env blk b m = .ok (0, m') ∧ m'.disk = copied m.disk blk b ∧ m'.table = m.table ∧ m'.buf = m.buf := by
  have hlen := configDtbSize_eq
  have hhalf := maxTransSize_eq
  have hrest : (b.drop maxTransSize).take maxTransSize = b.drop maxTransSize :=
    List.take_of_length_le (by rw [List.length_drop]; omega)
  refine ⟨{ m with disk := copied m.disk blk b, claims := m.claims + 1 - 1, accesses := m.accesses + 1 + 1 },
    ?_, rfl, rfl, rfl⟩
  unfold dtbWrite
  rw [show dtbRounds = 2 from rfl, dtbWriteLoop, mmcWriteInternal_ok henv (by omega), ok_bind]
  dsimp only
  rw [if_neg (not_not_intro rfl), dtbWriteLoop, mmcWriteInternal_ok henv (by omega), ok_bind]
  dsimp only
  rw [if_neg (not_not_intro rfl), hrest, List.drop_zero]
  rfl

theorem store_word (off : Nat) (h : off + 4 ≤ b.length) (v : UInt32) :
    ∃ b', store b off (le32 v) = .ok b' ∧ b'.length = b.length ∧ ∀ p < off, b'[p]? = b[p]? := by
  have hle : off + (le32 v).length ≤ b.length := h
  refine ⟨_, store_of_le hle, patch_length hle, fun p hp => ?_⟩
  rw [patch_getElem? hle, if_neg (by omega)]

theorem setTrailer_ok (m : Machine) (hb : b.length = configDtbSize) :
    ∃ b', setTrailer m b = .ok b' ∧ b'.length = configDtbSize ∧ ∀ p < trailerOffset, b'[p]? = b[p]? := by
  have hlen := configDtbSize_eq
  have hoff := trailerOffset_eq
  obtain ⟨b1, hs1, hl1, hp1⟩ := store_word (b := b) (trailerOffset + 8) (by omega) (nextTimestamp m)
  obtain ⟨b2, hs2, hl2, hp2⟩ := store_word (b := b1) (trailerOffset + 4) (by omega) 1
  obtain ⟨b3, hs3, hl3, hp3⟩ := store_word (b := b2) trailerOffset (by omega) 0x00447e41
  obtain ⟨b4, hs4, hl4, hp4⟩ := store_word (b := b3) (trailerOffset + 12) (by omega) (calcDtbChecksum b3)
  refine ⟨b4, ?_, by omega, fun p hp => ?_⟩
  · unfold setTrailer
    rw [hs1, ok_bind, hs2, ok_bind, hs3, ok_bind, hs4]
  · rw [hp4 p (by omega), hp3 p hp, hp2 p (by omega), hp1 p (by omega)]

theorem amlmmcDtbWrite_ok (henv : env.NoFail) (hb : b.length = configDtbSize) (m : Machine) :
    ∃ b' m', amlmmcDtbWrite env b m = .ok (0, m') ∧ m'.buf = some b' ∧ m'.table = m.table ∧
      m'.disk = copied (copied m.disk (m.table.dtbBlk 0) b') (m.table.dtbBlk 1) b' ∧
      b'.length = configDtbSize ∧ ∀ p < trailerOffset, b'[p]? = b[p]? := by
  obtain ⟨b', hset, hlen, hp⟩ := setTrailer_ok m hb
  obtain ⟨m1, hw1, hd1, ht1, hb1⟩ := dtbWrite_ok henv hlen (m.table.dtbBlk 0) { m with buf := some b' }
  obtain ⟨m2, hw2, hd2, ht2, hb2⟩ := dtbWrite_ok henv hlen (m1.table.dtbBlk 1) m1
  refine ⟨b', m2, ?_, hb2.trans hb1, ht2.trans ht1, ?_, hlen, hp⟩
  · unfold amlmmcDtbWrite
    rw [hset, ok_bind]
    dsimp only
    rw [hw1, ok_bind]
    rw [hw2, ok_bind]
    rfl
  · rw [hd2, hd1, ht1]

def merged (b : List UInt8) (ppos : Nat) (user : List UInt8) : List UInt8 :=
  patch b ppos (user.take (configDtbSize - ppos))

theorem clip_eq (hpos : ppos < configDtbSize) (h : ppos + count < 2 ^ 64) :
    clip ppos count = min count (configDtbSize - ppos) := by
  unfold clip u64
  split_ifs <;> omega

theorem merged_getElem? (hb : b.length = configDtbSize) (hpos : ppos < configDtbSize) (user : List UInt8)
    {p : Nat} (hp : p < configDtbSize) :
    (merged b ppos user)[p]? = if ppos ≤ p ∧ p < ppos + user.length then user[p - ppos]? else b[p]? := by
  have hlen : (user.take (configDtbSize - ppos)).length = min (configDtbSize - ppos) user.length := List.length_take
  unfold merged
  rw [patch_getElem? (by omega), hlen]
  split_ifs with h1 h2 h2
  · rw [List.getElem?_take_of_lt (by omega)]
  · omega
  · omega
  · rfl

theorem mmcDtbWrite_ok (henv : env.NoFail) (hbuf : m.buf = some b) (hb : b.length = configDtbSize)
    (hpos : ppos < configDtbSize) {user : List UInt8} (hin : ppos + user.length < 2 ^ 64) :
    ∃ b' m', run env m (.write ppos user) = .ok m' ∧ m'.buf = some b' ∧ m'.table = m.table ∧
      m'.disk = copied (copied m.disk (m.table.dtbBlk 0) b') (m.table.dtbBlk 1) b' ∧
      b'.length = configDtbSize ∧ ∀ p < trailerOffset, b'[p]? = (merged b ppos user)[p]? := by
  have hclip := clip_eq hpos hin
  have htake : user.take (clip ppos user.length) = user.take (configDtbSize - ppos) := by
    rw [hclip, Nat.min_comm, ← List.take_eq_take_min]
  have hfits : ppos + (user.take (configDtbSize - ppos)).length ≤ b.length := by
    rw [List.length_take]
    omega
  have hmerged : (merged b ppos user).length = configDtbSize := (patch_length hfits).trans hb
  obtain ⟨b', m', hw, hbuf', htable, hdisk, hlen, hp⟩ := amlmmcDtbWrite_ok henv hmerged
    { m with buf := some (merged b ppos user), claims := m.claims + 1, copies := m.copies + 1 }
  refine ⟨b', m'.release, ?_, hbuf', htable, hdisk, hlen, hp⟩
  simp only [run, mmcDtbWrite, if_neg (Nat.ne_of_lt hpos), if_neg (Nat.not_le_of_lt hpos), hbuf]
  rw [load_of_le (show 0 + clip ppos user.length ≤ user.length by omega), List.drop_zero, htake]
  simp only [ok_bind, henv.user, Nat.zero_min, Nat.sub_zero, List.replicate_zero, List.append_nil]
  rw [← htake, List.take_take, Nat.min_self, htake, store_of_le hfits, ok_bind]
  exact hw ▸ rfl

end Write

/-! ## Reading -/

section Read

variable {env : DtbEnv} {m : Machine} {b : List UInt8}

theorem patch_nil {α : Type} (l : List α) (off : Nat) : patch l off [] = l := by simp [patch]

theorem patch_all {α : Type} {l bs : List α} (h : bs.length = l.length) : patch l 0 bs = bs := by
  simp [patch, h]

theorem mmcReadInternal_ok (henv : env.NoFail) {blocks : Nat} (hblk : blk < 2 ^ 32) (m : Machine) :
    mmcReadInternal env blk blocks (List.replicate (blocks * dtbBlkSize) 0) 0 m =
      .ok (0, m.disk.sectors (blk * dtbBlkSize) (blocks * dtbBlkSize), { m with accesses := m.accesses + 1 }) := by
  have hlen : (m.disk.sectors (blk * dtbBlkSize) (blocks * dtbBlkSize)).length =
      (List.replicate (blocks * dtbBlkSize) (0 : UInt8)).length := by
    rw [sectors_length, List.length_replicate]
  unfold mmcReadInternal
  dsimp only
  rw [if_pos (henv.io _), henv.io, byteAddr_of_nat hblk]
  rw [store_of_le (by rw [hlen, Nat.zero_add]), patch_all hlen]
  rfl

theorem dtbReadCells_ok (henv : env.NoFail) {n startBlk dst : Nat} (hblk : startBlk + n * env.cellBlocks < 2 ^ 32)
    (hfit : dst + n * env.cellBlocks * dtbBlkSize ≤ b.length) (m : Machine) :
    dtbReadCells env n startBlk dst b m =
      .ok (0, patch b dst (m.disk.sectors (startBlk * dtbBlkSize) (n * env.cellBlocks * dtbBlkSize)),
        { m with accesses := m.accesses + n }) := by
  induction n generalizing startBlk dst b m with
  | zero =>
    rw [Nat.zero_mul, Nat.zero_mul, show m.disk.sectors (startBlk * dtbBlkSize) 0 = [] from rfl, patch_nil]
    rfl
  | succ n ih =>
    have hcells : (n + 1) * env.cellBlocks = env.cellBlocks + n * env.cellBlocks := by ring
    rw [hcells] at hblk hfit
    rw [Nat.add_mul] at hfit
    have hcell : (m.disk.sectors (startBlk * dtbBlkSize) (env.cellBlocks * dtbBlkSize)).length =
        env.cellBlocks * dtbBlkSize := sectors_length ..
    have hstore : dst + (m.disk.sectors (startBlk * dtbBlkSize) (env.cellBlocks * dtbBlkSize)).length ≤ b.length := by
      omega
    rw [dtbReadCells]
    rw [mmcReadInternal_ok henv (by omega), ok_bind]
    dsimp only
    rw [if_neg (not_not_intro rfl), store_of_le hstore, ok_bind,
      ih (by omega) (by rw [patch_length hstore]; omega)]
    have hjoin := patch_patch_append b dst (m.disk.sectors (startBlk * dtbBlkSize) (env.cellBlocks * dtbBlkSize))
      (m.disk.sectors ((startBlk + env.cellBlocks) * dtbBlkSize) (n * env.cellBlocks * dtbBlkSize))
      (by rw [sectors_length, sectors_length]; omega)
    rw [hcell, Nat.add_mul startBlk, ← sectors_add] at hjoin
    rw [Nat.add_mul startBlk, hjoin, hcells, Nat.add_mul env.cellBlocks, Nat.add_assoc, Nat.add_comm 1 n]

theorem amlmmcDtbRead_ok (henv : env.NoFail) (hb : b.length = configDtbSize) (m : Machine) :
    amlmmcDtbRead env b m =
      .ok (0, m.disk.sectors (partBlk * dtbBlkSize) configDtbSize,
        { m with requests := m.requests + 1, accesses := m.accesses + env.cells }) := by
  have hzero : (List.replicate configDtbSize (0 : UInt8)).length = b.length := by rw [List.length_replicate, hb]
  have hcells := env.cells_eq
  have hsize : env.cells * env.cellBlocks * dtbBlkSize = configDtbSize := by rw [hcells]; rfl
  unfold amlmmcDtbRead
  rw [store_of_le (by rw [hzero, Nat.zero_add]), patch_all hzero, ok_bind]
  rw [henv.kmalloc, show mmcDtbPartOffset >>> bit = partBlk from rfl]
  simp only [Bool.not_true, Bool.false_eq_true, if_false]
  rw [dtbReadCells_ok henv (by rw [hcells]; decide) (by rw [hsize, List.length_replicate, Nat.zero_add]), hsize,
    patch_all (by rw [sectors_length, List.length_replicate])]

def readOut (d : Disk UInt8) (ppos count : Nat) : List UInt8 :=
  ((d.sectors (partBlk * dtbBlkSize) configDtbSize).drop ppos).take (min count (configDtbSize - ppos))

theorem readOut_length (d : Disk UInt8) (ppos count : Nat) :
    (readOut d ppos count).length = min count (configDtbSize - ppos) := by
  unfold readOut
  rw [List.length_take, List.length_drop, sectors_length]
  omega

theorem readOut_getElem? (d : Disk UInt8) {i : Nat} (h : i < (readOut d ppos count).length) :
    (readOut d ppos count)[i]? = some (d (partBlk * dtbBlkSize + (ppos + i))) := by
  rw [readOut_length] at h
  unfold readOut
  rw [List.getElem?_take_of_lt h, List.getElem?_drop, getElem?_sectors, if_pos (by omega)]

theorem mmcDtbRead_ok (henv : env.NoFail) (hbuf : m.buf = some b) (hb : b.length = configDtbSize)
    (hpos : ppos < configDtbSize) (hin : ppos + count < 2 ^ 64) :
    ∃ m', mmcDtbRead env ppos count m =
        .ok ((readOut m.disk ppos count).length, readOut m.disk ppos count, ppos + (readOut m.disk ppos count).length, m') ∧
      m'.buf = some (m.disk.sectors (partBlk * dtbBlkSize) configDtbSize) ∧ m'.table = m.table ∧ m'.disk = m.disk := by
  have hclip := clip_eq hpos hin
  have hlen := readOut_length m.disk ppos count
  refine ⟨{ m with
    buf := some (m.disk.sectors (partBlk * dtbBlkSize) configDtbSize)
    claims := m.claims + 1 - 1
    requests := m.requests + 1
    accesses := m.accesses + env.cells
    copies := m.copies + 1 }, ?_, rfl, rfl, rfl⟩
  simp only [mmcDtbRead, if_neg (Nat.ne_of_lt hpos), if_neg (Nat.not_le_of_lt hpos), hbuf]
  rw [amlmmcDtbRead_ok henv hb, ok_bind]
  rw [if_neg (not_not_intro rfl), load_of_le (by rw [sectors_length]; omega), ok_bind]
  rw [henv.user, Nat.sub_zero, List.take_take, Nat.min_self, hclip, hlen]
  rfl

end Read

/-! ## Where the copies are -/

section Place

variable {t : PartitionsFmt} {d : Disk UInt8} {b : List UInt8}

theorem dtbBlk_one (t : PartitionsFmt) : t.dtbBlk 1 = t.dtbBlk 0 + 512 := by
  unfold PartitionsFmt.dtbBlk dtbBlkCnt
  omega

theorem dtbBlk_range (t : PartitionsFmt) : -2 ^ 22 ≤ t.dtbBlk 0 ∧ t.dtbBlk 0 < 2 ^ 22 := by
  have hlt := s32_lt (getReservePartitionOffFromTbl t + dtbReserveOffset)
  have hge := le_s32 (getReservePartitionOffFromTbl t + dtbReserveOffset)
  unfold PartitionsFmt.dtbBlk bit
  omega

theorem copied_apply (d : Disk UInt8) (blk : Int) (b : List UInt8) (i : Nat) :
    copied d blk b i =
      if byteAddr (blk + maxTransBlk) ≤ i then
        (b[maxTransSize + (i - byteAddr (blk + maxTransBlk))]?).getD
          (if byteAddr blk ≤ i then ((b.take maxTransSize)[i - byteAddr blk]?).getD (d i) else d i)
      else if byteAddr blk ≤ i then ((b.take maxTransSize)[i - byteAddr blk]?).getD (d i) else d i := by
  unfold copied
  rw [apply_transfersAt, apply_transfersAt, List.getElem?_drop]

theorem copied_at (hblk : blk + 512 ≤ 2 ^ 32) (hb : b.length = configDtbSize) {p : Nat}
    (hp : p < configDtbSize) : some (copied d blk b (blk * dtbBlkSize + p)) = b[p]? := by
  have hhalf := maxTransSize_eq
  have hfirst : byteAddr blk = blk * dtbBlkSize := byteAddr_of_nat (by omega)
  have hsecond : byteAddr (blk + maxTransBlk : Nat) = blk * dtbBlkSize + maxTransSize := by
    rw [byteAddr_of_nat (by unfold maxTransBlk; omega), Nat.add_mul]
    rfl
  obtain ⟨v, hv⟩ : ∃ v, b[p]? = some v := ⟨_, List.getElem?_eq_getElem (by omega)⟩
  rw [copied_apply, ← Int.natCast_add, hsecond, hfirst, hv]
  generalize maxTransSize = half at hhalf ⊢
  by_cases hp' : p < half
  · rw [if_neg (by omega), if_pos (by omega), Nat.add_sub_cancel_left, List.getElem?_take_of_lt hp', hv]
    rfl
  · have hidx : half + (blk * dtbBlkSize + p - (blk * dtbBlkSize + half)) = p := by omega
    rw [if_pos (by omega), hidx, hv]
    rfl

theorem copied_of_lt {i : Nat} (hblk : blk + 512 ≤ 2 ^ 32) (hi : i < blk * dtbBlkSize) : copied d blk b i = d i := by
  have hsecond : byteAddr (blk + maxTransBlk : Nat) = blk * dtbBlkSize + maxTransSize := by
    rw [byteAddr_of_nat (by unfold maxTransBlk; omega), Nat.add_mul]
    rfl
  rw [copied_apply, ← Int.natCast_add, hsecond, byteAddr_of_nat (by omega), if_neg (by omega),
    if_neg (Nat.not_le_of_lt hi)]

theorem stored_of_placed (ht : t.Placed) (hb : b.length = configDtbSize) (d : Disk UInt8) {p : Nat}
    (hp : p < configDtbSize) :
    some (copied (copied d (t.dtbBlk 0) b) (t.dtbBlk 1) b (partBlk * dtbBlkSize + p)) = b[p]? := by
  have hlen := configDtbSize_eq
  rcases ht with h0 | h1
  · have hnext : t.dtbBlk 1 = (partBlk + 512 : Nat) := by rw [dtbBlk_one, h0]; rfl
    rw [hnext, h0, copied_of_lt (by decide), copied_at (by decide) hb hp]
    unfold partBlk dtbBlkSize
    omega
  · rw [h1, copied_at (by decide) hb hp]

end Place

/-! ## Sequences of calls -/

section Runs

variable {env : DtbEnv} {t : PartitionsFmt} {m : Machine} {w : Nat → Option UInt8}

/-- The bytes that were last written are in the buffer and on the card. -/
structure Holds (t : PartitionsFmt) (m : Machine) (w : Nat → Option UInt8) : Prop where
  table : m.table = t
  buffer : ∃ b, m.buf = some b ∧ b.length = configDtbSize ∧
    ∀ p v, p < trailerOffset → w p = some v → b[p]? = some v
  card : ∀ p v, p < trailerOffset → w p = some v → m.disk (partBlk * dtbBlkSize + p) = v

theorem Holds.run (henv : env.NoFail) (ht : t.Placed) {calls : List DtbCall} (hin : ∀ c ∈ calls, DtbCall.InFile c)
    (h : Holds t m w) : ∃ m', runCalls env calls m = .ok m' ∧ Holds t m' (calls.foldl written w) := by
  induction calls generalizing m w with
  | nil => exact ⟨m, rfl, h⟩
  | cons c cs ih =>
    have hc := hin c List.mem_cons_self
    obtain ⟨m1, hrun, h1⟩ : ∃ m', run env m c = .ok m' ∧ Holds t m' (c.written w) := by
      cases c with
      | read ppos count =>
        obtain ⟨b, hbuf, hb, -⟩ := h.buffer
        have hsize := configDtbSize_eq
        have htrailer := trailerOffset_eq
        by_cases hpos : ppos < configDtbSize
        · obtain ⟨m', hread, hbuf', htable, hdisk⟩ := mmcDtbRead_ok henv hbuf hb hpos hc
          refine ⟨m', by simp only [run, hread, ok_bind]; rfl, htable.trans h.table, ?_, ?_⟩
          · refine ⟨_, hbuf', sectors_length .., fun p v hp hv => ?_⟩
            rw [getElem?_sectors, if_pos (by omega), h.card p v hp hv]
          · rw [hdisk]
            exact h.card
        · refine ⟨m, ?_, h⟩
          simp only [run, mmcDtbRead]
          split_ifs
          · rfl
          · rfl
          · omega
      | write ppos user =>
        obtain ⟨b, hbuf, hb, hold⟩ := h.buffer
        have hsize := configDtbSize_eq
        have htrailer := trailerOffset_eq
        by_cases hpos : ppos < configDtbSize
        · obtain ⟨b', m', hrun, hbuf', htable, hdisk, hlen, hp'⟩ := mmcDtbWrite_ok henv hbuf hb hpos hc
          have hnew : ∀ p v, p < trailerOffset → written w (.write ppos user) p = some v → b'[p]? = some v := by
            intro p v hp hv
            rw [hp' p hp, merged_getElem? hb hpos user (by omega)]
            dsimp only [written] at hv
            split_ifs at hv ⊢
            · exact hv
            · omega
            · omega
            · exact hold p v hp hv
          refine ⟨m', hrun, htable.trans h.table, ⟨b', hbuf', hlen, hnew⟩, fun p v hp hv => ?_⟩
          have hstored := stored_of_placed ht hlen m.disk (show p < configDtbSize by omega)
          rw [hdisk, h.table]
          exact Option.some.inj (hstored.trans (hnew p v hp hv))
        · have hsame : written w (.write ppos user) = w := by
            funext p
            exact if_neg (by omega)
          refine ⟨m, ?_, by rw [hsame]; exact h⟩
          simp only [run, mmcDtbWrite]
          split_ifs
          · rfl
          · rfl
          · omega
    obtain ⟨m2, hruns, h2⟩ := ih (fun c hc => hin c (List.mem_cons_of_mem _ hc)) h1
    refine ⟨m2, ?_, h2⟩
    unfold runCalls at hruns ⊢
    rw [List.foldlM_cons, hrun]
    exact hruns

theorem readsBack_of_placed (henv : env.NoFail) (ht : t.Placed) : ReadsBack env t := by
  intro m b calls htable hbuf hb hin
  have h : Holds t m fun _ => none := ⟨htable, ⟨b, hbuf, hb, by simp⟩, by simp⟩
  obtain ⟨m', hrun, h'⟩ := h.run henv ht hin
  refine ⟨m', hrun, fun ppos count hpos hcount => ?_⟩
  obtain ⟨b', hbuf', hb', -⟩ := h'.buffer
  obtain ⟨m'', hread, -⟩ := mmcDtbRead_ok henv hbuf' hb' hpos hcount
  refine ⟨_, m'', hread, readOut_length .., fun i v hi hp hv => ?_⟩
  rw [readOut_getElem? _ hi, h'.card _ v hp hv]

/-! ## Copies in other places -/

def Machine.blank (t : PartitionsFmt) : Machine where
  disk := fun _ => 0
  table := t
  buf := some (List.replicate configDtbSize 0)
  stamp := fun _ => 0
  valid := fun _ => false
  claims := 0
  accesses := 0
  requests := 0
  copies := 0

theorem copied_elsewhere {blk : Int} (hlow : -2 ^ 22 ≤ blk) (hhigh : blk < 2 ^ 23) (hne : blk ≠ partBlk)
    {b : List UInt8} (hb : b.length = configDtbSize) (hzero : ∀ k, 0 < k → k < 512 → b[k * 512]? = some 0)
    {d : Disk UInt8} (hd : d (partBlk * dtbBlkSize) = 0) : copied d blk b (partBlk * dtbBlkSize) = 0 := by
  have hpart : partBlk * dtbBlkSize = 81920 * 512 := rfl
  have hlen := configDtbSize_eq
  have hhalf := maxTransSize_eq
  rw [partBlk_eq] at hne
  -- the sectors of the tree that come to lie there, from the first and from the second transfer
  have hfirst : (if byteAddr blk ≤ partBlk * dtbBlkSize then
      ((b.take maxTransSize)[partBlk * dtbBlkSize - byteAddr blk]?).getD (d (partBlk * dtbBlkSize))
      else d (partBlk * dtbBlkSize)) = 0 := by
    rw [hd, hpart]
    generalize maxTransSize = half at hhalf ⊢
    unfold byteAddr dtbBlkSize
    split_ifs with hle
    · obtain ⟨k, hk⟩ : ∃ k, 81920 = (blk % 2 ^ 32).toNat + k := ⟨81920 - (blk % 2 ^ 32).toNat, by omega⟩
      have hidx : 81920 * 512 - (blk % 2 ^ 32).toNat * 0x200 = k * 512 := by omega
      rw [hidx]
      by_cases hin : k * 512 < half
      · rw [List.getElem?_take_of_lt hin, hzero k (by omega) (by omega)]
        rfl
      · rw [List.getElem?_eq_none (by rw [List.length_take]; omega)]
        rfl
    · rfl
  rw [copied_apply, hfirst, hpart]
  generalize maxTransSize = half at hhalf ⊢
  unfold byteAddr dtbBlkSize maxTransBlk
  split_ifs with hle
  · obtain ⟨k, hk⟩ : ∃ k, 81920 = ((blk + (256 : Nat)) % 2 ^ 32).toNat + k :=
      ⟨81920 - ((blk + (256 : Nat)) % 2 ^ 32).toNat, by omega⟩
    have hidx : half + (81920 * 512 - ((blk + (256 : Nat)) % 2 ^ 32).toNat * 0x200) = (256 + k) * 512 := by omega
    rw [hidx]
    by_cases hin : 256 + k < 512
    · rw [hzero (256 + k) (by omega) hin]
      rfl
    · rw [List.getElem?_eq_none (by omega)]
      rfl
  · rfl

theorem reads_zero (henv : env.NoFail) (ht : ¬ t.Placed) :
    ∃ m' m'', runCalls env [.write 0 [1]] (.blank t) = .ok m' ∧ mmcDtbRead env 0 1 m' = .ok (1, [0], 1, m'') := by
  have hsize := configDtbSize_eq
  have htrailer := trailerOffset_eq
  obtain ⟨hlow, hhigh⟩ := dtbBlk_range t
  have hone := dtbBlk_one t
  obtain ⟨h0, h1⟩ := not_or.mp ht
  have hblank : (List.replicate configDtbSize (0 : UInt8)).length = configDtbSize := List.length_replicate
  obtain ⟨b', m', hrun, hbuf', -, hdisk, hlen, hp'⟩ := mmcDtbWrite_ok (m := .blank t) henv rfl hblank
    (show 0 < configDtbSize by decide) (show 0 + ([1] : List UInt8).length < 2 ^ 64 by decide)
  have hzero : ∀ k, 0 < k → k < 512 → b'[k * 512]? = some 0 := by
    intro k hk hk'
    rw [hp' _ (by omega), merged_getElem? hblank (by decide) _ (by omega), if_neg (by simp; omega),
      List.getElem?_replicate, if_pos (by omega)]
  have hbyte : m'.disk (partBlk * dtbBlkSize) = 0 := by
    rw [hdisk]
    refine copied_elsewhere (by omega) (by omega) h1 hlen hzero ?_
    exact copied_elsewhere hlow (by omega) h0 hlen hzero rfl
  obtain ⟨m'', hread, -⟩ := mmcDtbRead_ok henv hbuf' hlen (show 0 < configDtbSize by decide)
    (show 0 + 1 < 2 ^ 64 by decide)
  have hout : readOut m'.disk 0 1 = [0] := by
    have hl : (readOut m'.disk 0 1).length = 1 := readOut_length ..
    obtain ⟨v, hv⟩ := List.length_eq_one_iff.mp hl
    have hget := readOut_getElem? m'.disk (show 0 < (readOut m'.disk 0 1).length by omega)
    rw [hv, Nat.add_zero, hbyte] at hget
    rw [hv, ← Option.some.inj hget]
  rw [hout] at hread
  refine ⟨m', m'', ?_, hread⟩
  unfold runCalls
  rw [List.foldlM_cons, hrun]
  rfl

theorem placed_of_readsBack (henv : env.NoFail) (h : ReadsBack env t) : t.Placed := by
  by_contra ht
  obtain ⟨m', m'', hrun, hread⟩ := reads_zero henv ht
  obtain ⟨m1, hrun1, hreads⟩ := h (.blank t) _ [.write 0 [1]] rfl rfl List.length_replicate
    (by simp [DtbCall.InFile])
  obtain rfl : m' = m1 := Except.ok.inj (hrun.symm.trans hrun1)
  obtain ⟨out, m2, hread1, -, hbytes⟩ := hreads 0 1 (by decide) (by decide)
  obtain rfl : [0] = out := congrArg (fun r => r.2.1) (Except.ok.inj (hread.symm.trans hread1))
  have hlast : lastWritten [.write 0 [1]] (0 + 0) = some 1 := rfl
  exact absurd (hbytes 0 1 (by decide) (by decide) hlast) (by decide)

end Runs

/-- With no failing access, request or copy: every sequence of reads and writes is read back just if the table puts one
of the two copies to the fixed place from which `mmc_dtb_read` reads. -/
theorem dtb_read_after_write_iff {env : DtbEnv} (henv : env.NoFail) (t : PartitionsFmt) :
    ReadsBack env t ↔ t.Placed :=
  ⟨placed_of_readsBack henv, readsBack_of_placed henv⟩

def plainEnv : DtbEnv where
  cellBlocks := 32
  cells := 16
  cells_eq := rfl
  io := fun _ => (0, 0)
  kmalloc := fun _ => true
  user := fun _ => 0

theorem plainEnv_noFail : plainEnv.NoFail := ⟨fun _ => rfl, fun _ => rfl, fun _ => rfl⟩

def reservedTable (offset : UInt64) : PartitionsFmt :=
  let entry : Partition := ⟨⟨mmcReservedName ++ List.replicate 8 0, by decide⟩, 0x4000000, offset, 0, 0⟩
  { magic := ⟨mmcPartitionsMagic, by decide⟩, partNum := 1, checksum := entry.words.foldl (· + ·) 0,
    partitions := [entry] }

theorem dtb_read_after_write_default :
    (reservedTable 0x2400000).accepted = true ∧ ReadsBack plainEnv (reservedTable 0x2400000) :=
  ⟨by decide, (dtb_read_after_write_iff plainEnv_noFail _).mpr (.inl (by decide))⟩

/-- The reserved partition at the start of the card. -/
theorem dtb_read_elsewhere :
    (reservedTable 0).accepted = true ∧ (reservedTable 0).reserved.isSome = true ∧
      ∃ m' m'', runCalls plainEnv [.write 0 [1]] (.blank (reservedTable 0)) = .ok m' ∧
        mmcDtbRead plainEnv 0 1 m' = .ok (1, [0], 1, m'') :=
  ⟨by decide, by decide, reads_zero plainEnv_noFail fun h => h.elim (by decide) (by decide)⟩

end Amlogic.Dtb
