import Amlogic.Mmc.EmmcKey

/-!
# What the key area holds

The transfers that the driver issues when no card access and no memory request fails: a write stores
both copies, and a start repairs the copies in a way that depends on the disk alone.
-/

namespace Amlogic.Mmc

open Disk Function AmlKeyInfo

structure MmcEnv.Ok (env : MmcEnv) : Prop where
  io : ∀ k, (env.io k).1 = 0
  kmalloc : ∀ k, env.kmalloc k = true

def copyData (env : MmcEnv) (d : Disk Sector) (c : Nat) : List Sector :=
  d.sectors (env.keyBlk c) keyareaSectors

def copyInfo (env : MmcEnv) (d : Disk Sector) (c : Nat) : AmlKeyInfo :=
  .ofSector (d (env.infoBlk c))

/-- The test of the driver for a copy: the checksum is right and the magic number is set. -/
def CopyValid (env : MmcEnv) (d : Disk Sector) (c : Nat) : Prop :=
  checksumOf (copyData env d c) = (copyInfo env d c).checksum ∧ (copyInfo env d c).magic ≠ 0

instance (env : MmcEnv) (d : Disk Sector) (c : Nat) : Decidable (CopyValid env d c) :=
  inferInstanceAs (Decidable (_ ∧ _))

def copyTransfers (env : MmcEnv) (c : Nat) (data : List Sector) (info : AmlKeyInfo) :
    List (Transfer Sector) :=
  transfersAt (env.keyBlk c) data ++ [(env.infoBlk c, info.toSector)]

def repair (env : MmcEnv) (d : Disk Sector) : List (Transfer Sector) :=
  if CopyValid env d 0 then
    if CopyValid env d 1 then
      if stampAfter (copyInfo env d 1).stamp (copyInfo env d 0).stamp then
        copyTransfers env 0 (copyData env d 0) (copyInfo env d 0)
      else if stampAfter (copyInfo env d 0).stamp (copyInfo env d 1).stamp then
        copyTransfers env 1 (copyData env d 0) (copyInfo env d 1)
      else []
    else copyTransfers env 1 (copyData env d 0) (copyInfo env d 0)
  else if CopyValid env d 1 then copyTransfers env 0 (copyData env d 1) (copyInfo env d 1)
  else []

/-! ## The layout of the key area -/

theorem keyBlk_eq (env : MmcEnv) (c : Nat) : env.keyBlk c = env.keyBlk 0 + 512 * c := by
  simp only [MmcEnv.keyBlk, readBlkbits, emmcKeyareaSize, Nat.shiftRight_eq_div_pow]
  omega

theorem infoBlk_eq (env : MmcEnv) (c : Nat) : env.infoBlk c = env.keyBlk 0 + 1024 + c := by
  simp only [MmcEnv.infoBlk, MmcEnv.keyBlk, readBlkbits, emmcKeyareaSize, Nat.shiftRight_eq_div_pow]
  omega

theorem copyData_length (env : MmcEnv) (d : Disk Sector) (c : Nat) :
    (copyData env d c).length = keyareaSectors := sectors_length ..

theorem ofSector_toSector (i : AmlKeyInfo) : ofSector i.toSector = i := by
  have h8 : i.toSector.1.drop 8 = le32 i.stamp ++ (le32 i.magic ++ List.replicate 496 0) := by
    simp only [toSector, bytes, List.append_assoc]
    exact List.drop_left' rfl
  have h12 : i.toSector.1.drop 12 = le32 i.magic ++ List.replicate 496 0 := by
    rw [show 12 = 8 + 4 from rfl, ← List.drop_drop, h8]
    exact List.drop_left' rfl
  unfold ofSector
  rw [h8, h12, getLe32_le32, getLe32_le32]
  simp only [toSector, bytes, List.append_assoc, getLe64_le64]

/-! ## The disk while a copy is stored -/

section Copy

variable {env : MmcEnv} {c c' : Nat} {data : List Sector} {info : AmlKeyInfo} {d : Disk Sector}

theorem copyTransfers_take (hdata : data.length = keyareaSectors) (k : Nat) :
    (copyTransfers env c data info).take k
      = transfersAt (env.keyBlk c) (data.take k) ++
        if keyareaSectors < k then [(env.infoBlk c, info.toSector)] else [] := by
  unfold copyTransfers
  rw [List.take_append, transfersAt_take, transfersAt_length, hdata]
  split_ifs with hk
  · obtain ⟨j, hj⟩ : ∃ j, k - keyareaSectors = j + 1 := ⟨k - keyareaSectors - 1, by omega⟩
    rw [hj, List.take_succ_cons, List.take_nil]
  · rw [Nat.sub_eq_zero_of_le (by omega), List.take_zero]

theorem mem_copyTransfers_take (hdata : data.length = keyareaSectors) {k : Nat} {t : Transfer Sector}
    (ht : t ∈ (copyTransfers env c data info).take k) :
    (env.keyBlk c ≤ t.1 ∧ t.1 < env.keyBlk c + 512) ∨ t.1 = env.infoBlk c := by
  have hk : keyareaSectors = 512 := rfl
  have ht := List.mem_of_mem_take ht
  rcases List.mem_append.mp ht with ht | ht
  · have := mem_transfersAt ht
    omega
  · right
    rw [List.mem_singleton.mp ht]

theorem copyData_take (hc : c < 2) (hdata : data.length = keyareaSectors) (k : Nat) :
    copyData env (d.apply ((copyTransfers env c data info).take k)) c
      = data.take k ++ (copyData env d c).drop k := by
  have hk : keyareaSectors = 512 := rfl
  unfold copyData
  rw [copyTransfers_take hdata, apply_append, sectors_apply_of_disjoint,
    sectors_apply_transfersAt]
  · rw [List.length_take, hdata]
    rcases Nat.le_total k keyareaSectors with h | h
    · rw [Nat.min_eq_left h]
    · rw [Nat.min_eq_right h, List.drop_eq_nil_of_le (by simp), List.drop_eq_nil_of_le (by simp; omega)]
  · rw [List.length_take]; omega
  · intro t ht
    split_ifs at ht
    · rw [List.mem_singleton.mp ht, infoBlk_eq, keyBlk_eq env c]
      right
      omega
    · cases ht

theorem copyData_take_ne (hc : c < 2) (hc' : c' < 2) (hne : c' ≠ c) (hdata : data.length = keyareaSectors) (k : Nat) :
    copyData env (d.apply ((copyTransfers env c data info).take k)) c' = copyData env d c' := by
  have hk : keyareaSectors = 512 := rfl
  refine sectors_apply_of_disjoint fun t ht => ?_
  have := mem_copyTransfers_take hdata ht
  rw [infoBlk_eq, keyBlk_eq env c] at this
  rw [keyBlk_eq env c']
  omega

theorem copyInfo_take (hc : c < 2) (hdata : data.length = keyareaSectors) (k : Nat) :
    copyInfo env (d.apply ((copyTransfers env c data info).take k)) c
      = if keyareaSectors < k then info else copyInfo env d c := by
  have hk : keyareaSectors = 512 := rfl
  have hold : (d.apply (transfersAt (env.keyBlk c) (data.take k))) (env.infoBlk c)
      = d (env.infoBlk c) := by
    refine apply_of_ne fun t ht => ?_
    have := mem_transfersAt ht
    rw [List.length_take] at this
    rw [infoBlk_eq]
    rw [keyBlk_eq env c] at this
    omega
  unfold copyInfo
  rw [copyTransfers_take hdata, apply_append]
  split_ifs
  · rw [apply_singleton, ofSector_toSector]
  · exact congrArg ofSector hold

theorem copyInfo_take_ne (hc : c < 2) (hc' : c' < 2) (hne : c' ≠ c) (hdata : data.length = keyareaSectors) (k : Nat) :
    copyInfo env (d.apply ((copyTransfers env c data info).take k)) c' = copyInfo env d c' := by
  refine congrArg ofSector (apply_of_ne fun t ht => ?_)
  have := mem_copyTransfers_take hdata ht
  rw [infoBlk_eq, keyBlk_eq env c] at this
  rw [infoBlk_eq]
  omega

/-- The first `k` transfers that store a copy lead from `d` to `d'`. -/
structure Progress (env : MmcEnv) (c : Nat) (data : List Sector) (info : AmlKeyInfo) (k : Nat)
    (d d' : Disk Sector) : Prop where
  data : copyData env d' c = data.take k ++ (copyData env d c).drop k
  info : copyInfo env d' c = if keyareaSectors < k then info else copyInfo env d c
  data_ne : ∀ c' < 2, c' ≠ c → copyData env d' c' = copyData env d c'
  info_ne : ∀ c' < 2, c' ≠ c → copyInfo env d' c' = copyInfo env d c'

theorem progress_take (hc : c < 2) (hdata : data.length = keyareaSectors) (info : AmlKeyInfo) (k : Nat)
    (d : Disk Sector) : Progress env c data info k d (d.apply ((copyTransfers env c data info).take k)) :=
  ⟨copyData_take hc hdata k, copyInfo_take hc hdata k,
    fun _ hc' hne => copyData_take_ne hc hc' hne hdata k,
    fun _ hc' hne => copyInfo_take_ne hc hc' hne hdata k⟩

theorem copyTransfers_length (hdata : data.length = keyareaSectors) :
    (copyTransfers env c data info).length = keyareaSectors + 1 := by
  unfold copyTransfers
  rw [List.length_append, transfersAt_length, hdata]
  rfl

theorem progress_all (hc : c < 2) (hdata : data.length = keyareaSectors) (info : AmlKeyInfo) (d : Disk Sector) :
    Progress env c data info (keyareaSectors + 1) d (d.apply (copyTransfers env c data info)) := by
  have h : Progress env c data info (keyareaSectors + 1) d _ := progress_take hc hdata info _ d
  rwa [List.take_of_length_le (copyTransfers_length hdata).le] at h

theorem Progress.done {k : Nat} {d' : Disk Sector} (h : Progress env c data info k d d')
    (hdata : data.length = keyareaSectors) (hk : keyareaSectors < k) :
    copyData env d' c = data ∧ copyInfo env d' c = info := by
  refine ⟨?_, h.info.trans (if_pos hk)⟩
  rw [h.data, List.take_of_length_le (l := data) (by omega),
    List.drop_eq_nil_of_le (by rw [copyData_length]; omega), List.append_nil]

end Copy

/-! ## Accesses that do not fail -/

section Access

variable {env : MmcEnv} {buf : List Sector} {m m' : Emmc}

/-- A part of the driver stored some sectors, and changed none of its variables. -/
structure Stores (ts : List (Transfer Sector)) (m m' : Emmc) : Prop where
  disk : m'.disk = m.disk.apply ts
  log : m'.log = m.log ++ ts
  keyInfos : m'.keyInfos = m.keyInfos
  keyStamp : m'.keyStamp = m.keyStamp

theorem Stores.trans {m1 m2 m3 : Emmc} {ts us : List (Transfer Sector)} (h : Stores ts m1 m2)
    (h' : Stores us m2 m3) : Stores (ts ++ us) m1 m3 := by
  refine ⟨?_, ?_, h'.keyInfos.trans h.keyInfos, h'.keyStamp.trans h.keyStamp⟩
  · rw [h'.disk, h.disk, apply_append]
  · rw [h'.log, h.log, List.append_assoc]

section

variable (hok : env.Ok)
include hok

theorem mmcWriteInternal_ok (blk : Nat) {blocks src : Nat} (h : src + blocks ≤ buf.length)
    (m : Emmc) : ∃ m', mmcWriteInternal env blk blocks buf src m = .ok (0, m') ∧
      Stores (transfersAt blk ((buf.drop src).take blocks)) m m' := by
  unfold mmcWriteInternal
  rw [load_of_le h, ok_bind]
  have hio := hok.io m.accesses
  dsimp only
  rw [hio, if_pos rfl]
  exact ⟨_, rfl, rfl, rfl, rfl, rfl⟩

theorem mmcReadInternal_ok (blk : Nat) {blocks dst : Nat} (h : dst + blocks ≤ buf.length)
    (m : Emmc) : ∃ m', mmcReadInternal env blk blocks buf dst m
        = .ok (0, patch buf dst (m.disk.sectors blk blocks), m') ∧ Stores [] m m' := by
  unfold mmcReadInternal
  dsimp only
  rw [if_neg (not_not_intro (hok.io m.accesses)), store_of_le (by rw [sectors_length]; exact h)]
  exact ⟨_, rfl, rfl, (List.append_nil _).symm, rfl, rfl⟩

section

variable (hbuf : buf.length = keyareaSectors)
include hbuf

theorem writeRounds_ok (blk : Nat) (m : Emmc) :
    ∃ m', writeRounds env buf keyRounds blk 0 m = .ok (0, m') ∧ Stores (transfersAt blk buf) m m' := by
  have hlen : buf.length = 256 + 256 := hbuf
  obtain ⟨m1, h1, s1⟩ := mmcWriteInternal_ok hok blk (show 0 + 256 ≤ buf.length by omega) m
  obtain ⟨m2, h2, s2⟩ :=
    mmcWriteInternal_ok hok (blk + 256) (show 256 + 256 ≤ buf.length by omega) m1
  refine ⟨m2, ?_, ?_⟩
  · show writeRounds env buf (1 + 1) blk 0 m = _
    rw [writeRounds, emmcBlockSize, h1, ok_bind]
    dsimp only
    rw [if_neg (not_not_intro rfl), writeRounds, emmcBlockSize, h2, ok_bind]
    rfl
  · have hall : transfersAt blk buf = transfersAt blk ((buf.drop 0).take 256) ++
        transfersAt (blk + 256) ((buf.drop 256).take 256) := by
      have hl : (buf.take 256).length = 256 := by rw [List.length_take]; omega
      conv_lhs => rw [← List.take_append_drop 256 buf, transfersAt_append, hl]
      rw [List.drop_zero, List.take_of_length_le (l := buf.drop 256) (by rw [List.length_drop]; omega)]
    rw [hall]
    exact s1.trans s2

theorem read_halves (blk : Nat) (m : Emmc) :
    ∃ buf1 m1 m2, mmcReadInternal env blk 256 buf 0 m = .ok (0, buf1, m1) ∧
      mmcReadInternal env (blk + 256) 256 buf1 256 m1
        = .ok (0, m.disk.sectors blk keyareaSectors, m2) ∧ Stores [] m m2 := by
  have hlen : buf.length = 256 + 256 := hbuf
  obtain ⟨m1, h1, s1⟩ := mmcReadInternal_ok hok blk (show 0 + 256 ≤ buf.length by omega) m
  have hl1 : (patch buf 0 (m.disk.sectors blk 256)).length = buf.length :=
    patch_length (by rw [sectors_length]; omega)
  obtain ⟨m2, h2, s2⟩ := mmcReadInternal_ok hok (blk + 256)
    (show 256 + 256 ≤ (patch buf 0 (m.disk.sectors blk 256)).length by omega) m1
  have hd : m1.disk = m.disk := s1.disk
  have hfill : patch (patch buf 0 (m.disk.sectors blk 256)) 256 (m.disk.sectors (blk + 256) 256)
      = m.disk.sectors blk keyareaSectors := by
    have happ := patch_patch_append buf 0 (m.disk.sectors blk 256) (m.disk.sectors (blk + 256) 256)
      (by rw [sectors_length, sectors_length]; omega)
    rw [Nat.zero_add, sectors_length, ← sectors_add] at happ
    rw [happ, patch, List.take_zero, List.nil_append, sectors_length,
      List.drop_eq_nil_of_le (by omega), List.append_nil]
    rfl
  rw [hd, hfill] at h2
  exact ⟨_, m1, m2, h1, h2, s1.trans s2⟩

theorem readRounds_ok (blk : Nat) (m : Emmc) :
    ∃ m', readRounds env keyRounds blk 0 buf m
        = .ok (0, m.disk.sectors blk keyareaSectors, m') ∧ Stores [] m m' := by
  obtain ⟨buf1, m1, m2, h1, h2, s⟩ := read_halves hok hbuf blk m
  refine ⟨m2, ?_, s⟩
  show readRounds env (1 + 1) blk 0 buf m = _
  rw [readRounds, emmcBlockSize, h1, ok_bind]
  dsimp only
  rw [if_neg (not_not_intro rfl), readRounds, emmcBlockSize, h2, ok_bind]
  rfl

/-- The transfers of `emmc_write_one_key`: the copy with the other number, with the info of the valid
one. -/
theorem emmcWriteOneKey_ok (validFlag : Nat) (m : Emmc) : ∃ m', emmcWriteOneKey env buf validFlag m = .ok (0, m') ∧
      Stores (copyTransfers env (validFlag % 2) buf (m.keyInfos (validFlag - 1))) m m' := by
  obtain ⟨m1, h1, s1⟩ := writeRounds_ok hok hbuf (env.keyBlk (validFlag % 2))
    (m.kmalloc env).2.claim
  obtain ⟨m2, h2, s2⟩ := mmcWriteInternal_ok hok (env.infoBlk (validFlag % 2))
    (show 0 + 1 ≤ [(m.keyInfos (validFlag - 1)).toSector].length from Nat.le_refl 1) m1
  refine ⟨m2.release, ?_, ?_⟩
  · unfold emmcWriteOneKey
    have hk : (m.kmalloc env).1 = true := hok.kmalloc _
    dsimp only
    rw [hk, if_neg (by decide)]
    dsimp only [Emmc.kmalloc] at h1 ⊢
    rw [h1, ok_bind]
    rw [if_neg (not_not_intro rfl), h2, ok_bind]
    rfl
  · have h := s1.trans s2
    exact ⟨h.disk, h.log, h.keyInfos, h.keyStamp⟩

theorem amlmmcRead_ok (blk : Nat) (m : Emmc) :
    ∃ m', amlmmcRead env blk buf m = .ok (0, m.disk.sectors blk keyareaSectors, m') ∧
      Stores [] m m' := by
  obtain ⟨m1, h1, s1⟩ := readRounds_ok hok hbuf blk m.claim
  unfold amlmmcRead
  rw [h1, ok_bind]
  exact ⟨m1.release, rfl, s1.disk, s1.log, s1.keyInfos, s1.keyStamp⟩

theorem emmcReadValidKey_ok (validFlag : Nat) (m : Emmc) : ∃ m', emmcReadValidKey env buf validFlag m
        = .ok (0, copyData env m.disk (validFlag - 1), m') ∧ Stores [] m m' := by
  obtain ⟨m1, h1, s1⟩ := readRounds_ok hok hbuf (env.keyBlk (validFlag - 1)) m.claim
  unfold emmcReadValidKey
  rw [h1, ok_bind]
  exact ⟨m1.release, rfl, s1.disk, s1.log, s1.keyInfos, s1.keyStamp⟩

end

end

theorem calcKeyChecksum_ok (hbuf : buf.length = keyareaSectors) :
    calcKeyChecksum buf emmcKeyareaSize = .ok (checksumOf buf) := by
  have hl : load buf 0 (emmcKeyareaSize >>> readBlkbits) = .ok buf := by
    rw [load_of_le (by rw [hbuf, Nat.zero_add]; exact Nat.le_refl _), List.drop_zero,
      List.take_of_length_le (by rw [hbuf]; exact Nat.le_refl _)]
  unfold calcKeyChecksum
  rw [hl]
  rfl

/-- A part of the driver read the info of a copy and stored nothing. -/
structure Checks (env : MmcEnv) (c : Nat) (m m' : Emmc) : Prop where
  disk : m'.disk = m.disk
  log : m'.log = m.log
  keyInfos : m'.keyInfos = update m.keyInfos c (copyInfo env m.disk c)

section

variable (hok : env.Ok)
include hok

section

variable (hbuf : buf.length = keyareaSectors)
include hbuf

theorem verifyKeyChecksum_ok (c : Nat) (m : Emmc) :
    ∃ m', verifyKeyChecksum env buf c m
        = .ok (if checksumOf buf = (copyInfo env m.disk c).checksum then 0 else 1, m') ∧
      Checks env c m m' := by
  obtain ⟨m1, h1, s1⟩ := mmcReadInternal_ok hok (env.infoBlk c)
    (show 0 + 1 ≤ [Bytes.zero 512].length from Nat.le_refl 1) (m.kmalloc env).2.claim
  have hk : (m.kmalloc env).1 = true := hok.kmalloc _
  have hinfos : m1.keyInfos = m.keyInfos := s1.keyInfos
  unfold verifyKeyChecksum
  dsimp only
  rw [hk, if_neg (by decide), h1, ok_bind]
  rw [if_neg (not_not_intro rfl), calcKeyChecksum_ok hbuf, ok_bind]
  refine ⟨_, rfl, s1.disk, s1.log.trans (List.append_nil _), ?_⟩
  show update m1.keyInfos c _ = _
  rw [hinfos]
  rfl

theorem checkCopy_ok (c validFlag : Nat)
    (m : Emmc) : ∃ m', checkCopy env c buf validFlag m = .ok (copyData env m.disk c,
        validFlag + (if CopyValid env m.disk c then c + 1 else 0), m') ∧ Checks env c m m' := by
  obtain ⟨m1, h1, s1⟩ := amlmmcRead_ok hok hbuf (env.keyBlk c) m
  obtain ⟨m2, h2, s2⟩ := verifyKeyChecksum_ok hok
    (copyData_length env m.disk c) c m1
  have hd : m1.disk = m.disk := s1.disk
  have hinfo : m2.keyInfos c = copyInfo env m.disk c := by
    rw [s2.keyInfos, update_self, hd]
  refine ⟨m2, ?_, s2.disk.trans hd, s2.log.trans (s1.log.trans (List.append_nil _)), ?_⟩
  · unfold checkCopy
    rw [h1, ok_bind]
    dsimp only
    rw [if_neg (not_not_intro rfl)]
    have h2' : verifyKeyChecksum env (m.disk.sectors (env.keyBlk c) keyareaSectors) c m1 = _ := h2
    rw [h2', ok_bind, hd]
    rw [hinfo]
    by_cases hv : CopyValid env m.disk c
    · rw [if_pos hv, if_pos ⟨if_pos hv.1, hv.2⟩]
      rfl
    · rw [if_neg hv, if_neg]
      · rfl
      · rintro ⟨hsum, hmagic⟩
        refine hv ⟨?_, hmagic⟩
        by_contra hne
        exact absurd ((if_neg hne).symm.trans hsum) (by decide)
  · rw [s2.keyInfos, hd, s1.keyInfos]

theorem updateKeyInfo_ok (m : Emmc) :
    ∃ m', updateKeyInfo env buf m = .ok ((if CopyValid env m.disk 1 then 2 else 0) +
        (if CopyValid env m.disk 0 then 1 else 0), copyData env m.disk 0, m') ∧
      m'.disk = m.disk ∧ m'.log = m.log ∧
      m'.keyInfos 0 = copyInfo env m.disk 0 ∧ m'.keyInfos 1 = copyInfo env m.disk 1 := by
  obtain ⟨m1, h1, s1⟩ := checkCopy_ok hok hbuf 1 0 m
  obtain ⟨m2, h2, s2⟩ := checkCopy_ok hok
    (copyData_length env m.disk 1) 0
    (0 + (if CopyValid env m.disk 1 then 1 + 1 else 0)) m1
  unfold updateKeyInfo
  rw [h1, ok_bind]
  dsimp only
  rw [h2, ok_bind, s1.disk, Nat.zero_add]
  refine ⟨_, rfl, s2.disk.trans s1.disk, s2.log.trans s1.log, ?_, ?_⟩
  · rw [s2.keyInfos, update_self, s1.disk]
  · rw [s2.keyInfos, update_of_ne (by decide), s1.keyInfos, update_self]

theorem writeInvalidKey_ok {validFlag : Nat} (hv : validFlag = 1 ∨ validFlag = 2) (m : Emmc) :
    ∃ m', writeInvalidKey env buf validFlag m = .ok (0, m') ∧
      Stores (copyTransfers env (validFlag % 2) (copyData env m.disk (validFlag - 1))
        (m.keyInfos (validFlag - 1))) m m' := by
  obtain ⟨m1, h1, s1⟩ := emmcReadValidKey_ok hok hbuf validFlag m
  obtain ⟨m2, h2, s2⟩ := emmcWriteOneKey_ok hok (copyData_length env m.disk (validFlag - 1))
    validFlag m1
  refine ⟨m2, ?_, ?_⟩
  · unfold writeInvalidKey
    rw [if_neg (by omega), h1, ok_bind]
    dsimp only
    rw [if_neg (not_not_intro rfl), h2]
  · rw [s1.keyInfos] at s2
    have hs := s1.trans s2
    rwa [List.nil_append] at hs

/-- When both copies are valid, the data of the first copy goes over the newer one, with the info of
the older one. -/
theorem updateOldKey_ok (m : Emmc) :
    ∃ m', updateOldKey env buf m = .ok (0, m') ∧ ∃ ts,
      ts = (if stampAfter (m.keyInfos 1).stamp (m.keyInfos 0).stamp then
          copyTransfers env 0 buf (m.keyInfos 0)
        else if stampAfter (m.keyInfos 0).stamp (m.keyInfos 1).stamp then
          copyTransfers env 1 buf (m.keyInfos 1)
        else []) ∧ m'.disk = m.disk.apply ts ∧ m'.log = m.log ++ ts := by
  unfold updateOldKey
  dsimp only
  split_ifs
  · obtain ⟨m1, h1, s1⟩ := emmcWriteOneKey_ok hok hbuf 2
      { m with keyInfos := update m.keyInfos 1 (m.keyInfos 0) }
    dsimp only at s1
    rw [h1, ok_bind]
    exact ⟨_, rfl, _, rfl, s1.disk, s1.log⟩
  · obtain ⟨m1, h1, s1⟩ := emmcWriteOneKey_ok hok hbuf 1
      { m with keyInfos := update m.keyInfos 0 (m.keyInfos 1) }
    dsimp only at s1
    rw [h1, ok_bind]
    exact ⟨_, rfl, _, rfl, s1.disk, s1.log⟩
  · exact ⟨m, rfl, [], rfl, rfl, (List.append_nil _).symm⟩

end

theorem keyInit_ok (m : Emmc) : ∃ m', keyInit env m = .ok (0, m') ∧
    m'.disk = m.disk.apply (repair env m.disk) ∧ m'.log = m.log ++ repair env m.disk := by
  obtain ⟨m1, h1, hd, hlog, hi0, hi1⟩ := updateKeyInfo_ok hok
    (show (List.replicate keyareaSectors (Bytes.zero 512)).length = _ from List.length_replicate)
    (m.kmalloc env).2
  have hk : (m.kmalloc env).1 = true := hok.kmalloc _
  have hdisk : (m.kmalloc env).2.disk = m.disk := rfl
  have hlog : m1.log = m.log := hlog
  have hlen := copyData_length env m.disk 0
  rw [hdisk] at h1 hd hi0 hi1
  unfold keyInit
  dsimp only
  rw [hk, if_neg (by decide), h1, ok_bind]
  unfold repair
  by_cases h0 : CopyValid env m.disk 0 <;> by_cases h1 : CopyValid env m.disk 1 <;>
    simp only [h0, h1, if_true, if_false]
  · obtain ⟨m2, h2, ts, hts, s1, s2⟩ := updateOldKey_ok hok hlen m1
    rw [hi0, hi1] at hts
    rw [h2, ok_bind, ← hts]
    exact ⟨m2, rfl, by rw [s1, hd], by rw [s2, hlog]⟩
  · obtain ⟨m2, h2, s⟩ := writeInvalidKey_ok hok hlen (Or.inl rfl) m1
    rw [h2, ok_bind]
    refine ⟨m2, rfl, ?_, ?_⟩
    · rw [s.disk, hi0, hd]
    · rw [s.log, hi0, hd, hlog]
  · obtain ⟨m2, h2, s⟩ := writeInvalidKey_ok hok hlen (Or.inr rfl) m1
    rw [h2, ok_bind]
    refine ⟨m2, rfl, ?_, ?_⟩
    · rw [s.disk, hi1, hd]
    · rw [s.log, hi1, hd, hlog]
  · exact ⟨m1, rfl, by rw [hd, apply_nil], by rw [hlog, List.append_nil]⟩

theorem emmcKeyWrite_ok (hbuf : buf.length = keyareaSectors) (m : Emmc) :
    ∃ m', emmcKeyWrite env buf emmcKeyareaSize m = .ok (0, m') ∧ ∃ ts,
      ts = copyTransfers env 1 buf ⟨checksumOf buf, m.keyStamp + 1, 9⟩ ++
        copyTransfers env 0 buf ⟨checksumOf buf, m.keyStamp + 1, 9⟩ ∧
      m'.disk = m.disk.apply ts ∧ m'.log = m.log ++ ts := by
  have one : ∀ (cpy : Nat) (m : Emmc), ∃ m', writeCopy env buf emmcKeyareaSize cpy m = .ok (0, m') ∧
      m'.keyStamp = m.keyStamp ∧ ∃ ts,
      ts = copyTransfers env (cpy % 2) buf ⟨checksumOf buf, m.keyStamp + 1, 9⟩ ∧
      m'.disk = m.disk.apply ts ∧ m'.log = m.log ++ ts := by
    intro cpy m
    obtain ⟨m1, h1, s1⟩ := emmcWriteOneKey_ok hok hbuf cpy
      { m with
        keyInfos := update m.keyInfos (cpy - 1) ⟨checksumOf buf, m.keyStamp + 1, 9⟩ }
    dsimp only at s1
    rw [update_self] at s1
    refine ⟨m1, ?_, s1.keyStamp, _, rfl, s1.disk, s1.log⟩
    unfold writeCopy
    rw [calcKeyChecksum_ok hbuf, ok_bind]
    exact h1
  obtain ⟨m1, h1, hst, _, rfl, hd1, hl1⟩ := one 1 m
  obtain ⟨m2, h2, -, _, rfl, hd2, hl2⟩ := one 2 m1
  rw [hst] at hd2 hl2
  refine ⟨m2, ?_, _, rfl, ?_, ?_⟩
  · unfold emmcKeyWrite
    rw [h1, ok_bind]
    dsimp only
    rw [if_neg (not_not_intro rfl), h2]
  · rw [hd2, hd1, apply_append]
  · rw [hl2, hl1, List.append_assoc]

theorem emmcKeyRead_ok (hbuf : buf.length = keyareaSectors) (m : Emmc) :
    ∃ m', emmcKeyRead env buf emmcKeyareaSize m = .ok (0, copyData env m.disk 0, m') := by
  obtain ⟨buf1, m1, m2, h1, h2, -⟩ := read_halves hok hbuf (env.keyBlk 0) m.claim
  have hcnt : emmcKeyareaSize >>> readBlkbits = 512 := rfl
  refine ⟨m2.release, ?_⟩
  unfold emmcKeyRead
  dsimp only
  rw [hcnt, show 512 + 1 = 511 + 1 + 1 from rfl, keyReadLoop, emmcBlockSize,
    show min 256 512 = 256 from rfl, h1, ok_bind]
  dsimp only
  rw [if_neg (not_not_intro rfl), if_pos (by decide), keyReadLoop, emmcBlockSize,
    show min 256 (512 - 256) = 256 from rfl, h2, ok_bind]
  rfl

end

end Access

end Amlogic.Mmc
