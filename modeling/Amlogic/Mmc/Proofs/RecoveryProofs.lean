import Amlogic.Mmc.Proofs.EmmcKeyProofs

/-!
# What a start makes of the two copies

When one copy is valid, `_key_init` copies it over the other one. When both are valid with different
stamps, `update_old_key` should bring the older copy up to date; it overwrites the info of the newer
copy with that of the older one instead, and both info records stay as they were.
-/

namespace Amlogic.Mmc

def HoldsCopy (env : MmcEnv) (d d' : Disk Sector) (c : Nat) : Prop :=
  ∀ c' < 2, copyData env d' c' = copyData env d c ∧ copyInfo env d' c' = copyInfo env d c

/-- What a start should make of a disk: with two valid copies, both become the newer one, and with
one valid copy, both become that one. -/
structure Recovered (env : MmcEnv) (d d' : Disk Sector) : Prop where
  newer : CopyValid env d 0 → CopyValid env d 1 → ∀ c < 2,
    stampAfter (copyInfo env d c).stamp (copyInfo env d (1 - c)).stamp → HoldsCopy env d d' c
  valid : ∀ c < 2, CopyValid env d c → ¬CopyValid env d (1 - c) → HoldsCopy env d d' c

def TwoVersions (env : MmcEnv) (d : Disk Sector) : Prop :=
  CopyValid env d 0 ∧ CopyValid env d 1 ∧ (copyInfo env d 0).stamp ≠ (copyInfo env d 1).stamp

theorem stampAfter_or {a b : UInt32} (h : a ≠ b) : stampAfter a b ∨ stampAfter b a := by
  have ha := a.toNat_lt
  have hb := b.toNat_lt
  have hne : a.toNat ≠ b.toNat := fun e => h (UInt32.toNat_inj.mp e)
  unfold stampAfter s32
  split_ifs <;> omega

theorem not_stampAfter_self (a : UInt32) : ¬stampAfter a a := by
  unfold stampAfter
  rw [Int.sub_self]
  decide

variable {env : MmcEnv} {d : Disk Sector}

theorem copyInfo_repair_of_twoVersions (h : TwoVersions env d) {c : Nat} (hc : c < 2) :
    copyInfo env (d.apply (repair env d)) c = copyInfo env d c := by
  have hlen := copyData_length env d 0
  obtain ⟨h0, h1, -⟩ := h
  unfold repair
  split_ifs
  · have hp : Progress env 0 _ _ _ d _ := progress_all (show 0 < 2 by decide) hlen (copyInfo env d 0) d
    by_cases hc0 : c = 0
    · subst hc0
      exact (hp.done hlen (Nat.lt_succ_self _)).2
    · exact hp.info_ne c hc hc0
  · have hp : Progress env 1 _ _ _ d _ := progress_all (show 1 < 2 by decide) hlen (copyInfo env d 1) d
    by_cases hc1 : c = 1
    · subst hc1
      exact (hp.done hlen (Nat.lt_succ_self _)).2
    · exact hp.info_ne c hc hc1
  · rfl

theorem not_recovered_of_twoVersions (h : TwoVersions env d) :
    ¬Recovered env d (d.apply (repair env d)) := by
  intro hr
  -- whichever copy is the newer one, both info records would have to be the same
  have same : ∀ c, HoldsCopy env d (d.apply (repair env d)) c → False := by
    intro c hold
    have h0 := (hold 0 (by decide)).2
    have h1 := (hold 1 (by decide)).2
    rw [copyInfo_repair_of_twoVersions h (by decide)] at h0 h1
    exact h.2.2 (congrArg AmlKeyInfo.stamp (h0.trans h1.symm))
  rcases stampAfter_or h.2.2 with hs | hs
  · exact same 0 (hr.newer h.1 h.2.1 0 (by decide) hs)
  · exact same 1 (hr.newer h.1 h.2.1 1 (by decide) hs)

theorem recovered_of_not_twoVersions (h : ¬TwoVersions env d) :
    Recovered env d (d.apply (repair env d)) := by
  refine ⟨fun h0 h1 c hc hs => ?_, fun c hc hv hn => ?_⟩
  · have heq : (copyInfo env d 0).stamp = (copyInfo env d 1).stamp := by
      by_contra hne
      exact h ⟨h0, h1, hne⟩
    obtain rfl | rfl : c = 0 ∨ c = 1 := by omega
    · exact absurd (heq ▸ hs) (not_stampAfter_self _)
    · exact absurd (heq ▸ hs) (not_stampAfter_self _)
  · have hrep : repair env d
        = copyTransfers env (1 - c) (copyData env d c) (copyInfo env d c) := by
      unfold repair
      obtain rfl | rfl : c = 0 ∨ c = 1 := by omega
      · rw [if_pos hv, if_neg hn]
      · rw [if_neg hn, if_pos hv]
    rw [hrep]
    have hlen := copyData_length env d c
    have hp : Progress env (1 - c) _ _ _ d _ := progress_all (by omega) hlen (copyInfo env d c) d
    intro c' hc'
    by_cases heq : c' = 1 - c
    · subst heq
      exact hp.done hlen (Nat.lt_succ_self _)
    · obtain rfl : c' = c := by omega
      exact ⟨hp.data_ne c' hc' heq, hp.info_ne c' hc' heq⟩

/-- A start without failing accesses recovers the copies, unless both are valid with different
stamps. -/
theorem keyInit_recovers_iff (hok : env.Ok) (m : Emmc) :
    ∃ m', keyInit env m = .ok (0, m') ∧
      (Recovered env m.disk m'.disk ↔ ¬TwoVersions env m.disk) := by
  obtain ⟨m', h, hd, -⟩ := keyInit_ok hok m
  refine ⟨m', h, ?_⟩
  rw [hd]
  exact ⟨fun hr ht => not_recovered_of_twoVersions ht hr, recovered_of_not_twoVersions⟩

/-! ## Small disks -/

def quietEnv : MmcEnv := ⟨0, fun _ => (0, 0), fun _ => true⟩

theorem quietEnv_ok : quietEnv.Ok := ⟨fun _ => rfl, fun _ => rfl⟩

def zeroDisk (i0 i1 : AmlKeyInfo) : Disk Sector := fun k =>
  if k = 1024 then i0.toSector else if k = 1025 then i1.toSector else .zero 512

def Emmc.start (d : Disk Sector) : Emmc := ⟨d, [], 0, 0, 0, 0, fun _ => ⟨0, 0, 0⟩⟩

theorem foldl_add_zero {l : List UInt32} (h : ∀ w ∈ l, w = 0) (c : UInt64) :
    l.foldl (fun c w => c + w.toUInt64) c = c := by
  induction l generalizing c with
  | nil => rfl
  | cons w l ih =>
    rw [List.foldl_cons, h w (List.mem_cons_self ..), ih fun u hu => h u (List.mem_cons_of_mem _ hu)]
    exact UInt64.add_zero c

theorem words_zero : words (Bytes.zero 512).1 = List.replicate 128 0 := by decide +kernel

theorem checksumOf_append_zeros (ss : List Sector) (n : Nat) :
    checksumOf (ss ++ List.replicate n (.zero 512)) = checksumOf ss := by
  unfold checksumOf
  rw [List.flatMap_append, List.foldl_append]
  refine foldl_add_zero (fun w hw => ?_) _
  obtain ⟨s, hs, hw⟩ := List.mem_flatMap.mp hw
  rw [List.eq_of_mem_replicate hs, words_zero] at hw
  exact List.eq_of_mem_replicate hw

theorem checksumOf_zeros (n : Nat) : checksumOf (List.replicate n (.zero 512)) = 0 :=
  checksumOf_append_zeros [] n

theorem copyData_zeroDisk (i0 i1 : AmlKeyInfo) {c : Nat} (hc : c < 2) :
    copyData quietEnv (zeroDisk i0 i1) c = List.replicate keyareaSectors (.zero 512) := by
  have hk : keyareaSectors = 512 := rfl
  have h0 : quietEnv.keyBlk 0 = 0 := rfl
  refine List.eq_replicate_iff.mpr ⟨copyData_length .., fun s hs => ?_⟩
  obtain ⟨k, hk', rfl⟩ := List.mem_map.mp hs
  have hk' := List.mem_range'_1.mp hk'
  rw [keyBlk_eq, h0] at hk'
  unfold zeroDisk
  rw [if_neg (by omega), if_neg (by omega)]

theorem copyInfo_zeroDisk (i0 i1 : AmlKeyInfo) :
    copyInfo quietEnv (zeroDisk i0 i1) 0 = i0 ∧ copyInfo quietEnv (zeroDisk i0 i1) 1 = i1 := by
  have h0 : quietEnv.keyBlk 0 = 0 := rfl
  unfold copyInfo zeroDisk
  rw [infoBlk_eq, infoBlk_eq, h0, if_pos (by omega), if_neg (by omega), if_pos (by omega),
    ofSector_toSector, ofSector_toSector]
  exact ⟨rfl, rfl⟩

theorem copyValid_zeroDisk (i0 i1 : AmlKeyInfo) :
    (CopyValid quietEnv (zeroDisk i0 i1) 0 ↔ 0 = i0.checksum ∧ i0.magic ≠ 0) ∧
      (CopyValid quietEnv (zeroDisk i0 i1) 1 ↔ 0 = i1.checksum ∧ i1.magic ≠ 0) := by
  unfold CopyValid
  rw [copyData_zeroDisk i0 i1 (by decide), copyData_zeroDisk i0 i1 (by decide), checksumOf_zeros,
    (copyInfo_zeroDisk i0 i1).1, (copyInfo_zeroDisk i0 i1).2]
  exact ⟨Iff.rfl, Iff.rfl⟩

theorem keyInit_recovers_iff_one_valid :
    ∃ m', keyInit quietEnv (.start (zeroDisk ⟨0, 1, 9⟩ ⟨0, 0, 0⟩)) = .ok (0, m') ∧
      Recovered quietEnv (zeroDisk ⟨0, 1, 9⟩ ⟨0, 0, 0⟩) m'.disk := by
  obtain ⟨m', h, hiff⟩ :=
    keyInit_recovers_iff quietEnv_ok (.start (zeroDisk ⟨0, 1, 9⟩ ⟨0, 0, 0⟩))
  refine ⟨m', h, hiff.mpr ?_⟩
  rintro ⟨-, h1, -⟩
  exact absurd rfl ((copyValid_zeroDisk _ _).2.mp h1).2

/-- Two valid copies with the stamps 1 and 2: after the start they still differ. -/
theorem keyInit_keeps_two_versions :
    ∃ m', keyInit quietEnv (.start (zeroDisk ⟨0, 1, 9⟩ ⟨0, 2, 9⟩)) = .ok (0, m') ∧
      ¬Recovered quietEnv (zeroDisk ⟨0, 1, 9⟩ ⟨0, 2, 9⟩) m'.disk := by
  obtain ⟨m', h, hd, -⟩ := keyInit_ok quietEnv_ok (.start (zeroDisk ⟨0, 1, 9⟩ ⟨0, 2, 9⟩))
  refine ⟨m', h, ?_⟩
  rw [hd]
  refine not_recovered_of_twoVersions ⟨?_, ?_, ?_⟩
  · exact (copyValid_zeroDisk _ _).1.mpr ⟨rfl, by decide⟩
  · exact (copyValid_zeroDisk _ _).2.mpr ⟨rfl, by decide⟩
  · decide

end Amlogic.Mmc
