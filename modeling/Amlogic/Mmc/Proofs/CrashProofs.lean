import Amlogic.Mmc.Proofs.RecoveryProofs

/-!
# Power failures

A write stores the second copy before it touches the first one, and a start never overwrites a valid
first copy with anything else. So wherever the transfers are cut off, either the first copy is whole,
or the second one holds the value that was being written.
-/

namespace Amlogic.Mmc

/-! ## Runs -/

/-- The card after a power failure in a call that leads from `m` to `m'`: the first `k` transfers of
the call are done, and the variables are as at the start of the system. -/
def powerCut (m m' : Emmc) (k : Nat) : Emmc :=
  { m' with
    disk := m.disk.apply (m'.log.take k), log := [], keyStamp := 0, keyInfos := fun _ => ⟨0, 0, 0⟩ }

/-- Sequences of writes and starts with power failures, in which all values written satisfy `V`. The
run stands at a card; the flag tells whether the driver is started; the last two values are the one
that was readable when the last write started, and the one of that write. A write needs a started
driver: `emmc_key_init` runs `_key_init` before it registers `emmc_key_write`. -/
inductive KeyRun (env : MmcEnv) (V : List Sector → Prop) :
    Emmc → Bool → List Sector → List Sector → Prop
  | start {m : Emmc} {v : List Sector} : V v →
    (∀ c < 2, copyData env m.disk c = v ∧ CopyValid env m.disk c) →
    copyInfo env m.disk 0 = copyInfo env m.disk 1 → KeyRun env V m true v v
  | init {m m' : Emmc} {up : Bool} {old new : List Sector} {r : Int} : KeyRun env V m up old new →
    keyInit env { m with log := [] } = .ok (r, m') → KeyRun env V m' true old new
  | initCut {m m' : Emmc} {up : Bool} {old new : List Sector} {r : Int} (k : Nat) :
    KeyRun env V m up old new → keyInit env { m with log := [] } = .ok (r, m') →
    KeyRun env V (powerCut m m' k) false old new
  | write {m m' m0 : Emmc} {old new cur buf buf0 : List Sector} {r : Int} :
    KeyRun env V m true old new → V buf → buf.length = keyareaSectors →
    emmcKeyRead env buf0 emmcKeyareaSize m = .ok (0, cur, m0) → buf0.length = keyareaSectors →
    emmcKeyWrite env buf emmcKeyareaSize { m with log := [] } = .ok (r, m') →
    KeyRun env V m' true cur buf
  | writeCut {m m' m0 : Emmc} {old new cur buf buf0 : List Sector} {r : Int} (k : Nat) :
    KeyRun env V m true old new → V buf → buf.length = keyareaSectors →
    emmcKeyRead env buf0 emmcKeyareaSize m = .ok (0, cur, m0) → buf0.length = keyareaSectors →
    emmcKeyWrite env buf emmcKeyareaSize { m with log := [] } = .ok (r, m') →
    KeyRun env V (powerCut m m' k) false cur buf

/-- The data of a copy after `k` sectors of the value `new` have been written over `old`. -/
def torn (old new : List Sector) (k : Nat) : List Sector := new.take k ++ old.drop k

/-- A copy whose data is torn, or whose data and info come from different writes, fails its
checksum. -/
def ChecksumDetects (V : List Sector → Prop) : Prop :=
  ∀ old new, V old → V new → ∀ k x, x = old ∨ x = new →
    checksumOf (torn old new k) = checksumOf x → torn old new k = x

/-! ## The invariant -/

structure FirstWhole (env : MmcEnv) (d : Disk Sector) (old new : List Sector) : Prop where
  data : copyData env d 0 = old ∨ copyData env d 0 = new
  valid : CopyValid env d 0

/-- The second copy holds the new value while the first one is being replaced by it. -/
structure SecondWhole (env : MmcEnv) (d : Disk Sector) (old new : List Sector) : Prop where
  length_old : old.length = keyareaSectors
  torn : ∃ k, copyData env d 0 = torn old new k
  info : (copyInfo env d 0).checksum = checksumOf old ∨ (copyInfo env d 0).checksum = checksumOf new
  data : copyData env d 1 = new
  valid : CopyValid env d 1

theorem take_append_drop_torn {old new : List Sector} (hl : old.length = new.length) (j k : Nat) :
    new.take j ++ (torn old new k).drop j = torn old new (max j k) := by
  unfold torn
  refine List.ext_getElem? fun i => ?_
  grind

section Steps

variable {env : MmcEnv} {V : List Sector → Prop} {d : Disk Sector} {old new : List Sector}

variable {d' : Disk Sector} {i : AmlKeyInfo} {buf : List Sector}

theorem FirstWhole.congr (h : FirstWhole env d old new) (hdata : copyData env d' 0 = copyData env d 0)
    (hinfo : copyInfo env d' 0 = copyInfo env d 0) : FirstWhole env d' old new := by
  refine ⟨hdata ▸ h.data, ?_⟩
  unfold CopyValid
  rw [hdata, hinfo]
  exact h.valid

theorem FirstWhole.progress_one {data : List Sector} {k : Nat}
    (h : FirstWhole env d old new) (hp : Progress env 1 data i k d d') : FirstWhole env d' old new :=
  h.congr (hp.data_ne 0 (by decide) (by decide)) (hp.info_ne 0 (by decide) (by decide))

theorem FirstWhole.repair_take (h : FirstWhole env d old new) (k : Nat) :
    FirstWhole env (d.apply ((repair env d).take k)) old new := by
  have hlen := copyData_length env d 0
  unfold repair
  rw [if_pos h.valid]
  split_ifs
  · -- the first copy is written over itself
    have hp : Progress env 0 _ _ k d _ := progress_take (by decide) hlen (copyInfo env d 0) k d
    refine h.congr ?_ ?_
    · rw [hp.data, List.take_append_drop]
    · rw [hp.info, ite_self]
  · exact h.progress_one (progress_take (by decide) hlen _ k d)
  · rw [List.take_nil]
    exact h
  · exact h.progress_one (progress_take (by decide) hlen _ k d)

theorem SecondWhole.firstWhole (h : SecondWhole env d old new) (hV : ChecksumDetects V)
    (hold : V old) (hnew : V new) (hv : CopyValid env d 0) : FirstWhole env d old new := by
  obtain ⟨k, hk⟩ := h.torn
  refine ⟨?_, hv⟩
  rcases h.info with hi | hi
  · exact .inl (hk.trans (hV _ _ hold hnew k _ (Or.inl rfl) (hk ▸ hv.1.trans hi)))
  · exact .inr (hk.trans (hV _ _ hold hnew k _ (Or.inr rfl) (hk ▸ hv.1.trans hi)))

theorem SecondWhole.progress_zero (h : SecondWhole env d old new) (hi : checksumOf new = i.checksum ∧ i.magic ≠ 0)
    {k : Nat} (hp : Progress env 0 new i k d d') :
    (k ≤ keyareaSectors → SecondWhole env d' old new) ∧
      (keyareaSectors < k → FirstWhole env d' old new) := by
  have hlen : new.length = keyareaSectors := h.data ▸ copyData_length env d 1
  have hdata1 := hp.data_ne 1 (by decide) (by decide)
  have hinfo1 := hp.info_ne 1 (by decide) (by decide)
  constructor
  · intro hk
    have hinfo := hp.info.trans (if_neg (Nat.not_lt.mpr hk))
    obtain ⟨j, hj⟩ := h.torn
    refine ⟨h.length_old, ⟨max k j, ?_⟩, ?_, hdata1.trans h.data, ?_⟩
    · rw [hp.data, hj, take_append_drop_torn (h.length_old.trans hlen.symm)]
    · rw [hinfo]
      exact h.info
    · unfold CopyValid
      rw [hdata1, hinfo1]
      exact h.valid
  · intro hk
    obtain ⟨hdata, hinfo⟩ := hp.done hlen hk
    refine ⟨Or.inr hdata, ?_⟩
    unfold CopyValid
    rw [hdata, hinfo]
    exact hi

theorem SecondWhole.repair_eq (h : SecondWhole env d old new) (hv : ¬CopyValid env d 0) :
    repair env d = copyTransfers env 0 new (copyInfo env d 1) := by
  unfold repair
  rw [if_neg hv, if_pos h.valid, h.data]

end Steps

/-- What holds of the disk at every moment of a run. -/
structure Atomic (env : MmcEnv) (V : List Sector → Prop) (d : Disk Sector) (old new : List Sector) :
    Prop where
  old_mem : V old
  new_mem : V new
  whole : FirstWhole env d old new ∨ SecondWhole env d old new

section Run

variable {env : MmcEnv} {V : List Sector → Prop} {d : Disk Sector} {old new : List Sector}

theorem Atomic.repair_all (h : Atomic env V d old new) (hV : ChecksumDetects V) :
    FirstWhole env (d.apply (repair env d)) old new := by
  have first : FirstWhole env d old new → FirstWhole env (d.apply (repair env d)) old new := by
    intro hw
    rw [← List.take_length (l := repair env d)]
    exact hw.repair_take _
  rcases h.whole with hw | hw
  · exact first hw
  by_cases hv : CopyValid env d 0
  · exact first (hw.firstWhole hV h.old_mem h.new_mem hv)
  · have hlen : new.length = keyareaSectors := hw.data ▸ copyData_length env d 1
    rw [hw.repair_eq hv]
    exact (hw.progress_zero (hw.data ▸ hw.valid)
      (progress_all (by decide) hlen (copyInfo env d 1) d)).2 (Nat.lt_succ_self _)

theorem FirstWhole.mem (h : FirstWhole env d old new) (hold : V old) (hnew : V new) :
    V (copyData env d 0) := by
  rcases h.data with e | e
  · exact e ▸ hold
  · exact e ▸ hnew

/-- A write keeps the invariant at every point, for the value that was there and the one written. -/
theorem FirstWhole.write_take (h : FirstWhole env d old new) (hold : V old) (hnew : V new) (hbuf : V buf)
    (hlen : buf.length = keyareaSectors) (hi : checksumOf buf = i.checksum ∧ i.magic ≠ 0) (k : Nat) :
    Atomic env V (d.apply ((copyTransfers env 1 buf i ++ copyTransfers env 0 buf i).take k))
      (copyData env d 0) buf := by
  have hcur : V (copyData env d 0) := h.mem hold hnew
  have hkeep : FirstWhole env d (copyData env d 0) buf := ⟨Or.inl rfl, h.valid⟩
  have hlen1 : (copyTransfers env 1 buf i).length = keyareaSectors + 1 := copyTransfers_length hlen
  refine ⟨hcur, hbuf, ?_⟩
  rw [List.take_append, Disk.apply_append, hlen1]
  rcases Nat.lt_or_ge (keyareaSectors + 1) k with hk | hk
  · -- the second copy is done, and the first one is being replaced
    rw [List.take_of_length_le (l := copyTransfers env 1 buf i) (by omega)]
    have hp : Progress env 1 buf i _ d _ := progress_all (by decide) hlen i d
    generalize d.apply (copyTransfers env 1 buf i) = d1 at hp ⊢
    obtain ⟨hdata, hinfo⟩ := hp.done hlen (Nat.lt_succ_self _)
    have hd0 := hp.data_ne 0 (by decide) (by decide)
    have hi0 := hp.info_ne 0 (by decide) (by decide)
    have hw : SecondWhole env d1 (copyData env d 0) buf := by
      refine ⟨copyData_length env d 0, ⟨0, hd0⟩, Or.inl ?_, hdata, ?_⟩
      · rw [hi0]
        exact h.valid.1.symm
      · unfold CopyValid
        rw [hdata, hinfo]
        exact hi
    have hstep := hw.progress_zero hi
      (progress_take (by decide) hlen i (k - (keyareaSectors + 1)) d1)
    rcases Nat.lt_or_ge keyareaSectors (k - (keyareaSectors + 1)) with hj | hj
    · exact .inl (hstep.2 hj)
    · exact .inr (hstep.1 hj)
  · -- the first copy has not been touched
    rw [Nat.sub_eq_zero_of_le hk, List.take_zero, Disk.apply_nil]
    exact .inl (hkeep.progress_one (progress_take (by decide) hlen i k d))

theorem firstWhole_write (hlen : buf.length = keyareaSectors)
    (hi : checksumOf buf = i.checksum ∧ i.magic ≠ 0) (cur : List Sector) :
    FirstWhole env (d.apply (copyTransfers env 1 buf i ++ copyTransfers env 0 buf i)) cur buf := by
  rw [Disk.apply_append]
  have hp : Progress env 0 buf i _ (d.apply (copyTransfers env 1 buf i)) _ :=
    progress_all (by decide) hlen i _
  obtain ⟨hdata, hinfo⟩ := hp.done hlen (Nat.lt_succ_self _)
  refine ⟨Or.inr hdata, ?_⟩
  unfold CopyValid
  rw [hdata, hinfo]
  exact hi

end Run

theorem MmcEnv.Ok.read_eq {env : MmcEnv} {m m' : Emmc} {cur : List Sector} {r : Int}
    (hok : env.Ok) (hbuf : buf.length = keyareaSectors)
    (h : emmcKeyRead env buf emmcKeyareaSize m = .ok (r, cur, m')) : cur = copyData env m.disk 0 := by
  obtain ⟨m1, h1⟩ := emmcKeyRead_ok hok hbuf m
  obtain ⟨-, he⟩ := Prod.mk.inj (Except.ok.inj (h1.symm.trans h))
  exact (Prod.mk.inj he).1.symm

theorem nine_ne_zero : (9 : UInt32) ≠ 0 := by decide

/-- The invariant holds along every run, and while the driver is started the first copy is whole. -/
theorem KeyRun.atomic {env : MmcEnv} {V : List Sector → Prop} {m : Emmc} {up : Bool}
    {old new : List Sector} (hok : env.Ok) (hV : ChecksumDetects V) (h : KeyRun env V m up old new) :
    Atomic env V m.disk old new ∧ (up = true → FirstWhole env m.disk old new) := by
  induction h with
  | @start m v hv hcopies _ =>
    obtain ⟨hdata, hvalid⟩ := hcopies 0 (by decide)
    have hw : FirstWhole env m.disk v v := ⟨Or.inl hdata, hvalid⟩
    exact ⟨⟨hv, hv, Or.inl hw⟩, fun _ => hw⟩
  | @init m m' up old new r _ hrun ih =>
    obtain ⟨m1, h1, hd, -⟩ := keyInit_ok hok { m with log := [] }
    obtain ⟨-, rfl⟩ := Prod.mk.inj (Except.ok.inj (h1.symm.trans hrun))
    have hw := ih.1.repair_all hV
    rw [hd]
    exact ⟨⟨ih.1.old_mem, ih.1.new_mem, Or.inl hw⟩, fun _ => hw⟩
  | @initCut m m' up old new r k _ hrun ih =>
    obtain ⟨m1, h1, -, hlog⟩ := keyInit_ok hok { m with log := [] }
    obtain ⟨-, rfl⟩ := Prod.mk.inj (Except.ok.inj (h1.symm.trans hrun))
    refine ⟨?_, fun hup => absurd hup Bool.false_ne_true⟩
    show Atomic env V (m.disk.apply (m1.log.take k)) old new
    rw [hlog]
    refine ⟨ih.1.old_mem, ih.1.new_mem, ?_⟩
    rcases ih.1.whole with hw | hw
    · exact .inl (hw.repair_take k)
    by_cases hv : CopyValid env m.disk 0
    · exact .inl ((hw.firstWhole hV ih.1.old_mem ih.1.new_mem hv).repair_take k)
    · have hlen : new.length = keyareaSectors := hw.data ▸ copyData_length env m.disk 1
      have hstep := hw.progress_zero (hw.data ▸ hw.valid)
        (progress_take (by decide) hlen (copyInfo env m.disk 1) k m.disk)
      rw [hw.repair_eq hv]
      rcases Nat.lt_or_ge keyareaSectors k with hk | hk
      · exact .inl (hstep.2 hk)
      · exact .inr (hstep.1 hk)
  | @write m m' m0 old new cur buf buf0 r _ hbuf hlen hread hlen0 hrun ih =>
    obtain ⟨m1, h1, ts, hts, hd, -⟩ := emmcKeyWrite_ok hok hlen { m with log := [] }
    obtain ⟨-, rfl⟩ := Prod.mk.inj (Except.ok.inj (h1.symm.trans hrun))
    have hcur := hok.read_eq hlen0 hread
    have hw : FirstWhole env m1.disk cur buf := by
      rw [hd, hts]
      exact firstWhole_write hlen ⟨rfl, nine_ne_zero⟩ cur
    exact ⟨⟨hcur ▸ (ih.2 rfl).mem ih.1.old_mem ih.1.new_mem, hbuf, Or.inl hw⟩, fun _ => hw⟩
  | @writeCut m m' m0 old new cur buf buf0 r k _ hbuf hlen hread hlen0 hrun ih =>
    obtain ⟨m1, h1, ts, hts, -, hlog⟩ := emmcKeyWrite_ok hok hlen { m with log := [] }
    obtain ⟨-, rfl⟩ := Prod.mk.inj (Except.ok.inj (h1.symm.trans hrun))
    refine ⟨?_, fun hup => absurd hup Bool.false_ne_true⟩
    show Atomic env V (m.disk.apply (m1.log.take k)) cur buf
    rw [hlog, hts, hok.read_eq hlen0 hread]
    exact (ih.2 rfl).write_take ih.1.old_mem ih.1.new_mem hbuf hlen ⟨rfl, nine_ne_zero⟩ k

def ReadsOneOf (env : MmcEnv) (m : Emmc) (old new : List Sector) : Prop :=
  ∀ buf : List Sector, buf.length = keyareaSectors → ∃ x m',
    emmcKeyRead env buf emmcKeyareaSize m = .ok (0, x, m') ∧ (x = new ∨ x = old)

theorem FirstWhole.readsOneOf {env : MmcEnv} {m : Emmc} {old new : List Sector} (hok : env.Ok)
    (h : FirstWhole env m.disk old new) : ReadsOneOf env m old new := by
  intro buf hbuf
  obtain ⟨m', hread⟩ := emmcKeyRead_ok hok hbuf m
  exact ⟨_, m', hread, h.data.symm⟩

/-- At every point of a run `_key_init` completes, and then, as at every point at which the driver is
started, a read returns the value of the last write or the one that was readable before it. -/
theorem emmcKeyRead_after_crashes {env : MmcEnv} {V : List Sector → Prop} {m : Emmc} {up : Bool}
    {old new : List Sector} (hok : env.Ok) (hV : ChecksumDetects V) (h : KeyRun env V m up old new) :
    (∃ m', keyInit env { m with log := [] } = .ok (0, m') ∧ ReadsOneOf env m' old new) ∧
      (up = true → ReadsOneOf env m old new) := by
  obtain ⟨m', hinit, -⟩ := keyInit_ok hok { m with log := [] }
  refine ⟨⟨m', hinit, ?_⟩, fun hup => ((h.atomic hok hV).2 hup).readsOneOf hok⟩
  exact (((h.init hinit).atomic hok hV).2 rfl).readsOneOf hok

/-! ## A run with a cut write -/

def withFirst (s : Sector) : List Sector := [s] ++ List.replicate 511 (.zero 512)

def oneSector : Sector := ⟨1 :: List.replicate 511 0, by rw [List.length_cons, List.length_replicate]⟩

def TwoValues (v : List Sector) : Prop := v = withFirst (.zero 512) ∨ v = withFirst oneSector

theorem withFirst_length (s : Sector) : (withFirst s).length = keyareaSectors := by
  have hk : keyareaSectors = 512 := rfl
  unfold withFirst
  rw [List.length_append, List.length_replicate, List.length_singleton, hk]

theorem torn_withFirst (s s' : Sector) (k : Nat) :
    torn (withFirst s) (withFirst s') k = withFirst s ∨
      torn (withFirst s) (withFirst s') k = withFirst s' := by
  unfold torn withFirst
  cases k with
  | zero => exact .inl rfl
  | succ k =>
    refine .inr ?_
    rw [List.singleton_append, List.singleton_append, List.take_succ_cons, List.drop_succ_cons,
      List.cons_append, List.take_append_drop]

theorem checksumOf_withFirst :
    checksumOf (withFirst (.zero 512)) = 0 ∧ checksumOf (withFirst oneSector) = 1 := by
  have zero : checksumOf [.zero 512] = 0 := by decide +kernel
  have one : checksumOf [oneSector] = 1 := by decide +kernel
  unfold withFirst
  rw [checksumOf_append_zeros, checksumOf_append_zeros]
  exact ⟨zero, one⟩

theorem TwoValues.eq_of_checksum {v w : List Sector} (hv : TwoValues v) (hw : TwoValues w)
    (h : checksumOf v = checksumOf w) : v = w := by
  obtain ⟨h0, h1⟩ := checksumOf_withFirst
  have hne : (0 : UInt64) ≠ 1 := by decide
  rcases hv with rfl | rfl <;> rcases hw with rfl | rfl
  · rfl
  · exact absurd ((h0.symm.trans h).trans h1) hne
  · exact absurd ((h1.symm.trans h).trans h0).symm hne
  · rfl

theorem twoValues_torn {v w : List Sector} (hv : TwoValues v) (hw : TwoValues w) (k : Nat) :
    TwoValues (torn v w k) := by
  rcases hv with rfl | rfl <;> rcases hw with rfl | rfl <;>
    rcases torn_withFirst _ _ k with e | e <;> rw [e]
  all_goals first | exact .inl rfl | exact .inr rfl

theorem twoValues_detects : ChecksumDetects TwoValues := by
  rintro old new hold hnew k x (rfl | rfl) hsum
  · exact (twoValues_torn hold hnew k).eq_of_checksum hold hsum
  · exact (twoValues_torn hold hnew k).eq_of_checksum hnew hsum

theorem emmcKeyRead_after_crashes_cut : ∃ m,
    KeyRun quietEnv TwoValues m false (withFirst (.zero 512)) (withFirst oneSector) ∧
      ∃ m', keyInit quietEnv { m with log := [] } = .ok (0, m') ∧
        ReadsOneOf quietEnv m' (withFirst (.zero 512)) (withFirst oneSector) := by
  have hdata : ∀ c < 2, copyData quietEnv (zeroDisk ⟨0, 1, 9⟩ ⟨0, 1, 9⟩) c = withFirst (.zero 512) :=
    fun c hc => copyData_zeroDisk _ _ hc
  have hstart : KeyRun quietEnv TwoValues (.start (zeroDisk ⟨0, 1, 9⟩ ⟨0, 1, 9⟩)) true
      (withFirst (.zero 512)) (withFirst (.zero 512)) := by
    refine .start (Or.inl rfl) (fun c hc => ⟨hdata c hc, ?_⟩) ?_
    · obtain rfl | rfl : c = 0 ∨ c = 1 := by omega
      · exact (copyValid_zeroDisk _ _).1.mpr ⟨rfl, nine_ne_zero⟩
      · exact (copyValid_zeroDisk _ _).2.mpr ⟨rfl, nine_ne_zero⟩
    · exact (copyInfo_zeroDisk _ _).1.trans (copyInfo_zeroDisk _ _).2.symm
  have hlen := withFirst_length oneSector
  obtain ⟨m0, hread⟩ := emmcKeyRead_ok quietEnv_ok hlen (.start (zeroDisk ⟨0, 1, 9⟩ ⟨0, 1, 9⟩))
  obtain ⟨m1, hwrite, -⟩ := emmcKeyWrite_ok quietEnv_ok hlen
    { Emmc.start (zeroDisk ⟨0, 1, 9⟩ ⟨0, 1, 9⟩) with log := [] }
  -- the failure comes in the middle of the first copy
  have hrun := hstart.writeCut 700 (Or.inr rfl) hlen hread hlen hwrite
  have hcur : copyData quietEnv (Emmc.start (zeroDisk ⟨0, 1, 9⟩ ⟨0, 1, 9⟩)).disk 0 =
    withFirst (.zero 512) := hdata 0 (by decide)
  rw [hcur] at hrun
  exact ⟨_, hrun, (emmcKeyRead_after_crashes quietEnv_ok twoValues_detects hrun).1⟩

end Amlogic.Mmc
