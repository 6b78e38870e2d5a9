import Amlogic.Display.GrallocDevice

/-!
# Proofs: the gralloc device and the mapping of a buffer

The count of the manager is the number of users while there are some. The device is closed when the count
falls below 0, not when it falls to 0, so the call of the last user breaks the law.
-/

namespace Amlogic.Display

/-! ## The device -/

structure Gralloc.Inv (s : Gralloc) : Prop where
  stray : s.strayCloses = 0
  fits : s.users < 2 ^ 31
  used : 0 < s.users → ∃ m, s.manager = some m ∧ m.gbmDevice = true ∧ s.descriptors = [m.drmFd] ∧
    m.referCount = s.users
  unused : s.users ≤ 0 → s.descriptors = [] ∧
    ∀ m, s.manager = some m → m.gbmDevice = false ∧ m.drmFd ≤ 0 ∧ m.referCount = 0

namespace Gralloc

variable {s s' : Gralloc}

theorem Inv.lawful (h : Inv s) : s.Lawful := by
  refine ⟨h.stray, ?_⟩
  split_ifs with hu
  · obtain ⟨m, hm, hdev, hfd, -⟩ := h.used hu
    exact ⟨m, hm, hdev, hfd⟩
  · obtain ⟨hfd, hm⟩ := h.unused (not_lt.mp hu)
    exact ⟨fun m h => (hm m h).1, hfd⟩

theorem Inv.fresh (h : Inv s) (hu : s.users ≤ 0) {malloc : Bool} {m : GrallocManager}
    (hm : s.getGrallocManager malloc = some m) : m.gbmDevice = false ∧ m.drmFd ≤ 0 ∧ m.referCount = 0 := by
  unfold getGrallocManager at hm
  cases hman : s.manager with
  | some m' =>
    rw [hman] at hm
    cases hm
    exact (h.unused hu).2 m hman
  | none =>
    cases malloc <;> simp [hman] at hm
    subst hm
    exact ⟨rfl, le_rfl, rfl⟩

theorem initGbmDevice_fresh {a : DeviceAnswers} {m : GrallocManager} (hdev : m.gbmDevice = false)
    (hfd : s.descriptors = []) :
    (∃ err fd, (fd = m.drmFd ∨ fd = -1) ∧ s.initGbmDevice a m = (some err, { m with drmFd := fd }, s)) ∨
      s.initGbmDevice a m = (none, { m with drmFd := a.fd, gbmDevice := true }, { s with descriptors := [a.fd] }) := by
  unfold initGbmDevice close
  rw [hdev]
  simp only [Bool.false_eq_true, if_false, hfd, List.mem_singleton, if_true, List.erase_cons_head]
  split_ifs
  · exact .inl ⟨_, m.drmFd, .inl rfl, by rw [← hdev]⟩
  · exact .inr rfl
  · exact .inl ⟨_, -1, .inr rfl, by rw [← hfd, ← hdev]⟩
  · exact .inl ⟨_, m.drmFd, .inl rfl, by rw [← hdev]⟩

theorem Inv.init (h : Inv s) {a : DeviceAnswers} (hlo : 0 ≤ s.users) (hhi : s.users < 2 ^ 31 - 1) :
    Inv (s.gbmGrallocInitialize a).2 := by
  have hwrap : (s.users + 1).bmod (2 ^ 32) = s.users + 1 := by rw [Int.bmod_eq_of_le] <;> omega
  have hfits : s.users + 1 < 2 ^ 31 := by omega
  unfold gbmGrallocInitialize
  rcases hlo.lt_or_eq with hu | hu
  · obtain ⟨m, hm, hdev, hfd, hcount⟩ := h.used hu
    have hget : s.getGrallocManager a.malloc = some m := by simp [getGrallocManager, hm]
    simp only [hget, initGbmDevice, hdev, if_true, hcount, hwrap]
    exact ⟨h.stray, hfits, fun _ => ⟨_, rfl, rfl, hfd, rfl⟩, fun hle => absurd hle (by dsimp only; omega)⟩
  · obtain ⟨hfd, -⟩ := h.unused hu.ge
    cases hget : s.getGrallocManager a.malloc with
    | none => exact h
    | some m =>
      obtain ⟨hdev, hneg, hcount⟩ := h.fresh hu.ge hget
      rcases initGbmDevice_fresh (a := a) hdev hfd with ⟨err, fd, hclosed, he⟩ | he <;> simp only [he]
      · refine ⟨h.stray, h.fits, fun hpos => absurd hpos hu.not_lt, fun _ => ⟨hfd, ?_⟩⟩
        rintro _ ⟨rfl⟩
        refine ⟨hdev, ?_, hcount⟩
        rcases hclosed with rfl | rfl
        · exact hneg
        · exact Int.negSucc_le_zero 0
      · simp only [hcount, ← hu, if_true]
        exact ⟨h.stray, hu ▸ hfits, fun _ => ⟨_, rfl, rfl, rfl, rfl⟩, fun hle => absurd hle Int.one_pos.not_ge⟩

theorem Inv.uninit (h : Inv s) {malloc : Bool} (hlast : s.users ≠ 1) : Inv (s.gbmGrallocUnInitialize malloc).2 := by
  have hfits : s.users - 1 < 2 ^ 31 := by have := h.fits; omega
  unfold gbmGrallocUnInitialize
  rcases lt_or_ge 0 s.users with hu | hu
  · obtain ⟨m, hm, hdev, hfd, hcount⟩ := h.used hu
    have hwrap : (s.users - 1).bmod (2 ^ 32) = s.users - 1 := by rw [Int.bmod_eq_of_le] <;> omega
    have hstay : ¬s.users - 1 < 0 := by omega
    have hget : getGrallocManager { s with users := s.users - 1 } malloc = some m := by simp [getGrallocManager, hm]
    simp only [hget, hcount, hwrap, if_neg hstay]
    exact ⟨h.stray, hfits, fun _ => ⟨_, rfl, hdev, hfd, rfl⟩, fun hle => absurd hle (by dsimp only; omega)⟩
  · obtain ⟨hfd, hman⟩ := h.unused hu
    have hnone : ¬0 < s.users - 1 := by omega
    cases hget : s.getGrallocManager malloc with
    | none =>
      have hget' : getGrallocManager { s with users := s.users - 1 } malloc = none := hget
      simp only [hget']
      exact ⟨h.stray, hfits, fun hpos => absurd hpos hnone, fun _ => ⟨hfd, hman⟩⟩
    | some m =>
      have hget' : getGrallocManager { s with users := s.users - 1 } malloc = some m := hget
      obtain ⟨-, hneg, hcount⟩ := h.fresh hu hget
      simp only [hget', hcount, deInitGbmDevice, if_neg hneg.not_gt]
      exact ⟨h.stray, hfits, fun hpos => absurd hpos hnone, fun _ => ⟨hfd, nofun⟩⟩

/-- While the last user does not leave and nobody enters below 0, the device is open exactly while there
are users; when the last user leaves, it stays open. -/
theorem gralloc_lawful (hrun : Runs GrallocCall.Step GrallocCall.Fair {} s) :
    s.Lawful ∧ (s.users = 1 → ∀ malloc, ¬(s.gbmGrallocUnInitialize malloc).2.Lawful) := by
  have hinv : Inv s := by
    refine hrun.keeps ?_ ⟨rfl, by decide, fun h => absurd h (by decide), fun _ => ⟨rfl, nofun⟩⟩
    rintro s c s' h hfair hstep
    cases c with
    | init a =>
      cases hstep
      exact h.init hfair.1 hfair.2
    | uninit malloc =>
      cases hstep
      exact h.uninit hfair
  refine ⟨hinv.lawful, fun hone malloc => ?_⟩
  obtain ⟨m, hm, hdev, hfd, hcount⟩ := hinv.used (by omega)
  rintro ⟨-, hlaw⟩
  simp [gbmGrallocUnInitialize, getGrallocManager, hm, hcount, hone, hdev] at hlaw

theorem gralloc_lawful_twice : ∃ s, Runs GrallocCall.Step GrallocCall.Fair {} s ∧ s.users = 2 ∧ s.Lawful := by
  have hone : Runs GrallocCall.Step GrallocCall.Fair {} _ := .snoc (e := .init { fd := 3 }) .nil ⟨by decide, by decide⟩ rfl
  have htwo : Runs GrallocCall.Step GrallocCall.Fair {} _ := .snoc (e := .init { fd := 3 }) hone ⟨by decide, by decide⟩ rfl
  exact ⟨_, htwo, rfl, (gralloc_lawful htwo).1⟩

/-- One initialise and one uninitialise call leave the device and its descriptor open. -/
theorem gralloc_unlawful : ∃ s, Runs GrallocCall.Step (fun _ _ => True) {} s ∧ s.users = 0 ∧ s.descriptors = [3] ∧
    ¬s.Lawful := by
  refine ⟨_, (Runs.nil.snoc (e := .init { fd := 3 }) trivial rfl).snoc (e := .uninit true) trivial rfl, rfl, rfl, ?_⟩
  rintro ⟨-, -, hfd⟩
  cases hfd

end Gralloc

/-! ## The mapping of a buffer -/

namespace MappedBuffer

variable {s : MappedBuffer}

theorem Lawful.unmap (h : s.Lawful) (hlive : s.freed = false) (ok : Bool) :
    (s.gbmUnmap ok).2.Lawful ∧ (s.gbmUnmap ok).2.freed = false ∧
      ((s.gbmUnmap ok).2.unmapFailed = false → (s.gbmUnmap ok).2.mappings = []) := by
  have hmap := h.2.1 hlive
  unfold gbmUnmap
  split_ifs with hnull hok
  · rw [if_pos hnull] at hmap
    exact ⟨h, hlive, fun _ => hmap⟩
  · rw [if_neg hnull] at hmap
    have hone : s.munmap s.virAddr = { s with mappings := [] } := by simp [munmap, hmap]
    rw [hone]
    exact ⟨⟨h.1, fun _ => rfl, fun _ _ => rfl⟩, hlive, fun _ => rfl⟩
  · exact ⟨⟨h.1, h.2.1, nofun⟩, hlive, nofun⟩

theorem Lawful.mmap (h : s.Lawful) (hlive : s.freed = false) {page : Option Nat} :
    MapCall.Mapped s (.mmap page) ↔
      ((s.gbmMmap page).1 = 0 ∨ (s.gbmMmap page).1 ∈ (s.gbmMmap page).2.mappings) ∧ (s.gbmMmap page).2.Lawful := by
  have hmap := h.2.1 hlive
  unfold gbmMmap MapCall.Mapped
  by_cases hnull : s.virAddr = 0
  · rw [if_pos hnull] at hmap
    rw [if_neg (not_not_intro hnull)]
    cases page with
    | none =>
      -- the address of a failed `mmap` is kept although nothing is mapped
      refine ⟨fun hm => absurd rfl (hm hnull), fun hl => ?_⟩
      rw [hmap] at hl
      rcases hl.1 with h0 | hin
      · cases h0
      · cases hin
    | some p =>
      refine ⟨fun _ => ⟨.inr List.mem_cons_self, h.1, fun _ => ?_, fun hf => ?_⟩, fun _ _ => nofun⟩
      · simp [hmap]
      · rw [hlive] at hf
        cases hf
  · rw [if_neg hnull] at hmap
    rw [if_pos hnull]
    exact ⟨fun _ => ⟨.inr (hmap ▸ List.mem_singleton_self _), h⟩, fun _ h0 => absurd h0 hnull⟩

/-- While every `mmap` succeeds, the address in the handle is that of the only mapping, which is gone with
the handle unless a `munmap` failed; and `GbmMmap` returns an address that is mapped iff its `mmap`
succeeds. -/
theorem mapping_lawful (hrun : Runs MapCall.Step MapCall.Mapped {} s) : s.Lawful ∧ (s.freed = false →
    ∀ page, MapCall.Mapped s (.mmap page) ↔
      ((s.gbmMmap page).1 = 0 ∨ (s.gbmMmap page).1 ∈ (s.gbmMmap page).2.mappings) ∧ (s.gbmMmap page).2.Lawful) := by
  have hlaw : s.Lawful := by
    refine hrun.keeps ?_ ⟨rfl, fun _ => rfl, nofun⟩
    rintro s c s' h hok ⟨hlive, hstep⟩
    cases c with
    | mmap page =>
      cases hstep
      exact ((h.mmap hlive).mp hok).2
    | unmap ok =>
      cases hstep
      exact (h.unmap hlive ok).1
    | freeMem ok =>
      cases hstep
      unfold gbmFreeMem
      split_ifs with hnull
      · obtain ⟨h', -, hgone⟩ := h.unmap hlive ok
        exact ⟨h'.1, nofun, fun _ => hgone⟩
      · rw [not_not] at hnull
        exact ⟨h.1, nofun, fun _ _ => (h.2.1 hlive).trans (if_pos hnull)⟩
  exact ⟨hlaw, fun hlive page => hlaw.mmap hlive⟩

theorem mapping_lawful_once : ∃ s, Runs MapCall.Step MapCall.Mapped {} s ∧ s.virAddr = 4096 ∧ s.mappings = [4096] ∧
    s.Lawful := by
  have hrun : Runs MapCall.Step MapCall.Mapped {} _ := .snoc (e := .mmap (some 0)) .nil (fun _ => nofun) ⟨rfl, rfl⟩
  exact ⟨_, hrun, rfl, rfl, (mapping_lawful hrun).1⟩

/-- After a failed `mmap` the handle has an address, which the next call returns. -/
theorem mapping_unlawful : ∃ s, Runs MapCall.Step (fun _ _ => True) {} s ∧ s.virAddr ≠ 0 ∧ s.mappings = [] ∧
    (s.gbmMmap (some 0)).1 = mapFailed :=
  ⟨_, Runs.nil.snoc (e := .mmap none) trivial ⟨rfl, rfl⟩, nofun, rfl, rfl⟩

end MappedBuffer

end Amlogic.Display
