import Amlogic.Mmc.Transfer

/-!
# eMMC transfers: the result, the range and the partition

`mmc_transfer` has three flaws: the switch back hides the result of the request, the end of the range is computed with
32 bits, and a range that is refused leaves the card at the user area.
-/

namespace Amlogic.Mmc

variable {card : MmcCard} {devAddr blocks : BitVec 32} {write : Bool} {o : Outcomes}

/-! ## The result of a request -/

structure Completion.Clean (c : Completion) (mrq : MmcRequest) : Prop where
  cmd : c.cmdError = 0
  data : c.dataError = 0
  stop : mrq.stop = true → c.stopError = 0
  bytes : c.bytesXfered = mrq.blocks * mrq.blksz

theorem unsup_ne_zero {e : Int} (h : e ≠ 0) : (if e = -einval then resultUnsupHost else e) ≠ 0 := by
  split_ifs
  · decide
  · exact h

theorem mmcCheckResult_eq_zero {mrq : MmcRequest} {c : Completion} : mmcCheckResult mrq c = 0 ↔ c.Clean mrq := by
  unfold mmcCheckResult
  by_cases hcmd : c.cmdError = 0
  case neg =>
    simp only [hcmd, ne_eq, not_false_eq_true, and_self, if_true, false_and, if_false]
    exact iff_of_false (unsup_ne_zero hcmd) fun h => hcmd h.cmd
  by_cases hdata : c.dataError = 0
  case neg =>
    simp only [hcmd, hdata, ne_eq, not_true, not_false_eq_true, and_self, and_false, if_true, false_and, if_false]
    exact iff_of_false (unsup_ne_zero hdata) fun h => hdata h.data
  by_cases hstop : mrq.stop = true ∧ c.stopError ≠ 0
  case pos =>
    have hne : c.stopError ≠ 0 := hstop.2
    simp only [hcmd, hdata, hstop.1, hne, ne_eq, not_true, not_false_eq_true, and_self, and_false, if_true, false_and,
      if_false]
    exact iff_of_false (unsup_ne_zero hne) fun h => hne (h.stop hstop.1)
  simp only [hcmd, hdata, hstop, ne_eq, not_true, and_false, if_false, true_and]
  by_cases hbytes : c.bytesXfered = mrq.blocks * mrq.blksz
  · rw [if_neg (not_not.mpr hbytes), if_neg (by decide)]
    exact iff_of_true rfl ⟨hcmd, hdata, fun h => by_contra fun hne => hstop ⟨h, hne⟩, hbytes⟩
  · rw [if_pos hbytes]
    exact iff_of_false (by decide) fun h => hbytes h.bytes

/-! ## What is wanted of a transfer -/

def MmcCard.requestFor (card : MmcCard) (devAddr blocks : BitVec 32) (write : Bool) : MmcRequest :=
  mmcPrepareMrq card devAddr blocks ((1 : BitVec 32) <<< card.readBlkbits) write

structure Transferred.Honest (r : Transferred) (card : MmcCard) (devAddr blocks : BitVec 32) (c : Completion) :
    Prop where
  /-- Success is only reported if the data has been moved. -/
  success : r.ret = 0 → ∃ mrq, Command.request mrq ∈ r.commands ∧ c.Clean mrq
  range : ∀ mrq, Command.request mrq ∈ r.commands → devAddr.toNat + blocks.toNat ≤ (mmcCapacity card).toNat
  restored : r.card.partConfig = card.partConfig ∨ ∃ value ret, Command.switch value ret ∈ r.commands ∧ ret ≠ 0

def MmcCard.Elsewhere (card : MmcCard) : Prop := card.partConfig &&& accMask ≠ 0

def InRange (card : MmcCard) (devAddr blocks : BitVec 32) : Prop :=
  (devAddr.toNat + blocks.toNat) % 2 ^ 32 < (mmcCapacity card).toNat

instance : Decidable (InRange card devAddr blocks) := inferInstanceAs (Decidable (_ < _))

/-- When a transfer does what is wanted, in terms of its inputs and of the answers of the card: the first switch fails,
or the end of a range that passes the check is below 2^32, and from another partition the range passes and the
request succeeds or the switch back fails. -/
def TransferWorks (card : MmcCard) (devAddr blocks : BitVec 32) (write : Bool) (o : Outcomes) : Prop :=
  card.Elsewhere ∧ o.switchTo ≠ 0 ∨
    (InRange card devAddr blocks → devAddr.toNat + blocks.toNat < 2 ^ 32) ∧
    (card.Elsewhere → InRange card devAddr blocks ∧
      (o.request.Clean (card.requestFor devAddr blocks write) ∨ o.switchBack ≠ 0))

theorem inRange_iff : InRange card devAddr blocks ↔ ¬ mmcCapacity card ≤ devAddr + blocks := by
  unfold InRange
  rw [BitVec.le_def, BitVec.toNat_add, Nat.not_le]

theorem le_capacity_iff (h : InRange card devAddr blocks) :
    devAddr.toNat + blocks.toNat ≤ (mmcCapacity card).toNat ↔ devAddr.toNat + blocks.toNat < 2 ^ 32 := by
  unfold InRange at h
  omega

/-! ## The exits of `mmc_transfer` -/

def MmcCard.user (card : MmcCard) : MmcCard := { card with partConfig := card.partConfig &&& ~~~accMask }

section Exits

variable (card devAddr blocks write o)

theorem mmcTransfer_refused (h : card.Elsewhere) (hto : o.switchTo ≠ 0) :
    mmcTransfer card devAddr blocks write o = ⟨o.switchTo, card, [.switch card.user.partConfig o.switchTo]⟩ :=
  if_pos ⟨h, hto⟩

theorem mmcTransfer_elsewhere (h : card.Elsewhere) (hto : o.switchTo = 0) :
    mmcTransfer card devAddr blocks write o =
      if InRange card devAddr blocks then
        if o.switchBack ≠ 0 then ⟨o.switchBack, card.user, [.switch card.user.partConfig o.switchTo,
          .request (card.requestFor devAddr blocks write), .switch card.partConfig o.switchBack]⟩
        else ⟨o.switchBack, card, [.switch card.user.partConfig o.switchTo,
          .request (card.requestFor devAddr blocks write), .switch card.partConfig o.switchBack]⟩
      else ⟨-1, card.user, [.switch card.user.partConfig o.switchTo]⟩ := by
  unfold mmcTransfer
  unfold MmcCard.Elsewhere at h
  rw [if_neg fun hno => hno.2 hto]
  simp only [if_pos h]
  by_cases hrange : InRange card devAddr blocks
  · rw [if_pos hrange]
    exact if_neg (inRange_iff.mp hrange)
  · rw [if_neg hrange]
    exact if_pos (not_not.mp (inRange_iff.not.mp hrange))

theorem mmcTransfer_user (h : ¬ card.Elsewhere) :
    mmcTransfer card devAddr blocks write o =
      if InRange card devAddr blocks then
        ⟨mmcCheckResult (card.requestFor devAddr blocks write) o.request, card,
          [.request (card.requestFor devAddr blocks write)]⟩
      else ⟨-1, card, []⟩ := by
  unfold mmcTransfer
  unfold MmcCard.Elsewhere at h
  rw [if_neg fun hno => h hno.1]
  simp only [if_neg h]
  by_cases hrange : InRange card devAddr blocks
  · rw [if_pos hrange, if_neg (inRange_iff.mp hrange)]
    rfl
  · rw [if_neg hrange, if_pos (not_not.mp (inRange_iff.not.mp hrange))]

end Exits

theorem honest_elsewhere_iff (h : card.Elsewhere) (hto : o.switchTo = 0) :
    (mmcTransfer card devAddr blocks write o).Honest card devAddr blocks o.request ↔
      (InRange card devAddr blocks → devAddr.toNat + blocks.toNat < 2 ^ 32) ∧ InRange card devAddr blocks ∧
        (o.request.Clean (card.requestFor devAddr blocks write) ∨ o.switchBack ≠ 0) := by
  rw [mmcTransfer_elsewhere card devAddr blocks write o h hto]
  by_cases hrange : InRange card devAddr blocks
  case neg =>
    rw [if_neg hrange]
    refine iff_of_false (fun hhonest => ?_) fun hno => hrange hno.2.1
    -- the card stays at the user area, and no switch has failed
    rcases hhonest.restored with heq | ⟨value, ret, hmem, hne⟩
    · apply h
      rw [← heq]
      show card.partConfig &&& ~~~accMask &&& accMask = 0
      rw [BitVec.and_assoc, show ~~~accMask &&& accMask = 0 from rfl]
      exact BitVec.and_zero
    · obtain ⟨-, rfl⟩ := Command.switch.inj (List.mem_singleton.mp hmem)
      exact hne hto
  rw [if_pos hrange]
  by_cases hback : o.switchBack = 0
  · rw [if_neg (not_not.mpr hback)]
    constructor
    · intro hhonest
      refine ⟨fun _ => ?_, hrange, .inl ?_⟩
      · exact (le_capacity_iff hrange).mp (hhonest.range (card.requestFor devAddr blocks write) (by simp))
      · obtain ⟨mrq, hmem, hclean⟩ := hhonest.success hback
        simp only [List.mem_cons, reduceCtorEq, Command.request.injEq, List.not_mem_nil, or_false, false_or] at hmem
        exact hmem ▸ hclean
    · rintro ⟨hlt, -, hclean⟩
      refine ⟨fun _ => ⟨_, by simp, hclean.resolve_right fun hne => hne hback⟩, fun _ _ => ?_, .inl rfl⟩
      exact (le_capacity_iff hrange).mpr (hlt hrange)
  · rw [if_pos hback]
    constructor
    · intro hhonest
      refine ⟨fun _ => ?_, hrange, .inr hback⟩
      exact (le_capacity_iff hrange).mp (hhonest.range (card.requestFor devAddr blocks write) (by simp))
    · rintro ⟨hlt, -, -⟩
      refine ⟨fun hzero => absurd hzero hback, fun _ _ => (le_capacity_iff hrange).mpr (hlt hrange), .inr ?_⟩
      exact ⟨card.partConfig, o.switchBack, by simp, hback⟩

theorem honest_user_iff (h : ¬ card.Elsewhere) :
    (mmcTransfer card devAddr blocks write o).Honest card devAddr blocks o.request ↔
      (InRange card devAddr blocks → devAddr.toNat + blocks.toNat < 2 ^ 32) := by
  rw [mmcTransfer_user card devAddr blocks write o h]
  by_cases hrange : InRange card devAddr blocks
  · rw [if_pos hrange]
    constructor
    · intro hhonest _
      exact (le_capacity_iff hrange).mp (hhonest.range _ List.mem_cons_self)
    · intro hlt
      refine ⟨fun hzero => ⟨_, List.mem_cons_self, mmcCheckResult_eq_zero.mp hzero⟩, fun _ _ => ?_, .inl rfl⟩
      exact (le_capacity_iff hrange).mpr (hlt hrange)
  · rw [if_neg hrange]
    refine iff_of_true ⟨fun hzero => absurd hzero (show (-1 : Int) ≠ 0 by decide), ?_, .inl rfl⟩ fun hno =>
      absurd hno hrange
    exact nofun

/-- When the result, the range and the partition of a transfer are as they should be. -/
theorem transfer_honest_iff (card : MmcCard) (devAddr blocks : BitVec 32) (write : Bool) (o : Outcomes) :
    (mmcTransfer card devAddr blocks write o).Honest card devAddr blocks o.request ↔
      TransferWorks card devAddr blocks write o := by
  unfold TransferWorks
  by_cases h : card.Elsewhere
  · by_cases hto : o.switchTo = 0
    · rw [honest_elsewhere_iff h hto]
      simp [h, hto]
    · rw [mmcTransfer_refused card devAddr blocks write o h hto]
      refine iff_of_true ⟨fun hzero => absurd hzero hto, ?_, .inl rfl⟩ (.inl ⟨h, hto⟩)
      intro mrq hmem
      cases List.mem_singleton.mp hmem
  · rw [honest_user_iff h]
    simp [h]

/-- From the boot partition 1: a read that fails is reported as a success. A read beyond the end of the card leaves the
card at the user area. And the last two blocks below 2^32 are requested from a card of 1024 blocks. -/
theorem transfer_not_honest :
    (let r := mmcTransfer { sectors := 1024, partConfig := 9 } 0 1 false { request := { dataError := -110 } }
     r.ret = 0 ∧ ¬ r.Honest { sectors := 1024, partConfig := 9 } 0 1 { dataError := -110 }) ∧
    (let r := mmcTransfer { sectors := 1024, partConfig := 9 } 1024 1 false {}
     r.ret = -1 ∧ r.card.partConfig = 8 ∧ ¬ r.Honest { sectors := 1024, partConfig := 9 } 1024 1 {}) ∧
    ¬ (mmcTransfer { sectors := 1024 } 0xfffffffe 4 false {}).Honest { sectors := 1024 } 0xfffffffe 4 {} := by
  refine ⟨⟨by decide, fun h => ?_⟩, ⟨by decide, by decide, fun h => ?_⟩, fun h => ?_⟩
  · obtain ⟨mrq, -, hclean⟩ := h.success (by decide)
    exact absurd hclean.data (by decide)
  · rcases h.restored with heq | ⟨value, ret, hmem, hne⟩
    · exact absurd heq (by decide)
    · obtain ⟨-, rfl⟩ := Command.switch.inj (List.mem_singleton.mp hmem)
      exact hne rfl
  · exact absurd (h.range (MmcCard.requestFor { sectors := 1024 } 0xfffffffe 4 false) (by decide)) (by decide)

end Amlogic.Mmc
