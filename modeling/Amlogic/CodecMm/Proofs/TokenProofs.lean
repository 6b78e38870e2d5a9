import Amlogic.CodecMm.Slot

/-!
# Page tokens

Token and address determine each other, since blocks start at a page and lie below 4 GB.
-/

namespace Amlogic.CodecMm

theorem pageSid_eq (page : Nat) : pageSid page = page % 4096 :=
  Nat.and_two_pow_sub_one_eq_mod page 12

theorem pageAddr_eq (page : Nat) : pageAddr page = page / 4096 * 4096 := by
  unfold pageAddr pageShift
  rw [Nat.shiftRight_eq_div_pow, Nat.shiftLeft_eq]

theorem slotToSid_lt (phyAddr : Nat) : slotToSid phyAddr < maxSid := Nat.mod_lt _ (by decide)

theorem or_sid {addr sid : Nat} (ha : addr % 4096 = 0) (hs : sid < 4096) :
    (addr >>> pageShift) <<< pageShift = addr ∧ addr ||| sid = addr + sid := by
  have h : (addr >>> pageShift) <<< pageShift = addr := by
    show (addr >>> 12) <<< 12 = addr
    omega
  refine ⟨h, ?_⟩
  nth_rewrite 1 [← h]
  rw [← Nat.shiftLeft_add_eq_or_of_lt (show sid < 2 ^ pageShift from hs), h]

theorem addr2page_eq_mod {addr sid : Nat} (ha : addr % 4096 = 0) (hs : sid < 4096) :
    addr2page addr sid = addr % 2 ^ 32 + sid := by
  unfold addr2page u32
  rw [(or_sid ha hs).1, (or_sid ha hs).2]
  omega

theorem addr2page_eq {addr sid : Nat} (ha : addr % 4096 = 0) (hlt : addr < 2 ^ 32)
    (hs : sid < 4096) : addr2page addr sid = addr + sid := by
  rw [addr2page_eq_mod ha hs, Nat.mod_eq_of_lt hlt]

/-- An address below 4 GB and a number are read back from the token, both that of a slot and that of a
single page; an address above 4 GB is not. -/
theorem page_roundTrip {addr sid : Nat} (ha : addr % pageSize = 0) (hs : ValidSid sid) :
    (pageAddr (addr2page addr sid) = addr ↔ addr < 2 ^ 32) ∧ pageSid (addr2page addr sid) = sid ∧
      u32 (addr ||| onePageSid) = addr2page addr onePageSid ∧
      ∀ phyAddr, ValidSid (slotToSid phyAddr) ∧ slotToSid phyAddr ≠ onePageSid := by
  have hlt : sid < 4096 := by
    rcases hs with h | h
    · exact h.trans (by decide)
    · exact h.trans_lt (by decide)
  have hone : onePageSid < 4096 := by decide
  rw [pageAddr_eq, pageSid_eq, addr2page_eq_mod ha hlt]
  refine ⟨?_, ?_, ?_, fun phyAddr => ⟨.inl (slotToSid_lt phyAddr), ?_⟩⟩
  · unfold pageSize at ha
    omega
  · unfold pageSize at ha
    omega
  · unfold addr2page
    rw [(or_sid ha hone).1]
  · exact ((slotToSid_lt phyAddr).trans (by decide)).ne

theorem page_roundTrip_slot : pageAddr (addr2page 0xfffff000 7) = 0xfffff000 :=
  (page_roundTrip (by decide) (.inl (by decide))).1.mpr (by decide)

theorem page_not_roundTrip : ∃ addr sid, addr % pageSize = 0 ∧ ValidSid sid ∧ pageAddr (addr2page addr sid) ≠ addr :=
  ⟨2 ^ 32, 0, by decide, by decide, by decide⟩

def frame (page : Nat) : Nat := page / 4096

theorem pageAddr_eq_frame (page : Nat) : pageAddr page = frame page * 4096 := pageAddr_eq page

structure OnePage (page : Nat) : Prop where
  sid : pageSid page = onePageSid
  below : page < 2 ^ 32

theorem onePage_token {p : Nat} (h : (Area.mk p 1).Ok) :
    OnePage (u32 (p ||| onePageSid)) ∧ frame (u32 (p ||| onePageSid)) = p / 4096 ∧
      pageAddr (u32 (p ||| onePageSid)) = p := by
  have ha : p % 4096 = 0 := h.aligned
  have hb : p + 4096 * 1 ≤ 2 ^ 32 := h.below
  have he : u32 (p ||| onePageSid) = p + 4095 := by
    show u32 (p ||| 4095) = p + 4095
    rw [(or_sid ha (show 4095 < 4096 by decide)).2]
    exact u32_of_lt (by omega)
  rw [he]
  refine ⟨⟨?_, by omega⟩, ?_, ?_⟩
  · rw [pageSid_eq]
    show (p + 4095) % 4096 = 4095
    omega
  · unfold frame
    omega
  · rw [pageAddr_eq]
    omega

end Amlogic.CodecMm
