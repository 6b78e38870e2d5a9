import Amlogic.CodecMm.Script
import Amlogic.CodecMm.Proofs.SystemProofs

/-!
# Pages are conserved

No page is held twice, and the counter and the bitmap of every slot agree with the pages that are held.
-/

namespace Amlogic.CodecMm

open Multiset

def Slot.Owns (slot : Slot) (t : Nat) : Prop :=
  pageSid t = slot.sid ∧ slot.phyAddr ≤ pageAddr t ∧ pageAddr t < slot.phyAddr + slot.pageNum <<< pageShift

instance (slot : Slot) : DecidablePred slot.Owns := fun _ => inferInstanceAs (Decidable (_ ∧ _))

section Conservation

variable {ω : Type} {E : Externals ω} {F : Multiset Nat} {G : Set Nat} {c : Int} {w : ω} {m : Mgt}
  {s : System ω} {b : Bool} {slot : Slot} {id t : Nat}

theorem Slot.Ok.owns_of_mem (h : slot.Ok) (ht : t ∈ slot.tokens) : slot.Owns t := by
  obtain ⟨i, hi, rfl⟩ := mem_map.mp ht
  have hlt := (Slot.mem_bits.mp hi).1
  have haddr : pageAddr (slot.token i) = slot.phyAddr + 4096 * i := h.pageAddr_token hlt
  have hshift : slot.pageNum <<< pageShift = slot.pageNum * 4096 := Nat.shiftLeft_eq ..
  refine ⟨h.pageSid_token hlt, ?_, ?_⟩
  · omega
  · omega

theorem Slot.Ok.frame_of_owns (h : slot.Ok) (ht : slot.Owns t) : frame t ∈ slot.frames := by
  obtain ⟨-, hle, hlt⟩ := ht
  have haddr : pageAddr t = frame t * 4096 := pageAddr_eq_frame t
  have hshift : slot.pageNum <<< pageShift = slot.pageNum * 4096 := Nat.shiftLeft_eq ..
  have hal : slot.phyAddr % 4096 = 0 := h.area.aligned
  have hp : pageSize = 4096 := rfl
  refine Area.mem_frames.mpr ?_
  show slot.phyAddr / pageSize ≤ frame t ∧ frame t < slot.phyAddr / pageSize + slot.pageNum
  rw [hp]
  omega

theorem Inv.frames_held (h : Inv E F G 0 0 c ⟨w, m⟩) : (held m).map frame ≤ m.frames := by
  obtain ⟨hheld, -, -, -⟩ := h.ledger
  rw [hheld, map_add, Heap.map_total]
  refine add_le_add_left (Heap.total_le_total _ fun hl => ?_) _
  exact (h.pool.hash.slot hl).frames_tokens

theorem Inv.split_held (h : Inv E F G 0 0 c ⟨w, m⟩) (hl : m.slots.lookup id = some slot) :
    ∃ rest, held m = slot.tokens + rest ∧ slot.frames + rest.map frame ≤ m.frames := by
  obtain ⟨hheld, -, -, -⟩ := h.ledger
  refine ⟨Heap.total Slot.tokens (m.slots.erase id) + m.ones, ?_, ?_⟩
  · rw [hheld, Heap.total_erase Slot.tokens hl, add_assoc]
  · unfold Mgt.frames usedFrames
    rw [Heap.total_erase Slot.frames hl, map_add, Heap.map_total, ← add_assoc]
    refine add_le_add_left (add_le_add_right (Heap.total_le_total _ fun hx => ?_) _) _
    exact (h.pool.hash.slot (Heap.lookup_erase_iff.mp hx).2).frames_tokens

theorem SysInv.frames_nodup (h : SysInv E s) (b : Bool) : ((s.mgt b).frames + (s.mgt !b).frames).Nodup := by
  obtain ⟨-, -, hnodup, -⟩ := (h b).ledger
  rw [add_comm]
  exact hnodup

/-- The pages that all scatters hold, those of the caches included. -/
def System.held (s : System ω) : Multiset Nat := CodecMm.held (s.mgt false) + CodecMm.held (s.mgt true)

theorem System.held_eq (s : System ω) (b : Bool) :
    s.held = CodecMm.held (s.mgt b) + CodecMm.held (s.mgt !b) := by
  cases b with
  | false => rfl
  | true => exact add_comm _ _

theorem SysInv.held_nodup (h : SysInv E s) : s.held.Nodup := by
  refine Multiset.Nodup.of_map frame ?_
  refine nodup_of_le ?_ (h.frames_nodup false)
  unfold System.held
  rw [map_add]
  exact add_le_add (h false).frames_held (h true).frames_held

theorem SysInv.countP_owns (h : SysInv E s) (hl : (s.mgt b).slots.lookup id = some slot) :
    slot.allocedPageNum = s.held.countP slot.Owns := by
  have hok := (h b).pool.hash.slot hl
  obtain ⟨rest, hheld, hframes⟩ := (h b).split_held hl
  have hout : ∀ t ∈ rest + CodecMm.held (s.mgt !b), ¬slot.Owns t := by
    intro t ht howns
    have hnodup : (slot.frames + (rest + CodecMm.held (s.mgt !b)).map frame).Nodup := by
      refine nodup_of_le ?_ (h.frames_nodup b)
      rw [map_add, ← add_assoc]
      exact add_le_add hframes h.other.frames_held
    exact disjoint_left.mp (nodup_add.mp hnodup).2.2 (hok.frame_of_owns howns)
      (mem_map_of_mem frame ht)
  have hin : slot.tokens.countP slot.Owns = slot.tokens.card :=
    countP_eq_card.mpr fun t ht => hok.owns_of_mem ht
  rw [s.held_eq b, hheld, add_assoc, countP_add, hin, countP_eq_zero.mpr hout,
    ← hok.card_tokens]
  rfl

/-- In every run, no page is held twice, and the counter of every slot is the number of its set bits and
the number of its pages that are held. -/
theorem pages_conserved {lessMemory : Bool} (hrun : Run E (fun _ _ => True) (System.init w lessMemory) s) :
    s.held.Nodup ∧ ∀ b id slot, (s.mgt b).slots.lookup id = some slot →
      slot.allocedPageNum = slot.pagemap.count true ∧
      slot.allocedPageNum = s.held.countP slot.Owns ∧
      ∀ i, slot.pagemap[i]? = some true → i < slot.pageNum := by
  obtain ⟨h, -⟩ := hrun.inv (P := fun _ => True) (System.init_inv w lessMemory) trivial
    fun _ _ _ _ _ _ _ _ => trivial
  refine ⟨h.held_nodup, fun b id slot hl => ?_⟩
  have hok := (h b).pool.hash.slot hl
  exact ⟨hok.alloced, h.countP_owns hl, hok.bits⟩

/-- Four pages of a slot with eight pages. -/
theorem pages_conserved_alloc :
    let s := (Op.alloc false 16 4).after scripted (System.init ⟨0, 1, []⟩ false)
    s.held.card = 4 ∧ s.held.Nodup ∧ ∀ b id slot, (s.mgt b).slots.lookup id = some slot →
      slot.allocedPageNum = slot.pagemap.count true ∧
      slot.allocedPageNum = s.held.countP slot.Owns ∧
      ∀ i, slot.pagemap[i]? = some true → i < slot.pageNum :=
  ⟨by decide +kernel, pages_conserved
    (Run.init.next (.alloc false 16 4) nofun trivial (by decide +kernel))⟩

end Conservation

end Amlogic.CodecMm
