import Amlogic.Base.Runs
import Amlogic.CodecMm.Script
import Amlogic.CodecMm.Proofs.SlotCodeProofs

/-!
# Slots are found and give what they have

Whatever slots have been added and removed, a slot is found by its `sid` and an address in it, and an address of no
slot is not found. A slot that has been claimed gives as many pages as it has, or as are wanted.
-/

namespace Amlogic.CodecMm

/-! ## The search of the hash -/

section Lookup

variable {ω : Type} {E : Externals ω} {w : ω} {p : SlotPool} {s : PoolSt ω}

inductive SlotOp where
  | alloc (size : Int) (flags : Nat)
  | free (id : Nat)

def SlotOp.Step (E : Externals ω) (s : PoolSt ω) (op : SlotOp) (s' : PoolSt ω) : Prop :=
  match op with
  | .alloc size flags => ∃ r, codecMmSlotAlloc E size flags s = .ok (r, s')
  | .free id => ∃ slot r, s.pool.slots.lookup id = some slot ∧ codecMmSlotFree E id s = .ok (r, s')

def SlotPool.emptied (p : SlotPool) : SlotPool :=
  { p with slots := ∅, slotListMap := fun _ => [], freeList := [], totalPageNum := 0, onePageCnt := 0 }

theorem poolOk_emptied (w : ω) (p : SlotPool) : PoolOk E 0 ∅ 0 ⟨w, p.emptied⟩ :=
  ⟨⟨nofun, nofun, nofun, fun _ _ => ⟨nofun, nofun⟩, fun _ => List.nodup_nil, nofun, nofun, List.nodup_nil⟩,
    ⟨0, rfl, nofun, Multiset.nodup_zero, nofun⟩, rfl, nofun⟩

theorem SlotOp.Step.poolOk {op : SlotOp} {s' : PoolSt ω} (h : PoolOk E 0 ∅ 0 s) (hstep : op.Step E s s') :
    PoolOk E 0 ∅ 0 s' := by
  cases op with
  | alloc size flags =>
    obtain ⟨r, hrun⟩ := hstep
    exact ((codecMmSlotAlloc_ok ⟨h, rfl⟩ size flags).of_ok hrun).1.1
  | free id =>
    obtain ⟨slot, r, hl, hrun⟩ := hstep
    exact ((codecMmSlotFree_ok ⟨h, rfl⟩ hl).of_ok hrun).1.1

/-- After any additions and removals the search is exact, and the map names the roots of the rings. -/
theorem slot_lookup_exact (hrun : Runs (SlotOp.Step E) (fun _ _ => True) ⟨w, p.emptied⟩ s) :
    (∀ id slot addr, s.pool.slots.lookup id = some slot → slot.Contains addr →
      codecMmFindSlotInHash slot.sid addr s = .ok (some id, s)) ∧
    (∀ sid addr, (∀ id slot, s.pool.slots.lookup id = some slot → ¬slot.Contains addr) →
      codecMmFindSlotInHash sid addr s = .ok (none, s)) ∧
    ∀ sid id slot, (s.pool.slotListMap sid).head? = some id → s.pool.slots.lookup id = some slot →
      slot.isroot = true := by
  have h : PoolOk E 0 ∅ 0 s := hrun.keeps (fun h _ hstep => hstep.poolOk h) (poolOk_emptied w p)
  refine ⟨fun id slot addr hl hin => codecMmFindSlotInHash_ok h hl hin, fun sid addr hout => ?_,
    fun sid id slot => h.hash.root⟩
  obtain ⟨r, hfind, hsome, -⟩ := codecMmFindSlotInHash_run h sid addr
  cases r with
  | none => exact hfind
  | some id =>
    obtain ⟨slot, hl, hin⟩ := hsome id rfl
    exact absurd hin (hout id slot hl)

/-- A slot of eight pages is added; it is found by its last byte. -/
theorem slot_lookup_exact_one : ∃ (s : PoolSt Script) (slot : Slot), s.pool.slots.lookup 0x1000 = some slot ∧
    codecMmFindSlotInHash slot.sid 0x8fff s = .ok (some 0x1000, s) := by
  have hplay : ((codecMmSlotAlloc scripted 0 0 ⟨⟨0, 1, []⟩, (Mgt.init false 0).emptied⟩).toOption.any fun r =>
      (r.2.pool.slots.lookup 0x1000).any fun slot => decide (slot.phyAddr = 0x1000 ∧ slot.pageNum = 8)) = true := by
    decide +kernel
  cases hrun : codecMmSlotAlloc scripted 0 0 ⟨⟨0, 1, []⟩, (Mgt.init false 0).emptied⟩ with
  | error e => simp [hrun, Except.toOption] at hplay
  | ok r =>
    simp only [hrun, Except.toOption, Option.any_some, Option.any_eq_true, decide_eq_true_eq] at hplay
    obtain ⟨slot, hl, haddr, hnum⟩ := hplay
    exact ⟨r.2, slot, hl, (slot_lookup_exact
      (.snoc (e := .alloc 0 0) .nil trivial ⟨r.1, hrun⟩)).1 0x1000 slot 0x8fff hl ⟨by omega, by omega⟩⟩

end Lookup

/-! ## The pages of one slot -/

section Pages

variable {ω : Type} {s : PoolSt ω} {id : Nat} {slot : Slot}

theorem Slot.Scanned.length {i need : Nat} {r : Slot × Nat × List Nat} {bits : List Nat} (hi : i < slot.pageNum)
    (hclaimed : slot.onAllocFree = 1) (hneed : need ≤ slot.pageNum - slot.bits.card) (htook : slot.Took need r)
    (hscan : slot.Scanned slot.pageNum i need r bits) : bits.length = need := by
  have hlen : bits.length ≤ need := by
    simpa [hscan.pages] using htook.length
  have hcard := congrArg Multiset.card htook.tokens
  simp only [Slot.tokens, Multiset.card_map, Multiset.card_add, Multiset.coe_card, hscan.pages, List.length_map,
    Finset.card_val] at hcard
  by_contra hne
  -- every place is tried, so all bits are set
  have hall : ∀ b < slot.pageNum, r.1.pagemap[b]? = some true := by
    intro b hb
    have hfull := hscan.full hclaimed (by omega) ((b + slot.pageNum - i) % slot.pageNum) (Nat.mod_lt _ (by omega))
    rwa [Nat.add_mod_mod, show i + (b + slot.pageNum - i) = b + slot.pageNum by omega, Nat.add_mod_right,
      Nat.mod_eq_of_lt hb] at hfull
  obtain ⟨pagemap, alloced, hrest⟩ := htook.rest
  have hbits : r.1.bits = Finset.range slot.pageNum := by
    rw [Slot.bits, show r.1.pageNum = slot.pageNum by rw [hrest]]
    exact Finset.filter_true_of_mem fun b hb => hall b (Finset.mem_range.mp hb)
  rw [hbits, Finset.card_range] at hcard
  omega

/-- A claimed slot with a free page gives as many pages as are wanted and free, each once, and nothing else of its map
changes. -/
theorem codecMmSlotAllocPages_exact (num : Nat) (hok : slot.Ok) (hl : s.pool.slots.lookup id = some slot)
    (hfree : slot.allocedPageNum < slot.pageNum) (hclaimed : slot.onAllocFree = 1) :
    ∃ (bits : List Nat) (slot' : Slot), codecMmSlotAllocPages id num s =
        .ok ((bits.length, bits.map slot.token), { s with pool := s.pool.setSlot id slot' }) ∧
      bits.length = min num (slot.pageNum - slot.bits.card) ∧ (bits.map slot.token).Nodup ∧
      (∀ b ∈ bits, slot.Contains (pageAddr (slot.token b)) ∧ slot.pagemap[b]? ≠ some true) ∧
      (∀ b, slot'.pagemap[b]? = if b ∈ bits then some true else slot.pagemap[b]?) ∧
      slot'.nextBit < slot'.pageNum := by
  have hcan : (slot.pageNum - slot.allocedPageNum).toNat = slot.pageNum - slot.bits.card := by
    rw [← hok.card_tokens, Slot.tokens, Multiset.card_map, Finset.card_val]
    omega
  obtain ⟨htook, bits, hscan⟩ :=
    hok.allocPages slot.pageNum hok.nextBit (min num (slot.pageNum - slot.bits.card))
  have hlen := hscan.length hok.nextBit hclaimed (Nat.min_le_right ..) htook
  have hrun : codecMmSlotAllocPages id num s =
      (let r := slot.allocPages slot.pageNum slot.nextBit (min num (slot.pageNum - slot.bits.card))
      let slot' := { r.1 with nextBit := if r.2.1 ≥ slot.pageNum then 0 else r.2.1 }
      .ok ((r.2.2.length, r.2.2), { s with pool := s.pool.setSlot id slot' })) := by
    unfold codecMmSlotAllocPages
    rw [run_bind_of_ok (slotOf_run hl), if_neg (not_le.mpr hfree), hcan]
    rfl
  generalize slot.allocPages _ _ _ = r at hscan htook hrun
  refine ⟨bits, { r.1 with nextBit := if r.2.1 ≥ slot.pageNum then 0 else r.2.1 }, ?_, hlen, ?_, ?_,
    hscan.pagemap, ?_⟩
  · dsimp only at hrun
    rw [hrun, hscan.pages, List.length_map]
  · refine hscan.nodup.map_on fun b hb c hc heq => ?_
    have htok := hok.token_eq (hscan.clear b hb).1
    rw [heq, hok.token_eq (hscan.clear c hc).1] at htok
    omega
  · intro b hb
    obtain ⟨hlt, hclear⟩ := hscan.clear b hb
    have haddr : pageAddr (slot.token b) = slot.phyAddr + 4096 * b := hok.pageAddr_token hlt
    refine ⟨⟨?_, ?_⟩, hclear⟩ <;> rw [haddr] <;> omega
  · obtain ⟨pagemap, alloced, hrest⟩ := htook.rest
    have hnum : r.1.pageNum = slot.pageNum := by rw [hrest]
    rw [if_neg (not_le.mpr htook.next), hnum]
    exact htook.next

def claimedSlot : Slot :=
  ⟨.codecMm, 0x1000, 8, List.replicate 24 false, 0, 5, slotToSid 0x1000, true, 1⟩

theorem claimedSlot_ok : claimedSlot.Ok := by
  refine ⟨⟨by decide, by decide, by decide, by decide⟩, rfl, fun b hb => ?_, by decide, by decide, rfl, nofun⟩
  cases List.eq_of_mem_replicate (List.mem_of_getElem? hb)

/-- Ten pages are wanted, and eight are there. -/
theorem codecMmSlotAllocPages_exact_eight :
    ∃ (bits : List Nat) (slot' : Slot), codecMmSlotAllocPages 0x1000 10
        (⟨0, { (Mgt.init false 0).toSlotPool with slots := AList.singleton 0x1000 claimedSlot }⟩ : PoolSt Nat) =
          .ok ((8, bits.map claimedSlot.token), ⟨0, { (Mgt.init false 0).toSlotPool with
            slots := (AList.singleton 0x1000 claimedSlot).insert 0x1000 slot' }⟩) ∧ bits.length = 8 := by
  have hl : (⟨0, { (Mgt.init false 0).toSlotPool with slots := AList.singleton 0x1000 claimedSlot }⟩ :
      PoolSt Nat).pool.slots.lookup 0x1000 = some claimedSlot := rfl
  obtain ⟨bits, slot', hrun, hlen, -⟩ := codecMmSlotAllocPages_exact 10 claimedSlot_ok hl (by decide) rfl
  have height : bits.length = 8 := hlen.trans (by decide)
  rw [height] at hrun
  exact ⟨bits, slot', hrun, height⟩

end Pages

end Amlogic.CodecMm
