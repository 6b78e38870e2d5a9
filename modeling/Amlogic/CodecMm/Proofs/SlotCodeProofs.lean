import Amlogic.CodecMm.Proofs.PoolProofs

/-!
# The slot code

Every function of the slot code keeps the pool in order, and its effect on the ledger is what its name
says.
-/

namespace Amlogic.CodecMm

section Code

variable {ω : Type} {E : Externals ω} {F L : Multiset Nat} {G : Set Nat} {s : PoolSt ω} {id : Nat}
  {slot : Slot} {n : Int}

def SlotPool.Live (p : SlotPool) (id : Nat) : Prop :=
  ∃ slot, p.slots.lookup id = some slot

def Kept (E : Externals ω) (F : Multiset Nat) (G : Set Nat) (L : Multiset Nat) (n : Int) (s : PoolSt ω) : Prop :=
  PoolOk E F G L s ∧ s.pool.allocedPageNum = n

theorem slotOf_run (hl : s.pool.slots.lookup id = some slot) : slotOf id s = .ok (slot, s) := by
  simp only [slotOf, run_get_bind, hl]
  rfl

theorem meets_slotOf_bind {α : Type} {f : Slot → Prog (PoolSt ω) α} {Q : α → PoolSt ω → Prop}
    (hl : s.pool.slots.lookup id = some slot) : Meets (slotOf id >>= f) s Q ↔ Meets (f slot) s Q :=
  meets_bind_of_ok (slotOf_run hl)

theorem meets_ext_bind {α β : Type} {g : ω → β × ω} {f : β → Prog (PoolSt ω) α}
    {Q : α → PoolSt ω → Prop} : Meets (ext g >>= f) s Q ↔
      Meets (f (g s.world).1) { s with world := (g s.world).2 } Q := Iff.rfl

theorem meets_modifyPool_bind {α : Type} {g : SlotPool → SlotPool} {f : Unit → Prog (PoolSt ω) α}
    {Q : α → PoolSt ω → Prop} : Meets (modifyPool g >>= f) s Q ↔
      Meets (f ()) { s with pool := g s.pool } Q := Iff.rfl

/-! ## Finding and freeing slots -/

def Slot.Contains (slot : Slot) (addr : Nat) : Prop :=
  slot.phyAddr ≤ addr ∧ addr < slot.phyAddr + slot.pageNum * 4096

theorem findSlot_run (addr : Nat) {ids : List Nat} (hlive : ∀ x ∈ ids, s.pool.Live x) :
    ∃ r, findSlot addr ids s = .ok (r, s) ∧
      (∀ x, r = some x → ∃ sl, s.pool.slots.lookup x = some sl ∧ sl.Contains addr) ∧
      (r = none → ∀ x ∈ ids, ∀ sl, s.pool.slots.lookup x = some sl → ¬sl.Contains addr) := by
  induction ids with
  | nil => exact ⟨none, rfl, nofun, nofun⟩
  | cons x ids ih =>
    obtain ⟨sl, hx⟩ := hlive x List.mem_cons_self
    have hshift : sl.pageNum <<< pageShift = sl.pageNum * 4096 := Nat.shiftLeft_eq ..
    rw [findSlot, run_bind_of_ok (slotOf_run hx), hshift]
    split_ifs with hin
    · refine ⟨some x, rfl, fun y hy => ?_, nofun⟩
      cases hy
      exact ⟨sl, hx, hin⟩
    · obtain ⟨r, hr, hsome, hnone⟩ := ih fun y hy => hlive y (List.mem_cons_of_mem _ hy)
      refine ⟨r, hr, hsome, fun h y hy sl' hsl' => ?_⟩
      rcases List.mem_cons.mp hy with rfl | hy
      · obtain rfl := Option.some.inj (hx.symm.trans hsl')
        exact hin
      · exact hnone h y hy sl' hsl'

/-- What `codec_mm_find_slot_in_hash` finds contains the address, and it finds a slot of the `sid` that does. -/
theorem codecMmFindSlotInHash_run (h : PoolOk E F G L s) (sid addr : Nat) :
    ∃ r, codecMmFindSlotInHash sid addr s = .ok (r, s) ∧
      (∀ x, r = some x → ∃ sl, s.pool.slots.lookup x = some sl ∧ sl.Contains addr) ∧
      (r = none → ∀ x sl, s.pool.slots.lookup x = some sl → sl.sid = sid → ¬sl.Contains addr) := by
  unfold codecMmFindSlotInHash
  split_ifs with hsid
  · refine ⟨none, rfl, nofun, fun _ x sl hx heq => absurd hsid ?_⟩
    have hok := h.hash.slot hx
    exact heq ▸ not_or.mpr ⟨not_not_intro (Or.inl (hok.sid ▸ slotToSid_lt _)), hok.sid_ne⟩
  rw [run_get_bind]
  have hring : ∀ x, x ∈ s.pool.slotListMap sid ↔ _ := h.hash.ring sid
  cases hr : s.pool.slotListMap sid with
  | nil =>
    refine ⟨none, rfl, nofun, fun _ x sl hx heq => ?_⟩
    exact absurd ((hring x).mpr ⟨sl, hx, heq⟩) (hr ▸ List.not_mem_nil)
  | cons fslot ring =>
    have hmem : ∀ x, x ∈ fslot :: ring.reverse ↔ x ∈ s.pool.slotListMap sid := by
      intro x
      rw [hr, List.mem_cons, List.mem_cons, List.mem_reverse]
    have hlive : ∀ x ∈ fslot :: ring.reverse, s.pool.Live x := by
      intro x hx
      obtain ⟨sl, hsl, -⟩ := (hring x).mp ((hmem x).mp hx)
      exact ⟨sl, hsl⟩
    obtain ⟨r, hrun, hsome, hnone⟩ := findSlot_run addr hlive
    exact ⟨r, hrun, hsome, fun h x sl hx heq => hnone h x ((hmem x).mpr ((hring x).mpr ⟨sl, hx, heq⟩)) sl hx⟩

theorem Slot.Contains.mem_frames {addr : Nat} (hin : slot.Contains addr) (hok : slot.Ok) :
    addr / 4096 ∈ slot.frames := by
  have ha : slot.phyAddr % 4096 = 0 := hok.area.aligned
  obtain ⟨hlo, hhi⟩ := hin
  refine Area.mem_frames.mpr ?_
  show slot.phyAddr / 4096 ≤ addr / 4096 ∧ addr / 4096 < slot.phyAddr / 4096 + slot.pageNum
  omega

theorem codecMmFindSlotInHash_ok (h : PoolOk E F G L s) (hl : s.pool.slots.lookup id = some slot)
    {addr : Nat} (hin : slot.Contains addr) : codecMmFindSlotInHash slot.sid addr s = .ok (some id, s) := by
  obtain ⟨r, hrun, hsome, hnone⟩ := codecMmFindSlotInHash_run h slot.sid addr
  cases r with
  | none => exact absurd hin (hnone rfl id slot hl rfl)
  | some x =>
    obtain ⟨sl, hx, hin'⟩ := hsome x rfl
    obtain rfl : x = id :=
      h.ledger.unique hl hx (hin.mem_frames (h.hash.slot hl)) (hin'.mem_frames (h.hash.slot hx))
    exact hrun

theorem split_at_mem {ring : List Nat} (hmem : id ∈ ring) :
    ∃ l, ring = ring.takeWhile (· ≠ id) ++ id :: l ∧ ring.dropWhile (· ≠ id) = id :: l := by
  induction ring with
  | nil => cases hmem
  | cons x ring ih =>
    by_cases hx : x = id
    · subst hx
      exact ⟨ring, by simp, by simp⟩
    · obtain ⟨l, heq, hdrop⟩ := ih ((List.mem_cons.mp hmem).resolve_left (Ne.symm hx))
      refine ⟨l, ?_, ?_⟩
      · rw [List.takeWhile_cons_of_pos (by simpa using hx), List.cons_append, ← heq]
      · rw [List.dropWhile_cons_of_pos (by simpa using hx), hdrop]

theorem ringAfter_perm {ring : List Nat} (hmem : id ∈ ring) :
    ring.Perm (id :: ringAfter ring id) := by
  obtain ⟨l, heq, hdrop⟩ := split_at_mem hmem
  unfold ringAfter
  rw [hdrop, List.tail_cons]
  exact (List.Perm.of_eq heq).trans (List.perm_middle.trans (List.perm_append_comm.cons id))

theorem PoolOk.setRoot (h : PoolOk E F G L s) (next : Nat) :
    PoolOk E F G L { s with pool := { s.pool with slots := setRoot s.pool.slots next } } := by
  unfold CodecMm.setRoot
  cases hl : s.pool.slots.lookup next with
  | none => exact h
  | some slot =>
    have hidle := h.hash.idle hl
    exact ⟨h.hash.replace hl { h.hash.slot hl with } rfl hidle fun _ => rfl, h.ledger.replace hl rfl rfl⟩

theorem setRoot_lookup_ne {slots : Heap Slot} {next : Nat} (hne : id ≠ next) :
    (setRoot slots next).lookup id = slots.lookup id := by
  unfold CodecMm.setRoot
  cases slots.lookup next with
  | none => rfl
  | some slot => exact AList.lookup_insert_ne hne

def SlotPool.ringWithout (p : SlotPool) (id : Nat) (slot : Slot) : List Nat :=
  if slot.isroot ∨ ringAfter (p.slotListMap slot.sid) id = [] then ringAfter (p.slotListMap slot.sid) id
  else (p.slotListMap slot.sid).erase id

theorem PoolOk.ringWithout (h : PoolOk E F G L s) (hl : s.pool.slots.lookup id = some slot) :
    (∀ x, x ∈ s.pool.ringWithout id slot ↔ x ∈ s.pool.slotListMap slot.sid ∧ x ≠ id) ∧
      (s.pool.ringWithout id slot).Nodup := by
  have hperm := ringAfter_perm ((h.hash.ring _ _).mpr ⟨slot, hl, rfl⟩)
  have hnodup := h.hash.ring_nodup slot.sid
  obtain ⟨hnot, hafter⟩ := List.nodup_cons.mp (hperm.nodup_iff.mp hnodup)
  unfold SlotPool.ringWithout
  split_ifs
  · refine ⟨fun x => ?_, hafter⟩
    rw [hperm.mem_iff, List.mem_cons]
    constructor
    · exact fun hx => ⟨.inr hx, fun heq => hnot (heq ▸ hx)⟩
    · exact fun hx => hx.1.resolve_left hx.2
  · refine ⟨fun x => ?_, hnodup.erase id⟩
    rw [hnodup.mem_erase_iff, and_comm]

theorem PoolOk.marked (h : PoolOk E F G L s) (hl : s.pool.slots.lookup id = some slot) :
    ∃ slots : Heap Slot, slots.lookup id = some slot ∧
      PoolOk E F G L { s with pool := { s.pool with slots := slots } } ∧
      (∀ {x sl}, (s.pool.ringWithout id slot).head? = some x → slots.lookup x = some sl → sl.isroot = true) ∧
      (s.pool.removeSlot id slot).slots = slots.erase id := by
  have hmem := (h.ringWithout hl).1
  unfold SlotPool.ringWithout at hmem ⊢
  unfold SlotPool.removeSlot
  cases hr : ringAfter (s.pool.slotListMap slot.sid) id with
  | nil => exact ⟨_, hl, h, by simp, rfl⟩
  | cons next rest =>
    rw [hr] at hmem
    by_cases hroot : slot.isroot
    · simp only [hroot, true_or, if_true] at hmem ⊢
      have hne : id ≠ next := fun heq => ((hmem next).mp List.mem_cons_self).2 heq.symm
      refine ⟨CodecMm.setRoot s.pool.slots next, (setRoot_lookup_ne hne).trans hl, h.setRoot next, ?_, rfl⟩
      rintro x sl ⟨⟩ hsl
      unfold CodecMm.setRoot at hsl
      cases hid : s.pool.slots.lookup next with
      | none => simp [hid] at hsl
      | some old =>
        simp only [hid, AList.lookup_insert, Option.some.injEq] at hsl
        rw [← hsl]
    · simp only [hroot, false_or, reduceCtorEq, if_false]
      refine ⟨_, hl, h, fun {x sl} hx hsl => ?_, rfl⟩
      -- the first slot of the ring is a root, so it is another one
      cases hm : s.pool.slotListMap slot.sid with
      | nil => simp [hm] at hx
      | cons y ys =>
        have hy : y ≠ id := by
          rintro rfl
          exact hroot (h.hash.root (by rw [hm]; rfl) hl)
        rw [hm, List.erase_cons_tail (by simpa using hy)] at hx
        exact h.hash.root (by rw [hm]; exact hx) hsl

theorem PoolOk.removeSlot (h : PoolOk E F G L s) (hl : s.pool.slots.lookup id = some slot) (htok : slot.tokens = 0) :
    PoolOk E (slot.frames + F) G L { s with pool := s.pool.removeSlot id slot } := by
  obtain ⟨hmem, hnodup⟩ := h.ringWithout hl
  obtain ⟨slots, hl', h', hroot, heq⟩ := h.marked hl
  have hledger := h'.ledger.remove hl' htok
  have hd : s.pool.totalPageNum - s.pool.onePageCnt - slot.pageNum =
      s.pool.totalPageNum - slot.pageNum - s.pool.onePageCnt := by omega
  have hhash := h'.hash.remove hl' hmem hnodup hroot
  rw [← heq] at hhash hledger
  exact ⟨hhash, hd ▸ hledger⟩

theorem PoolOk.release {a : Area} {w : ω} (h : PoolOk E (a.frames + F) G L s)
    (hfree : E.inUse s.world \ a.resources ⊆ E.inUse w) : PoolOk E F G L { s with world := w } :=
  ⟨h.hash, h.ledger.release hfree⟩

theorem PoolOk.world {w : ω} (h : PoolOk E F G L s) (hw : E.inUse s.world ⊆ E.inUse w) :
    PoolOk E F G L { s with world := w } :=
  ⟨h.hash, h.ledger.world hw⟩

theorem getOrder_pow (n : Nat) : getOrder (pageSize * (2 ^ n : Nat)) = n := by
  have hpos : 0 < 2 ^ n := Nat.two_pow_pos n
  have hp : (pageSize : Int) = 4096 := rfl
  unfold getOrder
  rw [hp, if_neg (by omega)]
  have hval : ((4096 * ((2 ^ n : Nat) : Int) - 1).toNat >>> pageShift) = 2 ^ n - 1 := by
    show _ >>> 12 = _
    omega
  rw [hval]
  cases n with
  | zero => rfl
  | succ n =>
    refine le_antisymm (Nat.size_le.mpr (by omega)) (Nat.lt_size.mpr ?_)
    omega

theorem Slot.Ok.tokens_eq_zero (h : slot.Ok) (h0 : slot.allocedPageNum ≤ 0) : slot.tokens = 0 := by
  have hcard := h.card_tokens
  exact Multiset.card_eq_zero.mp (by omega)

theorem codecMmSlotFree_ok (hk : Kept E F G L n s) (hl : s.pool.slots.lookup id = some slot) :
    Meets (codecMmSlotFree E id) s fun r s' => Kept E F G L n s' ∧ (r ≠ 0 → s' = s) := by
  obtain ⟨h, hn⟩ := hk
  have hok := h.hash.slot hl
  unfold codecMmSlotFree
  rw [meets_slotOf_bind hl]
  split_ifs with hbusy
  · exact ⟨⟨h, hn⟩, fun _ => rfl⟩
  have hzero : slot.tokens = 0 := hok.tokens_eq_zero (not_lt.mp (not_or.mp hbusy).1)
  have hrem := h.removeSlot hl hzero
  cases hfrom : slot.fromType with
  | codecMm =>
    exact ⟨⟨hrem.release (E.codecMmRelease_frees slot.area s.world), hn⟩, fun hne => absurd rfl hne⟩
  | getFreePages =>
    obtain ⟨k, hk⟩ := hok.order hfrom
    refine ⟨⟨hrem.release ?_, hn⟩, fun hne => absurd rfl hne⟩
    have harea : slot.area = ⟨slot.phyAddr, 2 ^ k⟩ := by rw [← hk]; rfl
    rw [harea, hk, getOrder_pow]
    exact E.freePages_frees slot.phyAddr k s.world

/-! ## A page comes back -/

theorem codecMmSlotFreePage_run (hl : s.pool.slots.lookup id = some slot) (hok : slot.Ok) {b : Nat}
    (hset : slot.pagemap[b]? = some true) :
    codecMmSlotFreePage id (bit2addr slot.phyAddr b) s =
      .ok (0, { s with pool := s.pool.setSlot id (slot.clearBit b) }) := by
  have hb : b < slot.pageNum := hok.bits b hset
  have hbit : addr2bit slot.phyAddr (bit2addr slot.phyAddr b) = b := by
    show (slot.phyAddr + 4096 * b - slot.phyAddr) >>> 12 = b
    omega
  have hrun : codecMmSlotFreePage id (bit2addr slot.phyAddr b) s =
      (let bit := addr2bit slot.phyAddr (bit2addr slot.phyAddr b)
      if slot.pageNum ≤ 0 then return codecMmSErr 4
      else if ¬bit < slot.pagemap.length then return codecMmSErr 5
      else if slot.pagemap[bit]? = some true then do
        modifyPool fun p => p.setSlot id (slot.clearBit bit)
        return 0
      else return codecMmSErr 6 : Prog (PoolSt ω) Int) s := by
    show (slotOf id s >>= fun p => _) = _
    rw [slotOf_run hl]
    rfl
  rw [hrun, hbit]
  rw [if_neg (by omega), if_neg (not_not_intro (hb.trans_le hok.pageNum_le)), if_pos hset]
  rfl

theorem PoolOk.setSlot {slot' : Slot} {L' : Multiset Nat} (h : PoolOk E F G L s)
    (hl : s.pool.slots.lookup id = some slot) (hok : slot'.Ok) (harea : slot'.area = slot.area)
    (hidle : slot'.onAllocFree = 0) (hroot : slot'.isroot = slot.isroot) (hL : L' + slot.tokens = L + slot'.tokens) :
    PoolOk E F G L' { s with pool := s.pool.setSlot id slot' } :=
  ⟨h.hash.replace hl hok (congrArg Area.phyAddr harea) hidle hroot.trans, h.ledger.replace hl harea hL⟩

theorem PoolOk.withFree {free : List Nat} (h : PoolOk E F G L s) (hf : ∀ x ∈ free, s.pool.Live x) (hn : free.Nodup) :
    PoolOk E F G L { s with pool := { s.pool with freeList := free } } :=
  ⟨h.hash.withFree hf hn, h.ledger⟩

theorem PoolOk.appendFree (h : PoolOk E F G L s) (hl : s.pool.slots.lookup id = some slot)
    (hnot : id ∉ s.pool.freeList) :
    PoolOk E F G L { s with pool := { s.pool with freeList := s.pool.freeList ++ [id] } } := by
  refine h.withFree (fun x hx => ?_) (h.hash.free_nodup.append (List.nodup_singleton id) ?_)
  · rcases List.mem_append.mp hx with hx | hx
    · exact h.hash.free_live x hx
    · exact ⟨slot, List.mem_singleton.mp hx ▸ hl⟩
  · rintro x hx hx'
    exact hnot (List.mem_singleton.mp hx' ▸ hx)

theorem codecMmPageFreeToSlot_ok {t : Nat} (h : PoolOk E F G (t ::ₘ L) s) (hsid : pageSid t ≠ onePageSid) :
    Meets (codecMmPageFreeToSlot E (pageSid t) (pageAddr t)) s fun r s' => r = 0 ∧
      Kept E F G L s.pool.allocedPageNum s' := by
  rcases h.ledger.slot_of_mem h.hash (Multiset.mem_cons_self t L) with hone | hslot
  · exact absurd hone.sid hsid
  obtain ⟨id, slot, b, hl, hb, rfl, hs⟩ := hslot
  obtain ⟨hb, hset⟩ := Slot.mem_bits.mp hb
  have hok := h.hash.slot hl
  obtain ⟨hok', htok⟩ := hok.clearBit hset
  have hb4 : bit2addr slot.phyAddr b = slot.phyAddr + 4096 * b := rfl
  rw [hs, hok.pageAddr_token hb]
  unfold codecMmPageFreeToSlot
  rw [meets_bind_of_ok (codecMmFindSlotInHash_ok h hl ⟨by omega, by omega⟩)]
  rw [meets_bind_of_ok (codecMmSlotFreePage_run hl hok hset)]
  have hidle := h.hash.idle hl
  have h1 : PoolOk E F G L { s with pool := s.pool.setSlot id (slot.clearBit b) } :=
    h.setSlot hl hok' rfl hidle rfl (by rw [htok, Multiset.add_cons]; exact (Multiset.cons_add ..).symm)
  have hl1 : (s.pool.slots.insert id (slot.clearBit b)).lookup id = some (slot.clearBit b) :=
    AList.lookup_insert _
  rw [meets_slotOf_bind hl1]
  have hfreed : Meets (if (slot.clearBit b).allocedPageNum = 0 then codecMmSlotTryFree E id
      else pure (-1)) { s with pool := s.pool.setSlot id (slot.clearBit b) } fun r s' =>
        Kept E F G L s.pool.allocedPageNum s' ∧
          (r ≠ 0 → s' = { s with pool := s.pool.setSlot id (slot.clearBit b) }) := by
    split_ifs
    · unfold codecMmSlotTryFree
      rw [meets_get_bind]
      dsimp only
      split_ifs
      · exact ⟨⟨h1, rfl⟩, fun _ => rfl⟩
      · exact codecMmSlotFree_ok ⟨h1, rfl⟩ hl1
    · exact ⟨⟨h1, rfl⟩, fun _ => rfl⟩
  refine hfreed.bind ?_
  rintro freed s' ⟨h2, hsame⟩
  split_ifs with hne
  · obtain rfl := hsame hne
    rw [meets_modifyPool_bind]
    split_ifs with happ
    · exact ⟨rfl, h2.1.appendFree hl1 happ.1, rfl⟩
    · exact ⟨rfl, h2⟩
  · exact ⟨rfl, h2⟩

/-! ## New slots -/

structure Slot.New (slot : Slot) : Prop where
  area : slot.area.Ok
  pagemap : slot.pagemap = List.replicate (((slot.pageNum >>> 3) + 2) <<< 3) false
  alloced : slot.allocedPageNum = 0
  nextBit : slot.nextBit = 0
  idle : slot.onAllocFree = 0
  order : slot.fromType = .getFreePages → ∃ n, slot.pageNum = 2 ^ n

theorem Slot.New.hashed (h : slot.New) (isroot : Bool) :
    ({ slot with sid := slotToSid slot.phyAddr, isroot := isroot } : Slot).Ok ∧
      ({ slot with sid := slotToSid slot.phyAddr, isroot := isroot } : Slot).tokens = 0 := by
  have hbit : ∀ b : Nat, slot.pagemap[b]? ≠ some true := by
    intro b hb
    rw [h.pagemap] at hb
    have := List.eq_of_mem_replicate (List.mem_of_getElem? hb)
    cases this
  refine ⟨⟨h.area, ?_, fun b hb => absurd hb (hbit b), ?_, ?_, rfl, h.order⟩, ?_⟩
  · rw [h.pagemap, List.length_replicate]
  · rw [h.pagemap, h.alloced, List.count_replicate]
    rfl
  · rw [h.nextBit]
    exact h.area.pos
  · refine Multiset.eq_zero_of_forall_notMem fun t ht => ?_
    obtain ⟨b, hb, -⟩ := Multiset.mem_map.mp ht
    exact hbit b (Slot.mem_bits.mp hb).2

/-- The outcome of a request for a slot: without a slot the pool is as before, and a slot comes with its
page frames. -/
def SlotGrant (E : Externals ω) (F : Multiset Nat) (G : Set Nat) (L : Multiset Nat) (alloced : Int)
    (r : Option Slot) (s : PoolSt ω) : Prop :=
  s.pool.allocedPageNum = alloced ∧
    match r with
    | none => PoolOk E F G L s
    | some slot => slot.New ∧ PoolOk E (slot.frames + F) G L s

theorem codecMmSlotInitBitmap_ok {a : Area} {fromType : SlotFrom} {back : ω → Unit × ω}
    (h : PoolOk E (a.frames + F) G L s) (ha : a.Ok) (horder : fromType = .getFreePages → ∃ n, a.pageNum = 2 ^ n)
    (hback : ∀ w, E.inUse w \ a.resources ⊆ E.inUse (back w).2) :
    Meets (do
      match ← codecMmSlotInitBitmap E fromType a with
      | some slot => return some slot
      | none =>
        ext back
        return none) s (SlotGrant E F G L s.pool.allocedPageNum) := by
  have h1 := h.world (E.kmalloc_keeps s.world)
  unfold codecMmSlotInitBitmap
  rw [bind_assoc, meets_ext_bind]
  split_ifs
  · exact ⟨rfl, ⟨ha, rfl, rfl, rfl, rfl, horder⟩, h1⟩
  · exact ⟨rfl, h1.release (hback _)⟩

theorem slotFromCodecMm_ok (h : PoolOk E F G L s) (size : Int) (flags : Nat) :
    Meets (slotFromCodecMm E size flags) s (SlotGrant E F G L s.pool.allocedPageNum) := by
  unfold slotFromCodecMm
  rw [meets_get_bind]
  dsimp only
  split_ifs
  all_goals first | exact ⟨rfl, h⟩ | skip
  all_goals
    rw [meets_ext_bind]
    generalize hr : E.codecMmAlloc _ s.pool.tvpMode s.world = r
    have hg : Grants E.inUse Area.resources s.world r := hr ▸ E.codecMmAlloc_grants _ _ _
    cases hmm : r.1 with
    | none => exact ⟨rfl, h.world hg.keeps⟩
    | some mm =>
      have hok : mm.Ok := E.codecMmAlloc_ok _ _ _ mm (by rw [hr, hmm])
      have hgrant := h.ledger.grant hg.keeps (hg.fresh mm hmm) (hg.taken mm hmm)
      exact codecMmSlotInitBitmap_ok ⟨h.hash, hgrant⟩ hok nofun (E.codecMmRelease_frees mm)

theorem slotFromSys_ok (fuel : Nat) (h : PoolOk E F G L s) (size : Int) :
    Meets (slotFromSys E fuel size) s (SlotGrant E F G L s.pool.allocedPageNum) := by
  induction fuel generalizing s size with
  | zero => exact meets_fuel
  | succ fuel ih =>
    rw [slotFromSys, meets_ext_bind]
    generalize hr : E.getFreePages (getOrder size) s.world = r
    have hg := hr ▸ E.getFreePages_grants (getOrder size) s.world
    cases hp : r.1 with
    | none =>
      have h1 : PoolOk E F G L { s with world := r.2 } := h.world hg.keeps
      rw [meets_get_bind]
      split_ifs
      · have h2 : PoolOk E F G L { world := r.2, pool := { s.pool with
            tryAllocInSysPageCnt := toU32 ((size >>> 1) >>> pageShift) } } := ⟨h1.hash, h1.ledger⟩
        exact ih h2 _
      · exact ⟨rfl, h1.hash, h1.ledger⟩
    | some page =>
      have hok : (Area.mk page (2 ^ getOrder size)).Ok := E.getFreePages_ok _ _ page (by rw [hr, hp])
      have h1 : PoolOk E ((Area.mk page (2 ^ getOrder size)).frames + F) G L { s with world := r.2 } :=
        ⟨h.hash, h.ledger.grant hg.keeps (hg.fresh page hp) (hg.taken page hp)⟩
      exact codecMmSlotInitBitmap_ok h1 hok (fun _ => ⟨_, rfl⟩) (E.freePages_frees page _)

theorem PoolOk.addSlot (hnew : slot.New) (h : PoolOk E (slot.frames + F) G L s) :
    PoolOk E F G L { s with pool :=
      (s.pool.setSlot slot.phyAddr slot).addToHash slot.phyAddr slot (slotToSid slot.phyAddr) } := by
  have hnot : slot.phyAddr ∉ s.pool.slots := h.ledger.notMem h.hash hnew.area
  obtain ⟨hok, htok⟩ := hnew.hashed (s.pool.slotListMap (slotToSid slot.phyAddr)).isEmpty
  have hd : s.pool.totalPageNum + slot.pageNum - s.pool.onePageCnt =
      s.pool.totalPageNum - s.pool.onePageCnt + slot.pageNum := by omega
  refine ⟨?_, ?_⟩
  · show HashOk (AList.insert _ _ (AList.insert _ _ s.pool.slots)) _ _
    rw [AList.insert_insert]
    exact h.hash.add hnot hok rfl hnew.idle rfl
  · show Ledger E F G L s.world (AList.insert _ _ (AList.insert _ _ s.pool.slots))
      (s.pool.totalPageNum + slot.pageNum - s.pool.onePageCnt)
    rw [AList.insert_insert, hd]
    exact Ledger.add h.ledger hnot htok

theorem addSlot_ok {r : Option Slot} (h : SlotGrant E F G L n r s) :
    Meets (addSlot r) s fun r s' => Kept E F G L n s' ∧ ∀ id, r = some id → s'.pool.Live id := by
  obtain ⟨halloc, hr⟩ := h
  cases r with
  | none => exact ⟨⟨hr, halloc⟩, nofun⟩
  | some slot =>
    obtain ⟨hnew, h⟩ := hr
    have hl : (s.pool.slots.insert slot.phyAddr slot).lookup slot.phyAddr = some slot :=
      AList.lookup_insert _
    rw [addSlot, meets_modifyPool_bind]
    have hsid : ¬slotToSid slot.phyAddr > maxSid := (slotToSid_lt _).le.not_gt
    have hset : codecMmSetSlotInHash slot.phyAddr { s with pool := s.pool.setSlot slot.phyAddr slot } =
        .ok (0, { s with pool :=
          (s.pool.setSlot slot.phyAddr slot).addToHash slot.phyAddr slot (slotToSid slot.phyAddr) }) := by
      show (slotOf _ _ >>= fun p => _) = _
      rw [slotOf_run hl]
      show (if slotToSid slot.phyAddr > maxSid then _ else _ : Prog (PoolSt ω) Int) _ = _
      rw [if_neg hsid]
      rfl
    rw [meets_bind_of_ok hset]
    refine ⟨⟨PoolOk.addSlot hnew h, halloc⟩, fun id hid => ?_⟩
    cases hid
    exact ⟨_, AList.lookup_insert _⟩

theorem codecMmSlotAlloc_ok (h : Kept E F G L n s) (size : Int) (flags : Nat) :
    Meets (codecMmSlotAlloc E size flags) s fun r s' => Kept E F G L n s' ∧
      ∀ id, r = some id → s'.pool.Live id := by
  obtain ⟨h, rfl⟩ := h
  have h1 := h.world (E.kmalloc_keeps s.world)
  unfold codecMmSlotAlloc
  by_cases hsmall : size > 0 ∧ size ≤ pageSize
  · rw [if_pos hsmall]
    exact ⟨⟨h, rfl⟩, nofun⟩
  rw [if_neg hsmall, meets_ext_bind]
  by_cases hk : (E.kmalloc s.world).1
  swap
  · rw [if_pos (by simpa using hk)]
    exact ⟨⟨h1, rfl⟩, nofun⟩
  rw [if_neg (by simpa using hk)]
  refine (slotFromCodecMm_ok h1 size flags).bind ?_
  rintro r s' ⟨halloc, hr⟩
  cases r with
  | some slot => exact addSlot_ok ⟨halloc, hr⟩
  | none =>
    have h2 : PoolOk E F G L s' := hr
    have hsys : ∀ size, Meets (slotFromSys E 64 size >>= addSlot) s' _ := fun size =>
      (halloc ▸ slotFromSys_ok 64 h2 size).bind fun r s'' hr => addSlot_ok hr
    rw [meets_get_bind]
    dsimp only
    split_ifs
    all_goals first | exact ⟨⟨h2, halloc⟩, nofun⟩ | exact hsys _

/-! ## Pages go out -/

def claimed (s : PoolSt ω) (id : Nat) (slot : Slot) : PoolSt ω :=
  { s with pool := { s.pool with
    slots := s.pool.slots.insert id { slot with onAllocFree := slot.onAllocFree + 1 }
    freeList := s.pool.freeList.erase id } }

theorem claimSlot_ok (h : PoolOk E F G L s) {given : Option Nat} (hgiven : ∀ id, given = some id → s.pool.Live id) :
    Meets (claimSlot given) s fun r s' => (r = none → s' = s) ∧
      ∀ id, r = some id → ∃ slot, s.pool.slots.lookup id = some slot ∧ s' = claimed s id slot := by
  unfold claimSlot
  rw [meets_get_bind]
  refine Meets.bind (Q := fun r s' => s' = s ∧ r = given) ?_ ?_
  · cases given with
    | none => exact ⟨rfl, rfl⟩
    | some id =>
      obtain ⟨slot, hl⟩ := hgiven id rfl
      rw [meets_slotOf_bind hl, if_neg (not_not_intro (h.hash.idle hl))]
      exact ⟨rfl, rfl⟩
  rintro r s1 ⟨hs, hr⟩
  subst s1 r
  have hlive : ∀ id, (given <|> s.pool.freeList.head?) = some id → s.pool.Live id := by
    intro id hid
    cases given with
    | some id' => exact hgiven id hid
    | none => exact h.hash.free_live id (List.mem_of_mem_head? hid)
  cases hid : (given <|> s.pool.freeList.head?) with
  | none => exact ⟨fun _ => rfl, nofun⟩
  | some id =>
    obtain ⟨slot, hl⟩ := hlive id hid
    rw [meets_slotOf_bind hl, if_neg (not_not_intro (h.hash.idle hl)), meets_modifyPool_bind, meets_pure]
    refine ⟨fun hn => absurd hn (Option.some_ne_none id), fun id' hid' => ?_⟩
    cases hid'
    exact ⟨slot, hl, rfl⟩

structure Slot.Gave (slot : Slot) (num : Nat) (pages : List Nat) (slot' : Slot) : Prop where
  area : slot'.area = slot.area
  busy : slot'.onAllocFree = slot.onAllocFree + 1
  root : slot'.isroot = slot.isroot
  ok : slot'.Ok
  tokens : slot'.tokens = pages + slot.tokens
  length : pages.length ≤ num

theorem codecMmSlotAllocPages_ok (h : PoolOk E F G L s) (hl : s.pool.slots.lookup id = some slot) (num : Nat) :
    Meets (codecMmSlotAllocPages id num) (claimed s id slot) fun r s' =>
      (r.1 > 0 → r.1 = r.2.length) ∧ (¬r.1 > 0 → r.2 = []) ∧
      ∃ slot', slot.Gave num r.2 slot' ∧ s' = { s with pool := { s.pool with
        slots := s.pool.slots.insert id slot', freeList := s.pool.freeList.erase id } } := by
  have hok := h.hash.slot hl
  have hok1 : ({ slot with onAllocFree := slot.onAllocFree + 1 } : Slot).Ok := { hok with }
  have hl1 : (claimed s id slot).pool.slots.lookup id =
      some { slot with onAllocFree := slot.onAllocFree + 1 } := AList.lookup_insert _
  unfold codecMmSlotAllocPages
  rw [meets_slotOf_bind hl1]
  dsimp only
  by_cases hfull : slot.allocedPageNum ≥ slot.pageNum
  · rw [if_pos hfull]
    refine ⟨fun h0 => absurd h0 (by decide), fun _ => rfl,
      { slot with onAllocFree := slot.onAllocFree + 1 }, ?_, rfl⟩
    exact ⟨rfl, rfl, rfl, hok1, (Multiset.zero_add _).symm, Nat.zero_le _⟩
  · rw [if_neg hfull]
    obtain ⟨htook, -⟩ := hok1.allocPages slot.pageNum hok.nextBit
      (min num (slot.pageNum - slot.allocedPageNum).toNat)
    generalize Slot.allocPages _ _ _ _ = r at htook ⊢
    obtain ⟨pagemap, alloced, hrest⟩ := htook.rest
    have hnext : (if r.2.1 ≥ slot.pageNum then 0 else r.2.1) < slot.pageNum := by
      have hlt : r.2.1 < slot.pageNum := htook.next
      rw [if_neg (not_le.mpr hlt)]
      exact hlt
    have hr := htook.ok
    refine ⟨fun _ => rfl, fun h0 => ?_, { r.1 with
        nextBit := if r.2.1 ≥ slot.pageNum then 0 else r.2.1 }, ⟨?_, ?_, ?_, ?_, ?_, ?_⟩, ?_⟩
    · exact List.length_eq_zero_iff.mp (show r.2.2.length = 0 by omega)
    · rw [hrest]
      rfl
    · rw [hrest]
    · rw [hrest]
    · refine { hr with nextBit := ?_ }
      have hnum : r.1.pageNum = slot.pageNum := by rw [hrest]
      rw [hnum]
      exact hnext
    · exact htook.tokens
    · exact htook.length.trans (Nat.min_le_left _ _)
    · unfold claimed SlotPool.setSlot
      dsimp only
      rw [AList.insert_insert]

theorem unclaimSlot_ok {pages : List Nat} {slot' : Slot} {num : Nat} (h : PoolOk E F G L s)
    (hl : s.pool.slots.lookup id = some slot) (hgave : slot.Gave num pages slot') :
    Meets (unclaimSlot id) { s with pool := { s.pool with
        slots := s.pool.slots.insert id slot', freeList := s.pool.freeList.erase id } } fun _ s' =>
      Kept E F G (pages + L) s.pool.allocedPageNum s' := by
  have hl1 : (s.pool.slots.insert id slot').lookup id = some slot' := AList.lookup_insert _
  have hok : ({ slot' with onAllocFree := slot'.onAllocFree - 1 } : Slot).Ok := { hgave.ok with }
  have hidle : slot'.onAllocFree - 1 = 0 := by
    have := h.hash.idle hl
    have := hgave.busy
    omega
  have h1 : PoolOk E F G (pages + L) { s with pool := { s.pool with
      slots := s.pool.slots.insert id { slot' with onAllocFree := slot'.onAllocFree - 1 } } } := by
    refine h.setSlot hl hok hgave.area hidle hgave.root ?_
    show _ = L + slot'.tokens
    rw [hgave.tokens]
    abel
  have h2 : PoolOk E F G (pages + L) { s with pool := { s.pool with
      slots := s.pool.slots.insert id { slot' with onAllocFree := slot'.onAllocFree - 1 }
      freeList := s.pool.freeList.erase id } } :=
    h1.withFree (fun x hx => h1.hash.free_live x (List.mem_of_mem_erase hx))
      (h1.hash.free_nodup.erase id)
  unfold unclaimSlot
  rw [meets_slotOf_bind hl1]
  show PoolOk E F G (pages + L) { s with pool := { s.pool with
      slots := (s.pool.slots.insert id slot').insert id
        { slot' with onAllocFree := slot'.onAllocFree - 1 }
      freeList := if slot'.allocedPageNum < slot'.pageNum ∧ id ∉ s.pool.freeList.erase id
        then s.pool.freeList.erase id ++ [id] else s.pool.freeList.erase id } } ∧ _
  rw [AList.insert_insert]
  refine ⟨?_, rfl⟩
  split_ifs with happ
  · exact h2.appendFree (AList.lookup_insert _) happ.2
  · exact h2

theorem PoolOk.nil (h : PoolOk E F G L s) : PoolOk E F G (([] : List Nat) + L) s := by
  rw [Multiset.coe_nil, zero_add]
  exact h

theorem allocFromSlots_ok (fuel : Nat) (h : Kept E F G L n s) (need : Nat) :
    Meets (allocFromSlots E fuel need) s fun pages s' => Kept E F G (pages + L) n s' ∧
      pages.length ≤ need := by
  induction fuel generalizing s L need with
  | zero => exact meets_fuel
  | succ fuel ih =>
    rw [allocFromSlots, meets_get_bind]
    have hnew : Meets (if s.pool.totalPageNum ≤ 0 ∨ s.pool.allocedPageNum = s.pool.totalPageNum ∨
        s.pool.freeList = [] then newSlot E else pure none) s fun r s' => Kept E F G L n s' ∧
          ∀ id, r = some id → s'.pool.Live id := by
      split_ifs
      · refine (codecMmSlotAlloc_ok h 0 0).bind ?_
        rintro r s' ⟨h1, hlive⟩
        cases r with
        | some id => exact ⟨h1, hlive⟩
        | none =>
          rw [meets_get_bind]
          generalize s32 _ = size
          exact codecMmSlotAlloc_ok h1 size 0
      · exact ⟨h, nofun⟩
    refine hnew.bind ?_
    rintro given s1 ⟨⟨h1, rfl⟩, hgiven⟩
    by_cases hstop : (s.pool.totalPageNum ≤ 0 ∨ s.pool.allocedPageNum = s.pool.totalPageNum ∨
        s.pool.freeList = []) ∧ given = none
    · rw [if_pos hstop]
      exact ⟨⟨h1.nil, rfl⟩, Nat.zero_le _⟩
    rw [if_neg hstop]
    refine (claimSlot_ok h1 hgiven).bind ?_
    rintro r s2 ⟨hnone, hsome⟩
    cases r with
    | none =>
      obtain rfl := hnone rfl
      exact ⟨⟨h1.nil, rfl⟩, Nat.zero_le _⟩
    | some id =>
      obtain ⟨slot, hl, rfl⟩ := hsome id rfl
      refine (codecMmSlotAllocPages_ok h1 hl need).bind ?_
      rintro ⟨n, pages⟩ s3 ⟨hn, hn0, slot', hgave, rfl⟩
      refine (unclaimSlot_ok h1 hl hgave).bind ?_
      rintro - s4 h4
      have hlen : pages.length ≤ need := hgave.length
      dsimp only at hn hn0 h4 ⊢
      by_cases hpos : n > 0
      · split_ifs with hmore
        · refine (ih h4 (need - n).toNat).bind ?_
          rintro rest s5 ⟨h5, hrest⟩
          refine ⟨?_, ?_⟩
          · rw [← Multiset.coe_add, add_right_comm, add_comm _ (rest : Multiset Nat)]
            exact h5
          · rw [List.length_append]
            omega
        · exact ⟨h4, hlen⟩
      · rw [if_neg hpos]
        obtain rfl := hn0 hpos
        rw [Multiset.coe_nil, zero_add] at h4
        exact ih h4 need

theorem codecMmPageAllocFromSlot_ok (h : PoolOk E F G L s) (num : Nat) :
    Meets (codecMmPageAllocFromSlot E num) s fun pages s' => PoolOk E F G (pages + L) s' ∧
      pages.length ≤ num ∧ s'.pool.allocedPageNum = s.pool.allocedPageNum + pages.length := by
  unfold codecMmPageAllocFromSlot
  rw [meets_get_bind]
  split_ifs
  · exact ⟨h.nil, Nat.zero_le _, (Int.add_zero _).symm⟩
  · refine (allocFromSlots_ok _ ⟨h, rfl⟩ num).bind ?_
    rintro pages s' ⟨⟨h', ha⟩, hlen⟩
    exact ⟨⟨h'.hash, h'.ledger⟩, hlen, congrArg (· + (pages.length : Int)) ha⟩

theorem getFreePageLoop_ok (num : Nat) (h : PoolOk E F G L s) :
    Meets (getFreePageLoop E num) s fun pages s' => PoolOk E F G (pages + L) s' ∧
      pages.length ≤ num ∧ s'.pool = s.pool := by
  induction num generalizing s L with
  | zero => exact ⟨h.nil, le_refl _, rfl⟩
  | succ num ih =>
    rw [getFreePageLoop, meets_ext_bind]
    have hg := E.getFreePage_grants s.world
    cases hp : (E.getFreePage s.world).1 with
    | none => exact ⟨(h.world hg.keeps).nil, Nat.zero_le _, rfl⟩
    | some page =>
      obtain ⟨hone, hframe, -⟩ := onePage_token (E.getFreePage_ok s.world page hp)
      have hledger := h.ledger.grant hg.keeps (hg.fresh page hp) (hg.taken page hp)
      have hframes : (Area.mk page 1).frames = {frame (u32 (page ||| onePageSid))} := by
        rw [hframe]
        rfl
      rw [hframes, Multiset.singleton_add] at hledger
      have h1 : PoolOk E F G (u32 (page ||| onePageSid) ::ₘ L)
          { s with world := (E.getFreePage s.world).2 } := ⟨h.hash, hledger.addOne hone⟩
      refine (ih h1).bind ?_
      rintro pages s' ⟨h', hlen, hs⟩
      refine ⟨?_, ?_, hs⟩
      · rw [← Multiset.cons_coe, Multiset.cons_add, ← Multiset.add_cons]
        exact h'
      · rw [List.length_cons]
        omega

theorem codecMmPageAllocFromOnePages_ok (h : PoolOk E F G L s) (num : Nat) :
    Meets (codecMmPageAllocFromOnePages E num) s fun pages s' => PoolOk E F G (pages + L) s' ∧
      pages.length ≤ num ∧ s'.pool.allocedPageNum = s.pool.allocedPageNum + pages.length := by
  refine (getFreePageLoop_ok num h).bind ?_
  rintro pages s' ⟨h', hlen, hs⟩
  rw [meets_modifyPool_bind, hs]
  refine ⟨⟨?_, ?_⟩, hlen, rfl⟩
  · rw [← hs]
    exact h'.hash
  · have hledger := h'.ledger
    rw [hs] at hledger
    rw [add_sub_add_right_eq_sub]
    exact hledger

/-! ## Freeing the unused slots -/

theorem findUnused_ok {ids : List Nat} (hlive : ∀ x ∈ ids, s.pool.Live x) :
    Meets (findUnused ids) s fun r s' => s' = s ∧ ∀ id, r = some id → s.pool.Live id := by
  induction ids with
  | nil => exact ⟨rfl, nofun⟩
  | cons id ids ih =>
    obtain ⟨slot, hl⟩ := hlive id (List.mem_cons_self ..)
    rw [findUnused, meets_slotOf_bind hl]
    split_ifs
    · refine ⟨rfl, fun id' hid' => ?_⟩
      cases hid'
      exact ⟨slot, hl⟩
    · exact ih fun x hx => hlive x (List.mem_cons_of_mem _ hx)

theorem freeSlotsLoop_ok (fuel : Nat) (h : Kept E F G L n s) :
    Meets (freeSlotsLoop E fuel) s fun _ s' => Kept E F G L n s' := by
  induction fuel generalizing s with
  | zero => exact meets_fuel
  | succ fuel ih =>
    rw [freeSlotsLoop, meets_get_bind]
    have hfree := h.1.hash
    refine (findUnused_ok fun x hx => hfree.free_live x (List.mem_reverse.mp hx)).bind ?_
    rintro r s1 ⟨hs, hr⟩
    subst s1
    cases r with
    | none => exact h
    | some id =>
      obtain ⟨slot, hl⟩ := hr id rfl
      rw [meets_modifyPool_bind]
      have h1 := h.1.withFree (fun x hx => hfree.free_live x (List.mem_of_mem_erase hx))
        (hfree.free_nodup.erase id)
      refine (codecMmSlotFree_ok ⟨h1, h.2⟩ hl).bind ?_
      rintro - s2 ⟨h2, -⟩
      exact ih h2

theorem codecMmFreeAllFreeSlotsIn_ok (h : PoolOk E F G L s) :
    Meets (codecMmFreeAllFreeSlotsIn E) s fun _ s' => Kept E F G L s.pool.allocedPageNum s' := by
  unfold codecMmFreeAllFreeSlotsIn
  rw [meets_get_bind]
  exact (freeSlotsLoop_ok _ ⟨h, rfl⟩).bind fun _ s' h' => h'

end Code

end Amlogic.CodecMm
