import Amlogic.CodecMm.Proofs.SlotProofs

/-!
# The pool of slots

`HashOk` says that the slots are in order and on their lists, `Ledger` that the tokens that are out
are those of the set bits together with single pages, and that no page frame is used twice.
-/

namespace Amlogic.CodecMm

open Multiset Heap Function Slot

/-- The slots, their hash and the free list. The slot that the map names is marked as the root of its ring. -/
structure HashOk (slots : Heap Slot) (map : Nat → List Nat) (free : List Nat) : Prop where
  slot : ∀ {id slot}, slots.lookup id = some slot → slot.Ok
  addr : ∀ {id slot}, slots.lookup id = some slot → slot.phyAddr = id
  idle : ∀ {id slot}, slots.lookup id = some slot → slot.onAllocFree = 0
  ring : ∀ sid id, id ∈ map sid ↔ ∃ slot, slots.lookup id = some slot ∧ slot.sid = sid
  ring_nodup : ∀ sid, (map sid).Nodup
  root : ∀ {sid id slot}, (map sid).head? = some id → slots.lookup id = some slot → slot.isroot = true
  free_live : ∀ id ∈ free, ∃ slot, slots.lookup id = some slot
  free_nodup : free.Nodup

def usedFrames (slots : Heap Slot) (ones : Multiset Nat) : Multiset Nat :=
  total frames slots + ones.map frame

/-- The ledger: `L` are the tokens that are out, `F` the page frames and `G` the scatters that belong
to others, and `d` the number of pages in slots. -/
structure Ledger {ω : Type} (E : Externals ω) (F : Multiset Nat) (G : Set Nat) (L : Multiset Nat)
    (w : ω) (slots : Heap Slot) (d : Int) : Prop where
  tokens : ∃ ones, L = total tokens slots + ones ∧ (∀ t ∈ ones, OnePage t) ∧
    (F + usedFrames slots ones).Nodup ∧ ∀ f ∈ F + usedFrames slots ones, .frame f ∈ E.inUse w
  total : d = total (fun slot => (slot.pageNum : Int)) slots
  scatters : ∀ a ∈ G, .scatter a ∈ E.inUse w

structure PoolOk {ω : Type} (E : Externals ω) (F : Multiset Nat) (G : Set Nat) (L : Multiset Nat)
    (s : PoolSt ω) : Prop where
  hash : HashOk s.pool.slots s.pool.slotListMap s.pool.freeList
  ledger : Ledger E F G L s.world s.pool.slots (s.pool.totalPageNum - s.pool.onePageCnt)

section Hash

variable {slots : Heap Slot} {map : Nat → List Nat} {free : List Nat} {id : Nat} {slot slot' : Slot}

theorem HashOk.withFree {free' : List Nat} (h : HashOk slots map free)
    (hf : ∀ x ∈ free', ∃ slot, slots.lookup x = some slot) (hn : free'.Nodup) :
    HashOk slots map free' := { h with free_live := hf, free_nodup := hn }

theorem HashOk.replace (h : HashOk slots map free) (hl : slots.lookup id = some slot)
    (hok : slot'.Ok) (haddr : slot'.phyAddr = slot.phyAddr) (hidle : slot'.onAllocFree = 0)
    (hroot : slot.isroot = true → slot'.isroot = true) : HashOk (slots.insert id slot') map free := by
  have hsid : slot'.sid = slot.sid := by rw [hok.sid, haddr, (h.slot hl).sid]
  refine ⟨forall_insert hok h.slot,
    forall_insert (P := fun x s => phyAddr s = x) (haddr.trans (h.addr hl)) h.addr,
    forall_insert hidle h.idle, ?_, h.ring_nodup, ?_, fun x hx => live_insert (h.free_live x hx),
    h.free_nodup⟩
  · intro sid x
    rw [h.ring]
    constructor
    · rintro ⟨s, hs, hsid'⟩
      by_cases hxid : x = id
      · subst hxid
        obtain rfl := Option.some.inj (hs.symm.trans hl)
        exact ⟨slot', AList.lookup_insert _, hsid.trans hsid'⟩
      · exact ⟨s, lookup_insert_iff.mpr (Or.inr ⟨hxid, hs⟩), hsid'⟩
    · rintro ⟨s, hs, hsid'⟩
      rcases lookup_insert_iff.mp hs with ⟨rfl, rfl⟩ | ⟨-, hs⟩
      · exact ⟨slot, hl, hsid.symm.trans hsid'⟩
      · exact ⟨s, hs, hsid'⟩
  · intro sid x s hx hs
    rcases lookup_insert_iff.mp hs with ⟨rfl, rfl⟩ | ⟨-, hs⟩
    · exact hroot (h.root hx hl)
    · exact h.root hx hs

theorem HashOk.add (h : HashOk slots map free) (hnew : id ∉ slots) (hok : slot.Ok) (haddr : slot.phyAddr = id)
    (hidle : slot.onAllocFree = 0) (hroot : slot.isroot = (map slot.sid).isEmpty) :
    HashOk (slots.insert id slot) (update map slot.sid (map slot.sid ++ [id]))
      (free ++ [id]) := by
  have dead : ∀ {x s}, slots.lookup x = some s → x ≠ id := ne_of_lookup hnew
  have hring : ∀ {sid x}, x ∈ update map slot.sid (map slot.sid ++ [id]) sid ↔
      x ∈ map sid ∨ sid = slot.sid ∧ x = id := by
    intro sid x
    by_cases hs : sid = slot.sid
    · subst hs
      simp
    · simp [hs]
  refine ⟨forall_insert hok h.slot, forall_insert (P := fun x s => phyAddr s = x) haddr h.addr,
    forall_insert hidle h.idle, ?_, ?_, ?_, ?_, ?_⟩
  · intro sid x
    rw [hring, h.ring]
    constructor
    · rintro (⟨s, hs, hsid⟩ | ⟨rfl, rfl⟩)
      · exact ⟨s, lookup_insert_iff.mpr (Or.inr ⟨dead hs, hs⟩), hsid⟩
      · exact ⟨slot, AList.lookup_insert _, rfl⟩
    · rintro ⟨s, hs, rfl⟩
      rcases lookup_insert_iff.mp hs with ⟨rfl, rfl⟩ | ⟨-, hs⟩
      · exact .inr ⟨rfl, rfl⟩
      · exact .inl ⟨s, hs, rfl⟩
  · intro sid
    by_cases hs : sid = slot.sid
    · subst hs
      rw [update_self]
      refine (h.ring_nodup _).append (List.nodup_singleton id) ?_
      rintro x hx hx'
      obtain ⟨s, hs, -⟩ := (h.ring _ _).mp hx
      exact dead hs (List.mem_singleton.mp hx')
    · rw [update_of_ne hs]
      exact h.ring_nodup sid
  · intro sid x s hx hs
    by_cases hsid : sid = slot.sid
    · subst hsid
      rw [update_self] at hx
      cases hm : map slot.sid with
      | nil =>
        rw [hm] at hx hroot
        cases hx
        obtain rfl := Option.some.inj (hs.symm.trans (AList.lookup_insert _))
        exact hroot
      | cons y ys =>
        rw [hm] at hx
        obtain rfl := Option.some.inj hx
        have hlive := (h.ring slot.sid y).mp (hm ▸ List.mem_cons_self)
        obtain ⟨s', hs', -⟩ := hlive
        rw [AList.lookup_insert_ne (dead hs')] at hs
        exact h.root (by rw [hm]; rfl) hs
    · rw [update_of_ne hsid] at hx
      obtain ⟨s', hs', -⟩ := (h.ring sid x).mp (List.mem_of_mem_head? hx)
      rw [AList.lookup_insert_ne (dead hs')] at hs
      exact h.root hx hs
  · intro x hx
    rcases List.mem_append.mp hx with hx | hx
    · exact live_insert (h.free_live x hx)
    · rw [List.mem_singleton.mp hx]
      exact ⟨slot, AList.lookup_insert _⟩
  · refine h.free_nodup.append (List.nodup_singleton id) ?_
    rintro x hx hx'
    obtain ⟨s, hs⟩ := h.free_live x hx
    exact dead hs (List.mem_singleton.mp hx')

theorem HashOk.remove {ring : List Nat} (h : HashOk slots map free) (hl : slots.lookup id = some slot)
    (hring : ∀ x, x ∈ ring ↔ x ∈ map slot.sid ∧ x ≠ id) (hnodup : ring.Nodup)
    (hroot : ∀ {x s}, ring.head? = some x → slots.lookup x = some s → s.isroot = true) :
    HashOk (slots.erase id) (update map slot.sid ring) (free.erase id) := by
  have hold : ∀ {x s}, (slots.erase id).lookup x = some s → slots.lookup x = some s := fun hx =>
    (lookup_erase_iff.mp hx).2
  refine ⟨fun hx => h.slot (hold hx), fun hx => h.addr (hold hx), fun hx => h.idle (hold hx), ?_, ?_, ?_, ?_,
    h.free_nodup.erase id⟩
  · intro sid x
    have hmem : x ∈ update map slot.sid ring sid ↔ x ∈ map sid ∧ x ≠ id := by
      by_cases hs : sid = slot.sid
      · subst hs
        rw [update_self]
        exact hring x
      · rw [update_of_ne hs]
        -- the slot is on no other ring
        refine ⟨fun hx => ⟨hx, ?_⟩, fun hx => hx.1⟩
        rintro rfl
        obtain ⟨s, hs', hsid⟩ := (h.ring _ _).mp hx
        obtain rfl := Option.some.inj (hs'.symm.trans hl)
        exact hs hsid.symm
    rw [hmem, h.ring]
    constructor
    · rintro ⟨⟨s, hs, hsid⟩, hne⟩
      exact ⟨s, lookup_erase_iff.mpr ⟨hne, hs⟩, hsid⟩
    · rintro ⟨s, hs, hsid⟩
      obtain ⟨hne, hs⟩ := lookup_erase_iff.mp hs
      exact ⟨⟨s, hs, hsid⟩, hne⟩
  · intro sid
    by_cases hs : sid = slot.sid
    · subst hs
      rw [update_self]
      exact hnodup
    · rw [update_of_ne hs]
      exact h.ring_nodup sid
  · intro sid x s hx hs
    by_cases hsid : sid = slot.sid
    · subst hsid
      rw [update_self] at hx
      exact hroot hx (hold hs)
    · rw [update_of_ne hsid] at hx
      exact h.root hx (hold hs)
  · intro x hx
    obtain ⟨hne, hx⟩ := (h.free_nodup.mem_erase_iff).mp hx
    obtain ⟨s, hs⟩ := h.free_live x hx
    exact ⟨s, lookup_erase_iff.mpr ⟨hne, hs⟩⟩

end Hash

section Ledger

variable {ω : Type} {E : Externals ω} {F L : Multiset Nat} {G : Set Nat} {w w' : ω}
  {slots : Heap Slot} {map : Nat → List Nat} {free : List Nat} {d : Int} {id : Nat} {slot slot' : Slot}

theorem Ledger.world (h : Ledger E F G L w slots d) (hw : E.inUse w ⊆ E.inUse w') :
    Ledger E F G L w' slots d := by
  obtain ⟨ones, hL, hones, hnodup, huse⟩ := h.tokens
  exact ⟨⟨ones, hL, hones, hnodup, fun f hf => hw (huse f hf)⟩, h.total, fun a ha => hw (h.scatters a ha)⟩

theorem Ledger.grant {a : Area} (h : Ledger E F G L w slots d) (hkeep : E.inUse w ⊆ E.inUse w')
    (hfresh : ∀ r ∈ a.resources, r ∉ E.inUse w) (htaken : a.resources ⊆ E.inUse w') :
    Ledger E (a.frames + F) G L w' slots d := by
  obtain ⟨ones, hL, hones, hnodup, huse⟩ := h.tokens
  refine ⟨⟨ones, hL, hones, ?_, fun f hf => ?_⟩, h.total, fun x hx => hkeep (h.scatters x hx)⟩
  · rw [add_assoc, nodup_add]
    refine ⟨a.frames_nodup, hnodup, disjoint_left.mpr ?_⟩
    intro f hf hf'
    exact hfresh (.frame f) ⟨f, hf, rfl⟩ (huse f hf')
  · rw [add_assoc] at hf
    rcases mem_add.mp hf with hf | hf
    · exact htaken ⟨f, hf, rfl⟩
    · exact hkeep (huse f hf)

theorem Ledger.release {a : Area} (h : Ledger E (a.frames + F) G L w slots d)
    (hfree : E.inUse w \ a.resources ⊆ E.inUse w') : Ledger E F G L w' slots d := by
  obtain ⟨ones, hL, hones, hnodup, huse⟩ := h.tokens
  rw [add_assoc] at hnodup huse
  obtain ⟨-, hnodup', hdisj⟩ := nodup_add.mp hnodup
  refine ⟨⟨ones, hL, hones, hnodup', fun f hf => ?_⟩, h.total, fun x hx => ?_⟩
  · refine hfree ⟨huse f (mem_add.mpr (Or.inr hf)), ?_⟩
    rintro ⟨g, hg, heq⟩
    cases heq
    exact disjoint_left.mp hdisj hg hf
  · refine hfree ⟨h.scatters x hx, ?_⟩
    rintro ⟨g, -, heq⟩
    cases heq

theorem Ledger.replace {L' : Multiset Nat} (h : Ledger E F G L w slots d) (hl : slots.lookup id = some slot)
    (harea : slot'.area = slot.area) (hL' : L' + slot.tokens = L + slot'.tokens) :
    Ledger E F G L' w (slots.insert id slot') d := by
  obtain ⟨ones, hL, hones, hnodup, huse⟩ := h.tokens
  have hframes : usedFrames (slots.insert id slot') ones = usedFrames slots ones := by
    unfold usedFrames
    rw [total_replace_eq frames hl (congrArg Area.frames harea)]
  have hnum : slot'.pageNum = slot.pageNum := congrArg Area.pageNum harea
  refine ⟨⟨ones, ?_, hones, hframes.symm ▸ hnodup, hframes.symm ▸ huse⟩, ?_, h.scatters⟩
  · have htot := total_replace Slot.tokens hl slot'
    have hsum : L' + slot.tokens =
        Heap.total Slot.tokens (slots.insert id slot') + ones + slot.tokens := by
      rw [hL', hL, add_right_comm, ← htot]
      exact add_right_comm _ _ _
    exact add_right_cancel hsum
  · rw [h.total, total_replace_eq _ hl (by rw [hnum])]

theorem Ledger.notMem (h : Ledger E (slot.frames + F) G L w slots d) (hash : HashOk slots map free)
    (hok : slot.area.Ok) : slot.phyAddr ∉ slots := by
  intro hmem
  obtain ⟨other, hother⟩ := Option.isSome_iff_exists.mp (AList.lookup_isSome.mpr hmem)
  obtain ⟨ones, -, -, hnodup, -⟩ := h.tokens
  have haddr : other.phyAddr = slot.phyAddr := hash.addr hother
  have hf : slot.phyAddr / pageSize ∈ slot.frames :=
    Area.mem_frames.mpr ⟨le_refl _, Nat.lt_add_of_pos_right hok.pos⟩
  have hf' : slot.phyAddr / pageSize ∈ usedFrames slots ones := by
    refine mem_add.mpr (Or.inl ((mem_total _).mpr ⟨_, other, hother, ?_⟩))
    have hpos : 0 < other.pageNum := (hash.slot hother).area.pos
    refine Area.mem_frames.mpr ?_
    show other.phyAddr / pageSize ≤ _ ∧ _ < other.phyAddr / pageSize + other.pageNum
    rw [haddr]
    omega
  rw [add_assoc] at hnodup
  exact disjoint_left.mp (nodup_add.mp hnodup).2.2 hf
    (mem_add.mpr (Or.inr hf'))

theorem Ledger.add (h : Ledger E (slot.frames + F) G L w slots d) (hnew : id ∉ slots)
    (htok : slot.tokens = 0) : Ledger E F G L w (slots.insert id slot) (d + slot.pageNum) := by
  obtain ⟨ones, hL, hones, hnodup, huse⟩ := h.tokens
  have hframes : F + usedFrames (slots.insert id slot) ones = slot.frames + F + usedFrames slots ones := by
    unfold usedFrames
    rw [total_insert_new _ hnew]
    abel
  refine ⟨⟨ones, ?_, hones, hframes ▸ hnodup, hframes ▸ huse⟩, ?_, h.scatters⟩
  · rw [total_insert_new _ hnew, htok, zero_add]
    exact hL
  · rw [total_insert_new _ hnew, h.total, add_comm]

theorem Ledger.remove (h : Ledger E F G L w slots d) (hl : slots.lookup id = some slot) (htok : slot.tokens = 0) :
    Ledger E (slot.frames + F) G L w (slots.erase id) (d - slot.pageNum) := by
  obtain ⟨ones, hL, hones, hnodup, huse⟩ := h.tokens
  have hframes : slot.frames + F + usedFrames (slots.erase id) ones = F + usedFrames slots ones := by
    unfold usedFrames
    rw [total_erase frames hl]
    abel
  refine ⟨⟨ones, ?_, hones, hframes ▸ hnodup, hframes ▸ huse⟩, ?_, h.scatters⟩
  · rw [hL, total_erase Slot.tokens hl, htok, zero_add]
  · have htot := total_erase (fun slot => (slot.pageNum : Int)) hl
    rw [h.total]
    omega

theorem Ledger.addOne {t : Nat} (h : Ledger E (frame t ::ₘ F) G L w slots d) (ht : OnePage t) :
    Ledger E F G (t ::ₘ L) w slots d := by
  obtain ⟨ones, hL, hones, hnodup, huse⟩ := h.tokens
  have hframes : F + usedFrames slots (t ::ₘ ones) = frame t ::ₘ F + usedFrames slots ones := by
    unfold usedFrames
    rw [map_cons, add_cons, add_cons, cons_add]
  refine ⟨⟨t ::ₘ ones, ?_, ?_, hframes ▸ hnodup, hframes ▸ huse⟩, h.total, h.scatters⟩
  · rw [hL, add_cons]
  · intro x hx
    rcases mem_cons.mp hx with rfl | hx
    · exact ht
    · exact hones x hx

theorem Ledger.slot_of_mem {t : Nat} (h : Ledger E F G L w slots d) (hash : HashOk slots map free)
    (ht : t ∈ L) : OnePage t ∨ ∃ id slot b, slots.lookup id = some slot ∧ b ∈ slot.bits ∧
      t = slot.token b ∧ pageSid t = slot.sid := by
  obtain ⟨ones, hL, hones, -, -⟩ := h.tokens
  rw [hL] at ht
  rcases mem_add.mp ht with ht | ht
  · obtain ⟨id, slot, hl, ht⟩ := (mem_total _).mp ht
    obtain ⟨b, hb, rfl⟩ := mem_map.mp ht
    exact .inr ⟨id, slot, b, hl, hb, rfl, (hash.slot hl).pageSid_token (mem_bits.mp hb).1⟩
  · exact .inl (hones t ht)

theorem Slot.Ok.sid_ne (h : slot.Ok) : slot.sid ≠ onePageSid := by
  have hs : slot.sid < maxSid := h.sid ▸ slotToSid_lt _
  have hm : maxSid = 4094 := rfl
  have ho : onePageSid = 4095 := rfl
  omega

theorem Ledger.removeOne {t : Nat} (h : Ledger E F G (t ::ₘ L) w slots d) (hash : HashOk slots map free)
    (ht : pageSid t = onePageSid) : Ledger E (frame t ::ₘ F) G L w slots d := by
  obtain ⟨ones, hL, hones, hnodup, huse⟩ := h.tokens
  have hmem : t ∈ ones := by
    have hin : t ∈ Heap.total Slot.tokens slots + ones := hL ▸ mem_cons_self t L
    rcases mem_add.mp hin with hin | hin
    · obtain ⟨id, slot, hl, hin⟩ := (mem_total _).mp hin
      obtain ⟨b, hb, rfl⟩ := mem_map.mp hin
      rw [(hash.slot hl).pageSid_token (mem_bits.mp hb).1] at ht
      exact absurd ht (hash.slot hl).sid_ne
    · exact hin
  obtain ⟨rest, rfl⟩ := exists_cons_of_mem hmem
  have hframes : frame t ::ₘ F + usedFrames slots rest = F + usedFrames slots (t ::ₘ rest) := by
    unfold usedFrames
    rw [map_cons, add_cons, add_cons, cons_add]
  refine ⟨⟨rest, ?_, ?_, hframes ▸ hnodup, hframes ▸ huse⟩, h.total, h.scatters⟩
  · rw [add_cons] at hL
    exact (cons_inj_right t).mp hL
  · exact fun x hx => hones x (mem_cons_of_mem hx)

theorem Ledger.unique {f id' : Nat} (h : Ledger E F G L w slots d) (hl : slots.lookup id = some slot)
    (hl' : slots.lookup id' = some slot') (hf : f ∈ slot.frames) (hf' : f ∈ slot'.frames) : id' = id := by
  obtain ⟨ones, -, -, hnodup, -⟩ := h.tokens
  have hframes := (nodup_add.mp (nodup_add.mp hnodup).2.1).1
  by_contra hne
  exact disjoint_left.mp (disjoint_of_nodup frames hframes hl hl' hne) hf hf'

end Ledger

end Amlogic.CodecMm
