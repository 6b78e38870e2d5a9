import Amlogic.CodecMm.Proofs.TokenProofs

/-!
# Slots

The tokens that are out are counted as a multiset, and so are the page frames in use. The state of the
slots is good if its slots are, if they are found through the hash, and if the ledger of tokens and
frames is balanced.
-/

namespace Amlogic.CodecMm

open Multiset

/-! ## One slot -/

def Slot.token (slot : Slot) (b : Nat) : Nat := addr2page (bit2addr slot.phyAddr b) slot.sid

def Slot.bits (slot : Slot) : Finset Nat :=
  (Finset.range slot.pageNum).filter fun b => slot.pagemap[b]? = some true

def Slot.tokens (slot : Slot) : Multiset Nat := slot.bits.val.map slot.token

def Slot.area (slot : Slot) : Area := ⟨slot.phyAddr, slot.pageNum⟩

def Slot.frames (slot : Slot) : Multiset Nat := slot.area.frames

structure Slot.Ok (slot : Slot) : Prop where
  area : slot.area.Ok
  length : slot.pagemap.length = ((slot.pageNum >>> 3) + 2) <<< 3
  bits : ∀ b, slot.pagemap[b]? = some true → b < slot.pageNum
  alloced : slot.allocedPageNum = slot.pagemap.count true
  nextBit : slot.nextBit < slot.pageNum
  sid : slot.sid = slotToSid slot.phyAddr
  order : slot.fromType = .getFreePages → ∃ n, slot.pageNum = 2 ^ n

section OneSlot

variable {slot : Slot} {b : Nat}

theorem Slot.Ok.pageNum_le (h : slot.Ok) : slot.pageNum ≤ slot.pagemap.length := by
  rw [h.length, Nat.shiftRight_eq_div_pow, Nat.shiftLeft_eq]
  omega

theorem Slot.Ok.token_eq (h : slot.Ok) (hb : b < slot.pageNum) :
    slot.token b = slot.phyAddr + 4096 * b + slot.sid := by
  have ha : slot.phyAddr % 4096 = 0 := h.area.aligned
  have hbelow : slot.phyAddr + 4096 * slot.pageNum ≤ 2 ^ 32 := h.area.below
  have hs : slot.sid < maxSid := h.sid ▸ slotToSid_lt _
  have hm : maxSid = 4094 := rfl
  exact addr2page_eq (show (slot.phyAddr + 4096 * b) % 4096 = 0 by omega)
    (show slot.phyAddr + 4096 * b < 2 ^ 32 by omega) (by omega)

theorem Slot.Ok.frame_token (h : slot.Ok) (hb : b < slot.pageNum) :
    frame (slot.token b) = slot.phyAddr / pageSize + b := by
  have hs : slot.sid < maxSid := h.sid ▸ slotToSid_lt _
  have hm : maxSid = 4094 := rfl
  have ha : slot.phyAddr % 4096 = 0 := h.area.aligned
  have hp : pageSize = 4096 := rfl
  rw [h.token_eq hb, frame, hp]
  omega

theorem Slot.Ok.pageAddr_token (h : slot.Ok) (hb : b < slot.pageNum) :
    pageAddr (slot.token b) = bit2addr slot.phyAddr b := by
  have hs : slot.sid < maxSid := h.sid ▸ slotToSid_lt _
  have hm : maxSid = 4094 := rfl
  have ha : slot.phyAddr % 4096 = 0 := h.area.aligned
  have hp : bit2addr slot.phyAddr b = slot.phyAddr + 4096 * b := rfl
  rw [h.token_eq hb, pageAddr_eq, hp]
  omega

theorem Slot.Ok.pageSid_token (h : slot.Ok) (hb : b < slot.pageNum) :
    pageSid (slot.token b) = slot.sid := by
  have hs : slot.sid < maxSid := h.sid ▸ slotToSid_lt _
  have hm : maxSid = 4094 := rfl
  have ha : slot.phyAddr % 4096 = 0 := h.area.aligned
  rw [h.token_eq hb, pageSid_eq]
  omega

theorem Slot.mem_bits : b ∈ slot.bits ↔ b < slot.pageNum ∧ slot.pagemap[b]? = some true := by
  unfold Slot.bits
  rw [Finset.mem_filter, Finset.mem_range]

theorem card_filter_getElem? (l : List Bool) :
    ((Finset.range l.length).filter fun b => l[b]? = some true).card = l.count true := by
  induction l using List.reverseRecOn with
  | nil => rfl
  | append_singleton l x ih =>
    have hlt : ∀ b ∈ Finset.range l.length, ((l ++ [x])[b]? = some true ↔ l[b]? = some true) := by
      intro b hb
      rw [List.getElem?_append_left (Finset.mem_range.mp hb)]
    rw [List.length_append, List.length_singleton, Finset.range_add_one, Finset.filter_insert,
      Finset.filter_congr hlt, List.getElem?_concat_length, List.count_append]
    cases x with
    | true =>
      rw [if_pos rfl, Finset.card_insert_of_notMem (by simp), ih]
      rfl
    | false =>
      rw [if_neg (by simp), ih]
      rfl

theorem Slot.Ok.card_tokens (h : slot.Ok) : (slot.tokens.card : Int) = slot.allocedPageNum := by
  have hbits : slot.bits =
      (Finset.range slot.pagemap.length).filter fun b => slot.pagemap[b]? = some true := by
    ext b
    rw [Slot.mem_bits, Finset.mem_filter, Finset.mem_range]
    constructor
    · rintro ⟨hb, hbit⟩
      exact ⟨hb.trans_le h.pageNum_le, hbit⟩
    · rintro ⟨-, hbit⟩
      exact ⟨h.bits b hbit, hbit⟩
  unfold Slot.tokens
  rw [card_map, h.alloced, ← card_filter_getElem?, ← hbits]
  rfl

theorem Slot.Ok.frames_tokens (h : slot.Ok) : slot.tokens.map frame ≤ slot.frames := by
  have he : slot.tokens.map frame = slot.bits.val.map fun b => slot.phyAddr / pageSize + b := by
    unfold Slot.tokens
    rw [map_map]
    exact map_congr rfl fun b hb => h.frame_token (Slot.mem_bits.mp hb).1
  rw [he]
  exact map_le_map (Finset.val_le_iff.mpr (Finset.filter_subset _ _))

theorem Area.frames_nodup (a : Area) : a.frames.Nodup :=
  (nodup_range _).map fun i j hij => by omega

theorem Area.mem_frames {a : Area} {f : Nat} :
    f ∈ a.frames ↔ a.phyAddr / pageSize ≤ f ∧ f < a.phyAddr / pageSize + a.pageNum := by
  unfold Area.frames
  rw [mem_map]
  constructor
  · rintro ⟨i, hi, rfl⟩
    have := mem_range.mp hi
    omega
  · rintro ⟨h1, h2⟩
    exact ⟨f - a.phyAddr / pageSize, mem_range.mpr (by omega), by omega⟩

def Slot.setBit (slot : Slot) (b : Nat) : Slot :=
  { slot with pagemap := slot.pagemap.set b true, allocedPageNum := slot.allocedPageNum + 1 }

def Slot.clearBit (slot : Slot) (b : Nat) : Slot :=
  { slot with pagemap := slot.pagemap.set b false, allocedPageNum := slot.allocedPageNum - 1 }

theorem count_set_true {l : List Bool} (hb : l[b]? = some false) :
    (l.set b true).count true = l.count true + 1 := by
  obtain ⟨hlt, he⟩ := List.getElem?_eq_some_iff.mp hb
  rw [List.count_set hlt, he]
  simp

theorem count_set_false {l : List Bool} (hb : l[b]? = some true) :
    (l.set b false).count true + 1 = l.count true := by
  obtain ⟨hlt, he⟩ := List.getElem?_eq_some_iff.mp hb
  have hpos : 0 < l.count true := List.count_pos_iff.mpr (he ▸ List.getElem_mem hlt)
  rw [List.count_set hlt, he]
  simp
  omega

theorem Slot.Ok.setBit (h : slot.Ok) (hb : b < slot.pageNum) (hclear : slot.pagemap[b]? ≠ some true) :
    (slot.setBit b).Ok ∧ (slot.setBit b).tokens = slot.token b ::ₘ slot.tokens := by
  have hlt : b < slot.pagemap.length := hb.trans_le h.pageNum_le
  have hfalse : slot.pagemap[b]? = some false := by
    rw [List.getElem?_eq_getElem hlt] at hclear ⊢
    cases hv : slot.pagemap[b]
    · rfl
    · exact absurd (congrArg some hv) hclear
  have hget : ∀ c, (slot.setBit b).pagemap[c]? = some true ↔ c = b ∨ slot.pagemap[c]? = some true := by
    intro c
    show (slot.pagemap.set b true)[c]? = some true ↔ _
    rw [List.getElem?_set]
    by_cases hc : b = c
    · subst hc
      simp [hlt]
    · rw [if_neg hc]
      simp [Ne.symm hc]
  refine ⟨⟨h.area, ?_, ?_, ?_, h.nextBit, h.sid, h.order⟩, ?_⟩
  · show (slot.pagemap.set b true).length = _
    rw [List.length_set]
    exact h.length
  · intro c hc
    rcases (hget c).mp hc with rfl | hc
    · exact hb
    · exact h.bits c hc
  · show slot.allocedPageNum + 1 = ((slot.pagemap.set b true).count true : Int)
    rw [count_set_true hfalse, h.alloced]
    rfl
  · have hbits : (slot.setBit b).bits = insert b slot.bits := by
      ext c
      rw [Slot.mem_bits, Finset.mem_insert, Slot.mem_bits, hget]
      constructor
      · rintro ⟨hc, rfl | hbit⟩
        · exact .inl rfl
        · exact .inr ⟨hc, hbit⟩
      · rintro (rfl | ⟨hc, hbit⟩)
        · exact ⟨hb, Or.inl rfl⟩
        · exact ⟨hc, Or.inr hbit⟩
    have hnot : b ∉ slot.bits := fun hin => hclear (Slot.mem_bits.mp hin).2
    unfold Slot.tokens
    rw [hbits, Finset.insert_val_of_notMem hnot, map_cons]
    rfl

theorem Slot.Ok.clearBit (h : slot.Ok) (hset : slot.pagemap[b]? = some true) :
    (slot.clearBit b).Ok ∧ slot.tokens = slot.token b ::ₘ (slot.clearBit b).tokens := by
  have hb : b < slot.pageNum := h.bits b hset
  have hlt : b < slot.pagemap.length := hb.trans_le h.pageNum_le
  have hcount := count_set_false hset
  have hfalse : (slot.clearBit b).pagemap[b]? = some false := by
    show (slot.pagemap.set b false)[b]? = some false
    rw [List.getElem?_set_self hlt]
  have hok : (slot.clearBit b).Ok := by
    refine ⟨h.area, ?_, fun c hc => ?_, ?_, h.nextBit, h.sid, h.order⟩
    · show (slot.pagemap.set b false).length = _
      rw [List.length_set]
      exact h.length
    · have hne : b ≠ c := by
        rintro rfl
        rw [hfalse] at hc
        cases hc
      have hc' : (slot.pagemap.set b false)[c]? = some true := hc
      rw [List.getElem?_set_ne hne] at hc'
      exact h.bits c hc'
    · show slot.allocedPageNum - 1 = ((slot.pagemap.set b false).count true : Int)
      rw [h.alloced]
      omega
  refine ⟨hok, ?_⟩
  -- setting the bit again gives the slot back
  have hback : (slot.clearBit b).setBit b = slot := by
    obtain ⟨hlt', he⟩ := List.getElem?_eq_some_iff.mp hset
    unfold Slot.setBit Slot.clearBit
    have hmap : (slot.pagemap.set b false).set b true = slot.pagemap := by
      rw [List.set_set, ← he, List.set_getElem_self]
    rw [hmap, Int.sub_add_cancel]
  have htok := (hok.setBit hb (by rw [hfalse]; exact fun hc => by cases hc)).2
  rw [hback] at htok
  exact htok

/-- What the loop over the bits of a slot achieves: some free pages are taken, at most `need`. -/
structure Slot.Took (slot : Slot) (need : Nat) (r : Slot × Nat × List Nat) : Prop where
  rest : ∃ pagemap alloced, r.1 = { slot with pagemap := pagemap, allocedPageNum := alloced }
  ok : r.1.Ok
  tokens : r.1.tokens = r.2.2 + slot.tokens
  length : r.2.2.length ≤ need
  next : r.2.1 < slot.pageNum

/-- The pages that are taken: their bits were clear and are set now. If there are fewer than needed, no bit at a place
that was tried is clear. -/
structure Slot.Scanned (slot : Slot) (tryn i need : Nat) (r : Slot × Nat × List Nat) (bits : List Nat) : Prop where
  pages : r.2.2 = bits.map slot.token
  nodup : bits.Nodup
  clear : ∀ b ∈ bits, b < slot.pageNum ∧ slot.pagemap[b]? ≠ some true
  pagemap : ∀ b, r.1.pagemap[b]? = if b ∈ bits then some true else slot.pagemap[b]?
  full : slot.onAllocFree = 1 → bits.length < need → ∀ k < tryn, r.1.pagemap[(i + k) % slot.pageNum]? = some true

theorem Slot.Ok.took_nil (h : slot.Ok) {i : Nat} (hi : i < slot.pageNum) (tryn need : Nat)
    (hstop : slot.onAllocFree = 1 → 0 < need → tryn = 0) :
    slot.Took need (slot, i, []) ∧ ∃ bits, slot.Scanned tryn i need (slot, i, []) bits := by
  refine ⟨⟨⟨_, _, rfl⟩, h, (zero_add _).symm, Nat.zero_le _, hi⟩, [], rfl, .nil, by simp, by simp, ?_⟩
  intro hclaimed hneed k hk
  omega

theorem next_add_mod {i k n : Nat} (hi : i < n) :
    ((if i + 1 ≥ n then 0 else i + 1) + k) % n = (i + (k + 1)) % n := by
  split_ifs with hwrap
  · rw [show i + (k + 1) = k + n by omega, Nat.add_mod_right, Nat.zero_add]
  · rw [show i + (k + 1) = i + 1 + k by omega]

theorem full_succ {pagemap : List Bool} {tryn i n : Nat} (hi : i < n) (hfirst : pagemap[i]? = some true)
    (hrest : ∀ k < tryn, pagemap[((if i + 1 ≥ n then 0 else i + 1) + k) % n]? = some true) :
    ∀ k < tryn + 1, pagemap[(i + k) % n]? = some true := by
  intro k hk
  cases k with
  | zero => rwa [Nat.add_zero, Nat.mod_eq_of_lt hi]
  | succ k =>
    rw [← next_add_mod hi]
    exact hrest k (by omega)

theorem Slot.Ok.allocPages (h : slot.Ok) (tryn : Nat) {i : Nat} (hi : i < slot.pageNum) (need : Nat) :
    slot.Took need (slot.allocPages tryn i need) ∧
      ∃ bits, slot.Scanned tryn i need (slot.allocPages tryn i need) bits := by
  induction tryn generalizing slot i need with
  | zero => exact h.took_nil hi 0 need fun _ _ => rfl
  | succ tryn ih =>
    have hlt : i < slot.pagemap.length := hi.trans_le h.pageNum_le
    rw [Slot.allocPages]
    by_cases hstop : need = 0 ∨ slot.onAllocFree ≠ 1 ∨ ¬i < slot.pagemap.length
    · rw [if_pos hstop]
      refine h.took_nil hi _ need fun hclaimed hneed => ?_
      omega
    rw [if_neg hstop]
    have hnext : (if i + 1 ≥ slot.pageNum then 0 else i + 1) < slot.pageNum := by
      split_ifs <;> omega
    by_cases hbit : slot.pagemap[i]? = some true
    · rw [if_pos hbit]
      obtain ⟨htook, bits, hscan⟩ := ih h hnext need
      refine ⟨htook, bits, { hscan with full := fun hclaimed hfew => full_succ hi ?_ (hscan.full hclaimed hfew) }⟩
      rw [hscan.pagemap, hbit, ite_self]
    · rw [if_neg hbit]
      obtain ⟨hok, htok⟩ := h.setBit hi hbit
      obtain ⟨htook, bits, hscan⟩ := ih hok hnext (need - 1)
      have hset : ∀ b, (slot.setBit i).pagemap[b]? = if b = i then some true else slot.pagemap[b]? := by
        intro b
        show (slot.pagemap.set i true)[b]? = _
        by_cases hb : b = i
        · simp [hb, hlt]
        · simp [hb, Ne.symm hb]
      have hnot : i ∉ bits := fun hmem => (hscan.clear i hmem).2 (by simp [hset])
      refine ⟨⟨htook.rest, htook.ok, ?_, ?_, htook.next⟩, i :: bits, congrArg _ hscan.pages, hscan.nodup.cons hnot, ?_,
        fun b => ?_, fun hclaimed hfew => full_succ hi ?_ (hscan.full hclaimed ?_)⟩
      · refine htook.tokens.trans ?_
        rw [htok, add_cons, ← cons_coe, cons_add]
        rfl
      · have hlen := htook.length
        rw [List.length_cons]
        unfold Slot.setBit at hlen
        omega
      · intro b hb
        rcases List.mem_cons.mp hb with rfl | hb
        · exact ⟨hi, hbit⟩
        · have hclear := hscan.clear b hb
          rw [hset, if_neg (ne_of_mem_of_not_mem hb hnot)] at hclear
          exact hclear
      · refine (hscan.pagemap b).trans ?_
        rw [hset]
        by_cases hb : b = i <;> simp [hb, hnot]
      · refine (hscan.pagemap i).trans ?_
        simp [hnot, hset]
      · rw [List.length_cons] at hfew
        omega

end OneSlot

end Amlogic.CodecMm
