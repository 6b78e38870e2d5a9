import Amlogic.CodecMem.Proofs.RunProofs
import Amlogic.CodecMem.Script

/-!
# Separation of TVP memory

The pools behind the slots of the extension pools are all different, and none of them is the pool of reserved memory.
So a block that is cut from one of them is not memory of another.
-/

namespace Amlogic.CodecMem

open Mgt

variable {name : PoolName} {p : ExtPool} {i : Nat} {l : List Event} {F : Multiset Token} {f tvpEnable : CInt}

def OpenSlot (v : Snap) (name : PoolName) (i : Nat) (sl : PoolSlot) : Prop :=
  v.mgt.slotAt name i = some sl ∧ .closing name i ∉ v.tokens

/-- The pools of the open slots are live, and different from each other and from the reserved one. -/
structure Apart (v : Snap) : Prop where
  pages : v.mgt.allocFromSysPagesMax = 4
  kmalloc : v.mgt.enableKmallocOnNomem = 0
  live : ∀ name i sl, OpenSlot v name i sl → sl.genPool ∈ v.mgt.genPools
  reserved : ∀ id, v.mgt.resPool = some id → id ∈ v.mgt.genPools
  notReserved : ∀ name i sl, OpenSlot v name i sl → v.mgt.resPool ≠ some sl.genPool
  apart : ∀ name i sl name' i' sl', OpenSlot v name i sl → OpenSlot v name' i' sl' → sl.genPool = sl'.genPool →
    name = name' ∧ i = i'

section Fields

variable {m m' : Mgt} {mem : Nat} {b : Block}

structure SamePools (m m' : Mgt) : Prop where
  pages : m'.allocFromSysPagesMax = m.allocFromSysPagesMax
  kmalloc : m'.enableKmallocOnNomem = m.enableKmallocOnNomem
  resPool : m'.resPool = m.resPool
  slots : ∀ name, (m'.extPool name).slots = (m.extPool name).slots
  slotNum : ∀ name, (m'.extPool name).slotNum = (m.extPool name).slotNum
  genPools : ∀ id, id ∈ m'.genPools ↔ id ∈ m.genPools

theorem SamePools.refl : SamePools m m := ⟨rfl, rfl, rfl, fun _ => rfl, fun _ => rfl, fun _ => Iff.rfl⟩

theorem SamePools.trans {m1 m2 m3 : Mgt} (h : SamePools m1 m2) (h' : SamePools m2 m3) : SamePools m1 m3 :=
  ⟨h'.pages.trans h.pages, h'.kmalloc.trans h.kmalloc, h'.resPool.trans h.resPool,
    fun name => (h'.slots name).trans (h.slots name), fun name => (h'.slotNum name).trans (h.slotNum name),
    fun id => (h'.genPools id).trans (h.genPools id)⟩

theorem SamePools.slotAt (h : SamePools m m') (name : PoolName) (i : Nat) : m'.slotAt name i = m.slotAt name i := by
  unfold Mgt.slotAt
  rw [h.slots]

theorem SamePools.isSlotPool (h : SamePools m m') {id : Nat} :
    m'.IsSlotPool name id ↔ m.IsSlotPool name id := by
  unfold Mgt.IsSlotPool
  simp only [h.slotNum, h.slotAt]

theorem samePools_setGenPool {id : Nat} {p q : GenPool} (h : m.genPools.lookup id = some p) :
    SamePools m (m.setGenPool id q) := by
  refine ⟨rfl, rfl, rfl, fun _ => rfl, fun _ => rfl, fun x => ?_⟩
  have hid : id ∈ m.genPools := AList.lookup_isSome.mp (by rw [h]; rfl)
  rw [setGenPool, AList.mem_insert]
  exact ⟨fun hx => hx.elim (fun heq => heq ▸ hid) fun hx => hx, Or.inr⟩

theorem samePools_setPool (hslots : p.slots = (m.extPool name).slots)
    (hnum : p.slotNum = (m.extPool name).slotNum) : SamePools m (m.setPool name p) := by
  refine ⟨rfl, rfl, rfl, fun name' => ?_, fun name' => ?_, fun _ => Iff.rfl⟩ <;>
  · by_cases hname : name' = name
    · subst hname
      simp [setPool, hslots, hnum]
    · simp [setPool, hname]

theorem samePools_charge (source : Source) (n : CInt) : SamePools m (m.charge source n) := by
  cases source with
  | tvp | cmaRes => exact samePools_setPool rfl rfl
  | _ => exact ⟨rfl, rfl, rfl, fun _ => rfl, fun _ => rfl, fun _ => Iff.rfl⟩

theorem samePools_count : SamePools m (m.count mem b) := by
  unfold count
  simp only
  have hset : SamePools m { m.setBlock mem { b with memId := m.globalMemid } with
      globalMemid := m.globalMemid + 1, memList := m.memList ++ [mem] } :=
    ⟨rfl, rfl, rfl, fun _ => rfl, fun _ => rfl, fun _ => Iff.rfl⟩
  split_ifs <;> exact (hset.trans (samePools_charge _ _)).trans ⟨rfl, rfl, rfl, fun _ => rfl, fun _ => rfl, fun _ => Iff.rfl⟩

theorem BlockMove.samePools {v v' : Snap} (h : BlockMove v v') : SamePools v.mgt v'.mgt := by
  cases h with
  | take memory =>
    cases memory with
    | system => exact .refl
    | piece pool live => exact samePools_setGenPool live
  | give memory =>
    cases memory with
    | system => exact .refl
    | piece pool live => exact samePools_setGenPool live
  | enter => exact samePools_count
  | uncount =>
    refine SamePools.trans ?_ (samePools_charge _ _)
    split_ifs <;> exact ⟨rfl, rfl, rfl, fun _ => rfl, fun _ => rfl, fun _ => Iff.rfl⟩
  | _ => exact ⟨rfl, rfl, rfl, fun _ => rfl, fun _ => rfl, fun _ => Iff.rfl⟩

theorem BlockMove.closing {v v' : Snap} (h : BlockMove v v') (name : PoolName) (i : Nat) :
    .closing name i ∈ v'.tokens ↔ .closing name i ∈ v.tokens := by
  cases h <;> simp

end Fields

/-! ## Closing the gaps between slots -/

section Compact

def Moved (old new : List (Option PoolSlot)) : Prop :=
  ∃ f : Nat → Nat, (∀ k sl, new[k]?.join = some sl → old[f k]?.join = some sl) ∧
    ∀ k k' sl sl', new[k]?.join = some sl → new[k']?.join = some sl' → f k = f k' → k = k'

theorem Moved.refl (slots : List (Option PoolSlot)) : Moved slots slots :=
  ⟨id, fun _ _ h => h, fun _ _ _ _ _ _ h => h⟩

theorem Moved.trans {l1 l2 l3 : List (Option PoolSlot)} (h : Moved l1 l2) (h' : Moved l2 l3) : Moved l1 l3 := by
  obtain ⟨f, hf, hfi⟩ := h
  obtain ⟨g, hg, hgi⟩ := h'
  refine ⟨fun k => f (g k), fun k sl hk => hf _ _ (hg k sl hk), ?_⟩
  intro k k' sl sl' hk hk' heq
  exact hgi k k' sl sl' hk hk' (hfi _ _ _ _ (hg k sl hk) (hg k' sl' hk') heq)

theorem join_getElem?_set {slots : List (Option PoolSlot)} {k : Nat} {x : Option PoolSlot} {sl : PoolSlot}
    (h : (slots.set i x)[k]?.join = some sl) : k = i ∧ x = some sl ∨ k ≠ i ∧ slots[k]?.join = some sl := by
  rw [List.getElem?_set] at h
  by_cases hk : i = k
  · subst hk
    rw [if_pos rfl] at h
    split_ifs at h
    · exact .inl ⟨rfl, h⟩
    · cases h
  · rw [if_neg hk] at h
    exact .inr ⟨Ne.symm hk, h⟩

theorem moved_set (slots : List (Option PoolSlot)) {j : Nat} :
    Moved slots ((slots.set j slots[i]?.join).set i none) := by
  have hcases : ∀ k sl, ((slots.set j slots[i]?.join).set i none)[k]?.join = some sl →
      k ≠ i ∧ (k = j ∧ slots[i]?.join = some sl ∨ k ≠ j ∧ slots[k]?.join = some sl) := by
    intro k sl hk
    rcases join_getElem?_set hk with ⟨-, hnone⟩ | ⟨hki, hk⟩
    · cases hnone
    · exact ⟨hki, join_getElem?_set hk⟩
  refine ⟨fun k => if k = j then i else k, ?_, ?_⟩
  · intro k sl hk
    obtain ⟨-, ⟨rfl, hsl⟩ | ⟨hkj, hsl⟩⟩ := hcases k sl hk
    · simpa using hsl
    · simpa [hkj] using hsl
  · intro k k' sl sl' hk hk' heq
    have hki' := (hcases k' sl' hk').1
    by_cases hkj : k = j <;> by_cases hkj' : k' = j <;> simp_all

theorem moved_compactStep (p : List (Option PoolSlot) × Nat) (i : Nat) : Moved p.1 (compactStep p i).1 := by
  unfold compactStep
  by_cases hmove : p.1[i]?.join ≠ none ∧ p.2 < i
  · simp only [if_pos hmove]
    exact moved_set p.1
  · simp only [if_neg hmove]
    exact .refl p.1

theorem moved_compact (slots : List (Option PoolSlot)) (n : Nat) : Moved slots (compact slots n) := by
  have hfold : ∀ (l : List Nat) (p : List (Option PoolSlot) × Nat), Moved p.1 (l.foldl compactStep p).1 := by
    intro l
    induction l with
    | nil => exact fun p => .refl p.1
    | cons i l ih => exact fun p => (moved_compactStep p i).trans (ih _)
  exact hfold _ (slots, n + 1)

end Compact

/-! ## Moves -/

namespace Apart

variable {v v' : Snap}

theorem same (h : Apart v) (hm : SamePools v.mgt v'.mgt)
    (hopen : ∀ name i sl, OpenSlot v' name i sl → OpenSlot v name i sl) : Apart v' where
  pages := hm.pages.trans h.pages
  kmalloc := hm.kmalloc.trans h.kmalloc
  live := fun name i sl hsl => (hm.genPools _).mpr (h.live name i sl (hopen name i sl hsl))
  reserved := fun id hid => (hm.genPools _).mpr (h.reserved id (hm.resPool ▸ hid))
  notReserved := fun name i sl hsl => hm.resPool ▸ h.notReserved name i sl (hopen name i sl hsl)
  apart := fun name i sl name' i' sl' hsl hsl' =>
    h.apart name i sl name' i' sl' (hopen name i sl hsl) (hopen name' i' sl' hsl')

theorem blockMove (hmove : BlockMove v v') (h : Apart v) : Apart v' := by
  refine h.same hmove.samePools ?_
  rintro name i sl ⟨hsl, hno⟩
  exact ⟨(hmove.samePools.slotAt name i).symm.trans hsl, fun hmem => hno ((hmove.closing name i).mpr hmem)⟩

theorem slotAt_setPool {m : Mgt} {name' : PoolName} :
    (m.setPool name p).slotAt name' i = if name' = name then p.slots[i]?.join else m.slotAt name' i := by
  unfold slotAt setPool
  by_cases hname : name' = name
  · subst hname
    simp
  · simp [hname]

theorem create {m : Mgt} {id mm n : Nat} {b : Block} {p : GenPool} (h : Apart ⟨m, l, F⟩) (hfree : id ∉ m.genPools) :
    Apart ⟨((m.setGenPool id p).setSlot name n (some ⟨id, mm⟩)).setBlock mm b, l, F⟩ := by
  have hopen : ∀ name' i sl,
      OpenSlot ⟨((m.setGenPool id p).setSlot name n (some ⟨id, mm⟩)).setBlock mm b, l, F⟩ name' i sl →
      name' = name ∧ i = n ∧ sl.genPool = id ∨ OpenSlot ⟨m, l, F⟩ name' i sl := by
    rintro name' i sl ⟨hsl, hno⟩
    have hsl : ((m.setGenPool id p).setSlot name n (some ⟨id, mm⟩)).slotAt name' i = some sl := hsl
    rw [setSlot, slotAt_setPool] at hsl
    by_cases hname : name' = name
    · subst hname
      rw [if_pos rfl] at hsl
      rcases join_getElem?_set hsl with ⟨rfl, heq⟩ | ⟨-, hsl⟩
      · cases heq
        exact .inl ⟨rfl, rfl, rfl⟩
      · exact .inr ⟨hsl, hno⟩
    · rw [if_neg hname] at hsl
      exact .inr ⟨hsl, hno⟩
  have hne : ∀ name' i sl, OpenSlot ⟨m, l, F⟩ name' i sl → sl.genPool ≠ id :=
    fun name' i sl hsl heq => hfree (heq ▸ h.live name' i sl hsl)
  refine ⟨h.pages, h.kmalloc, ?_, ?_, ?_, ?_⟩
  · intro name' i sl hsl
    show sl.genPool ∈ m.genPools.insert id p
    rw [AList.mem_insert]
    rcases hopen name' i sl hsl with ⟨-, -, heq⟩ | hold
    · exact .inl heq
    · exact .inr (h.live name' i sl hold)
  · intro x hx
    exact (AList.mem_insert _).mpr (Or.inr (h.reserved x hx))
  · intro name' i sl hsl
    rcases hopen name' i sl hsl with ⟨-, -, heq⟩ | hold
    · intro hres
      rw [heq] at hres
      exact hfree (h.reserved id hres)
    · exact h.notReserved name' i sl hold
  · intro name1 i1 sl1 name2 i2 sl2 h1 h2 heq
    rcases hopen name1 i1 sl1 h1 with ⟨rfl, rfl, he1⟩ | hold1 <;>
      rcases hopen name2 i2 sl2 h2 with ⟨hn2, hi2, he2⟩ | hold2
    · exact ⟨hn2.symm, hi2.symm⟩
    · exact absurd (heq.symm.trans he1) (hne _ _ _ hold2)
    · exact absurd (heq.trans he2) (hne _ _ _ hold1)
    · exact h.apart _ _ _ _ _ _ hold1 hold2 heq

theorem destroy {m : Mgt} {sl : PoolSlot}
    (h : Apart ⟨m, l, F⟩) (hslot : m.slotAt name i = some sl) (hother : .closing name i ∉ F) :
    Apart ⟨{ m with genPools := m.genPools.erase sl.genPool }, l, .closing name i ::ₘ F⟩ := by
  have hself : OpenSlot ⟨m, l, F⟩ name i sl := ⟨hslot, hother⟩
  have hopen : ∀ name' i' sl', OpenSlot ⟨{ m with genPools := m.genPools.erase sl.genPool }, l,
      .closing name i ::ₘ F⟩ name' i' sl' → OpenSlot ⟨m, l, F⟩ name' i' sl' ∧ sl'.genPool ≠ sl.genPool := by
    rintro name' i' sl' ⟨hsl', hno⟩
    have hold : OpenSlot ⟨m, l, F⟩ name' i' sl' := ⟨hsl', fun hmem => hno (Multiset.mem_cons_of_mem hmem)⟩
    refine ⟨hold, fun heq => hno ?_⟩
    obtain ⟨rfl, rfl⟩ := h.apart _ _ _ _ _ _ hold hself heq
    exact Multiset.mem_cons_self _ _
  refine ⟨h.pages, h.kmalloc, ?_, ?_, ?_, ?_⟩
  · intro name' i' sl' hsl'
    obtain ⟨hold, hne⟩ := hopen name' i' sl' hsl'
    exact AList.mem_erase.mpr ⟨hne, h.live _ _ _ hold⟩
  · intro id hid
    refine AList.mem_erase.mpr ⟨?_, h.reserved id hid⟩
    rintro rfl
    exact h.notReserved _ _ _ hself hid
  · intro name' i' sl' hsl'
    exact h.notReserved _ _ _ (hopen name' i' sl' hsl').1
  · intro name1 i1 sl1 name2 i2 sl2 h1 h2
    exact h.apart _ _ _ _ _ _ (hopen _ _ _ h1).1 (hopen _ _ _ h2).1

theorem close {m : Mgt} (h : Apart ⟨m, l, .closing name i ::ₘ F⟩) : Apart ⟨m.setSlot name i none, l, F⟩ := by
  have hopen : ∀ name' i' sl', OpenSlot ⟨m.setSlot name i none, l, F⟩ name' i' sl' →
      OpenSlot ⟨m, l, .closing name i ::ₘ F⟩ name' i' sl' := by
    rintro name' i' sl' ⟨hsl', hno⟩
    have hsl' : (m.setSlot name i none).slotAt name' i' = some sl' := hsl'
    rw [setSlot, slotAt_setPool] at hsl'
    have hclosing : ∀ hne : ¬(name' = name ∧ i' = i), .closing name' i' ∉ .closing name i ::ₘ F := by
      intro hne hmem
      rcases Multiset.mem_cons.mp hmem with heq | hmem
      · cases heq
        exact hne ⟨rfl, rfl⟩
      · exact hno hmem
    by_cases hname : name' = name
    · subst hname
      rw [if_pos rfl] at hsl'
      rcases join_getElem?_set hsl' with ⟨-, heq⟩ | ⟨hne, hsl'⟩
      · cases heq
      · exact ⟨hsl', hclosing fun heq => hne heq.2⟩
    · rw [if_neg hname] at hsl'
      exact ⟨hsl', hclosing fun heq => hname heq.1⟩
  exact ⟨h.pages, h.kmalloc, fun _ _ _ hsl => h.live _ _ _ (hopen _ _ _ hsl), h.reserved,
    fun _ _ _ hsl => h.notReserved _ _ _ (hopen _ _ _ hsl),
    fun _ _ _ _ _ _ h1 h2 => h.apart _ _ _ _ _ _ (hopen _ _ _ h1) (hopen _ _ _ h2)⟩

theorem settle {m : Mgt} (h : Apart ⟨m, l, F⟩) (hclosed : NoneClosing F)
    (hmoved : Moved (m.extPool name).slots p.slots) : Apart ⟨m.setPool name p, l, F⟩ := by
  obtain ⟨f, hf, hinj⟩ := hmoved
  have hopen : ∀ name' i sl, OpenSlot ⟨m.setPool name p, l, F⟩ name' i sl →
      ∃ j, OpenSlot ⟨m, l, F⟩ name' j sl ∧ (name' = name → p.slots[i]?.join = some sl ∧ j = f i) ∧
        (name' ≠ name → j = i) := by
    rintro name' i sl ⟨hsl, -⟩
    have hsl : (m.setPool name p).slotAt name' i = some sl := hsl
    rw [slotAt_setPool] at hsl
    by_cases hname : name' = name
    · subst hname
      rw [if_pos rfl] at hsl
      exact ⟨f i, ⟨hf i sl hsl, hclosed _ _⟩, fun _ => ⟨hsl, rfl⟩, fun hne => absurd rfl hne⟩
    · rw [if_neg hname] at hsl
      exact ⟨i, ⟨hsl, hclosed _ _⟩, fun heq => absurd heq hname, fun _ => rfl⟩
  refine ⟨h.pages, h.kmalloc, ?_, h.reserved, ?_, ?_⟩
  · intro name' i sl hsl
    obtain ⟨j, hold, -⟩ := hopen name' i sl hsl
    exact h.live _ _ _ hold
  · intro name' i sl hsl
    obtain ⟨j, hold, -⟩ := hopen name' i sl hsl
    exact h.notReserved _ _ _ hold
  · intro name1 i1 sl1 name2 i2 sl2 h1 h2 heq
    obtain ⟨j1, hold1, hin1, hout1⟩ := hopen _ _ _ h1
    obtain ⟨j2, hold2, hin2, hout2⟩ := hopen _ _ _ h2
    obtain ⟨rfl, hj⟩ := h.apart _ _ _ _ _ _ hold1 hold2 heq
    refine ⟨rfl, ?_⟩
    by_cases hname : name1 = name
    · obtain ⟨hs1, rfl⟩ := hin1 hname
      obtain ⟨hs2, rfl⟩ := hin2 hname
      exact hinj _ _ _ _ hs1 hs2 hj
    · rw [← hout1 hname, ← hout2 hname]
      exact hj

theorem resize {m : Mgt}
    (h : Apart ⟨m, l, F⟩) (hslots : p.slots = (m.extPool name).slots) : Apart ⟨m.setPool name p, l, F⟩ := by
  have hopen : ∀ name' i sl, OpenSlot ⟨m.setPool name p, l, F⟩ name' i sl → OpenSlot ⟨m, l, F⟩ name' i sl := by
    rintro name' i sl ⟨hsl, hno⟩
    have hsl : (m.setPool name p).slotAt name' i = some sl := hsl
    rw [slotAt_setPool] at hsl
    by_cases hname : name' = name
    · subst hname
      rw [if_pos rfl, hslots] at hsl
      exact ⟨hsl, hno⟩
    · rw [if_neg hname] at hsl
      exact ⟨hsl, hno⟩
  exact ⟨h.pages, h.kmalloc, fun _ _ _ hsl => h.live _ _ _ (hopen _ _ _ hsl), h.reserved,
    fun _ _ _ hsl => h.notReserved _ _ _ (hopen _ _ _ hsl),
    fun _ _ _ _ _ _ h1 h2 => h.apart _ _ _ _ _ _ (hopen _ _ _ h1) (hopen _ _ _ h2)⟩

theorem poolMove (hmove : PoolMove v v') (h : Apart v) : Apart v' := by
  cases hmove with
  | create free live room => exact h.create free
  | grow | size => exact h.resize rfl
  | destroy slot live unused other => exact h.destroy slot other
  | close => exact h.close
  | settle closed =>
    refine h.settle closed ?_
    split_ifs
    · exact moved_compact _ _
    · exact .refl _
  | handle live | switch => exact ⟨h.pages, h.kmalloc, h.live, h.reserved, h.notReserved, h.apart⟩

theorem move (hmove : Move v v') (h : Apart v) : Apart v' := by
  cases hmove with
  | block move => exact h.blockMove move
  | pool move => exact h.poolMove move

end Apart

/-! ## Requests -/

section Requests

theorem has_tvp_iff : Has f flagsTvp ↔ f.getLsbD 2 = true := by
  unfold Has
  rw [show flagsTvp = BitVec.twoPow 32 2 from rfl, BitVec.and_twoPow]
  cases f.getLsbD 2 <;> decide

theorem has_dmaCpu_iff : Has f flagsDmaCpu ↔ f.getLsbD 0 = true ∨ f.getLsbD 1 = true := by
  have hbits : f &&& flagsDmaCpu = (f &&& BitVec.twoPow 32 0) ||| (f &&& BitVec.twoPow 32 1) := by
    rw [← BitVec.and_or_distrib_left]
    rfl
  unfold Has
  rw [hbits, BitVec.and_twoPow, BitVec.and_twoPow]
  cases f.getLsbD 0 <;> cases f.getLsbD 1 <;> decide

theorem has_tvp_of_mask (h : Has f flagsTvp) : f &&& flagsFromMask ≠ 0 := by
  intro hmask
  have hbit := congrArg (fun x : CInt => x.getLsbD 2) hmask
  simp only [BitVec.getLsbD_and, has_tvp_iff.mp h] at hbit
  revert hbit
  decide

theorem has_tvp_allocFlags : Has (allocFlags tvpEnable f) flagsTvp ↔ Has f flagsTvp := by
  have hadd : ∀ f : CInt, Has (if f &&& flagsFromMask = 0 then f ||| flagsDma else f) flagsTvp ↔
      Has f flagsTvp := by
    intro f
    split_ifs
    · rw [has_tvp_iff, has_tvp_iff, BitVec.getLsbD_or, show flagsDma.getLsbD 2 = false by decide, Bool.or_false]
    · exact Iff.rfl
  unfold allocFlags
  rw [hadd]
  split_ifs with hcase
  · refine iff_of_true ?_ hcase.2
    rw [has_tvp_iff, BitVec.getLsbD_or, show flagsTvp.getLsbD 2 = true by decide, Bool.or_true]
  · exact Iff.rfl

theorem not_has_dmaCpu_allocFlags (htvp : Has f flagsTvp)
    (h : Has tvpEnable 3 ∨ ¬Has f flagsDmaCpu) : ¬Has (allocFlags tvpEnable f) flagsDmaCpu := by
  unfold allocFlags
  by_cases henable : Has tvpEnable 3
  · simp only [if_pos (show Has tvpEnable 3 ∧ Has f flagsTvp from ⟨henable, htvp⟩)]
    rw [if_neg (has_tvp_of_mask ?_), has_dmaCpu_iff]
    · simp only [BitVec.getLsbD_or, BitVec.getLsbD_and, BitVec.getLsbD_not,
        show flagsFromMask.getLsbD 0 = true by decide, show flagsFromMask.getLsbD 1 = true by decide,
        show flagsTvp.getLsbD 0 = false by decide, show flagsTvp.getLsbD 1 = false by decide]
      simp
    · rw [has_tvp_iff, BitVec.getLsbD_or, show flagsTvp.getLsbD 2 = true by decide, Bool.or_true]
  · simp only [if_neg fun hboth : Has tvpEnable 3 ∧ Has f flagsTvp => henable hboth.1]
    rw [if_neg (has_tvp_of_mask htvp)]
    exact h.resolve_left henable

variable {ω : Type} {E : Externals ω} {s s' : State ω}

/-- The memory of a block was cut from a slot of the TVP pool. -/
def Mgt.FromTvpPool (m : Mgt) (b : Block) : Prop := ∃ id, m.poolOf b = some id ∧ m.IsSlotPool .tvp id

/-- A request for a size and an alignment is served by the TVP pool, if it is for TVP memory: TVP is enabled, or the
request asks for nothing else, or it is too large for pages of the system or needs too large an alignment. -/
def ServedByTvpPool (m : Mgt) (size align2n memflags : CInt) : Prop :=
  Has memflags flagsTvp → Has m.tvpEnable 3 ∨ ¬Has memflags flagsDmaCpu ∨
    4 < (pageCountOf (pageAlign size)).toInt ∨ 12 < align2n.toInt

theorem attempt_of_request {m : Mgt} {size align2n memflags : CInt} {l : List Attempt} {a : Attempt}
    (hpages : m.allocFromSysPagesMax = 4) (hkmalloc : m.enableKmallocOnNomem = 0)
    (hl : attempts m (Block.request size align2n (allocFlags tvpEnable memflags)) = .ok l) (ha : a ∈ l)
    (hserved : Has memflags flagsTvp → Has tvpEnable 3 ∨ ¬Has memflags flagsDmaCpu ∨
      4 < (pageCountOf (pageAlign size)).toInt ∨ 12 < align2n.toInt) : a = .tvp ↔ Has memflags flagsTvp := by
  rcases mem_attempts hl ha with ⟨rfl, htvp⟩ | ⟨rfl, hflags, hsys⟩ | ⟨hne, hno⟩
  · exact iff_of_true rfl (has_tvp_allocFlags.mp htvp)
  · refine iff_of_false nofun fun htvp => ?_
    have hflags : Has (allocFlags tvpEnable memflags) flagsDmaCpu := hflags
    rcases hsys with ⟨hcount, halign⟩ | hno
    · rcases hserved htvp with h | h | h | h
      · exact not_has_dmaCpu_allocFlags htvp (Or.inl h) hflags
      · exact not_has_dmaCpu_allocFlags htvp (Or.inr h) hflags
      · rw [hpages] at hcount
        have hcount : (pageCountOf (pageAlign size)).toInt ≤ 4 := by
          simpa [BitVec.sle, Block.request] using of_decide_eq_true hcount
        omega
      · have halign : (if align2n.slt pageShift then pageShift else align2n).sle pageShift = true := halign
        have hslt : ¬align2n.slt pageShift = true := by
          simp only [BitVec.slt, decide_eq_true_eq, not_lt, show pageShift.toInt = 12 from rfl]
          omega
        rw [if_neg hslt] at halign
        simp only [BitVec.sle, decide_eq_true_eq, show pageShift.toInt = 12 from rfl] at halign
        omega
    · exact hno hkmalloc
  · exact iff_of_false hne fun htvp => hno (has_tvp_allocFlags.mpr htvp)

theorem fromTvpPool_iff {m : Mgt} {req b : Block} {a : Attempt} (h : Apart ⟨m, l, 0⟩)
    (hgrant : Granted req a b m) : m.FromTvpPool b ↔ a = .tvp := by
  have hopen : ∀ name i sl, m.slotAt name i = some sl → OpenSlot ⟨m, l, 0⟩ name i sl :=
    fun name i sl hsl => ⟨hsl, Multiset.notMem_zero _⟩
  constructor
  · rintro ⟨id, hpool, i, sl, -, hsl, rfl⟩
    cases a with
    | tvp => rfl
    | pages => simp [poolOf, show b.fromFlags = .pages from hgrant.source] at hpool
    | cma map => simp [poolOf, show b.fromFlags = .cma from hgrant.source] at hpool
    | reserved =>
      simp only [poolOf, show b.fromFlags = .reversed from hgrant.source] at hpool
      exact absurd hpool (h.notReserved _ _ _ (hopen _ _ _ hsl))
    | cmaRes =>
      simp only [poolOf, show b.fromFlags = .cmaRes from hgrant.source] at hpool
      obtain ⟨id, hext, i', sl', -, hsl', heq⟩ := hgrant.slot .cmaRes rfl
      rw [hext] at hpool
      obtain ⟨hname, -⟩ := h.apart _ _ _ _ _ _ (hopen _ _ _ hsl) (hopen _ _ _ hsl')
        ((Option.some.inj hpool).symm.trans heq.symm)
      cases hname
  · rintro rfl
    obtain ⟨id, hext, hslot⟩ := hgrant.slot .tvp rfl
    exact ⟨id, by simp [poolOf, show b.fromFlags = .tvp from hgrant.source, hext], hslot⟩

theorem apart_of_fresh {m : Mgt} (h : Fresh m) : Apart ⟨m, l, 0⟩ := by
  have hnone : ∀ name i sl, ¬OpenSlot ⟨m, l, 0⟩ name i sl := by
    rintro name i sl ⟨hsl, -⟩
    have hsl : m.slotAt name i = some sl := hsl
    rw [slotAt, h.extPool] at hsl
    simp only [ExtPool.empty, List.getElem?_replicate] at hsl
    split_ifs at hsl <;> cases hsl
  exact ⟨h.allocFromSysPagesMax, h.enableKmallocOnNomem, fun _ _ _ hsl => absurd hsl (hnone _ _ _),
    fun id hid => (h.genPools id).mpr hid, fun _ _ _ hsl => absurd hsl (hnone _ _ _),
    fun _ _ _ _ _ _ hsl => absurd hsl (hnone _ _ _)⟩

theorem apart_of_reached {allowed : State ω → Op → Prop} (h : Reached E allowed s) : Apart (s.snap 0) := by
  refine Reached.induct (P := fun s => Apart (s.snap 0)) ?_ ?_ h
  · intro s hs
    exact apart_of_fresh hs.fresh.1
  · intro s op r s' hs _ hexec
    have hsame : SamePools s.mgt s'.mgt → Apart (s'.snap 0) := fun hm =>
      hs.same hm fun name i sl hsl => ⟨(hm.slotAt name i).symm.trans hsl.1, hsl.2⟩
    cases op with
    | requestSharedMem mem owner =>
      obtain ⟨-, -, ⟨b, -, -, -, -, hmgt⟩ | ⟨-, hmgt⟩⟩ := requestSharedMem_eq_ok hexec
      · exact hsame (by rw [hmgt]; exact ⟨rfl, rfl, rfl, fun _ => rfl, fun _ => rfl, fun _ => Iff.rfl⟩)
      · exact hsame (by rw [hmgt]; exact .refl)
    | v4lReqbufs owner addr size =>
      obtain ⟨-, hmgt | ⟨mem, -, hmgt⟩⟩ := v4lReqbufs_eq_ok hexec
      · exact hsame (by rw [hmgt]; exact .refl)
      · exact hsame (by rw [hmgt]; exact ⟨rfl, rfl, rfl, fun _ => rfl, fun _ => rfl, fun _ => Iff.rfl⟩)
    | v4lFreebufs owner mem =>
      rcases v4lFreebufs_eq_ok hexec with ⟨-, hmgt, -⟩ | ⟨p, b, -, -, -, hmgt⟩
      · exact hsame (by rw [hmgt]; exact .refl)
      · refine hsame ?_
        rw [hmgt]
        split_ifs <;> exact ⟨rfl, rfl, rfl, fun _ => rfl, fun _ => rfl, fun _ => Iff.rfl⟩
    | _ => exact exec_keeps (fun _ _ hmove h => h.move hmove) hexec trivial hs

theorem codecMmAlloc_separated {owner : String} {size align2n memflags : CInt} {mem : Nat}
    (h : Apart (s.snap 0)) (hserved : ServedByTvpPool s.mgt size align2n memflags)
    (hrun : codecMmAlloc E owner size align2n memflags s = .ok (some mem, s')) :
    ∃ b, s'.mgt.blocks.lookup mem = some b ∧ (s'.mgt.FromTvpPool b ↔ Has memflags flagsTvp) := by
  obtain ⟨F', hpath, rfl, hblock⟩ := codecMmAlloc_does noneClosing_zero (some mem) s' hrun
  obtain ⟨s1, s2, l, a, b, hpath1, hl, ha, hgrant, hmgt⟩ := hblock mem rfl
  have hapart1 : Apart (s1.snap (.fresh mem ::ₘ 0)) := path_keeps (fun _ _ hmove h => h.move hmove) hpath1 h
  have hapart : Apart ⟨s'.mgt, s'.log, 0⟩ := path_keeps (fun _ _ hmove h => h.move hmove) hpath h
  have hsame : SamePools s2.mgt s'.mgt := by
    rw [hmgt]
    exact samePools_count
  have hgrant' : Granted (Block.request size align2n (allocFlags s.mgt.tvpEnable memflags)) a b s'.mgt :=
    ⟨hgrant.owner, hgrant.source, hgrant.flags, fun name hname => by
      obtain ⟨id, hid, hslot⟩ := hgrant.slot name hname
      exact ⟨id, hid, hsame.isSlotPool.mpr hslot⟩, hgrant.noSlot⟩
  refine ⟨{ b.first owner with memId := s2.mgt.globalMemid }, ?_, ?_⟩
  · rw [hmgt, count_blocks]
    exact AList.lookup_insert _
  · exact (fromTvpPool_iff hapart hgrant').trans (attempt_of_request hapart1.pages hapart1.kmalloc hl ha hserved)

def Op.memflags : Op → Option CInt
  | .alloc _ _ _ memflags | .allocForDma _ _ _ memflags => some memflags
  | _ => none

/-- Requests for TVP memory are made so that only the TVP pool can serve them. -/
def RequestsServed (s : State ω) : Op → Prop
  | .alloc _ size align2n memflags => ServedByTvpPool s.mgt size align2n memflags
  | .allocForDma _ pageCnt align2n memflags => ServedByTvpPool s.mgt (pageCnt <<< 12) align2n memflags
  | _ => True

/-- A request that is allowed gets memory from the TVP pool if it asks for it, and only then. -/
def TvpSeparated (E : Externals ω) (allowed : State ω → Op → Prop) (s : State ω) : Prop :=
  ∀ op memflags mem s', allowed s op → op.memflags = some memflags → exec E op s = .ok (.block (some mem), s') →
    ∃ b, s'.mgt.blocks.lookup mem = some b ∧ (s'.mgt.FromTvpPool b ↔ Has memflags flagsTvp)

/-- TVP memory goes to requests for TVP memory and to no others, as long as those are made while TVP is enabled, or
cannot be served with pages of the system. -/
theorem tvp_memory_separated (h : Reached E RequestsServed s) : TvpSeparated E RequestsServed s := by
  intro op memflags mem s' hserved hflags hexec
  have hapart := apart_of_reached h
  cases op with
  | alloc owner size align2n f | allocForDma owner pageCnt align2n f =>
    cases hflags
    obtain ⟨found, s₁, h₁, h₂⟩ := run_bind_eq_ok.mp hexec
    cases h₂
    exact codecMmAlloc_separated hapart hserved h₁
  | _ => cases hflags

theorem tvp_memory_separated_plain :
    ∃ s : State Nat, Has s.mgt.tvpEnable 3 ∧ TvpSeparated plain RequestsServed s := by
  obtain ⟨s, hs, henable⟩ := exists_of_plainCheck 0 [.tvpEnableStore 1]
    (fun s => decide (Has s.mgt.tvpEnable 3)) (by decide +kernel)
  have hreached : Reached plain RequestsServed s := by
    refine reached_of_plainRun ?_ hs
    intro _ op hop
    obtain rfl := List.mem_singleton.mp hop
    trivial
  exact ⟨s, of_decide_eq_true henable, tvp_memory_separated hreached⟩

def getsPages : Except Fault (Reply × State Nat) → Bool
  | .ok (.block (some mem), s') => (s'.mgt.blocks.lookup mem).any fun b => b.fromFlags = .pages
  | _ => false

/-- While the blocks of a pool that is being disabled are still held, a small request for TVP memory that may also be
used by the CPU gets a page of the system. -/
theorem tvp_request_gets_page :
    ¬∀ s : State Nat, Reached plain (fun _ _ => True) s → TvpSeparated plain (fun _ _ => True) s := by
  intro hall
  obtain ⟨s, hs, hnext⟩ := exists_of_plainCheck 0
    [.tvpEnableStore 1, .alloc "decoder" 4096 0 flagsTvp, .tvpEnableStore 0]
    (fun s => getsPages (exec plain (.alloc "display" 4096 0 (flagsTvp ||| flagsCpu)) s)) (by decide +kernel)
  have hreached : Reached plain (fun _ _ => True) s := reached_of_plainRun (fun _ _ _ => trivial) hs
  revert hnext
  unfold getsPages
  split
  next mem s' hexec =>
    intro hpages
    obtain ⟨b, hb, hiff⟩ := hall s hreached _ _ mem s' trivial rfl hexec
    rw [hb] at hpages
    have hpages : b.fromFlags = .pages := of_decide_eq_true hpages
    obtain ⟨id, hpool, -⟩ := hiff.mpr (by decide)
    simp [poolOf, hpages] at hpool
  next =>
    intro hno
    cases hno

end Requests

end Amlogic.CodecMem
