import Amlogic.CodecMem.Proofs.CallMoveProofs

/-!
# The list of blocks

A structure is on the list of blocks, or it is on its way in or out. Between two calls nothing is half done, and the
list has exactly the blocks that are not freed.
-/

namespace Amlogic.CodecMem

open Multiset

def Token.mems : Token → Multiset Nat
  | .fresh mem | .taken mem _ | .owed mem _ | .given mem _ | .dead mem => {mem}
  | .closing .. => 0

def halfDone (F : Multiset Token) : Multiset Nat := (F.map Token.mems).sum

@[simp] theorem halfDone_cons (t : Token) (F : Multiset Token) : halfDone (t ::ₘ F) = t.mems + halfDone F := by
  simp [halfDone]

def Mgt.live (m : Mgt) : Multiset Nat := m.blocks.keys

/-- Each structure is on the list or half done, and only once. -/
def Whole (v : Snap) : Prop := v.mgt.live = v.mgt.memList + halfDone v.tokens

section Live

variable {m : Mgt} {mem : Nat} {b : Block}

theorem nodup_live : m.live.Nodup := m.blocks.nodupKeys

theorem mem_live : mem ∈ m.live ↔ mem ∈ m.blocks := Iff.rfl

theorem mem_live_of_lookup (h : m.blocks.lookup mem = some b) : mem ∈ m.live :=
  AList.lookup_isSome.mp (by rw [h]; rfl)

theorem live_setBlock_new (h : mem ∉ m.blocks) : (m.setBlock mem b).live = mem ::ₘ m.live := by
  show (((m.blocks.insert mem b).keys : List Nat) : Multiset Nat) = mem ::ₘ _
  rw [AList.keys_insert, List.erase_of_not_mem h]
  rfl

theorem live_setBlock (h : mem ∈ m.live) : (m.setBlock mem b).live = m.live := by
  show (((m.blocks.insert mem b).keys : List Nat) : Multiset Nat) = _
  rw [AList.keys_insert]
  exact cons_erase h

theorem live_erase : ({ m with blocks := m.blocks.erase mem } : Mgt).live = m.live.erase mem := by
  show (((m.blocks.erase mem).keys : List Nat) : Multiset Nat) = _
  rw [AList.keys_erase]
  rfl

end Live

namespace Whole

variable {m : Mgt} {l : List Event} {F : Multiset Token} {mem : Nat}

theorem nodup (h : Whole ⟨m, l, F⟩) : ((m.memList : Multiset Nat) + halfDone F).Nodup := by
  rw [← show m.live = _ from h]
  exact nodup_live

theorem nodup_memList (h : Whole ⟨m, l, F⟩) : m.memList.Nodup := (nodup_add.mp h.nodup).1

theorem mem_live (h : Whole ⟨m, l, F⟩) (hmem : mem ∈ m.memList) : mem ∈ m.live := by
  rw [show m.live = _ from h]
  exact mem_add.mpr (Or.inl hmem)

theorem lookup (h : Whole ⟨m, l, F⟩) (hmem : mem ∈ m.memList) : ∃ b, m.blocks.lookup mem = some b :=
  Option.isSome_iff_exists.mp (AList.lookup_isSome.mpr (h.mem_live hmem))

theorem mem_live_of_token {t : Token} (h : Whole ⟨m, l, t ::ₘ F⟩) (hmem : mem ∈ t.mems) : mem ∈ m.live := by
  rw [show m.live = _ from h]
  simp [hmem]

theorem notMem_of_token {t : Token} (h : Whole ⟨m, l, t ::ₘ F⟩) (hmem : mem ∈ t.mems) : mem ∉ m.memList := by
  intro hlist
  have hdisj := (nodup_add.mp h.nodup).2.2
  exact disjoint_left.mp hdisj hlist (by simp [hmem])

theorem notMem_of_free (h : Whole ⟨m, l, F⟩) (hfree : mem ∉ m.blocks) : mem ∉ m.memList :=
  fun hmem => hfree (h.mem_live hmem)

end Whole

theorem charge_blocks (m : Mgt) (source : Source) (n : CInt) : (m.charge source n).blocks = m.blocks := by
  cases source <;> rfl

theorem charge_memList (m : Mgt) (source : Source) (n : CInt) : (m.charge source n).memList = m.memList := by
  cases source <;> rfl

theorem uncount_blocks (m : Mgt) (b : Block) : (m.uncount b).blocks = m.blocks := by
  unfold Mgt.uncount
  rw [charge_blocks]
  split_ifs <;> rfl

theorem uncount_memList (m : Mgt) (b : Block) : (m.uncount b).memList = m.memList := by
  unfold Mgt.uncount
  rw [charge_memList]
  split_ifs <;> rfl

theorem count_blocks (m : Mgt) (mem : Nat) (b : Block) :
    (m.count mem b).blocks = m.blocks.insert mem { b with memId := m.globalMemid } := by
  unfold Mgt.count
  simp only
  split_ifs <;> simp only [charge_blocks] <;> rfl

theorem count_memList (m : Mgt) (mem : Nat) (b : Block) : (m.count mem b).memList = m.memList ++ [mem] := by
  unfold Mgt.count
  simp only
  split_ifs <;> simp only [charge_memList] <;> rfl

theorem takes_blocks {m m' : Mgt} {b : Block} (h : Takes m b m') : m'.blocks = m.blocks := by cases h <;> rfl

theorem takes_memList {m m' : Mgt} {b : Block} (h : Takes m b m') : m'.memList = m.memList := by cases h <;> rfl

theorem gives_blocks {m m' : Mgt} {b : Block} (h : Gives m b m') : m'.blocks = m.blocks := by cases h <;> rfl

theorem gives_memList {m m' : Mgt} {b : Block} (h : Gives m b m') : m'.memList = m.memList := by cases h <;> rfl

theorem Whole.exchange {m m' : Mgt} {l l' : List Event} {F : Multiset Token} {t t' : Token}
    (h : Whole ⟨m, l, t ::ₘ F⟩) (hblocks : m'.blocks = m.blocks) (hlist : m'.memList = m.memList)
    (htoken : t'.mems = t.mems) : Whole ⟨m', l', t' ::ₘ F⟩ := by
  unfold Whole at h ⊢
  rw [halfDone_cons] at h ⊢
  show (m'.blocks.keys : Multiset Nat) = m'.memList + _
  rw [hblocks, hlist, htoken]
  exact h

theorem Whole.same {m m' : Mgt} {l l' : List Event} {F : Multiset Token} (h : Whole ⟨m, l, F⟩)
    (hlive : m'.live = m.live) (hlist : m'.memList = m.memList) : Whole ⟨m', l', F⟩ := by
  unfold Whole at h ⊢
  rw [hlive, hlist]
  exact h

theorem Whole.erase {m : Mgt} {l l' : List Event} {F : Multiset Token} {t : Token} {mem : Nat}
    (h : Whole ⟨m, l, t ::ₘ F⟩) (htoken : t.mems = {mem}) :
    Whole ⟨{ m with blocks := m.blocks.erase mem }, l', F⟩ := by
  unfold Whole at h ⊢
  rw [live_erase, h, halfDone_cons, htoken, add_left_comm, singleton_add, erase_cons_head]

theorem Whole.blockMove {v v' : Snap} (hmove : BlockMove v v') (h : Whole v) : Whole v' := by
  cases hmove with
  | new free =>
    unfold Whole at h ⊢
    rw [live_setBlock_new free, h, halfDone_cons, ← singleton_add]
    exact add_left_comm _ _ _
  | take memory _ _ => exact h.exchange (takes_blocks memory) (takes_memList memory) rfl
  | scrap | kfree => exact h.erase rfl
  | @enter m l F mem b owner =>
    have hlive : mem ∈ m.live := h.mem_live_of_token (mem_singleton_self mem)
    unfold Whole at h ⊢
    rw [halfDone_cons] at h
    show ((m.count mem (b.first owner)).blocks.keys : Multiset Nat) = (m.count mem (b.first owner)).memList + _
    rw [count_blocks, count_memList]
    -- the structure moves from the tokens to the end of the list
    calc _ = m.live := live_setBlock hlive
      _ = m.memList + ({mem} + halfDone F) := h
      _ = _ := by rw [← add_assoc]; rfl
  | drop listed live _ _ _ => exact h.same (live_setBlock (mem_live_of_lookup live)) rfl
  | @unlist m l F mem b maxOwner owner listed live entry last =>
    unfold Whole at h ⊢
    rw [halfDone_cons]
    have hlive : (m.setBlock mem (b.released maxOwner owner)).live = m.live :=
      live_setBlock (mem_live_of_lookup live)
    -- the structure moves from the list to the tokens
    calc _ = m.live := hlive
      _ = m.memList + halfDone F := h
      _ = (mem ::ₘ ((m.memList.erase mem : List Nat) : Multiset Nat)) + halfDone F := by
        rw [show (m.memList : Multiset Nat) = _ from (cons_erase (mem_coe.mpr listed)).symm]
        rfl
      _ = ((m.memList.erase mem : List Nat) : Multiset Nat) + ({mem} + halfDone F) := by
        rw [← singleton_add, add_assoc]
        exact add_left_comm _ _ _
  | give memory => exact h.exchange (gives_blocks memory) (gives_memList memory) rfl
  | uncount => exact h.exchange (uncount_blocks _ _) (uncount_memList _ _) rfl

theorem Whole.poolMove {v v' : Snap} (hmove : PoolMove v v') (h : Whole v) : Whole v' := by
  cases hmove with
  | create free live room | handle live => exact h.same (live_setBlock (mem_live_of_lookup live)) rfl
  | grow | size | settle closed | switch => exact h.same rfl rfl
  | destroy slot live unused other =>
    unfold Whole at h ⊢
    rw [halfDone_cons]
    exact h.trans (by rw [show Token.mems _ = 0 from rfl, zero_add])
  | close =>
    unfold Whole at h ⊢
    rw [halfDone_cons, show Token.mems _ = 0 from rfl, zero_add] at h
    exact h

end Amlogic.CodecMem
