import Amlogic.CodecMem.Proofs.RunProofs
import Amlogic.CodecMem.Script

/-!
# The counters

Each counter is the sum of the sizes of the blocks that it is about: those on the list, and those that have left the
list and are still counted.
-/

namespace Amlogic.CodecMem

open Mgt

inductive Counter where
  | total
  | sys
  | cma
  | reserved
  | pool (name : PoolName)

def Mgt.counter (m : Mgt) : Counter → CInt
  | .total => m.totalAllocedSize
  | .sys => m.allocedSysSize
  | .cma => m.allocedCmaSize
  | .reserved => m.allocedResSize
  | .pool name => (m.extPool name).allocedSize

/-- Is a block counted? Blocks that the codec memory allocates for itself are not in the total, and coherent memory
counts as memory from the CMA area. -/
def Block.Counts (b : Block) : Counter → Prop
  | .total => ¬Has b.flags flagsForLocalMgr
  | .sys => b.fromFlags = .pages
  | .cma => b.fromFlags = .cma ∨ b.fromFlags = .coherent
  | .reserved => b.fromFlags = .reversed
  | .pool name => b.fromFlags.extPool = some name

instance (b : Block) (c : Counter) : Decidable (b.Counts c) := by
  cases c <;> unfold Block.Counts <;> infer_instance

def Block.share (b : Block) (c : Counter) : CInt := if b.Counts c then b.bufferSize else 0

def Mgt.shareAt (m : Mgt) (c : Counter) (mem : Nat) : CInt := (m.blocks.lookup mem).elim 0 fun b => b.share c

def Mgt.listedSum (m : Mgt) (c : Counter) : CInt := (m.memList.map (m.shareAt c)).sum

def Token.share (c : Counter) : Token → CInt
  | .owed _ b | .given _ b => b.share c
  | _ => 0

def tokenSum (F : Multiset Token) (c : Counter) : CInt := (F.map (Token.share c)).sum

@[simp] theorem tokenSum_cons (t : Token) (F : Multiset Token) (c : Counter) :
    tokenSum (t ::ₘ F) c = t.share c + tokenSum F c := by
  simp [tokenSum]

def Token.block? : Token → Option Block
  | .taken _ b | .owed _ b | .given _ b => some b
  | _ => none

/-- A V4L buffer has no references, and it counts for the total. -/
def Block.IsBuffer (b : Block) : Prop := b.useCnt = 0 ∧ ¬Has b.flags flagsForLocalMgr

abbrev NoCoherent (F : Multiset Token) : Prop := ∀ t ∈ F, ∀ b, t.block? = some b → b.fromFlags ≠ .coherent

/-- The counters are right, and V4L buffers are left alone by everything but the calls for them. -/
structure Counted (v : Snap) : Prop where
  whole : Whole v
  counters : ∀ c, v.mgt.counter c = v.mgt.listedSum c + tokenSum v.tokens c
  coherent : ∀ mem ∈ v.mgt.memList, ∀ b, v.mgt.blocks.lookup mem = some b → b.fromFlags = .coherent → b.IsBuffer
  tokens : NoCoherent v.tokens

/-! ## Changes of the counters -/

section Counters

variable {m m' : Mgt} {mem : Nat} {b b' : Block} {c : Counter}

theorem counter_charge (hb : b.fromFlags ≠ .coherent) (hc : c ≠ .total) (n : CInt) :
    (m.charge b.fromFlags n).counter c = m.counter c + if b.Counts c then n else 0 := by
  cases hfrom : b.fromFlags <;> cases c with
  | total => exact absurd rfl hc
  | pool name => cases name <;> simp_all [charge, counter, Block.Counts, setPool, Source.extPool]
  | _ => simp_all [charge, counter, Block.Counts, setPool]

theorem counter_setPool {name : PoolName} {p : ExtPool} (hp : p.allocedSize = (m.extPool name).allocedSize) :
    (m.setPool name p).counter c = m.counter c := by
  cases c with
  | pool name' => by_cases hname : name' = name <;> simp_all [counter, setPool]
  | _ => rfl

theorem charge_total (source : Source) (n : CInt) :
    (m.charge source n).totalAllocedSize = m.totalAllocedSize := by cases source <;> rfl

theorem counter_count (hb : b.fromFlags ≠ .coherent) :
    (m.count mem b).counter c = m.counter c + b.share c := by
  by_cases hc : c = .total
  · subst hc
    unfold count Block.share Block.Counts
    simp only [ite_not]
    split_ifs <;> simp [counter, charge_total, setBlock]
  · have hrest : (m.count mem b).counter c = (charge { m.setBlock mem { b with memId := m.globalMemid } with
        globalMemid := m.globalMemid + 1, memList := m.memList ++ [mem] } b.fromFlags b.bufferSize).counter c := by
      unfold count
      simp only
      split_ifs <;> cases c <;> first | rfl | exact absurd rfl hc
    rw [hrest, counter_charge hb hc]
    congr 1

theorem counter_countCoherent (hfrom : b.fromFlags = .coherent) (hflags : ¬Has b.flags flagsForLocalMgr) :
    (m.countCoherent mem b).counter c = m.counter c + b.share c := by
  cases c <;> simp [counter, countCoherent, setBlock, Block.share, Block.Counts, hfrom, hflags,
    Source.extPool]

theorem counter_uncountCoherent (hfrom : b.fromFlags = .coherent) (hflags : ¬Has b.flags flagsForLocalMgr) :
    (m.uncountCoherent mem b).counter c + b.share c = m.counter c := by
  cases c <;> simp [counter, uncountCoherent, Block.share, Block.Counts, hfrom, hflags, Source.extPool]

theorem counter_uncount (hb : b.fromFlags ≠ .coherent) :
    (m.uncount b).counter c + b.share c = m.counter c := by
  by_cases hc : c = .total
  · subst hc
    unfold uncount Block.share Block.Counts
    simp only [ite_not]
    split_ifs <;> simp [counter, charge_total]
  · have hrest : ∀ m1 : Mgt, (∀ c ≠ .total, m1.counter c = m.counter c) →
        (m1.charge b.fromFlags (-b.bufferSize)).counter c + b.share c = m.counter c := by
      intro m1 hm1
      rw [counter_charge hb hc, hm1 c hc, Block.share]
      split_ifs <;> simp
    refine hrest _ ?_
    intro c hc
    split_ifs <;> cases c <;> first | rfl | exact absurd rfl hc

/-! ## Changes of the list -/

theorem listedSum_append (hnew : mem ∉ m.memList) (hlist : m'.memList = m.memList ++ [mem])
    (hblocks : m'.blocks = m.blocks.insert mem b) : m'.listedSum c = m.listedSum c + b.share c := by
  have hold : m.memList.map (m'.shareAt c) = m.memList.map (m.shareAt c) := by
    refine List.map_congr_left fun x hx => ?_
    have hne : x ≠ mem := fun heq => hnew (heq ▸ hx)
    unfold shareAt
    rw [hblocks, AList.lookup_insert_ne hne]
  unfold listedSum
  rw [hlist, List.map_append, List.sum_append, hold]
  simp [shareAt, hblocks]

theorem listedSum_congr (hlist : m'.memList = m.memList)
    (hshare : ∀ x ∈ m.memList, m'.shareAt c x = m.shareAt c x) : m'.listedSum c = m.listedSum c := by
  unfold listedSum
  rw [hlist, List.map_congr_left hshare]

theorem listedSum_erase (hmem : mem ∈ m.memList) (hb : m.blocks.lookup mem = some b)
    (hlist : m'.memList = m.memList.erase mem) (hshare : ∀ x ∈ m.memList.erase mem, m'.shareAt c x = m.shareAt c x) :
    m.listedSum c = m'.listedSum c + b.share c := by
  unfold listedSum
  rw [hlist, List.map_congr_left hshare, add_comm]
  have hperm : (m.memList.map (m.shareAt c)).Perm ((mem :: m.memList.erase mem).map (m.shareAt c)) :=
    (List.perm_cons_erase hmem).map _
  rw [hperm.sum_eq, List.map_cons, List.sum_cons]
  congr 1
  simp [shareAt, hb]

end Counters

/-! ## Moves -/

namespace Counted

variable {m m' : Mgt} {l l' : List Event} {F F' : Multiset Token} {mem : Nat} {b b' : Block}

theorem same (h : Counted ⟨m, l, F⟩) (hwhole : Whole ⟨m', l', F'⟩) (hlist : m'.memList = m.memList)
    (hcounter : ∀ c, m'.counter c = m.counter c) (hblocks : ∀ x ∈ m.memList, ∀ c, m'.shareAt c x = m.shareAt c x)
    (hcoherent : ∀ x ∈ m.memList, ∀ b', m'.blocks.lookup x = some b' → b'.fromFlags = .coherent → b'.IsBuffer)
    (hsum : ∀ c, tokenSum F' c = tokenSum F c)
    (htokens : NoCoherent F') : Counted ⟨m', l', F'⟩ where
  whole := hwhole
  counters := by
    intro c
    rw [hcounter, listedSum_congr hlist (fun x hx => hblocks x hx c), hsum]
    exact h.counters c
  coherent := by
    intro x hx
    exact hcoherent x (hlist ▸ hx)
  tokens := htokens

theorem tokens_cons {t : Token} (h : Counted ⟨m, l, F⟩) (ht : ∀ b, t.block? = some b → b.fromFlags ≠ .coherent) :
    NoCoherent (t ::ₘ F) := by
  intro t' ht'
  rcases Multiset.mem_cons.mp ht' with rfl | ht'
  · exact ht
  · exact h.tokens t' ht'

theorem tokens_tail {t : Token} (h : Counted ⟨m, l, t ::ₘ F⟩) : NoCoherent F :=
  fun t' ht' => h.tokens t' (Multiset.mem_cons_of_mem ht')

theorem shareAt_insert_of_ne {x : Nat} {c : Counter} (hx : x ≠ mem) : (m.setBlock mem b').shareAt c x = m.shareAt c x := by
  unfold shareAt setBlock
  rw [AList.lookup_insert_ne hx]

theorem setBlock (h : Counted ⟨m, l, F⟩) (hb : m.blocks.lookup mem = some b) (hlist : m'.memList = m.memList)
    (hblocks : m'.blocks = m.blocks.insert mem b') (hcounter : ∀ c, m'.counter c = m.counter c)
    (hshare : ∀ c, b'.share c = b.share c)
    (hcoherent : mem ∈ m.memList → b'.fromFlags = .coherent → b'.IsBuffer) : Counted ⟨m', l', F⟩ := by
  have hlive : m'.live = m.live := by
    show (m'.blocks.keys : Multiset Nat) = _
    rw [hblocks]
    exact live_setBlock (mem_live_of_lookup hb)
  refine h.same (h.whole.same hlive hlist) hlist hcounter ?_ ?_ (fun _ => rfl) h.tokens
  · intro x _ c
    unfold shareAt
    rw [hblocks]
    by_cases hx : x = mem
    · subst hx
      simp [hb, hshare c]
    · rw [AList.lookup_insert_ne hx]
  · intro x hx x' hx' hfrom
    rw [hblocks] at hx'
    rcases Heap.lookup_insert_iff.mp hx' with ⟨rfl, rfl⟩ | ⟨-, hold⟩
    · exact hcoherent hx hfrom
    · exact h.coherent x hx x' hold hfrom

theorem erase (h : Counted ⟨m, l, F⟩) (hwhole : Whole ⟨{ m with blocks := m.blocks.erase mem }, l', F'⟩)
    (hmem : mem ∉ m.memList) (hsum : ∀ c, tokenSum F' c = tokenSum F c)
    (htokens : NoCoherent F') :
    Counted ⟨{ m with blocks := m.blocks.erase mem }, l', F'⟩ := by
  refine h.same hwhole rfl (fun c => by cases c <;> rfl) ?_ ?_ hsum htokens
  · intro x hx c
    have hne : x ≠ mem := fun heq => hmem (heq ▸ hx)
    unfold shareAt
    rw [AList.lookup_erase_ne hne]
  · intro x hx x' hx'
    exact h.coherent x hx x' (Heap.lookup_erase_iff.mp hx').2

theorem exchange {t t' : Token} (h : Counted ⟨m, l, t ::ₘ F⟩) (hwhole : Whole ⟨m', l', t' ::ₘ F⟩)
    (hlist : m'.memList = m.memList) (hblocks : m'.blocks = m.blocks)
    (hcounter : ∀ c, m'.counter c + t.share c = m.counter c + t'.share c)
    (ht : ∀ b, t'.block? = some b → b.fromFlags ≠ .coherent) : Counted ⟨m', l', t' ::ₘ F⟩ := by
  refine ⟨hwhole, fun c => ?_, fun x hx x' hx' => ?_, fun t'' ht'' => ?_⟩
  · have hlisted : m'.listedSum c = m.listedSum c := by
      refine listedSum_congr hlist fun x _ => ?_
      unfold shareAt
      rw [hblocks]
    have hcount : m.counter c = m.listedSum c + (t.share c + tokenSum F c) := tokenSum_cons t F c ▸ h.counters c
    refine add_right_cancel (b := t.share c) ?_
    rw [tokenSum_cons, hlisted, show counter (Snap.mgt ⟨m', _, _⟩) c + _ = _ from hcounter c, hcount]
    ring
  · exact h.coherent x (hlist ▸ hx) x' (hblocks ▸ hx')
  · rcases Multiset.mem_cons.mp ht'' with rfl | ht''
    · exact ht
    · exact h.tokens_tail t'' ht''

theorem blockMove {v v' : Snap} (hmove : BlockMove v v') (h : Counted v) : Counted v' := by
  have hwhole := h.whole.blockMove hmove
  cases hmove with
  | @new m l F mem b free =>
    have hno : mem ∉ m.memList := h.whole.notMem_of_free free
    have hne : ∀ x ∈ m.memList, x ≠ mem := fun x hx heq => hno (heq ▸ hx)
    refine h.same hwhole rfl (fun c => by cases c <;> rfl) (fun x hx c => shareAt_insert_of_ne (hne x hx)) ?_
      (fun c => by rw [tokenSum_cons]; exact zero_add _) (h.tokens_cons fun _ hb => by cases hb)
    intro x hx x' hx'
    exact h.coherent x hx x' (by rwa [Mgt.setBlock, AList.lookup_insert_ne (hne x hx)] at hx')
  | take memory tvp owners =>
    refine h.exchange hwhole (takes_memList memory) (takes_blocks memory) ?_ ?_
    · cases memory with
      | system source => exact fun _ => rfl
      | piece => exact fun c => by cases c <;> rfl
    · intro b' hb' hfrom
      cases hb'
      cases memory with
      | system source => rcases source with hs | hs <;> · rw [hs] at hfrom; cases hfrom
      | piece pool => simp [poolOf, hfrom] at pool
  | @scrap m l F mem | @kfree m l F mem =>
    have hno : mem ∉ m.memList := h.whole.notMem_of_token (Multiset.mem_singleton_self mem)
    exact h.erase hwhole hno (fun c => by rw [tokenSum_cons]; exact (zero_add _).symm) h.tokens_tail
  | @enter m l F mem b owner =>
    have hnew : mem ∉ m.memList := h.whole.notMem_of_token (Multiset.mem_singleton_self mem)
    have hb : b.fromFlags ≠ .coherent := h.tokens _ (Multiset.mem_cons_self _ _) b rfl
    refine ⟨hwhole, ?_, ?_, h.tokens_tail⟩
    · intro c
      have hcount := h.counters c
      rw [tokenSum_cons, show Token.share c _ = 0 from rfl, zero_add] at hcount
      rw [counter_count (b := b.first owner) hb,
        listedSum_append hnew (count_memList m mem (b.first owner)) (count_blocks m mem (b.first owner)),
        show m.counter c = _ from hcount]
      exact add_right_comm _ _ _
    · intro x hx x' hx' hfrom
      rw [show (Snap.mgt ⟨m.count mem (b.first owner), _, _⟩).memList = _ from count_memList _ _ _] at hx
      rw [show (Snap.mgt ⟨m.count mem (b.first owner), _, _⟩).blocks = _ from count_blocks _ _ _] at hx'
      rcases Heap.lookup_insert_iff.mp hx' with ⟨rfl, rfl⟩ | ⟨hne, hold⟩
      · exact absurd hfrom hb
      · rcases List.mem_append.mp hx with hx | hx
        · exact h.coherent x hx x' hold hfrom
        · exact absurd (List.mem_singleton.mp hx) hne
  | drop listed live index entry more =>
    refine h.setBlock live rfl rfl (fun c => by cases c <;> rfl) (fun _ => rfl) ?_
    intro _ hfrom
    rw [(h.coherent _ listed _ live hfrom).1] at index
    exact absurd index (by decide)
  | @unlist m l F mem b maxOwner owner hmem hb hentry hlast =>
    -- a block with a reference is no V4L buffer
    have hfrom : b.fromFlags ≠ .coherent := by
      intro hfrom
      rw [(h.coherent mem hmem b hb hfrom).1] at hlast
      cases hlast
    have hnodup := h.whole.nodup_memList
    refine ⟨hwhole, ?_, ?_, h.tokens_cons ?_⟩
    · intro c
      have herase : m.listedSum c = listedSum
          { m.setBlock mem (b.released maxOwner owner) with memList := m.memList.erase mem } c + b.share c :=
        listedSum_erase hmem hb rfl fun x hx => shareAt_insert_of_ne ((hnodup.mem_erase_iff).mp hx).1
      have hcount := h.counters c
      rw [tokenSum_cons, show Token.share c _ = b.share c from rfl, ← add_assoc, ← herase, ← hcount]
      cases c <;> rfl
    · intro x hx x' hx' hcoherent
      obtain ⟨hne, hx⟩ := (hnodup.mem_erase_iff).mp hx
      rcases Heap.lookup_insert_iff.mp hx' with ⟨heq, -⟩ | ⟨-, hold⟩
      · exact absurd heq hne
      · exact h.coherent x hx x' hold hcoherent
    · intro b' hb'
      cases hb'
      exact hfrom
  | @give m m' l F mem b memory =>
    refine h.exchange hwhole (gives_memList memory) (gives_blocks memory) ?_ ?_
    · cases memory with
      | system source => exact fun _ => rfl
      | piece => exact fun c => by cases c <;> rfl
    · intro b' hb'
      cases hb'
      exact h.tokens (.owed mem b) (Multiset.mem_cons_self _ _) b rfl
  | @uncount m l F mem b =>
    have hb : b.fromFlags ≠ .coherent := h.tokens _ (Multiset.mem_cons_self _ _) b rfl
    refine h.exchange hwhole (uncount_memList m b) (uncount_blocks m b) (fun c => ?_) ?_
    · exact (counter_uncount hb).trans (add_zero _).symm
    · intro b' hb'
      cases hb'

theorem poolMove {v v' : Snap} (hmove : PoolMove v v') (h : Counted v) : Counted v' := by
  have hwhole := h.whole.poolMove hmove
  cases hmove with
  | @create m l F name id mm b free live room =>
    refine h.setBlock live rfl rfl (fun c => ?_) (fun _ => rfl) fun hmem => h.coherent mm hmem b live
    have hslot : (m.setSlot name (m.extPool name).slotNum (some ⟨id, mm⟩)).counter c = m.counter c :=
      counter_setPool rfl
    cases c <;> exact hslot
  | @handle m l F mm b n live =>
    exact h.setBlock live rfl rfl (fun c => by cases c <;> rfl) (fun _ => rfl) fun hmem => h.coherent mm hmem b live
  | destroy slot live unused other =>
    exact h.same hwhole rfl (fun c => by cases c <;> rfl) (fun _ _ _ => rfl) h.coherent
      (fun c => by rw [tokenSum_cons]; exact zero_add _) (h.tokens_cons fun _ hb => by cases hb)
  | close =>
    exact h.same hwhole rfl (fun _ => counter_setPool rfl) (fun _ _ _ => rfl) h.coherent
      (fun c => by rw [tokenSum_cons]; exact (zero_add _).symm) h.tokens_tail
  | grow | size | settle closed =>
    exact h.same hwhole rfl (fun _ => counter_setPool rfl) (fun _ _ _ => rfl) h.coherent (fun _ => rfl) h.tokens
  | switch =>
    exact h.same hwhole rfl (fun c => by cases c <;> rfl) (fun _ _ _ => rfl) h.coherent (fun _ => rfl) h.tokens

theorem move {v v' : Snap} (hmove : Move v v') (h : Counted v) : Counted v' := by
  cases hmove with
  | block move => exact h.blockMove move
  | pool move => exact h.poolMove move

end Counted

/-! ## Calls -/

section Calls

variable {ω : Type} {E : Externals ω} {s s' : State ω}

theorem counted_of_fresh {m : Mgt} {l : List Event} (h : Fresh m) : Counted ⟨m, l, 0⟩ where
  whole := h.whole
  counters := by
    intro c
    show m.counter c = m.listedSum c + 0
    rw [listedSum, h.memList, add_zero]
    cases c with
    | total => exact h.totalAllocedSize
    | sys => exact h.allocedSysSize
    | cma => exact h.allocedCmaSize
    | reserved => exact h.allocedResSize
    | pool name =>
      show (m.extPool name).allocedSize = 0
      rw [h.extPool]
      rfl
  coherent := by
    intro mem hmem
    rw [show (Snap.mgt ⟨m, l, 0⟩).memList = [] from h.memList] at hmem
    cases hmem
  tokens := fun _ ht => absurd ht (Multiset.notMem_zero _)

theorem Counted.reqbufs {m : Mgt} {l : List Event} {mem : Nat} {b : Block} (h : Counted ⟨m, l, 0⟩)
    (hnew : mem ∉ m.blocks) (hfrom : b.fromFlags = .coherent) (hbuffer : b.IsBuffer) :
    Counted ⟨(m.setBlock mem b).countCoherent mem b, l, 0⟩ := by
  have hlist : mem ∉ m.memList := h.whole.notMem_of_free hnew
  -- the structure is written twice
  have hblocks : ((m.setBlock mem b).countCoherent mem b).blocks =
      m.blocks.insert mem { b with memId := m.globalMemid } := AList.insert_insert _
  refine ⟨?_, ?_, ?_, h.tokens⟩
  · have hold : m.live = m.memList + 0 := h.whole
    show (((m.setBlock mem b).countCoherent mem b).blocks.keys : Multiset Nat) =
      ((m.memList ++ [mem] : List Nat) : Multiset Nat) + 0
    rw [hblocks]
    calc _ = mem ::ₘ m.live := live_setBlock_new hnew
      _ = mem ::ₘ (m.memList : Multiset Nat) := by rw [hold, add_zero]
      _ = _ := by rw [add_zero, ← Multiset.coe_add, add_comm]; rfl
  · intro c
    have hcount : m.counter c = m.listedSum c + 0 := h.counters c
    show ((m.setBlock mem b).countCoherent mem b).counter c = ((m.setBlock mem b).countCoherent mem b).listedSum c + 0
    rw [counter_countCoherent hfrom hbuffer.2, listedSum_append hlist rfl hblocks, add_right_comm, ← hcount]
    cases c <;> rfl
  · intro x hx x' hx' hcoherent
    rw [show (Snap.mgt ⟨(m.setBlock mem b).countCoherent mem b, l, 0⟩).blocks = _ from hblocks] at hx'
    rcases Heap.lookup_insert_iff.mp hx' with ⟨-, rfl⟩ | ⟨hne, hold⟩
    · exact hbuffer
    · rcases List.mem_append.mp hx with hx | hx
      · exact h.coherent x hx x' hold hcoherent
      · exact absurd (List.mem_singleton.mp hx) hne

theorem Counted.freebufs {m : Mgt} {l : List Event} {mem : Nat} {b : Block} (h : Counted ⟨m, l, 0⟩)
    (hmem : mem ∈ m.memList) (hb : m.blocks.lookup mem = some b) (hfrom : b.fromFlags = .coherent) :
    Counted ⟨{ m.uncountCoherent mem b with blocks := m.blocks.erase mem }, l ++ [.free mem], 0⟩ := by
  have hnodup := h.whole.nodup_memList
  have hbuffer := h.coherent mem hmem b hb hfrom
  refine ⟨?_, ?_, ?_, h.tokens⟩
  · have hold : m.live = m.memList + 0 := h.whole
    show ((m.blocks.erase mem).keys : Multiset Nat) = ((m.memList.erase mem : List Nat) : Multiset Nat) + 0
    calc _ = m.live.erase mem := live_erase
      _ = _ := by rw [hold, add_zero, add_zero, Multiset.coe_erase]
  · intro c
    have hcount : m.counter c = m.listedSum c + 0 := h.counters c
    have herase : m.listedSum c = listedSum { m.uncountCoherent mem b with blocks := m.blocks.erase mem } c +
        b.share c := by
      refine listedSum_erase hmem hb rfl fun x hx => ?_
      unfold shareAt
      rw [AList.lookup_erase_ne ((hnodup.mem_erase_iff).mp hx).1]
    have huncount : (m.uncountCoherent mem b).counter c + b.share c = m.counter c :=
      counter_uncountCoherent hfrom hbuffer.2
    refine add_right_cancel (b := b.share c) ?_
    show counter { m.uncountCoherent mem b with blocks := m.blocks.erase mem } c + b.share c =
      listedSum { m.uncountCoherent mem b with blocks := m.blocks.erase mem } c + 0 + b.share c
    rw [add_zero, ← herase, ← add_zero (m.listedSum c), ← hcount, ← huncount]
    cases c <;> rfl
  · intro x hx x' hx' hcoherent
    obtain ⟨-, hx⟩ := (hnodup.mem_erase_iff).mp hx
    exact h.coherent x hx x' (Heap.lookup_erase_iff.mp hx').2 hcoherent

/-- V4L buffers are not used as other blocks, and are given back by their owner. -/
def LeavesV4lAlone (s : State ω) : Op → Prop
  | .requestSharedMem mem _ => ∀ b, mem ∈ s.mgt.memList → s.mgt.blocks.lookup mem = some b → b.fromFlags ≠ .coherent
  | .release mem _ | .releaseWithCheck mem _ =>
    ∀ p ∈ mem, ∀ b, p ∈ s.mgt.memList → s.mgt.blocks.lookup p = some b → b.fromFlags ≠ .coherent
  | .freeForDma _ phyAddr =>
    ∀ p b, codecMmGetByPhyAddr s.mgt phyAddr = some p → s.mgt.blocks.lookup p = some b → b.fromFlags ≠ .coherent
  | .v4lFreebufs owner mem =>
    ∀ p ∈ mem, p ∈ s.mgt.memList ∧ ∀ b, s.mgt.blocks.lookup p = some b →
      b.fromFlags = .coherent ∧ b.owner[0]? = some (some owner) ∧ b.bufferSize ≠ 0
  | _ => True

/-- The counters are the sums over the list, and the list has the blocks that are not freed, each once. -/
structure AccountingLaw (s : State ω) : Prop where
  counter : ∀ c, s.mgt.counter c = s.mgt.listedSum c
  nodup : s.mgt.memList.Nodup
  listed : ∀ mem, mem ∈ s.mgt.memList ↔ mem ∈ s.mgt.blocks

theorem counted_of_reached (h : Reached E LeavesV4lAlone s) : Counted (s.snap 0) := by
  refine Reached.induct (P := fun s => Counted (s.snap 0)) ?_ ?_ h
  · intro s hs
    exact counted_of_fresh hs.fresh.1
  · intro s op r s' hs hok hexec
    cases op with
    | requestSharedMem mem owner =>
      obtain ⟨-, hlog, ⟨b, hmem, hb, -, -, hmgt⟩ | ⟨-, hmgt⟩⟩ := requestSharedMem_eq_ok hexec
      · rw [State.snap, hmgt]
        exact hs.setBlock hb rfl rfl (fun c => by cases c <;> rfl) (fun _ => rfl)
          fun _ hfrom => absurd hfrom (hok b hmem hb)
      · rw [State.snap, hmgt]
        exact ⟨hs.whole, hs.counters, hs.coherent, hs.tokens⟩
    | v4lReqbufs owner addr size =>
      obtain ⟨hlog, hmgt | ⟨mem, hnew, hmgt⟩⟩ := v4lReqbufs_eq_ok hexec
      · rw [State.snap, hmgt, hlog]
        exact hs
      · rw [State.snap, hmgt, hlog]
        exact hs.reqbufs hnew rfl ⟨rfl, show ¬Has (0 : CInt) flagsForLocalMgr by decide⟩
    | v4lFreebufs owner mem =>
      obtain ⟨-, hmgt, hlog⟩ | ⟨p, b, rfl, hb, hlog, hmgt⟩ := v4lFreebufs_eq_ok hexec
      · rw [State.snap, hmgt, hlog]
        exact hs
      · obtain ⟨hmem, hbuffer⟩ := hok p rfl
        obtain ⟨hfrom, howner⟩ := hbuffer b hb
        rw [State.snap, hmgt, hlog, if_pos howner]
        exact hs.freebufs hmem hb hfrom
    | _ => exact exec_keeps (fun _ _ hmove h => h.move hmove) hexec trivial hs

def twoBlocks : List Op := [.alloc "decoder" 4096 0 flagsCpu, .v4lReqbufs "camera" 0x1000 8192]

def Mgt.sumOver (m : Mgt) (p : Block → Bool) : CInt :=
  (m.memList.map fun mem => (m.blocks.lookup mem).elim 0 fun b => if p b then b.bufferSize else 0).sum

end Calls

end Amlogic.CodecMem
