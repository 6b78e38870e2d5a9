import Amlogic.CodecMem.Proofs.RunProofs
import Amlogic.CodecMem.Script

/-!
# Sharing blocks

The count of a listed block is the number of references that were taken and not given back, and a block is freed
when there are none left.
-/

namespace Amlogic.CodecMem

open Multiset

def acquires (log : List Event) (mem : Nat) : Nat := log.count (.acquire mem)

def releases (log : List Event) (mem : Nat) : Nat := log.count (.release mem)

def Event.mem : Event → Nat
  | .acquire mem | .release mem | .free mem => mem

/-- Each time that a block was freed, all its references had been given back. -/
def FreedAfterRelease (log : List Event) : Prop :=
  ∀ before mem after, log = before ++ .free mem :: after → acquires before mem = releases before mem

section Log

variable {log : List Event} {mem x : Nat}

theorem acquires_append (e : Event) :
    acquires (log ++ [e]) x = acquires log x + if e = .acquire x then 1 else 0 := by
  simp [acquires, List.count_append, List.count_singleton]

theorem releases_append (e : Event) :
    releases (log ++ [e]) x = releases log x + if e = .release x then 1 else 0 := by
  simp [releases, List.count_append, List.count_singleton]

theorem FreedAfterRelease.append (h : FreedAfterRelease log) {e : Event}
    (he : ∀ mem, e = .free mem → acquires log mem = releases log mem) : FreedAfterRelease (log ++ [e]) := by
  intro before mem after heq
  rcases List.eq_nil_or_concat after with rfl | ⟨after', e', rfl⟩
  · obtain ⟨rfl, hlast⟩ := List.append_inj' heq rfl
    exact he mem (List.cons.inj hlast).1
  · rw [List.concat_eq_append, ← List.cons_append, ← List.append_assoc] at heq
    exact h before mem after' (List.append_inj' heq rfl).1

end Log

structure Referenced (log : List Event) (mem : Nat) (b : Block) : Prop where
  owners : b.owner.length = 8
  pos : 1 ≤ b.useCnt.toNat
  le : b.useCnt.toNat ≤ 8
  count : acquires log mem = releases log mem + b.useCnt.toNat

structure Shared (v : Snap) : Prop where
  whole : Whole v
  listed : ∀ mem ∈ v.mgt.memList, ∀ b, v.mgt.blocks.lookup mem = some b → Referenced v.log mem b
  unlisted : ∀ mem, mem ∉ v.mgt.memList → acquires v.log mem = releases v.log mem
  freed : FreedAfterRelease v.log
  taken : ∀ mem b, .taken mem b ∈ v.tokens → b.owner.length = 8

namespace Shared

variable {m m' : Mgt} {l : List Event} {F F' : Multiset Token} {mem : Nat} {b : Block}

theorem of_mem_cons {t : Token} (ht : ∀ mem b, .taken mem b = t → False) (h : .taken mem b ∈ t ::ₘ F) :
    .taken mem b ∈ F := by
  rcases mem_cons.mp h with heq | hmem
  · exact (ht mem b heq).elim
  · exact hmem

theorem same (h : Shared ⟨m, l, F⟩) (hwhole : Whole ⟨m', l, F'⟩) (hlist : m'.memList = m.memList)
    (hblocks : ∀ mem ∈ m.memList, ∀ b', m'.blocks.lookup mem = some b' →
      ∃ b, m.blocks.lookup mem = some b ∧ b'.useCnt = b.useCnt ∧ b'.owner = b.owner)
    (htaken : ∀ mem b, .taken mem b ∈ F' → b.owner.length = 8) : Shared ⟨m', l, F'⟩ where
  whole := hwhole
  listed := by
    intro mem hmem b' hb'
    rw [show (Snap.mgt ⟨m', l, F'⟩).memList = m.memList from hlist] at hmem
    obtain ⟨b, hb, huse, howner⟩ := hblocks mem hmem b' hb'
    obtain ⟨howners, hpos, hle, hcount⟩ := h.listed mem hmem b hb
    exact ⟨howner ▸ howners, huse ▸ hpos, huse ▸ hle, huse ▸ hcount⟩
  unlisted := by
    intro mem hmem
    exact h.unlisted mem (hlist ▸ hmem)
  freed := h.freed
  taken := htaken

theorem lookup_setBlock {b' x' : Block} {x : Nat} (hx : x ∈ m.memList)
    (hlookup : (m.blocks.insert mem b').lookup x = some x')
    (hb : mem ∉ m.memList ∨ m.blocks.lookup mem = some b ∧ b'.useCnt = b.useCnt ∧ b'.owner = b.owner) :
    ∃ y, m.blocks.lookup x = some y ∧ x'.useCnt = y.useCnt ∧ x'.owner = y.owner := by
  rcases Heap.lookup_insert_iff.mp hlookup with ⟨rfl, rfl⟩ | ⟨hne, hold⟩
  · rcases hb with hno | hb
    · exact absurd hx hno
    · exact ⟨b, hb⟩
  · exact ⟨x', hold, rfl, rfl⟩

theorem event {e : Event} (h : Shared ⟨m, l, F⟩) (hwhole : Whole ⟨m', l ++ [e], F'⟩)
    (hlist : ∀ x, x ≠ e.mem → (x ∈ m'.memList ↔ x ∈ m.memList))
    (hblocks : ∀ x, x ≠ e.mem → m'.blocks.lookup x = m.blocks.lookup x)
    (hlisted : e.mem ∈ m'.memList → ∀ b, m'.blocks.lookup e.mem = some b → Referenced (l ++ [e]) e.mem b)
    (hunlisted : e.mem ∉ m'.memList → acquires (l ++ [e]) e.mem = releases (l ++ [e]) e.mem)
    (hfree : ∀ mem, e = .free mem → acquires l mem = releases l mem)
    (htaken : ∀ mem b, .taken mem b ∈ F' → b.owner.length = 8) : Shared ⟨m', l ++ [e], F'⟩ := by
  have hsame : ∀ x, x ≠ e.mem → acquires (l ++ [e]) x = acquires l x ∧ releases (l ++ [e]) x = releases l x := by
    intro x hx
    rw [acquires_append, releases_append, if_neg, if_neg]
    · exact ⟨rfl, rfl⟩
    all_goals
      rintro rfl
      exact hx rfl
  refine ⟨hwhole, fun x hx b hb => ?_, fun x hx => ?_, h.freed.append hfree, htaken⟩
  · by_cases hne : x = e.mem
    · exact hne ▸ hlisted (hne ▸ hx) b (hne ▸ hb)
    · obtain ⟨howners, hpos, hle, hcount⟩ := h.listed x ((hlist x hne).mp hx) b ((hblocks x hne).symm.trans hb)
      refine ⟨howners, hpos, hle, ?_⟩
      rw [(hsame x hne).1, (hsame x hne).2]
      exact hcount
  · by_cases hne : x = e.mem
    · exact hne ▸ hunlisted (hne ▸ hx)
    · rw [(hsame x hne).1, (hsame x hne).2]
      exact h.unlisted x fun hold => hx ((hlist x hne).mpr hold)

variable {owner : String} {maxOwner : Option String}

theorem enter (h : Shared ⟨m, l, .taken mem b ::ₘ F⟩) :
    Shared ⟨m.count mem (b.first owner), l ++ [.acquire mem], F⟩ := by
  have hnew : mem ∉ m.memList := h.whole.notMem_of_token (mem_singleton_self mem)
  refine h.event (h.whole.blockMove .enter) ?_ ?_ ?_ ?_ nofun fun x b' hx => h.taken x b' (mem_cons_of_mem hx)
  · intro x hx
    rw [count_memList, List.mem_append, List.mem_singleton]
    exact or_iff_left hx
  · intro x hx
    rw [count_blocks]
    exact AList.lookup_insert_ne hx
  · intro _ b' hb'
    rw [count_blocks] at hb'
    obtain rfl := Option.some.inj ((AList.lookup_insert _).symm.trans hb')
    refine ⟨?_, show 1 ≤ (1 : CInt).toNat by decide, show (1 : CInt).toNat ≤ 8 by decide, ?_⟩
    · show (b.owner.set 0 (some owner)).length = 8
      rw [List.length_set]
      exact h.taken mem b (mem_cons_self _ _)
    · show acquires (l ++ [.acquire mem]) mem = releases (l ++ [.acquire mem]) mem + 1
      rw [acquires_append, releases_append, if_pos rfl, if_neg nofun, h.unlisted mem hnew]
  · rw [count_memList]
    exact fun hno => absurd (List.mem_append_right _ (List.mem_singleton_self _)) hno

theorem setBlock {e : Event} {b' : Block} (h : Shared ⟨m, l, F⟩) (hmem : e.mem ∈ m.memList)
    (hb : m.blocks.lookup e.mem = some b) (hfree : ∀ mem, e ≠ .free mem) (href : Referenced (l ++ [e]) e.mem b') :
    Shared ⟨m.setBlock e.mem b', l ++ [e], F⟩ := by
  refine h.event (h.whole.same (live_setBlock (mem_live_of_lookup hb)) rfl) (fun _ _ => Iff.rfl)
    (fun x hx => AList.lookup_insert_ne hx) ?_ (fun hno => absurd hmem hno) (fun mem he => absurd he (hfree mem)) h.taken
  intro _ x hx
  obtain rfl := Option.some.inj ((AList.lookup_insert _).symm.trans hx)
  exact href

theorem blockMove {v v' : Snap} (hmove : BlockMove v v') (h : Shared v) : Shared v' := by
  have hwhole := h.whole.blockMove hmove
  cases hmove with
  | new free =>
    refine h.same hwhole rfl ?_ fun mem b hmem => h.taken mem b (of_mem_cons (fun _ _ h => by cases h) hmem)
    intro x hx x' hx'
    exact lookup_setBlock (b := x') hx hx' (Or.inl (h.whole.notMem_of_free free))
  | take memory tvp owners =>
    refine h.same hwhole (takes_memList memory) ?_ ?_
    · intro x hx x' hx'
      rw [takes_blocks memory] at hx'
      exact ⟨x', hx', rfl, rfl⟩
    · intro x b' hx
      rcases mem_cons.mp hx with heq | hx
      · cases heq
        exact owners
      · exact h.taken x b' (mem_cons_of_mem hx)
  | scrap =>
    exact h.same hwhole rfl (fun x hx x' hx' => ⟨x', (Heap.lookup_erase_iff.mp hx').2, rfl, rfl⟩) fun x b' hx =>
      h.taken x b' (mem_cons_of_mem hx)
  | enter => exact h.enter
  | @drop m l F mem b maxOwner owner listed live index entry more =>
    obtain ⟨howners, hpos, hle, hcount⟩ := h.listed mem listed b live
    have huse : (b.useCnt - 1).toNat = b.useCnt.toNat - 1 := by bv_omega
    have hmore : b.useCnt.toNat ≠ 1 := by
      intro h1
      exact more (BitVec.eq_of_toNat_eq (by rw [huse, h1]; rfl))
    refine h.setBlock (e := .release mem) listed live nofun ⟨?_, ?_, ?_, ?_⟩
    · simp [Block.released, Block.dropOwner, howners]
    · show 1 ≤ (b.useCnt - 1).toNat
      omega
    · show (b.useCnt - 1).toNat ≤ 8
      omega
    · show acquires (l ++ [.release mem]) mem = releases (l ++ [.release mem]) mem + (b.useCnt - 1).toNat
      have hcount : acquires l mem = releases l mem + b.useCnt.toNat := hcount
      rw [acquires_append, releases_append, if_neg nofun, if_pos rfl]
      omega
  | @unlist m l F mem b maxOwner owner listed live entry last =>
    obtain ⟨-, hpos, hle, hcount⟩ := h.listed mem listed b live
    have huse : b.useCnt.toNat = 1 := by
      have hsub : (b.useCnt - 1).toNat = b.useCnt.toNat - 1 := by bv_omega
      rw [last] at hsub
      simp at hsub
      omega
    refine h.event hwhole (fun x hx => List.mem_erase_of_ne hx)
      (fun x hx => AList.lookup_insert_ne hx) ?_ ?_ nofun
      fun x b' hx => h.taken x b' (of_mem_cons (fun _ _ h => by cases h) hx)
    · exact fun hin => absurd hin h.whole.nodup_memList.not_mem_erase
    · intro _
      show acquires (l ++ [.release mem]) mem = releases (l ++ [.release mem]) mem
      rw [acquires_append, releases_append, if_neg nofun, if_pos rfl, show acquires l mem = _ from hcount, huse]
  | give memory =>
    refine h.same hwhole (gives_memList memory) ?_ fun x b' hx =>
      h.taken x b' (mem_cons_of_mem (of_mem_cons (fun _ _ h => by cases h) hx))
    intro x hx x' hx'
    rw [gives_blocks memory] at hx'
    exact ⟨x', hx', rfl, rfl⟩
  | uncount =>
    refine h.same hwhole (uncount_memList _ _) ?_ fun x b' hx =>
      h.taken x b' (mem_cons_of_mem (of_mem_cons (fun _ _ h => by cases h) hx))
    intro x hx x' hx'
    rw [uncount_blocks] at hx'
    exact ⟨x', hx', rfl, rfl⟩
  | @kfree m l F mem =>
    have hno : mem ∉ m.memList := h.whole.notMem_of_token (mem_singleton_self mem)
    refine h.event hwhole (fun _ _ => Iff.rfl) (fun x hx => AList.lookup_erase_ne hx)
      (fun hin => absurd hin hno) ?_ ?_ fun x b' hx => h.taken x b' (mem_cons_of_mem hx)
    · intro _
      show acquires (l ++ [.free mem]) mem = releases (l ++ [.free mem]) mem
      rw [acquires_append, releases_append, if_neg nofun, if_neg nofun]
      exact h.unlisted mem hno
    · intro x hx
      obtain rfl := Event.free.inj hx
      exact h.unlisted _ hno

theorem poolMove {v v' : Snap} (hmove : PoolMove v v') (h : Shared v) : Shared v' := by
  have hwhole := h.whole.poolMove hmove
  cases hmove with
  | create free live room | handle live =>
    exact h.same hwhole rfl (fun x hx x' hx' => lookup_setBlock hx hx' (Or.inr ⟨live, rfl, rfl⟩)) h.taken
  | destroy slot live unused other =>
    exact h.same hwhole rfl (fun x hx x' hx' => ⟨x', hx', rfl, rfl⟩) fun x b' hx =>
      h.taken x b' (of_mem_cons (fun _ _ h => by cases h) hx)
  | close =>
    exact h.same hwhole rfl (fun x hx x' hx' => ⟨x', hx', rfl, rfl⟩) fun x b' hx =>
      h.taken x b' (mem_cons_of_mem hx)
  | grow | size | settle closed | switch =>
    exact h.same hwhole rfl (fun x hx x' hx' => ⟨x', hx', rfl, rfl⟩) h.taken

theorem move {v v' : Snap} (hmove : Move v v') (h : Shared v) : Shared v' := by
  cases hmove with
  | block move => exact h.blockMove move
  | pool move => exact h.poolMove move

end Shared

/-! ## Calls -/

section Calls

variable {ω : Type} {E : Externals ω} {s s' : State ω}

theorem Shared.share {m : Mgt} {l : List Event} {F : Multiset Token} {mem : Nat} {b : Block}
    (h : Shared ⟨m, l, F⟩) (hmem : mem ∈ m.memList) (hb : m.blocks.lookup mem = some b)
    (hle : b.useCnt.toInt < 8) : Shared ⟨m.setBlock mem (b.sharedBy owner), l ++ [.acquire mem], F⟩ := by
  obtain ⟨howners, hpos, hle8, hcount⟩ := h.listed mem hmem b hb
  have hle : b.useCnt.toNat < 8 := by
    rw [BitVec.toInt_eq_toNat_of_lt (by omega)] at hle
    exact_mod_cast hle
  have huse : (b.useCnt + 1).toNat = b.useCnt.toNat + 1 := by bv_omega
  refine h.setBlock (e := .acquire mem) hmem hb nofun ⟨?_, ?_, ?_, ?_⟩
  · show (b.owner.set _ _).length = 8
    rw [List.length_set]
    exact howners
  · show 1 ≤ (b.useCnt + 1).toNat
    omega
  · show (b.useCnt + 1).toNat ≤ 8
    omega
  · show acquires (l ++ [.acquire mem]) mem = releases (l ++ [.acquire mem]) mem + (b.useCnt + 1).toNat
    have hcount : acquires l mem = releases l mem + b.useCnt.toNat := hcount
    rw [acquires_append, releases_append, if_pos rfl, if_neg nofun]
    omega

/-- Blocks are shared only while they are on the list and held by less than eight, and there are no V4L buffers, which
have no references at all. -/
def SharesFairly (s : State ω) : Op → Prop
  | .requestSharedMem mem _ =>
    mem ∈ s.mgt.memList ∧ ∀ b, s.mgt.blocks.lookup mem = some b → b.useCnt.toInt < 8
  | .v4lReqbufs .. | .v4lFreebufs .. => False
  | _ => True

def TookReference (m m' : Mgt) (mem : Nat) : Prop :=
  ∃ b b', m.blocks.lookup mem = some b ∧ m'.blocks.lookup mem = some b' ∧ b'.useCnt = b.useCnt + 1

/-- What callers rely on when they share blocks: the count of a block is that of its owners, which have room in the
array, a block is freed after the last release, and a caller is told the truth. -/
structure SharingLaw (E : Externals ω) (allowed : State ω → Op → Prop) (s : State ω) : Prop where
  count : ∀ mem ∈ s.mgt.memList, ∃ b, s.mgt.blocks.lookup mem = some b ∧ b.owner.length = 8 ∧
    1 ≤ b.useCnt.toInt ∧ b.useCnt.toInt ≤ 8
  freed : FreedAfterRelease s.log
  reply : ∀ mem owner r s', allowed s (.requestSharedMem mem owner) →
    exec E (.requestSharedMem mem owner) s = .ok (r, s') → (r = .code 0 ↔ TookReference s.mgt s'.mgt mem)

theorem shared_of_reached (h : Reached E SharesFairly s) : Shared (s.snap 0) := by
  refine Reached.induct (P := fun s => Shared (s.snap 0)) ?_ ?_ h
  · intro s hs
    obtain ⟨hfresh, hlog⟩ := hs.fresh
    refine ⟨hfresh.whole, ?_, ?_, ?_, fun _ _ hmem => absurd hmem (notMem_zero _)⟩
    · intro mem hmem
      rw [show (s.snap 0).mgt.memList = [] from hfresh.memList] at hmem
      cases hmem
    · intro mem _
      rw [show (s.snap 0).log = [] from hlog]
      rfl
    · intro before mem after heq
      rw [show (s.snap 0).log = [] from hlog] at heq
      cases before <;> cases heq
  · intro s op r s' hs hok hexec
    cases op with
    | requestSharedMem mem owner =>
      obtain ⟨hmem, hroom⟩ := hok
      obtain ⟨-, hlog, ⟨b, -, hb, -, -, hmgt⟩ | ⟨hfull, -⟩⟩ := requestSharedMem_eq_ok hexec
      · rw [State.snap, hmgt, hlog]
        exact hs.share hmem hb (hroom b hb)
      · obtain ⟨b, hb, hfull⟩ := hfull hmem
        have := hroom b hb
        omega
    | v4lReqbufs owner addr size | v4lFreebufs owner mem => exact hok.elim
    | _ => exact exec_keeps (fun _ _ hmove h => h.move hmove) hexec trivial hs

/-- Blocks are shared as their users expect, as long as a block is not shared more often than it has room for
owners. -/
theorem blocks_shared_fairly (h : Reached E SharesFairly s) : SharingLaw E SharesFairly s := by
  have hs := shared_of_reached h
  refine ⟨?_, hs.freed, ?_⟩
  · intro mem hmem
    obtain ⟨b, hb⟩ := hs.whole.lookup hmem
    obtain ⟨howners, hpos, hle, -⟩ := hs.listed mem hmem b hb
    refine ⟨b, hb, howners, ?_⟩
    rw [BitVec.toInt_eq_toNat_of_lt (by omega)]
    omega
  · intro mem owner r s' ⟨hmem, hroom⟩ hexec
    obtain ⟨hr, -, ⟨b, -, hb, -, -, hmgt⟩ | ⟨hfull, -⟩⟩ := requestSharedMem_eq_ok hexec
    · refine iff_of_true hr ⟨b, b.sharedBy owner, hb, ?_, rfl⟩
      rw [hmgt]
      exact AList.lookup_insert _
    · obtain ⟨b, hb, hfull⟩ := hfull hmem
      have := hroom b hb
      omega

theorem blocks_shared_fairly_plain : ∃ s : State Nat, s.mgt.memList = [1] ∧ SharingLaw plain SharesFairly s := by
  obtain ⟨s, hs, hlist⟩ := exists_of_plainCheck 0 [.alloc "decoder" 4096 0 flagsCpu]
    (fun s => decide (s.mgt.memList = [1])) (by decide +kernel)
  have hreached : Reached plain SharesFairly s := by
    refine reached_of_plainRun ?_ hs
    intro _ op hop
    obtain rfl := List.mem_singleton.mp hop
    trivial
  exact ⟨s, of_decide_eq_true hlist, blocks_shared_fairly hreached⟩

def Op.Shares : Op → Prop
  | .alloc .. | .requestSharedMem .. | .release .. => True
  | _ => False

def heldByNine : List Op := .alloc "decoder" 4096 0 flagsCpu :: List.replicate 8 (.requestSharedMem 1 "display")

/-- The ninth holder has no reference: the block is freed by the eighth release. -/
theorem shared_block_freed_early :
    ¬∀ s : State Nat, Reached plain (fun _ op => op.Shares) s → SharingLaw plain (fun _ op => op.Shares) s := by
  intro hall
  obtain ⟨s, hs, hlog⟩ := exists_of_plainCheck 0
    (heldByNine ++ List.replicate 8 (.release (some 1) "display"))
    (fun s => decide (s.log =
      (List.replicate 9 (.acquire 1) ++ List.replicate 8 (.release 1)) ++ .free 1 :: [])) (by decide +kernel)
  have hreached : Reached plain (fun _ op => op.Shares) s := by
    refine reached_of_plainRun ?_ hs
    intro _ op hop
    simp only [heldByNine, List.mem_append, List.mem_cons, List.mem_replicate] at hop
    rcases hop with (rfl | ⟨-, rfl⟩) | ⟨-, rfl⟩ <;> trivial
  have hcount := (hall s hreached).freed _ 1 [] (of_decide_eq_true hlog)
  revert hcount
  decide

/-- A block is on the list exactly as long as not all its references have been given back, and its use count
is the number of those that have not. -/
theorem references_counted (h : Reached E SharesFairly s) (mem : Nat) :
    (mem ∈ s.mgt.memList ↔ releases s.log mem < acquires s.log mem) ∧
    ∀ b, mem ∈ s.mgt.memList → s.mgt.blocks.lookup mem = some b →
      b.useCnt.toNat = acquires s.log mem - releases s.log mem := by
  have hs := shared_of_reached h
  have hlisted : ∀ b, mem ∈ s.mgt.memList → s.mgt.blocks.lookup mem = some b → Referenced s.log mem b :=
    fun b hmem => hs.listed mem hmem b
  refine ⟨⟨fun hmem => ?_, fun hlt => ?_⟩, fun b hmem hb => ?_⟩
  · obtain ⟨b, hb⟩ := hs.whole.lookup hmem
    obtain ⟨-, hpos, -, hcount⟩ := hlisted b hmem hb
    omega
  · by_contra hmem
    have hequal : acquires s.log mem = releases s.log mem := hs.unlisted mem hmem
    omega
  · have hcount := (hlisted b hmem hb).count
    omega

theorem references_counted_plain : ∃ s : State Nat, s.mgt.memList = [1] ∧
    releases s.log 1 < acquires s.log 1 := by
  obtain ⟨s, hs, hlist⟩ := exists_of_plainCheck 0 [.alloc "decoder" 4096 0 flagsCpu]
    (fun s => decide (s.mgt.memList = [1])) (by decide +kernel)
  have hlist : s.mgt.memList = [1] := of_decide_eq_true hlist
  have hreached : Reached plain SharesFairly s := by
    refine reached_of_plainRun ?_ hs
    intro _ op hop
    obtain rfl := List.mem_singleton.mp hop
    trivial
  exact ⟨s, hlist, (references_counted hreached 1).1.mp (hlist ▸ List.mem_singleton_self 1)⟩

end Calls

end Amlogic.CodecMem
