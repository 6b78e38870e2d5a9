import Amlogic.Unifykey.Proofs.LayoutProofs

/-!
# What the reader checks

The objects that `normalkey_readfromblock` adds to the key list are those of the block, with all the
bounds that the block itself keeps and no others.
-/

namespace Amlogic.Unifykey

variable {env : Env} {m : List UInt8} {blocksize : Nat}

/-! ## The objects of a block -/

/-- An object that has been added to the key list, with the place it was read from and the number of
the next memory request at that time. -/
structure Added where
  input : Nat
  len : Nat
  k : Nat
  obj : StorageObject

/-- The object loop of `normalkey_readfromblock` with a note of every object it adds. -/
def addedObjects (env : Env) (m : List UInt8) (blocksize : Nat) :
    Nat → Nat → Nat → Bool → Except Fault (List Added)
  | 0, _, _, _ => .error .fuel
  | fuel + 1, idx, k, node =>
    if idx < blocksize then
      if !node && !env.kmalloc k storageNodeSize then .ok []
      else do
        let (ret, o, k') ← tlvReadObject env m (1024 + idx) (s32 (blocksize - idx)) (k + 1)
        if ret = 0 then return []
        else
          let data ← objectData o
          if normalkeyHash env k' data ≠ o.hashptr then
            addedObjects env m blocksize fuel (u32 (idx + ret)) (k' + 1) true
          else
            let rest ← addedObjects env m blocksize fuel (u32 (idx + ret)) (k' + 1) false
            return ⟨1024 + idx, blocksize - idx, k + 1, o⟩ :: rest
    else .ok []

/-- The size of the object area that the head of a block gives, if the hash of the block is right and
the head can be read. -/
def headArea (env : Env) (m : List UInt8) (size : Nat) (p : RawHead) (e : EncHead) :
    Except Fault (Option Nat) := do
  let data ← load m 512 (u32 (size - 512))
  if normalkeyHash env 1 data ≠ p.hash then return none
  else
    let (ret, e) ← tlvReadHead m 512 (512 : Nat) e
    if ret = 0 ∨ size < u32 (e.blocksize.toNat + 512 + 512) then return none
    else return some e.blocksize.toNat

/-- The size of the object area, if `normalkey_readfromblock` gets as far as to read objects. -/
def objectArea (env : Env) (m : List UInt8) (size : Nat) (s : NormalKey) :
    Except Fault (Option Nat) :=
  if s.blockinited ≠ 1 ∨ size ≤ 1024 then .ok none
  else do
    let p ← loadRawHead m
    if cstr p.mark.1 ≠ blockmark then return none
    else headArea env m size p { s.enchead with flashsize := UInt32.ofNat (u32 size) }

def addedInArea (env : Env) (m : List UInt8) : Option Nat → Except Fault (List Added)
  | none => .ok []
  | some blocksize => addedObjects env m blocksize (blocksize + 1) 0 2 false

def addedFrom (env : Env) (m : List UInt8) (size : Nat) (s : NormalKey) :
    Except Fault (List Added) := do
  addedInArea env m (← objectArea env m size s)

theorem readObjects_sim (fuel idx k : Nat) (node : Bool) (keys : List StorageObject) (flags : UInt32) :
    Sim (fun l r => r.1 = (l.map Added.obj).reverse ++ keys)
      (addedObjects env m blocksize fuel idx k node)
      (readObjects env m blocksize fuel idx k node keys flags) := by
  induction fuel generalizing idx k node keys flags with
  | zero => exact .error _
  | succ fuel ih =>
    unfold addedObjects readObjects
    by_cases hidx : idx < blocksize
    swap
    · rw [if_neg hidx, if_neg hidx]
      exact .ok rfl
    rw [if_pos hidx, if_pos hidx]
    by_cases hnode : (!node && !env.kmalloc k storageNodeSize) = true
    · rw [if_pos hnode, if_pos hnode]
      exact .ok rfl
    rw [if_neg hnode, if_neg hnode]
    refine Sim.bind_same ?_
    rintro ⟨ret, o, k'⟩ -
    dsimp only
    by_cases hret : ret = 0
    · rw [if_pos hret, if_pos hret]
      exact .ok rfl
    rw [if_neg hret, if_neg hret]
    refine Sim.bind_same fun data _ => ?_
    by_cases hhash : normalkeyHash env k' data ≠ o.hashptr
    · rw [if_pos hhash, if_pos hhash]
      exact ih _ _ _ _ _
    · rw [if_neg hhash, if_neg hhash]
      have hrest := ih (u32 (idx + ret)) (k' + 1) false (o :: keys) flags
      refine hrest.map_left fun l r hr => ?_
      rw [hr, List.map_cons, List.reverse_cons, List.append_assoc]
      rfl

theorem readBlock_sim (env : Env) (hm : 44 ≤ m.length) (size : Nat) (p : RawHead) (s : NormalKey) :
    Sim (fun l s' => s'.keys = (l.map Added.obj).reverse ++ s.keys)
      (headArea env m size p s.enchead >>= addedInArea env m) (readBlock env m size p s) := by
  have hr : ∃ r, readRawHead env m p = .ok r := by
    unfold readRawHead
    rw [load_of_le (show 0 + 44 ≤ m.length by omega)]
    exact ⟨_, rfl⟩
  obtain ⟨r, hr⟩ := hr
  unfold headArea readBlock storageBlockRawHeadSize storageBlockEncHeadSize
  rw [hr, ok_bind, bind_assoc]
  refine Sim.bind_same fun data _ => ?_
  by_cases hh : normalkeyHash env 1 data ≠ p.hash
  · rw [if_pos hh, if_pos hh]
    exact .ok rfl
  rw [if_neg hh, if_neg hh, bind_assoc]
  refine Sim.bind_same fun ⟨ret, e⟩ _ => ?_
  dsimp only
  by_cases hret : ret = 0
  · rw [if_pos (Or.inl hret), if_pos hret]
    exact .ok rfl
  by_cases hroom : size < u32 (e.blocksize.toNat + 512 + 512)
  · rw [if_pos (Or.inr hroom), if_neg hret, if_pos hroom]
    exact .ok rfl
  rw [if_neg (not_or.mpr ⟨hret, hroom⟩), if_neg hret, if_neg hroom, ok_pure, ok_bind]
  exact (readObjects_sim _ 0 2 false s.keys r.flags).map_right fun l res hkeys => hkeys

/-- `normalkey_readfromblock` adds the objects that `addedFrom` lists, in front of the list and in
reverse order. -/
theorem normalkeyReadfromblock_sim {size : Nat} {s : NormalKey} (hm : m.length = size) :
    Sim (fun l r => r.2.keys = (l.map Added.obj).reverse ++ s.keys) (addedFrom env m size s)
      (normalkeyReadfromblock env (some m) size s) := by
  unfold addedFrom objectArea normalkeyReadfromblock storageBlockRawHeadSize storageBlockEncHeadSize
  by_cases hb : s.blockinited ≠ 1
  · rw [if_pos (Or.inl hb), if_pos hb]
    exact .ok rfl
  by_cases hsz : size ≤ 1024
  · rw [if_pos (Or.inr hsz), if_neg hb]
    simp only [Nat.reduceAdd, if_pos hsz]
    exact .ok rfl
  rw [if_neg (not_or.mpr ⟨hb, hsz⟩), if_neg hb, bind_assoc]
  simp only [Nat.reduceAdd, if_neg hsz]
  refine Sim.bind_same fun p _ => ?_
  by_cases hmark : cstr p.mark.1 ≠ blockmark
  · rw [if_pos hmark, if_pos hmark]
    exact .ok rfl
  rw [if_neg hmark, if_neg hmark]
  have hblock := readBlock_sim env (show 44 ≤ m.length by omega) size p { s with
    blockinited := 2
    rawhead := freshRawHead
    enchead := { s.enchead with flashsize := UInt32.ofNat (u32 size) } }
  exact hblock.map_right fun l s' hkeys => hkeys

/-! ## When the reader's objects are sound -/

/-- The objects of an area from `idx` on, as far as the reader goes: nothing is copied from outside
the block or to outside its field, and those with the right hash keep to their bounds. -/
def ObjectsContained (env : Env) (m : List UInt8) (blocksize : Nat) : Nat → Nat → Nat → Bool → Prop
  | 0, _, _, _ => True
  | fuel + 1, idx, k, node =>
    idx < blocksize → (node = true ∨ env.kmalloc k storageNodeSize = true) →
      match scanObject env m (1024 + idx) (blocksize - idx) (k + 1) with
      | .error _ => False
      | .ok none => True
      | .ok (some (src, k')) =>
        let o := src.object m (1024 + idx)
        o.datasize.toNat ≤ (o.dataptr.getD []).length ∧
          if normalkeyHash env k' o.data = o.hashptr then
            Contained m (1024 + idx) (blocksize - idx) src ∧
              ObjectsContained env m blocksize fuel (idx + windowSize m (1024 + idx)) (k' + 1) false
          else
            ObjectsContained env m blocksize fuel (idx + windowSize m (1024 + idx)) (k' + 1) true

/-- The block keeps to the bounds that the reader does not check. -/
def BlockContained (env : Env) (m : List UInt8) (size : Nat) (s : NormalKey) : Prop :=
  match objectArea env m size s with
  | .error _ => False
  | .ok none => True
  | .ok (some blocksize) =>
    blocksize < 2 ^ 31 → ObjectsContained env m blocksize (blocksize + 1) 0 2 false

theorem objectData_eq (o : StorageObject) :
    objectData o = if o.datasize.toNat ≤ (o.dataptr.getD []).length then .ok o.data
      else .error .access := by
  simp [objectData, load, StorageObject.data]

theorem addedObjects_iff (hlt : blocksize < 2 ^ 31)
    (hm : 1024 + blocksize ≤ m.length) {fuel idx k : Nat} {node : Bool} (hf : blocksize - idx < fuel) :
    (∃ l, addedObjects env m blocksize fuel idx k node = .ok l ∧
        ∀ a ∈ l, Validated env m a.input a.len a.k a.obj) ↔
      ObjectsContained env m blocksize fuel idx k node := by
  induction fuel generalizing idx k node with
  | zero => omega
  | succ fuel ih =>
    unfold addedObjects ObjectsContained
    by_cases hidx : idx < blocksize
    swap
    · simp [hidx]
    by_cases hnode : (!node && !env.kmalloc k storageNodeSize) = true
    · simp only [Bool.and_eq_true, Bool.not_eq_true'] at hnode
      simp [hnode]
    rw [if_neg hnode]
    have hnode' : node = true ∨ env.kmalloc k storageNodeSize = true := by
      cases node <;> simp_all
    have hs : s32 ((blocksize : Int) - idx) = ((blocksize - idx : Nat) : Int) := by
      rw [s32_of_range (by omega) (by omega)]; omega
    have hin : 1024 + idx + (blocksize - idx) ≤ m.length := by omega
    have hsim := tlvReadObject_sim env (show blocksize - idx < 2 ^ 31 by omega) hin (k + 1)
    rw [hs]
    simp only [hidx, hnode', true_implies]
    generalize hscan : scanObject env m (1024 + idx) (blocksize - idx) (k + 1) = scan at hsim
    generalize tlvReadObject env m (1024 + idx) ((blocksize - idx : Nat) : Int) (k + 1) = res at hsim
    cases hsim with
    | error e =>
      simp only [iff_false]
      rintro ⟨l, h, -⟩
      cases h
    | @ok found got hgot =>
      obtain ⟨ret, o, k'⟩ := got
      rcases found with _ | ⟨src, k1⟩
      · simp only [ok_bind, if_pos (show ret = 0 from hgot), iff_true]
        exact ⟨[], rfl, by simp⟩
      obtain ⟨hret, rfl, rfl⟩ := hgot
      have hsome := scanObject_some hscan
      have h8 : 8 ≤ windowSize m (1024 + idx) := Nat.le_add_right 8 _
      have hu : u32 (idx + ret) = idx + windowSize m (1024 + idx) := by
        rw [hret, u32_of_lt (by omega)]
      simp only [ok_bind, if_neg (show ¬ret = 0 by omega), hu, objectData_eq]
      by_cases hd : (src.object m (1024 + idx)).datasize.toNat
          ≤ ((src.object m (1024 + idx)).dataptr.getD []).length
      swap
      · simp only [hd, if_false, false_and, iff_false]
        rintro ⟨l, h, -⟩
        cases h
      simp only [hd, if_true, ok_bind, true_and]
      by_cases hh : normalkeyHash env k' (src.object m (1024 + idx)).data
          = (src.object m (1024 + idx)).hashptr
      · have hv := validated_iff_contained (by omega) hin hscan
        simp only [hh, ne_eq, not_true_eq_false, if_false, if_true]
        rw [← ih (by omega), ← hv]
        constructor
        · rintro ⟨l, hl, hval⟩
          obtain ⟨rest, hrest, hl⟩ := bind_eq_ok hl
          cases hl
          exact ⟨hval _ (List.mem_cons_self ..), rest, hrest,
            fun a ha => hval a (List.mem_cons_of_mem _ ha)⟩
        · rintro ⟨hhead, rest, hrest, hval⟩
          refine ⟨_, by rw [hrest, ok_bind]; rfl, ?_⟩
          intro a ha
          rcases List.mem_cons.mp ha with rfl | ha
          · exact hhead
          · exact hval a ha
      · simp only [hh, ne_eq, not_false_eq_true, if_true, if_false]
        exact ih (by omega)

/-- What the reader should guarantee for a block: the run is free of faults, and all objects that it
adds are validated. -/
def ReadValidates (env : Env) (m : List UInt8) (size : Nat) (s : NormalKey) : Prop :=
  ∃ r s' l, normalkeyReadfromblock env (some m) size s = .ok (r, s') ∧
    addedFrom env m size s = .ok l ∧ s'.keys = (l.map Added.obj).reverse ++ s.keys ∧
    ∀ a ∈ l, Validated env m a.input a.len a.k a.obj

theorem addedObjects_of_ge (h1 : 2 ^ 31 ≤ blocksize)
    (h2 : blocksize < 2 ^ 32) : addedObjects env m blocksize (blocksize + 1) 0 2 false = .ok [] := by
  have hs : s32 ((blocksize : Int) - (0 : Nat)) < 8 := by
    unfold s32
    split <;> omega
  have hread : tlvReadObject env m (1024 + 0) (s32 ((blocksize : Int) - (0 : Nat))) (2 + 1)
      = .ok (0, .zero, 3) := by
    unfold tlvReadObject tlvReadTl
    rw [if_pos hs]
    rfl
  unfold addedObjects
  rw [if_pos (by omega)]
  split
  · rfl
  · rw [hread]
    rfl

theorem objectArea_some {size : Nat} {s : NormalKey} (h : objectArea env m size s = .ok (some blocksize)) :
    blocksize < 2 ^ 32 ∧ (blocksize < 2 ^ 31 → 1024 + blocksize ≤ size) := by
  unfold objectArea at h
  by_cases h0 : s.blockinited ≠ 1 ∨ size ≤ 1024
  · rw [if_pos h0] at h
    cases h
  rw [if_neg h0] at h
  obtain ⟨p, -, h⟩ := bind_eq_ok h
  by_cases hmark : cstr p.mark.1 ≠ blockmark
  · rw [if_pos hmark] at h
    cases h
  rw [if_neg hmark] at h
  obtain ⟨data, -, h⟩ := bind_eq_ok h
  by_cases hh : normalkeyHash env 1 data ≠ p.hash
  · rw [if_pos hh] at h
    cases h
  rw [if_neg hh] at h
  obtain ⟨⟨ret, e⟩, -, h⟩ := bind_eq_ok h
  dsimp only at h
  by_cases hr : ret = 0 ∨ size < u32 (e.blocksize.toNat + 512 + 512)
  · rw [if_pos hr] at h
    cases h
  rw [if_neg hr] at h
  cases h
  refine ⟨e.blocksize.toNat_lt, fun hlt => ?_⟩
  have hroom := (not_or.mp hr).2
  rw [u32_of_lt (by omega)] at hroom
  omega

section LongName

variable (sha : List UInt8 → Bytes 32)

def longNameBody : List UInt8 := recUint32 .objnamesize 100 ++ recBuf .objhashbuf (sha []).1

def longNameArea : List UInt8 :=
  (encHeadBytes ⟨60, 0⟩ ++ List.replicate 480 0) ++ recGroup .object (longNameBody sha)

def longNameBlock : List UInt8 :=
  (RawHead.bytes { freshRawHead with hash := sha (longNameArea sha) } ++ List.replicate 404 0) ++
    longNameArea sha

theorem longNameBody_length : (longNameBody sha).length = 52 := by
  rw [longNameBody, List.length_append, recUint32_length, recBuf_length, (sha []).2]
  rfl

theorem longNameArea_length : (longNameArea sha).length = 572 := by
  rw [longNameArea, List.length_append, recGroup_length, longNameBody_length, List.length_append,
    List.length_replicate]
  rfl

theorem longNameBlock_at : At (longNameBlock sha) 512 (longNameArea sha) := by
  have hl : (RawHead.bytes { freshRawHead with hash := sha (longNameArea sha) } ++
      List.replicate 404 0).length = 512 := by
    rw [List.length_append, RawHead.bytes_length, List.length_replicate]
  refine ⟨by rw [longNameBlock, List.length_append, hl]; omega, ?_⟩
  exact (List.drop_left' hl).symm ▸ List.prefix_refl _

theorem longNameBlock_length : (longNameBlock sha).length = 1084 := by
  rw [longNameBlock, List.length_append, List.length_append, RawHead.bytes_length,
    List.length_replicate, longNameArea_length]

def longNameObject : StorageObject := { StorageObject.zero with namesize := 100, hashptr := sha [] }

theorem tlvReadObject_longName :
    tlvReadObject (shaEnv sha) (longNameBlock sha) 1024 (60 : Nat) 3
      = .ok (60, longNameObject sha, 3) := by
  have hl := longNameBody_length sha
  have hat : At (longNameBlock sha) 1024 (recGroup .object (longNameBody sha)) := by
    have := (longNameBlock_at sha).right
    rwa [List.length_append, List.length_replicate] at this
  have h32 : UInt32.ofNat (align4 32) = 32 := by decide
  have habs : Absorbs (shaEnv sha) (longNameBlock sha) 1024 (60 : Nat) (8 + (longNameBody sha).length)
      (longNameBody sha) .zero 3 (longNameObject sha) 3 := by
    have h1 : Absorbs (shaEnv sha) (longNameBlock sha) 1024 (60 : Nat) (8 + (longNameBody sha).length)
        (recUint32 .objnamesize 100) .zero 3 { StorageObject.zero with namesize := 100 } 3 := by
      refine Absorbs.uint32 (by omega) (by omega) fun off h => ?_
      simp [readObjectField, EmTLVTag.ofCode_code, h]
    refine h1.append (Absorbs.buf (by omega) (by omega) (by rw [(sha []).2]; omega) fun off h => ?_)
    rw [(sha []).2] at h
    simp only [(sha []).2, h32, readObjectField, EmTLVTag.ofCode_code, ne_eq, not_true_eq_false,
      if_false, h, ok_bind, ok_pure, dif_pos]
    rfl
  have := tlvReadObject_of_absorbs hat (by omega) (by omega) habs
  rwa [hl] at this

theorem objectArea_longName :
    objectArea (shaEnv sha) (longNameBlock sha) (longNameBlock sha).length (normalkeyInit .initial).2
      = .ok (some 60) := by
  have hraw : At (longNameBlock sha) 0
      (RawHead.bytes { freshRawHead with hash := sha (longNameArea sha) }) :=
    ⟨Nat.zero_le _, (List.prefix_append _ _).trans (List.prefix_append _ _)⟩
  have hdata := (longNameBlock_at sha).load
  have henc := tlvReadHead_at (h := { (normalkeyInit .initial).2.enchead with
    flashsize := UInt32.ofNat (u32 1084) }) (longNameBlock_at sha).left.left
    (show (32 : Int) ≤ (512 : Nat) by omega) (by omega)
  have hmark : cstr freshRawHead.mark.1 = blockmark := by decide
  rw [longNameArea_length] at hdata
  rw [longNameBlock_length]
  unfold objectArea headArea
  rw [if_neg (by decide), loadRawHead_at hraw, ok_bind]
  simp only [hmark, ne_eq, not_true_eq_false, if_false]
  rw [show u32 (1084 - 512) = 572 from rfl, hdata, ok_bind]
  simp only [normalkeyHash, shaEnv, if_true, not_true_eq_false, if_false]
  have hroom : ¬(32 = 0 ∨ 1084 < u32 ((60 : UInt32).toNat + 512 + 512)) := by decide +kernel
  rw [henc, ok_bind]
  rw [if_neg hroom]
  rfl

theorem addedFrom_longName :
    addedFrom (shaEnv sha) (longNameBlock sha) (longNameBlock sha).length (normalkeyInit .initial).2
      = .ok [⟨1024, 60, 3, longNameObject sha⟩] := by
  have hread := tlvReadObject_longName sha
  have hhash : normalkeyHash (shaEnv sha) 3 [] = (longNameObject sha).hashptr := rfl
  have hdata : objectData (longNameObject sha) = .ok [] := rfl
  unfold addedFrom
  rw [objectArea_longName, ok_bind, addedInArea, addedObjects, if_pos (by omega), if_neg (by simp [shaEnv]),
    show s32 ((60 : Nat) - (0 : Nat) : Int) = (60 : Nat) by decide, hread, ok_bind]
  simp only [hdata, ok_bind, hhash, ne_eq, not_true_eq_false, if_false, OfNat.ofNat_ne_zero]
  rfl

end LongName

end Amlogic.Unifykey
