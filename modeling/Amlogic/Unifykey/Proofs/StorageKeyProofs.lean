import Amlogic.Unifykey.StorageKey
import Amlogic.Unifykey.Proofs.RoundTripProofs

/-!
# What a failed write leaves behind

`_amlkey_write_normal` changes the key list first and has no way back: when the new list does not fit
into the block, or the storage driver fails, the caller sees a failure and the list keeps the change.
-/

namespace Amlogic.Unifykey

open StorageObject

/-- The callers of the interface see the same names, attributes and data. -/
structure SameKeys (s s' : AmlkeyNormal) : Prop where
  exist : ∀ name, amlkeyExistNormal s' name = amlkeyExistNormal s name
  attr : ∀ name, amlkeyGetAttrNormal s' name = amlkeyGetAttrNormal s name
  read : ∀ name len, amlkeyReadNormal s' name len = amlkeyReadNormal s name len

def WriteSucceeds (env : Env) (write : Option Int) (name : Option CStr)
    (buffer : Option (List UInt8)) (len attr : UInt32) (s : AmlkeyNormal) : Prop :=
  ∃ r s', amlkeyWriteNormal env write name buffer len attr s = .ok (r, s') ∧ r ≠ 0

/-- If a write reports failure, the visible keys are those from before the call, and every write of
another key that would have succeeded still does. -/
def FailedWriteHasNoEffect (env : Env) (write : Option Int) (name : Option CStr)
    (buffer : Option (List UInt8)) (len attr : UInt32) (s : AmlkeyNormal) : Prop :=
  ∀ s', amlkeyWriteNormal env write name buffer len attr s = .ok (0, s') →
    SameKeys s s' ∧ ∀ env' write' name' buffer' len' attr', name' ≠ name →
      WriteSucceeds env' write' name' buffer' len' attr' s →
      WriteSucceeds env' write' name' buffer' len' attr' s'

def AmlkeyNormal.room (s : AmlkeyNormal) : Nat := s.normalFlashsize - 1024

/-- A write that changes the key list and is then given up: its arguments are accepted, the name does
not stand for the same data already, and the new list does not fit into the block or the storage
driver fails. -/
def WriteLost (env : Env) (write : Option Int) (name : Option CStr) (buffer : Option (List UInt8))
    (len attr : UInt32) (s : AmlkeyNormal) : Prop :=
  ∃ wret src p, write = some wret ∧ Accepted env name buffer len attr s.nk src p ∧
    (p.pos ≠ none → objectData p.obj ≠ .ok src) ∧
    (needObjects (p.shapes len s.nk.keys) s.room = .ok false ∨
      needObjects (p.shapes len s.nk.keys) s.room = .ok true ∧ wret ≠ 0)

/-! ## The block -/

/-- Between calls the block is as long as the driver thinks it is. -/
structure AmlkeyNormal.Inv (s : AmlkeyNormal) : Prop where
  blksz : 1024 < s.normalBlksz
  block : ∀ m, s.normalBlock = some m → m.length = s.normalBlksz ∧ s.normalBlksz < 2 ^ 31
  inited : s.nk.blockinited = 2 → s.normalBlock ≠ none ∧ s.normalFlashsize = s.normalBlksz

section

variable {env : Env} {write : Option Int} {name : Option CStr} {buffer : Option (List UInt8)}
  {len attr : UInt32} {s s' : AmlkeyNormal} {src : List UInt8} {p : Put}

variable {nk : NormalKey}

theorem Accepted.shapes_keys (h : Accepted env name buffer len attr nk src p) :
    (p.keys env len src nk.keys).map shape = p.shapes len nk.keys := by
  have hl : 0 + src.length ≤ p.buf.length := by
    have := h.len_le
    rw [h.src_length]; omega
  unfold Put.keys Put.shapes
  rw [map_place]
  simp [shape, Put.object, patch_length hl]

/-- What a write leaves when `normalkey_add` accepts it: the changed list, and a block of the same
size. -/
structure Stored (p : Put) (env : Env) (len : UInt32) (src : List UInt8) (s s' : AmlkeyNormal) :
    Prop where
  keys : s'.nk.keys = p.keys env len src s.nk.keys
  inited : s'.nk.blockinited = 2
  blksz : s'.normalBlksz = s.normalBlksz
  flashsize : s'.normalFlashsize = s.normalFlashsize
  block : ∃ m, s'.normalBlock = some m ∧ m.length = s.normalFlashsize

theorem amlkeyWriteNormal_accepted (hi : s.Inv) (wret : Int) (h : Accepted env name buffer len attr s.nk src p) :
    Sim (fun (fits : Bool) (r : Int × AmlkeyNormal) =>
        r.1 = (if fits ∧ wret = 0 then s32 len.toNat else 0) ∧ Stored p env len src s r.2)
      (needObjects (p.shapes len s.nk.keys) s.room)
      (amlkeyWriteNormal env (some wret) name buffer len attr s) := by
  obtain ⟨hblk, hfl⟩ := hi.inited h.inited
  obtain ⟨m, hm⟩ := Option.ne_none_iff_exists'.mp hblk
  obtain ⟨hlen, hlt⟩ := hi.block m hm
  have hgt := hi.blksz
  have hroom := normalkeyWritetoblock_room env
    (s := { s.nk with keys := p.keys env len src s.nk.keys }) h.inited (hlen.trans hfl.symm)
    (by omega) (by omega)
  rw [h.shapes_keys] at hroom
  unfold amlkeyWriteNormal
  rw [if_neg (not_not_intro h.not_secure)]
  dsimp only
  rw [normalkeyAdd_accepted h, ok_bind]
  rw [if_neg (not_not_intro rfl), hm]
  refine hroom.bind_right fun fits r hr => ?_
  obtain ⟨ret, nk, out⟩ := r
  obtain ⟨rfl, hkeys, hin, m', rfl, hm'⟩ := hr
  have hst : Stored p env len src s { s with nk := nk, normalBlock := some m' } :=
    ⟨hkeys, hin, rfl, rfl, m', rfl, hm'⟩
  cases fits with
  | false =>
    have hret : (if false = true then 0 else -1 : Int) ≠ 0 := by decide
    exact ⟨(0, _), if_pos hret, (if_neg fun h => Bool.false_ne_true h.1).symm, hst⟩
  | true =>
    have hret : ¬(if true = true then 0 else -1 : Int) ≠ 0 := by decide
    by_cases hw : wret = 0
    · have hfit : true = true ∧ wret = 0 := ⟨rfl, hw⟩
      refine ⟨(s32 len.toNat, _), (if_neg hret).trans (if_neg (not_not_intro hw)), ?_, hst⟩
      rw [if_pos hfit]
    · exact ⟨(0, _), (if_neg hret).trans (if_pos hw), (if_neg fun h => hw h.2).symm, hst⟩

theorem amlkeyWriteNormal_cases (hi : s.Inv) {r : Int}
    (h : amlkeyWriteNormal env write name buffer len attr s = .ok (r, s')) :
    (r = 0 ∧ s' = s) ∨ ∃ wret src p fits, write = some wret ∧
      Accepted env name buffer len attr s.nk src p ∧
      needObjects (p.shapes len s.nk.keys) s.room = .ok fits ∧
      r = (if fits ∧ wret = 0 then s32 len.toNat else 0) ∧ Stored p env len src s s' := by
  have h' := h
  unfold amlkeyWriteNormal at h'
  split_ifs at h' with ha
  · cases h'; exact .inl ⟨rfl, rfl⟩
  rcases write with _ | wret
  · cases h'; exact .inl ⟨rfl, rfl⟩
  obtain ⟨⟨ret, nk⟩, hadd, h'⟩ := bind_eq_ok h'
  rcases normalkeyAdd_cases hadd with ⟨rfl, rfl⟩ | ⟨src, p, hp, -, -⟩
  · cases h'; exact .inl ⟨rfl, rfl⟩
  · obtain ⟨fits, hfits, hr, hst⟩ := (amlkeyWriteNormal_accepted hi wret hp).ok_of_right h
    exact .inr ⟨wret, src, p, fits, rfl, hp, hfits, hr, hst⟩

theorem AmlkeyNormal.Inv.stored (hi : s.Inv) (h2 : s.nk.blockinited = 2)
    (h : Stored p env len src s s') : s'.Inv := by
  obtain ⟨hblk, hfl⟩ := hi.inited h2
  obtain ⟨m0, hm0⟩ := Option.ne_none_iff_exists'.mp hblk
  obtain ⟨m, hm, hlen⟩ := h.block
  refine ⟨h.blksz ▸ hi.blksz, fun m1 hm1 => ?_, fun _ => ⟨?_, ?_⟩⟩
  · obtain rfl : m = m1 := Option.some.inj (hm.symm.trans hm1)
    rw [h.blksz]
    exact ⟨hlen.trans hfl, (hi.block m0 hm0).2⟩
  · rw [hm]; exact Option.some_ne_none m
  · rw [h.flashsize, h.blksz, hfl]

theorem fillBlock_length (m content : List UInt8) : (fillBlock m content).length = m.length := by
  unfold fillBlock
  rw [List.length_append, List.length_take, List.length_drop]
  omega

theorem amlkeyInitNormal_inv (hi : s.Inv) {read : Option (Int × List UInt8)} {r : Int}
    (h : amlkeyInitNormal env read s = .ok (r, s')) : s'.Inv := by
  -- every exit past the checks leaves a filled block and the size that was asked for
  have filled : ∀ {m content nk}, s.normalBlock = some m → AmlkeyNormal.Inv
      ⟨nk, s.normalBlksz, s.normalBlksz, some (fillBlock m content)⟩ := by
    intro m content nk hm
    refine ⟨hi.blksz, fun m1 hm1 => ?_, fun _ => ⟨Option.some_ne_none _, rfl⟩⟩
    cases hm1
    rw [fillBlock_length]
    exact hi.block m hm
  unfold amlkeyInitNormal at h
  split at h
  · rename_i m ret content hm
    split_ifs at h
    · cases h; exact hi
    · cases h; exact filled hm
    · obtain ⟨⟨ret, nk⟩, -, h⟩ := bind_eq_ok h
      dsimp only at h
      split_ifs at h
      · cases h; exact filled hm
      · cases h; exact filled hm
  · cases h; exact hi

theorem normalKeyInit_inv (hi : s.Inv) (hb : env.Bounded) (hinit : s.nk.blockinited ≠ 2) (blocksize : Option UInt32) :
    (normalKeyInit env blocksize s).2.Inv := by
  obtain ⟨blksz, hgt, heq⟩ : ∃ blksz, 1024 < blksz ∧ normalKeyInit env blocksize s =
      if env.kmalloc 0 blksz then
        (0, { s with normalBlksz := blksz, normalBlock := some (List.replicate blksz 0) })
      else (-1, { s with normalBlksz := blksz, normalBlock := none }) := by
    refine ⟨_, ?_, rfl⟩
    split
    · rename_i b
      split_ifs with hc
      · obtain ⟨h0, hmod⟩ := hc
        have h0' : b.toNat ≠ 0 := fun e => h0 (UInt32.toNat_inj.mp e)
        unfold pageSize at hmod
        omega
      · exact hi.blksz
    · exact hi.blksz
  rw [heq]
  split_ifs with hm
  · refine ⟨hgt, fun m h => ?_, fun h => absurd h hinit⟩
    cases h
    have := hb 0 blksz hm
    exact ⟨List.length_replicate, by show blksz < 2 ^ 31; omega⟩
  · exact ⟨hgt, fun m h => (by cases h), fun h => absurd h hinit⟩

theorem AmlkeyNormal.Reachable.inv (h : AmlkeyNormal.Reachable s) : s.Inv := by
  induction h with
  | initial => exact ⟨by decide, fun m h => (by cases h), fun h => (by cases h)⟩
  | probe env blocksize hb _ hnone ih =>
    exact normalKeyInit_inv ih hb (fun h2 => (ih.inited h2).1 hnone) blocksize
  | init env read _ h ih => exact amlkeyInitNormal_inv ih h
  | write env write name buffer len attr _ h ih =>
    rcases amlkeyWriteNormal_cases ih h with ⟨-, rfl⟩ | ⟨wret, src, p, fits, -, hp, -, -, hst⟩
    · exact ih
    · exact ih.stored hp.inited hst
  | del name _ h ih =>
    obtain ⟨keys, rfl⟩ := normalkeyDel_frame h
    exact ⟨ih.blksz, ih.block, ih.inited⟩

end

/-! ## Searches in a changed list -/

theorem findKey_map {n : CStr} {f : StorageObject → StorageObject} (hf : ∀ o, keyMatches n (f o) = keyMatches n o)
    (keys : List StorageObject) : findKey n (keys.map f) = findKey n keys := by
  induction keys with
  | nil => rfl
  | cons o os ih => rw [List.map_cons, findKey, findKey, ih, hf]

theorem findKey_set {n : CStr} {keys : List StorageObject} {i : Nat} {o o' : StorageObject} (ho : keys[i]? = some o)
    (h1 : o'.name = o.name) (h2 : o'.namesize = o.namesize) : findKey n (keys.set i o') = findKey n keys := by
  let label : StorageObject → StorageObject := fun o =>
    { zero with name := o.name, namesize := o.namesize }
  have hl : label o' = label o := by simp only [label, h1, h2]
  rw [← findKey_map (f := label) (fun _ => rfl), ← findKey_map (f := label) (fun _ => rfl) keys,
    List.map_set, hl, set_of_getElem? (by rw [List.getElem?_map, ho]; rfl)]

theorem normalkeyGet_of_findKey {n : CStr} {i? : Option Nat} (h : findKey n nk.keys = .ok i?) :
    normalkeyGet nk (some n) = .ok (i?.bind (nk.keys[·]?)) := by
  unfold normalkeyGet
  dsimp only
  rw [h]
  rfl

def StorageObject.forget (o : StorageObject) : StorageObject := { o with hashptr := .zero 32 }

section Forget

variable {keys keys' : List StorageObject} {n : CStr}

theorem findKey_forget (h : keys'.map forget = keys.map forget) :
    findKey n keys' = findKey n keys := by
  rw [← findKey_map (f := forget) (fun _ => rfl) keys', h,
    findKey_map (f := forget) (fun _ => rfl)]

theorem getElem?_forget (h : keys'.map forget = keys.map forget)
    (i : Nat) : keys'[i]?.map forget = keys[i]?.map forget := by
  rw [← List.getElem?_map, h, List.getElem?_map]

theorem normalkeyGet_bind_forget {γ : Type} {nk' : NormalKey}
    {g : Option StorageObject → Except Fault γ} (hg : ∀ o, g (o.map forget) = g o)
    (h : nk'.keys.map forget = nk.keys.map forget)
    (name : Option CStr) : (normalkeyGet nk' name >>= g) = (normalkeyGet nk name >>= g) := by
  rcases name with _ | n
  · rfl
  rcases hf : findKey n nk.keys with e | i?
  · simp only [normalkeyGet, findKey_forget h, hf]
    rfl
  · rw [normalkeyGet_of_findKey hf, normalkeyGet_of_findKey ((findKey_forget h).trans hf), ok_bind,
      ok_bind, ← hg, ← hg (i?.bind (nk.keys[·]?))]
    rcases i? with _ | i
    · rfl
    · exact congrArg g (getElem?_forget h i)

theorem sameKeys_of_forget {s s' : AmlkeyNormal}
    (h : s'.nk.keys.map forget = s.nk.keys.map forget) : SameKeys s s' := by
  refine ⟨fun name => ?_, fun name => ?_, fun name len => ?_⟩
  · exact normalkeyGet_bind_forget (by rintro (_ | o) <;> rfl) h name
  · exact normalkeyGet_bind_forget (by rintro (_ | o) <;> rfl) h name
  · exact normalkeyGet_bind_forget (by rintro (_ | o) <;> rfl) h name

theorem shapes_forget (h : keys'.map forget = keys.map forget) :
    keys'.map shape = keys.map shape := by
  have := congrArg (List.map shape) h
  rw [List.map_map, List.map_map] at this
  exact this

theorem Slot.forget {env : Env} {len attr : UInt32} {p : Put}
    (h : keys'.map forget = keys.map forget) (hs : Slot env n len attr keys p) :
    ∃ p', Slot env n len attr keys' p' ∧ p'.shapes len keys' = p.shapes len keys := by
  have find : ∀ {i : Nat} {o : StorageObject}, keys[i]? = some o →
      ∃ o', keys'[i]? = some o' ∧ o'.forget = o.forget := by
    intro i o ho
    have hi := getElem?_forget h i
    rw [ho] at hi
    obtain ⟨o', ho', he⟩ := Option.map_eq_some_iff.mp hi
    exact ⟨o', ho', he⟩
  cases hs with
  | @grow i o hf hk ha hlt hm =>
    obtain ⟨o', ho', he⟩ := find hk
    refine ⟨_, .grow ((findKey_forget h).trans hf) ho' (ha.trans ?_) ?_ hm, ?_⟩
    · exact (congrArg StorageObject.attr he).symm
    · exact (congrArg datasize he).symm ▸ hlt
    · have hn : o'.forget.namesize = o.forget.namesize := congrArg namesize he
      have hn' : o'.namesize = o.namesize := hn
      simp only [Put.shapes, shapes_forget h, hn']
  | @reuse i o dp hf hk ha hle hdp hd =>
    obtain ⟨o', ho', he⟩ := find hk
    refine ⟨_, .reuse ((findKey_forget h).trans hf) ho' (ha.trans ?_) ?_ ?_ hd, ?_⟩
    · exact (congrArg StorageObject.attr he).symm
    · exact (congrArg datasize he).symm ▸ hle
    · exact (congrArg dataptr he).trans hdp
    · have hn : o'.forget.namesize = o.forget.namesize := congrArg namesize he
      have hn' : o'.namesize = o.namesize := hn
      simp only [Put.shapes, shapes_forget h, hn']
  | insert hf h1 h2 =>
    refine ⟨_, .insert ((findKey_forget h).trans hf) h1 h2, ?_⟩
    simp only [Put.shapes, shapes_forget h]

end Forget

/-! ## Failed writes -/

section

variable {env : Env} {write : Option Int} {name : Option CStr} {buffer : Option (List UInt8)}
  {len attr : UInt32} {s s' : AmlkeyNormal} {src : List UInt8} {p : Put}

theorem Accepted.objectData_object (h : Accepted env name buffer len attr nk src p) :
    objectData (p.object env len src) = .ok src := by
  have hle := h.len_le
  have hl : 0 + src.length ≤ p.buf.length := by rw [h.src_length]; omega
  have hat := (At.of_patch hl).load
  rw [h.src_length] at hat
  exact hat

theorem normalkeyGet_stored {n : CStr} {i : Nat} (hst : Stored p env len src s s') (hp : p.pos = some i)
    (hf : findKey n s.nk.keys = .ok (some i)) (hk : s.nk.keys[i]? = some p.obj) :
    normalkeyGet s'.nk (some n) = .ok (some (p.object env len src)) := by
  have hkeys : s'.nk.keys = s.nk.keys.set i (p.object env len src) := by
    rw [hst.keys, Put.keys, hp]
    rfl
  have hf' : findKey n s'.nk.keys = .ok (some i) := by
    have hset := findKey_set (n := n) hk (show (p.object env len src).name = _ from rfl) rfl
    rw [hkeys, hset, hf]
  have hlt : i < s.nk.keys.length := (List.getElem?_eq_some_iff.mp hk).1
  rw [normalkeyGet_of_findKey hf', Option.bind_some, hkeys, List.getElem?_set_self hlt]

theorem findKey_newObject {n : CStr} (hn : n.1.length ≤ maxObjNameLen) {o : StorageObject}
    (h1 : o.name = newName n.1) (h2 : o.namesize = UInt32.ofNat n.1.length)
    (keys : List StorageObject) : findKey n (o :: keys) = .ok (some 0) := by
  have hto : o.namesize.toNat = n.1.length := by
    rw [h2]
    exact UInt32.toNat_ofNat_of_lt' (by simp only [UInt32.size]; unfold maxObjNameLen at hn; omega)
  rw [findKey, keyMatches_eq (hto ▸ hn), keyName_newName hn h1 h2, decide_eq_true rfl]
  rfl

theorem read_ne_of_stored {n : CStr} {i : Nat} (h : Accepted env (some n) buffer len attr s.nk src p)
    (hst : Stored p env len src s s') (hp : p.pos = some i) (hf : findKey n s.nk.keys = .ok (some i))
    (hk : s.nk.keys[i]? = some p.obj) (hne : objectData p.obj ≠ .ok src) :
    amlkeyReadNormal s' (some n) len ≠ amlkeyReadNormal s (some n) len := by
  have hnew : amlkeyReadNormal s' (some n) len = .ok src := by
    unfold amlkeyReadNormal
    rw [normalkeyGet_stored hst hp hf hk, ok_bind]
    exact (if_pos (UInt32.le_refl len)).trans h.objectData_object
  have hold : amlkeyReadNormal s (some n) len
      = if p.obj.datasize ≤ len then objectData p.obj else .ok [] := by
    unfold amlkeyReadNormal
    rw [normalkeyGet_of_findKey hf, Option.bind_some, hk, ok_bind]
    rfl
  rw [hnew, hold]
  split_ifs
  · exact hne.symm
  · -- nothing was read before, and now it is a key with data
    intro he
    have hlen := h.src_length
    rw [Except.ok.inj he] at hlen
    exact h.len_ne (UInt32.toNat_inj.mp hlen.symm)

theorem not_sameKeys_of_stored (h : Accepted env name buffer len attr s.nk src p)
    (hne : p.pos ≠ none → objectData p.obj ≠ .ok src) (hst : Stored p env len src s s') : ¬SameKeys s s' := by
  intro same
  obtain ⟨n, rfl, hn, hs⟩ := h.slot
  cases hs with
  | grow hf hk | reuse hf hk =>
    exact read_ne_of_stored h hst rfl hf hk (hne (Option.some_ne_none _)) (same.read (some n) len)
  | insert hf =>
    have hf' : findKey n s'.nk.keys = .ok (some 0) := by
      rw [hst.keys]
      exact findKey_newObject hn rfl rfl s.nk.keys
    have he := same.exist (some n)
    unfold amlkeyExistNormal at he
    rw [normalkeyGet_of_findKey hf, normalkeyGet_of_findKey hf', hst.keys] at he
    cases he

theorem not_noEffect_of_writeLost (hi : s.Inv) (h : WriteLost env write name buffer len attr s) :
    ¬FailedWriteHasNoEffect env write name buffer len attr s := by
  obtain ⟨wret, src, p, rfl, hp, hne, hlost⟩ := h
  -- the call returns 0 and keeps the change
  obtain ⟨s', hres, hst⟩ : ∃ s', amlkeyWriteNormal env (some wret) name buffer len attr s
      = .ok (0, s') ∧ Stored p env len src s s' := by
    have hsim := amlkeyWriteNormal_accepted hi wret hp
    rcases hlost with hno | ⟨hfit, hw⟩
    · obtain ⟨⟨r, s'⟩, hres, hr, hst⟩ := hsim.ok_of hno
      rw [if_neg fun h => Bool.false_ne_true h.1] at hr
      exact ⟨s', by rw [hres, ← hr], hst⟩
    · obtain ⟨⟨r, s'⟩, hres, hr, hst⟩ := hsim.ok_of hfit
      rw [if_neg fun h => hw h.2] at hr
      exact ⟨s', by rw [hres, ← hr], hst⟩
  exact fun hno => not_sameKeys_of_stored hp hne hst (hno s' hres).1

theorem forget_of_same_data (h : Accepted env name buffer len attr nk src p)
    (hpos : p.pos ≠ none) (hd : objectData p.obj = .ok src) :
    (p.keys env len src nk.keys).map forget
      = nk.keys.map forget := by
  have hlen := h.src_length
  obtain ⟨hle, hsrc⟩ := load_eq_ok hd
  have hsz : p.obj.datasize = len := by
    rw [hsrc, List.length_take, List.length_drop] at hlen
    exact UInt32.toNat_inj.mp (by omega)
  obtain ⟨n, -, -, hs⟩ := h.slot
  cases hs with
  | grow _ _ _ hlt => exact absurd hsz (UInt32.ne_of_lt hlt)
  | @reuse i o dp _ hk _ _ hdp =>
    unfold Put.keys
    rw [map_place]
    refine set_of_getElem? ?_
    rw [List.getElem?_map, hk]
    simp only [forget, Put.object, Option.map_some, Option.some.injEq]
    have hbuf : patch dp 0 src = dp := by
      rw [hdp, Option.getD_some, List.drop_zero, hsz] at hsrc
      rw [patch, List.take_zero, List.nil_append, Nat.zero_add, hlen, hsrc, List.take_append_drop]
    rw [hbuf, ← hdp, ← hsz]
  | insert => exact absurd rfl hpos

end

/-- A failed write has no effect, unless it is one whose change of the key list is accepted before
the block turns out to be too small or the storage driver fails. -/
theorem failed_write_iff {s : AmlkeyNormal} (hs : AmlkeyNormal.Reachable s) (env : Env)
    (write : Option Int) (name : Option CStr) (buffer : Option (List UInt8)) (len attr : UInt32) :
    FailedWriteHasNoEffect env write name buffer len attr s ↔
      ¬WriteLost env write name buffer len attr s := by
  have hi := hs.inv
  refine ⟨fun h hl => not_noEffect_of_writeLost hi hl h, fun h s' hres => ?_⟩
  rcases amlkeyWriteNormal_cases hi hres with
    ⟨-, rfl⟩ | ⟨wret, src, p, fits, rfl, hp, hfits, hr, hst⟩
  · exact ⟨⟨fun _ => rfl, fun _ => rfl, fun _ _ => rfl⟩, fun _ _ _ _ _ _ _ h => h⟩
  -- the write failed after the list was changed, so it stored what was there before
  have hfail : ¬(fits = true ∧ wret = 0) := by
    intro hc
    rw [if_pos hc] at hr
    have hne : len.toNat ≠ 0 := fun e => hp.len_ne (UInt32.toNat_inj.mp e)
    have hlt := len.toNat_lt
    unfold s32 at hr
    split at hr <;> omega
  have hsame : p.pos ≠ none ∧ objectData p.obj = .ok src := by
    by_contra hc
    refine h ⟨wret, src, p, rfl, hp, fun hpos hd => hc ⟨hpos, hd⟩, ?_⟩
    cases fits with
    | false => exact .inl hfits
    | true => exact .inr ⟨hfits, fun hw => hfail ⟨rfl, hw⟩⟩
  have hkeys := hst.keys ▸ forget_of_same_data hp hsame.1 hsame.2
  refine ⟨sameKeys_of_forget hkeys, fun env' write' name' buffer' len' attr' _ hw => ?_⟩
  -- a write that would have succeeded before finds the same room
  obtain ⟨r, t, hres, hr⟩ := hw
  rcases amlkeyWriteNormal_cases hi hres with ⟨h0, -⟩ | ⟨wret, src, q, fits, rfl, hq, hfits, hcode, -⟩
  · exact absurd h0 hr
  obtain ⟨n, rfl, hn, hs⟩ := hq.slot
  obtain ⟨q', hs', hsh⟩ := hs.forget hkeys
  have hq' : Accepted env' (some n) buffer' len' attr' s'.nk src q' :=
    ⟨hst.inited, hq.len_ne, hq.not_secure, hq.source, n, rfl, hn, hs'⟩
  have hroom : s'.room = s.room := congrArg (· - 1024) hst.flashsize
  have hfits' : needObjects (q'.shapes len' s'.nk.keys) s'.room = .ok fits :=
    (congrArg₂ needObjects hsh hroom).trans hfits
  obtain ⟨⟨r', t'⟩, hres', hr', _⟩ := (amlkeyWriteNormal_accepted (hi.stored hp.inited hst) wret hq').ok_of hfits'
  exact ⟨r', t', hres', fun h0 => hr (hcode.trans (hr'.symm.trans h0))⟩

def smallEnv : Env := ⟨fun _ => .zero 32, fun _ n => decide (n < 2 ^ 30), fun _ => true⟩

theorem smallEnv_bounded : smallEnv.Bounded := fun _ _ h => of_decide_eq_true h

def AmlkeyNormal.ready : AmlkeyNormal := ⟨.ready 4096, 4096, 4096, some (List.replicate 4096 0)⟩

theorem amlkeyInitNormal_of_read {env : Env} {s : AmlkeyNormal} {m content : List UInt8} (hm : s.normalBlock = some m) (hinit : (normalkeyInit s.nk).1 = 0)
    (hread : normalkeyReadfromblock env (some (fillBlock m content)) s.normalBlksz
      (normalkeyInit s.nk).2 = .ok (0, nk)) :
    amlkeyInitNormal env (some (0, content)) s
      = .ok (0, ⟨nk, s.normalBlksz, s.normalBlksz, some (fillBlock m content)⟩) := by
  unfold amlkeyInitNormal
  rw [hm]
  dsimp only
  rw [if_neg (not_not_intro hinit), if_neg (not_not_intro rfl), hread, ok_bind]
  rfl

theorem AmlkeyNormal.reachable_ready : AmlkeyNormal.Reachable .ready := by
  have hprobe := Reachable.probe smallEnv (some 4096) smallEnv_bounded .initial rfl
  have hprobed : (normalKeyInit smallEnv (some 4096) .initial).2
      = ⟨.initial, 4096, defNormalBlockSize, some (List.replicate 4096 0)⟩ := rfl
  have hfill : fillBlock (List.replicate 4096 0) [] = List.replicate 4096 0 := by
    unfold fillBlock
    rw [List.take_nil, List.nil_append, List.length_nil, List.drop_zero]
  have hread := normalkeyReadfromblock_blank smallEnv (show 1024 < 4096 by omega)
    (at_blank (show 108 ≤ 4096 by omega))
  rw [← hfill] at hread
  have hinit := amlkeyInitNormal_of_read
    (s := ⟨.initial, 4096, defNormalBlockSize, some (List.replicate 4096 0)⟩) rfl rfl hread
  rw [hfill] at hinit
  exact .init smallEnv (some (0, [])) hprobe hinit

theorem accepted_first_key {attr : UInt32} (h : attr &&& objAttrSecure = 0) :
    Accepted smallEnv (some ⟨[107], by decide⟩) (some [7, 8]) 2 attr AmlkeyNormal.ready.nk [7, 8]
      ⟨none, newObject ⟨[107], by decide⟩ attr, [0, 0], 2⟩ :=
  ⟨rfl, by decide, h, ⟨[7, 8], rfl, by decide, rfl⟩, ⟨_, rfl, by decide, .insert rfl rfl rfl⟩⟩

theorem failed_write_iff_secure :
    AmlkeyNormal.Reachable .ready ∧
      FailedWriteHasNoEffect smallEnv (some 0) (some ⟨[107], by decide⟩) (some [7, 8]) 2 1 .ready := by
  refine ⟨AmlkeyNormal.reachable_ready,
    (failed_write_iff AmlkeyNormal.reachable_ready _ _ _ _ _ _).mpr ?_⟩
  rintro ⟨wret, src, p, -, hp, -⟩
  exact absurd hp.not_secure (by decide)

/-- The storage driver fails (-5) while the first key is stored: the caller is told that the write
failed, and the key is there. -/
theorem failed_write_keeps_key :
    AmlkeyNormal.Reachable .ready ∧
      ¬FailedWriteHasNoEffect smallEnv (some (-5)) (some ⟨[107], by decide⟩) (some [7, 8]) 2 0
        .ready := by
  refine ⟨AmlkeyNormal.reachable_ready,
    not_noEffect_of_writeLost AmlkeyNormal.reachable_ready.inv ?_⟩
  have hroom := needObjects_plainKey (show 120 ≤ 4096 - 1024 by omega)
  exact ⟨-5, _, _, rfl, accepted_first_key (by decide), fun h => absurd rfl h, Or.inr ⟨hroom, by decide⟩⟩

end Amlogic.Unifykey
