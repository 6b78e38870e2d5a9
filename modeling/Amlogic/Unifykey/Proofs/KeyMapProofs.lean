import Amlogic.Unifykey.BlockLayout
import Amlogic.Unifykey.KeyStore
import Amlogic.Unifykey.StorageKey
import Amlogic.Unifykey.Proofs.RoundTripProofs

/-!
# The key list refines a map

With digests that can be computed, every call on the key list gives the answer of the map, and the list that is read
after a restart stands for the same map. A digest that cannot be computed is stored as zeros without an error, and the
key is lost when the block is read again.
-/

namespace Amlogic.Unifykey

open StoreCall KernelAnswers KeyMap

/-- The conditions on a call: the kernel grants no request of a gigabyte, no digest fails, and when a block is read
again no request fails. Buffers are as long as the caller says. -/
def StoreCall.Fair (sha : List UInt8 → Bytes 32) : StoreCall → Prop
  | add a _ buffer len _ =>
    (a.env sha).Bounded ∧ (∀ k, a.shash k = true) ∧ ∀ b, buffer = some b → len.toNat ≤ b.length
  | del _ => True
  | get _ => True
  | reload write read block => block.length < 2 ^ 31 ∧ (∀ k, write.shash k = true) ∧ (read.env sha).NoFail

def StorageObject.value (o : StorageObject) : Value := ⟨o.data, o.attr⟩

def lookup (keys : List StorageObject) (name : CStr) : Option StorageObject :=
  keys.find? fun o => decide (o.keyName = name.1)

/-- A store that is ready, in order, and stands for a map. -/
structure Refined (sha : List UInt8 → Bytes 32) (s : NormalKey) (f : KeyMap) : Prop where
  inited : s.blockinited = 2
  mark : s.rawhead.mark = freshRawHead.mark
  keys : KeysOk (shaEnv sha) s.keys
  small : ∀ o ∈ s.keys, o.datasize.toNat < 2 ^ 30
  map : ∀ name, (lookup s.keys name).map StorageObject.value = f name

/-! ## The list -/

section Lookup

variable {keys : List StorageObject} {o o' : StorageObject} {i : Nat}

theorem lookup_cons (o : StorageObject) (keys : List StorageObject) (name : CStr) :
    lookup (o :: keys) name = if o.keyName = name.1 then some o else lookup keys name := by
  unfold lookup
  split_ifs with h <;> simp [h]

variable {name : CStr} {buffer : Option (List UInt8)} {write : KernelAnswers}

theorem lookup_eq_none_of (h : ∀ o ∈ keys, o.keyName ≠ name.1) : lookup keys name = none :=
  List.find?_eq_none.mpr fun o ho => by simpa using h o ho

theorem keyName_ne_of_nodup {x : StorageObject} {xs : List StorageObject}
    (hn : ((x :: xs).map StorageObject.keyName).Nodup) : ∀ o ∈ xs, o.keyName ≠ x.keyName := by
  intro o ho heq
  rw [List.map_cons, List.nodup_cons] at hn
  exact hn.1 (heq ▸ List.mem_map_of_mem ho)

theorem lookup_set (hn : (keys.map StorageObject.keyName).Nodup) (hi : keys[i]? = some o)
    (hname : o'.keyName = o.keyName) (name : CStr) :
    lookup (keys.set i o') name = if o.keyName = name.1 then some o' else lookup keys name := by
  induction keys generalizing i with
  | nil => exact nomatch hi
  | cons x xs ih =>
    have hne := keyName_ne_of_nodup hn
    cases i with
    | zero =>
      cases hi
      rw [List.set_cons_zero, lookup_cons, lookup_cons, hname]
      split_ifs <;> rfl
    | succ i =>
      have hmem : o ∈ xs := List.mem_of_getElem? hi
      rw [List.set_cons_succ, lookup_cons, lookup_cons, ih (List.nodup_cons.mp hn).2 hi]
      by_cases hx : x.keyName = name.1
      · rw [if_pos hx, if_neg (hx ▸ hne o hmem), if_pos hx]
      · rw [if_neg hx, if_neg hx]

theorem lookup_eraseIdx (hn : (keys.map StorageObject.keyName).Nodup) (hi : keys[i]? = some o) (name : CStr) :
    lookup (keys.eraseIdx i) name = if o.keyName = name.1 then none else lookup keys name := by
  induction keys generalizing i with
  | nil => exact nomatch hi
  | cons x xs ih =>
    have hne := keyName_ne_of_nodup hn
    cases i with
    | zero =>
      cases hi
      rw [List.eraseIdx_cons_zero, lookup_cons]
      split_ifs with hx
      · exact lookup_eq_none_of (hx ▸ hne)
      · rfl
    | succ i =>
      have hmem : o ∈ xs := List.mem_of_getElem? hi
      rw [List.eraseIdx_cons_succ, lookup_cons, lookup_cons, ih (List.nodup_cons.mp hn).2 hi]
      by_cases hx : x.keyName = name.1
      · rw [if_pos hx, if_neg (hx ▸ hne o hmem), if_pos hx]
      · rw [if_neg hx, if_neg hx]

theorem findKey_cases (h : ∀ o ∈ keys, o.namesize.toNat ≤ 80) (name : CStr) :
    findKey name keys = .ok none ∧ lookup keys name = none ∨
      ∃ i o, findKey name keys = .ok (some i) ∧ keys[i]? = some o ∧ lookup keys name = some o ∧
        o.keyName = name.1 := by
  rw [findKey_eq h name]
  cases hidx : keys.findIdx? (fun o => decide (o.keyName = name.1)) with
  | none =>
    refine .inl ⟨rfl, lookup_eq_none_of fun o ho => ?_⟩
    simpa using List.findIdx?_eq_none_iff.mp hidx o ho
  | some i =>
    obtain ⟨hlt, hname, -⟩ := List.findIdx?_eq_some_iff_getElem.mp hidx
    refine .inr ⟨i, keys[i], rfl, List.getElem?_eq_getElem hlt, ?_, of_decide_eq_true hname⟩
    unfold lookup
    rw [List.find?_eq_bind_findIdx?_getElem?, hidx, Option.bind_some, List.getElem?_eq_getElem hlt]

end Lookup

/-! ## Adding -/

section Steps

variable {sha : List UInt8 → Bytes 32} {s s' : NormalKey} {f : KeyMap} {a : KernelAnswers} {len attr : UInt32}

section

variable (h : Refined sha s f)
include h

theorem Refined.namesize_le : ∀ o ∈ s.keys, o.namesize.toNat ≤ 80 := h.keys.namesize_le

theorem Refined.data_length {o : StorageObject} (ho : o ∈ s.keys) :
    o.value.data.length = o.datasize.toNat := (h.keys.wf o ho).data_length

theorem Refined.of_lookup {o : StorageObject} (ho : lookup s.keys name = some o) :
    f name = some o.value := by
  rw [← h.map name, ho]
  rfl

theorem Refined.of_lookup_none (ho : lookup s.keys name = none) :
    f name = none := by
  rw [← h.map name, ho]
  rfl

theorem Refined.slot_iff :
    (∃ p, Slot (a.env sha) name len attr s.keys p) ↔
      (f name).all (·.attr = attr) = true ∧ a.grants len (f name) = true := by
  constructor
  · rintro ⟨p, hp⟩
    rcases findKey_cases h.namesize_le name with ⟨hnone, hlook⟩ | ⟨i, o, hsome, ho, hlook, -⟩
    · rw [h.of_lookup_none hlook]
      cases hp with
      | grow hfind | reuse hfind => rw [hnone] at hfind; cases hfind
      | insert _ hnode hdata => exact ⟨rfl, by simp only [grants, Bool.and_eq_true]; exact ⟨hnode, hdata⟩⟩
    · have hdata := h.data_length (List.mem_of_getElem? ho)
      rw [h.of_lookup hlook]
      cases hp with
      | grow hfind ho' hattr _ hgrant =>
        obtain rfl := Option.some.inj (Except.ok.inj (hsome.symm.trans hfind))
        obtain rfl := Option.some.inj (ho.symm.trans ho')
        exact ⟨by simp [StorageObject.value, hattr], by simp only [grants, Bool.or_eq_true]; exact .inr hgrant⟩
      | reuse hfind ho' hattr hle =>
        obtain rfl := Option.some.inj (Except.ok.inj (hsome.symm.trans hfind))
        obtain rfl := Option.some.inj (ho.symm.trans ho')
        have hle' : len.toNat ≤ o.value.data.length := hdata ▸ UInt32.le_iff_toNat_le.mp hle
        exact ⟨by simp [StorageObject.value, hattr], by simp [grants, hle']⟩
      | insert hfind => rw [hsome] at hfind; cases hfind
  · rintro ⟨hattr, hgrants⟩
    rcases findKey_cases h.namesize_le name with ⟨hnone, hlook⟩ | ⟨i, o, hsome, ho, hlook, -⟩
    · rw [h.of_lookup_none hlook] at hgrants
      obtain ⟨hnode, hdata⟩ := (Bool.and_eq_true _ _).mp hgrants
      exact ⟨_, .insert hnone hnode hdata⟩
    · have hdata := h.data_length (List.mem_of_getElem? ho)
      rw [h.of_lookup hlook] at hattr hgrants
      have hattr' : attr = o.attr := (of_decide_eq_true hattr).symm
      by_cases hlong : o.datasize < len
      · refine ⟨_, .grow hsome ho hattr' hlong ?_⟩
        have hnot : ¬ len.toNat ≤ o.value.data.length := by
          have hlt := UInt32.lt_iff_toNat_lt.mp hlong
          omega
        show a.kmalloc 0 len.toNat = true
        simpa [grants, hnot] using hgrants
      · obtain ⟨dp, hdp, hle⟩ := (h.keys.wf o (List.mem_of_getElem? ho)).dataptr_some
        have hshort := UInt32.not_lt.mp hlong
        exact ⟨_, .reuse hsome ho hattr' hshort hdp ((UInt32.le_iff_toNat_le.mp hshort).trans hle)⟩

theorem Refined.accepted_iff {b : List UInt8} (hb : len.toNat ≤ b.length) :
    (∃ src p, Accepted (a.env sha) (some name) (some b) len attr s src p) ↔ f.accepts a name len attr = true := by
  unfold accepts
  simp only [Bool.and_eq_true, decide_eq_true_eq, and_assoc]
  constructor
  · rintro ⟨src, p, hp⟩
    obtain ⟨n, hn, hlen, hslot⟩ := hp.slot
    cases hn
    exact ⟨hp.len_ne, hp.not_secure, hlen, h.slot_iff.mp ⟨p, hslot⟩⟩
  · rintro ⟨hne, hsecure, hlen, hplace⟩
    obtain ⟨p, hslot⟩ := h.slot_iff.mpr hplace
    exact ⟨_, p, h.inited, hne, hsecure, ⟨b, rfl, hb, rfl⟩, name, rfl, hlen, hslot⟩

theorem Refined.lookup_put {src : List UInt8} {p : Put}
    (hp : Accepted (a.env sha) (some name) buffer len attr s src p) (other : CStr) :
    lookup (p.keys (a.env sha) len src s.keys) other =
        if other = name then some (p.object (a.env sha) len src) else lookup s.keys other := by
  obtain ⟨n, hn, hlen, hslot⟩ := hp.slot
  cases hn
  have hother {l : List UInt8} (hl : l = name.1) : (l = other.1) = (other = name) := by
    rw [hl]
    exact propext ⟨fun heq => Subtype.ext heq.symm, fun heq => congrArg Subtype.val heq.symm⟩
  rcases findKey_cases h.namesize_le name with ⟨hnone, hlook⟩ | ⟨i, o, hsome, ho, hlook, hname⟩
  · cases hslot with
    | grow hfind => rw [hnone] at hfind; cases hfind
    | reuse hfind => rw [hnone] at hfind; cases hfind
    | insert =>
      have hkey : (Put.object ⟨none, newObject name attr, List.replicate len.toNat 0, 2⟩ (a.env sha) len src).keyName
          = name.1 := keyName_newName hlen rfl rfl
      show lookup (_ :: s.keys) other = _
      rw [lookup_cons]
      simp only [hother hkey]
  · cases hslot with
    | grow hfind ho' | reuse hfind ho' =>
      obtain rfl := Option.some.inj (Except.ok.inj (hsome.symm.trans hfind))
      obtain rfl := Option.some.inj (ho.symm.trans ho')
      show lookup (s.keys.set i _) other = _
      rw [lookup_set h.keys.nodup ho (by exact rfl)]
      simp only [hother hname]
    | insert hfind => rw [hsome] at hfind; cases hfind

theorem Refined.slot_bounds (hb : (a.env sha).Bounded) {p : Put}
    (hslot : Slot (a.env sha) name len attr s.keys p) : p.obj.attr = attr ∧ len.toNat < 2 ^ 30 := by
  cases hslot with
  | grow _ _ hattr _ hgrant => exact ⟨hattr.symm, hb _ _ hgrant⟩
  | reuse _ ho hattr hle =>
    exact ⟨hattr.symm, (UInt32.le_iff_toNat_le.mp hle).trans_lt (h.small _ (List.mem_of_getElem? ho))⟩
  | insert _ _ hgrant => exact ⟨rfl, hb _ _ hgrant⟩

end

theorem mem_place {α : Type} {pos : Option Nat} {x y : α} {l : List α} (h : y ∈ place pos x l) : y = x ∨ y ∈ l := by
  cases pos with
  | none => exact List.mem_cons.mp h
  | some i => exact (List.mem_or_eq_of_mem_set h).symm

theorem Refined.put (h : Refined sha s f) (hb : (a.env sha).Bounded) (hs : ∀ k, a.shash k = true)
    {b src : List UInt8} {p : Put} (hp : Accepted (a.env sha) (some name) (some b) len attr s src p) :
    Refined sha { s with keys := p.keys (a.env sha) len src s.keys } (f.set name (some ⟨b.take len.toNat, attr⟩)) := by
  obtain ⟨n, hn, -, hslot⟩ := hp.slot
  cases hn
  obtain ⟨hattr, hlt⟩ := h.slot_bounds hb hslot
  have hkeys : KeysOk (a.env sha) s.keys := ⟨h.keys.wf, h.keys.hash, h.keys.nodup⟩
  have hput := hp.keysOk hs hkeys (by omega)
  obtain ⟨b', hb', -, hsrc⟩ := hp.source
  cases hb'
  refine ⟨h.inited, h.mark, ⟨hput.wf, hput.hash, hput.nodup⟩, fun o ho => ?_, fun other => ?_⟩
  · rcases mem_place ho with rfl | ho
    · exact hlt
    · exact h.small o ho
  · have hvalue : (p.object (a.env sha) len src).value = ⟨b.take len.toNat, attr⟩ := by
      unfold StorageObject.value
      rw [hp.object_data, hsrc, ← hattr]
      rfl
    rw [h.lookup_put hp]
    unfold KeyMap.set
    split_ifs with hother
    · rw [Option.map_some, hvalue]
    · exact h.map other

theorem Refined.add (h : Refined sha s f) {name : Option CStr}
    (hfair : (add a name buffer len attr).Fair sha) :
    ∃ s', run sha s (.add a name buffer len attr) =
        .ok ((f.step (.add a name buffer len attr)).1, s') ∧
      Refined sha s' (f.step (.add a name buffer len attr)).2 := by
  obtain ⟨hb, hs, hbuf⟩ := hfair
  obtain ⟨⟨r, s'⟩, hadd⟩ := normalkeyAdd_total (a.env sha) h.keys.wf hbuf name attr
  have hrun : run sha s (.add a name buffer len attr) = .ok (.code r, s') := by
    simp only [run, hadd, ok_bind]
    rfl
  rw [hrun]
  rcases normalkeyAdd_cases hadd with ⟨rfl, rfl⟩ | ⟨src, p, hp, rfl, rfl⟩
  · -- a rejected call is one that the map rejects
    have hstep : f.step (.add a name buffer len attr) = (.code (-1), f) := by
      unfold step
      split
      · rename_i heq
        obtain ⟨rfl, rfl, rfl, rfl, rfl⟩ := add.inj heq
        refine if_neg fun haccepts => ?_
        obtain ⟨src, p, hp⟩ := (h.accepted_iff (hbuf _ rfl)).mpr haccepts
        have hok := (normalkeyAdd_accepted hp).symm.trans hadd
        exact absurd (congrArg Prod.fst (Except.ok.inj hok)) (show (0 : Int) ≠ -1 by decide)
      · rfl
      all_goals rename_i heq; exact nomatch heq
    rw [hstep]
    exact ⟨s', rfl, h⟩
  · obtain ⟨b, rfl, hle, -⟩ := hp.source
    obtain ⟨n, rfl, -, -⟩ := hp.slot
    have hstep : f.step (.add a (some n) (some b) len attr) =
        (.code 0, f.set n (some ⟨b.take len.toNat, attr⟩)) := if_pos ((h.accepted_iff hle).mp ⟨src, p, hp⟩)
    rw [hstep]
    exact ⟨_, rfl, h.put hb hs hp⟩

/-! ## Deleting and reading -/

theorem Refined.del (h : Refined sha s f) (name : Option CStr) :
    ∃ s', run sha s (.del name) = .ok ((f.step (.del name)).1, s') ∧
      Refined sha s' (f.step (.del name)).2 := by
  have hrun {r : Int} {s' : NormalKey} (hdel : normalkeyDel name s = .ok (r, s')) :
      run sha s (.del name) = .ok (.code r, s') := by
    simp only [run, hdel, ok_bind]
    rfl
  cases name with
  | none =>
    have hdel : normalkeyDel none s = .ok (-1, s) := if_neg (not_not_intro h.inited)
    exact ⟨s, hrun hdel, h⟩
  | some name =>
    rcases findKey_cases h.namesize_le name with ⟨hnone, hlook⟩ | ⟨i, o, hsome, ho, hlook, hname⟩
    · have hdel : normalkeyDel (some name) s = .ok (-1, s) := by
        simp only [normalkeyDel, if_neg (not_not_intro h.inited), hnone, ok_bind]
        rfl
      have hstep : f.step (.del (some name)) = (.code (-1), f) := by
        simp only [step, h.of_lookup_none hlook]
        rfl
      rw [hstep]
      exact ⟨s, hrun hdel, h⟩
    · have hdel : normalkeyDel (some name) s = .ok (0, { s with keys := s.keys.eraseIdx i }) := by
        simp only [normalkeyDel, if_neg (not_not_intro h.inited), hsome, ok_bind]
        rfl
      have hstep : f.step (.del (some name)) = (.code 0, f.set name none) := by
        simp only [step, h.of_lookup hlook]
        rfl
      rw [hstep]
      refine ⟨_, hrun hdel, h.inited, h.mark, normalkeyDel_keysOk h.keys hdel, fun o ho => ?_, fun other => ?_⟩
      · exact h.small o (List.mem_of_mem_eraseIdx ho)
      · show (lookup (s.keys.eraseIdx i) other).map StorageObject.value = if other = name then none else f other
        rw [lookup_eraseIdx h.keys.nodup ho, hname]
        by_cases hother : other = name
        · rw [if_pos (congrArg Subtype.val hother.symm), if_pos hother]
          rfl
        · rw [if_neg fun heq => hother (Subtype.ext heq.symm), if_neg hother]
          exact h.map other

theorem Refined.getValue (h : Refined sha s f) (name : Option CStr) : getValue s name = .ok (name.bind f) := by
  cases name with
  | none => rfl
  | some name =>
    unfold Unifykey.getValue
    rw [normalkeyGet_eq h.namesize_le]
    cases hlook : lookup s.keys name with
    | none =>
      have hname := h.of_lookup_none hlook
      unfold lookup at hlook
      rw [hlook, Option.bind_some, hname]
      rfl
    | some o =>
      have hwf := h.keys.wf o (List.mem_of_find?_eq_some hlook)
      obtain ⟨dp, hdp, hle⟩ := hwf.dataptr_some
      have hdata : objectData o = .ok o.data := by
        unfold objectData StorageObject.data
        rw [hdp, Option.getD_some, load_of_le (by omega), List.drop_zero]
      have hname := h.of_lookup hlook
      unfold lookup at hlook
      rw [hlook, Option.bind_some, hname]
      simp only [hdata, ok_bind]
      rfl

/-! ## Saving and reading again -/

theorem data_reread (o : StorageObject) : (reread o).data = o.data := congrArg Entry.data (entry_reread o)

theorem KeysOk.reread {env : Env} {keys : List StorageObject} (h : KeysOk env keys) :
    KeysOk env (keys.map Unifykey.reread).reverse := by
  have hmem {o : StorageObject} (ho : o ∈ (keys.map Unifykey.reread).reverse) : ∃ p ∈ keys, Unifykey.reread p = o :=
    List.mem_map.mp (List.mem_reverse.mp ho)
  refine ⟨fun o ho => ?_, fun o ho => ?_, ?_⟩
  · obtain ⟨p, hp, rfl⟩ := hmem ho
    have hwf := h.wf p hp
    exact ⟨hwf.namesize_le, hwf.datasize_ne, hwf.datasize_lt, p.data, rfl, hwf.data_length.ge⟩
  · obtain ⟨p, hp, rfl⟩ := hmem ho
    rw [data_reread]
    exact h.hash p hp
  · have hnames : keys.map (StorageObject.keyName ∘ Unifykey.reread) = keys.map StorageObject.keyName :=
      List.map_congr_left fun o ho => keyName_reread (h.wf o ho)
    rw [List.map_reverse, List.nodup_reverse, List.map_map, hnames]
    exact h.nodup

theorem normalkeyReadfromblock_frame {env : Env} {block : Option (List UInt8)} {size : Nat}
    (h : normalkeyReadfromblock env block size s = .ok (0, s')) :
    s'.blockinited = 2 ∧ s'.rawhead.mark = freshRawHead.mark := by
  unfold normalkeyReadfromblock at h
  by_cases hinit : s.blockinited ≠ 1
  · rw [if_pos hinit] at h
    cases h
  rw [if_neg hinit] at h
  cases block with
  | none => cases h
  | some m =>
    split_ifs at h
    · cases h
    obtain ⟨p, -, h⟩ := bind_eq_ok h
    split_ifs at h
    · cases h
      exact ⟨rfl, rfl⟩
    · obtain ⟨s1, hread, h⟩ := bind_eq_ok h
      cases h
      obtain ⟨hmark, hblock⟩ := readBlock_frame hread
      exact ⟨hblock, hmark⟩

/-- A list that finds no room is kept; of one that does, the objects whose hash is right are read back. -/
theorem reload_spec {read : KernelAnswers} {block : List UInt8} (hinit : s.blockinited = 2)
    (hmark : s.rawhead.mark = freshRawHead.mark) (hwf : ∀ o ∈ s.keys, o.Wf)
    (hsmall : ∀ o ∈ s.keys, o.datasize.toNat < 2 ^ 30) (hfair : (StoreCall.reload write read block).Fair sha) :
    ∃ s', Unifykey.reload sha write read block s = .ok s' ∧ s'.blockinited = 2 ∧
      s'.rawhead.mark = freshRawHead.mark ∧
      s'.keys = if 1024 < block.length ∧ (encObjects s.keys).length ≤ block.length - 1024 then
        ((s.keys.filter (·.Sound (shaEnv sha))).map reread).reverse else s.keys := by
  obtain ⟨hlt, hw, hr⟩ := hfair
  unfold Unifykey.reload
  by_cases h1024 : 1024 < block.length
  case neg =>
    have hwrite : normalkeyWritetoblock (write.env sha) (some block) block.length s = .ok (-1, s, some block) := by
      simp only [normalkeyWritetoblock, if_neg (not_not_intro hinit), storageBlockEncHeadSize,
        storageBlockRawHeadSize, if_pos (show block.length ≤ 512 + 512 by omega)]
    rw [hwrite]
    exact ⟨s, rfl, hinit, hmark, (if_neg fun h => h1024 h.1).symm⟩
  have hneed := needObjects_eq hwf (fun o ho => by have := hsmall o ho; omega) (block.length - 1024)
  obtain ⟨⟨ret, s1, out⟩, hwrite, hret, hkeys, hinit1, m, hout, -⟩ :=
    (normalkeyWritetoblock_room (write.env sha) hinit rfl h1024 hlt).ok_of hneed
  obtain ⟨hmark1, -⟩ := normalkeyWritetoblock_frame hwrite
  rw [hwrite, ok_bind]
  dsimp only
  by_cases hfits : (encObjects s.keys).length ≤ block.length - 1024
  · rw [decide_eq_true hfits, if_pos rfl] at hret
    subst hret hout
    rw [if_neg (not_not_intro rfl), if_pos ⟨h1024, hfits⟩]
    obtain ⟨-, -, e, hblk, -⟩ := normalkeyWritetoblock_ok hw rfl hlt hwrite
    obtain ⟨s2, hread, hkeys2⟩ := normalkeyReadfromblock_of_block (s := (normalkeyInit .initial).2) hr h1024 hlt hwf
      (⟨hblk.raw, hblk.headhash, hblk.enc, hblk.objects, hblk.blocksize, hblk.fits, hblk.data⟩)
      (hmark1.trans hmark) rfl
    obtain ⟨hinit2, hmark2⟩ := normalkeyReadfromblock_frame hread
    rw [hread]
    exact ⟨s2, rfl, hinit2, hmark2, hkeys2.trans (List.append_nil _)⟩
  · rw [decide_eq_false hfits, if_neg Bool.false_ne_true] at hret
    subst hret
    rw [if_pos (by decide), if_neg fun h => hfits h.2]
    exact ⟨s1, rfl, hinit1, hmark1.trans hmark, hkeys⟩

/-- A save that fails leaves the map, and one that succeeds is read back as the same map. -/
theorem Refined.reload (h : Refined sha s f) {read : KernelAnswers} {block : List UInt8}
    (hfair : (StoreCall.reload write read block).Fair sha) :
    ∃ s', Unifykey.reload sha write read block s = .ok s' ∧ Refined sha s' f := by
  obtain ⟨s', hrun, hinit, hmark, hkeys⟩ := reload_spec h.inited h.mark h.keys.wf h.small hfair
  refine ⟨s', hrun, ?_⟩
  rw [h.keys.filter_sound] at hkeys
  split_ifs at hkeys
  · have hk : KeysOk (shaEnv sha) s'.keys := hkeys ▸ h.keys.reread
    refine ⟨hinit, hmark, hk, fun o ho => ?_, fun name => ?_⟩
    · rw [hkeys, List.mem_reverse] at ho
      obtain ⟨p, hp, rfl⟩ := List.mem_map.mp ho
      exact h.small p hp
    · have hmap := keyMap_reread h.keys hkeys name
      rw [keyMap_eq hk.namesize_le, keyMap_eq h.namesize_le] at hmap
      have hentry := congrArg (Option.map fun e : Entry => (⟨e.data, e.attr⟩ : Value)) (Except.ok.inj hmap)
      rw [Option.map_map, Option.map_map] at hentry
      exact hentry.trans (h.map name)
  · exact ⟨hinit, hmark, hkeys ▸ h.keys, hkeys ▸ h.small, hkeys ▸ h.map⟩

theorem Refined.step (h : Refined sha s f) {c : StoreCall} (hfair : c.Fair sha) :
    ∃ s', c.run sha s = .ok ((f.step c).1, s') ∧ Refined sha s' (f.step c).2 := by
  cases c with
  | add a name buffer len attr => exact h.add hfair
  | del name => exact h.del name
  | get name =>
    refine ⟨s, ?_, h⟩
    simp only [run, h.getValue, ok_bind]
    rfl
  | reload write read block =>
    obtain ⟨s', hrun, hs'⟩ := h.reload hfair
    refine ⟨s', ?_, hs'⟩
    simp only [StoreCall.run, hrun, ok_bind]
    rfl

end Steps

/-- Any sequence of calls and reloads on an empty store that is ready: no call faults, every answer is that of the map,
and after the calls the names are distinct and `normalkey_get` gives the map. -/
theorem keyList_refines_map {sha : List UInt8 → Bytes 32} {s : NormalKey} (hreach : Reachable s)
    (hinit : s.blockinited = 2) (hempty : s.keys = []) {calls : List StoreCall} (hfair : ∀ c ∈ calls, c.Fair sha) :
    ∃ s', answers (run sha) calls s = .ok ((specAnswers step calls .empty).1, s') ∧
      (s'.keys.map StorageObject.keyName).Nodup ∧
      ∀ name, getValue s' (some name) = .ok ((specAnswers step calls .empty).2 name) := by
  have hs : Refined sha s .empty := by
    refine ⟨hinit, hreach.mark hinit, ?_, ?_, ?_⟩
    · rw [hempty]
      exact ⟨by simp, by simp, by simp⟩
    · simp [hempty]
    · simp [hempty, lookup, empty]
  have hstep {s : NormalKey} {f : KeyMap} {c : StoreCall} (h : Refined sha s f) (hc : c.Fair sha) :
      ∃ s', run sha s c = .ok ((f.step c).1, s') ∧ Refined sha s' (f.step c).2 := h.step hc
  obtain ⟨s', hrun, hs'⟩ := answers_eq_spec hstep hfair hs
  exact ⟨s', hrun, hs'.keys.nodup, fun name => hs'.getValue (some name)⟩

def KernelAnswers.fair : KernelAnswers := ⟨fun _ n => decide (n < 2 ^ 30), fun _ => true⟩

def KernelAnswers.all : KernelAnswers := ⟨fun _ _ => true, fun _ => true⟩

def KernelAnswers.noDigest : KernelAnswers := ⟨fun _ n => decide (n < 2 ^ 30), fun _ => false⟩

def twoReloads : List StoreCall :=
  [.add .fair (some plainName) (some [7, 8]) 2 0, .reload .all .all (List.replicate 2048 0),
    .get (some plainName), .del (some plainName), .reload .all .all (List.replicate 2048 0),
    .get (some plainName)]

theorem keyList_refines_map_in_two_reloads :
    ∃ s', answers (run fun _ => .zero 32) twoReloads (.ready 2048) =
      .ok ([.code 0, .reloaded, .object (some ⟨[7, 8], 0⟩), .code 0, .reloaded, .object none], s') := by
  have hfair : ∀ c ∈ twoReloads, c.Fair fun _ => .zero 32 := by
    have hbounded : (fair.env fun _ => .zero 32).Bounded := fun _ _ h => of_decide_eq_true h
    have hall : (all.env fun _ => .zero 32).NoFail := ⟨fun _ _ => rfl, fun _ => rfl⟩
    have hblock : (List.replicate 2048 (0 : UInt8)).length < 2 ^ 31 := by rw [List.length_replicate]; decide
    intro c hc
    simp only [twoReloads, List.mem_cons, List.not_mem_nil, or_false] at hc
    rcases hc with rfl | rfl | rfl | rfl | rfl | rfl
    · exact ⟨hbounded, fun _ => rfl, fun b hb => Option.some.inj hb ▸ by decide⟩
    · exact ⟨hblock, fun _ => rfl, hall⟩
    · trivial
    · trivial
    · exact ⟨hblock, fun _ => rfl, hall⟩
    · trivial
  obtain ⟨s', hrun, -⟩ := keyList_refines_map (reachable_ready plainEnv (show 1024 < 2048 by decide)) rfl rfl hfair
  exact ⟨s', hrun⟩

def unhashedKey : StorageObject := ⟨newName [107], 1, 0, objTypeGeneric, 2, some [7, 8], .zero 32⟩

/-- A key whose digest cannot be computed: the call succeeds, and after a reload the key is gone. -/
theorem keyList_loses_key :
    (∃ s', answers (run fun _ => hashOf [1])
        [.add .noDigest (some ⟨[107], by decide⟩) (some [7, 8]) 2 0, .reload .all .all (List.replicate 2048 0),
          .get (some ⟨[107], by decide⟩)] (.ready 2048) = .ok ([.code 0, .reloaded, .object none], s')) ∧
      (specAnswers step
        [.add .noDigest (some ⟨[107], by decide⟩) (some [7, 8]) 2 0, .reload .all .all (List.replicate 2048 0),
          .get (some ⟨[107], by decide⟩)] .empty).1 = [.code 0, .reloaded, .object (some ⟨[7, 8], 0⟩)] := by
  have hwf : ∀ o ∈ [unhashedKey], o.Wf := by
    simp only [List.mem_singleton, forall_eq]
    exact ⟨by decide, by decide, by decide, [7, 8], rfl, by decide⟩
  have hlen : (List.replicate 2048 (0 : UInt8)).length = 2048 := List.length_replicate
  have hfair : (StoreCall.reload .all .all (List.replicate 2048 0)).Fair fun _ => hashOf [1] :=
    ⟨by rw [hlen]; decide, fun _ => rfl, fun _ _ => rfl, fun _ => rfl⟩
  have hadd : run (fun _ => hashOf [1]) (.ready 2048)
      (.add .noDigest (some ⟨[107], by decide⟩) (some [7, 8]) 2 0) =
        .ok (.code 0, { NormalKey.ready 2048 with keys := [unhashedKey] }) := rfl
  obtain ⟨s', hreload, -, -, hkeys⟩ := reload_spec
    (s := { NormalKey.ready 2048 with keys := [unhashedKey] }) rfl rfl hwf (by decide) hfair
  -- the block has room for the key, and the stored hash is not the digest
  have hroom : (encObjects [unhashedKey]).length ≤ 2048 - 1024 := by decide +kernel
  have hunsound : [unhashedKey].filter (·.Sound (shaEnv fun _ => hashOf [1])) = [] := by decide
  rw [hlen, if_pos ⟨by decide, hroom⟩, hunsound] at hkeys
  have hget : getValue s' (some ⟨[107], by decide⟩) = .ok none := by
    simp only [getValue, normalkeyGet, hkeys]
    rfl
  have hreload' : run (fun _ => hashOf [1]) { NormalKey.ready 2048 with keys := [unhashedKey] }
      (.reload .all .all (List.replicate 2048 0)) = .ok (.reloaded, s') := by
    rw [run, hreload]
    rfl
  have hget' : run (fun _ => hashOf [1]) s' (.get (some ⟨[107], by decide⟩)) = .ok (.object none, s') := by
    rw [run, hget]
    rfl
  exact ⟨⟨s', answers_cons hadd (answers_cons hreload' (answers_cons hget' rfl))⟩, by decide⟩

end Amlogic.Unifykey
