import Amlogic.Unifykey.Proofs.AddProofs

/-!
# The key list as a map

`normalkey_add` and `normalkey_del` keep the objects of the list well formed and their names
distinct, so that the list is a finite map from names to entries.
-/

namespace Amlogic.Unifykey

open StorageObject

variable {o : StorageObject} {keys : List StorageObject}

/-- What a key name stands for: its data, data size, type, attributes and hash. -/
structure Entry where
  data : List UInt8
  datasize : UInt32
  type : UInt32
  attr : UInt32
  hash : Bytes 32
  deriving DecidableEq

def StorageObject.entry (o : StorageObject) : Entry :=
  ⟨o.data, o.datasize, o.type, o.attr, o.hashptr⟩

/-- The map that `normalkey_get` gives access to. -/
def keyMap (s : NormalKey) (name : CStr) : Except Fault (Option Entry) :=
  return (← normalkeyGet s (some name)).map entry

/-- A call as the interface asks for it: the buffer holds the `len` bytes, fewer than 2 ^ 31. -/
def KeyCall.Valid : KeyCall → Prop
  | add _ buffer len _ => len.toNat < 2 ^ 31 ∧ ∀ b, buffer = some b → len.toNat ≤ b.length
  | del _ => True

structure Env.NoFail (env : Env) : Prop where
  kmalloc : ∀ k n, env.kmalloc k n = true
  shash : ∀ k, env.shash k = true

def shaEnv (sha : List UInt8 → Bytes 32) : Env := ⟨sha, fun _ _ => true, fun _ => true⟩

theorem shaEnv_noFail (sha : List UInt8 → Bytes 32) : (shaEnv sha).NoFail :=
  ⟨fun _ _ => rfl, fun _ => rfl⟩

/-- The list of an initialised store: well-formed objects with their hashes, and distinct names. -/
structure KeysOk (env : Env) (keys : List StorageObject) : Prop where
  wf : ∀ o ∈ keys, o.Wf
  hash : ∀ o ∈ keys, o.hashptr = env.sha256 o.data
  nodup : (keys.map keyName).Nodup

/-! ## Searching -/

theorem keyMatches_eq (h : o.namesize.toNat ≤ 80) (name : CStr) :
    keyMatches name o = .ok (decide (o.keyName = name.1)) := by
  have hl : o.keyName.length = o.namesize.toNat := by
    simp [keyName, o.name.2, h]
  unfold keyMatches
  split
  · have hld : load o.name.1 0 o.namesize.toNat = .ok o.keyName := by
      unfold load
      rw [if_pos (by rw [o.name.2]; omega), List.drop_zero]
      rfl
    simp [hld]
  · rename_i hne
    have : o.keyName ≠ name.1 := fun e => hne (by rw [← e, hl])
    simp [this]

theorem findKey_eq (h : ∀ o ∈ keys, o.namesize.toNat ≤ 80) (name : CStr) :
    findKey name keys = .ok (keys.findIdx? (fun o => decide (o.keyName = name.1))) := by
  induction keys with
  | nil => rfl
  | cons o os ih =>
    have ih := ih fun p hp => h p (List.mem_cons_of_mem _ hp)
    rw [findKey, keyMatches_eq (h o (List.mem_cons_self ..)) name, List.findIdx?_cons]
    by_cases ho : o.keyName = name.1
    · simp [ho, bind, Except.bind, pure, Except.pure]
    · simp [ho, ih, bind, Except.bind, pure, Except.pure]

theorem normalkeyGet_eq {s : NormalKey} (h : ∀ o ∈ s.keys, o.namesize.toNat ≤ 80) (name : CStr) :
    normalkeyGet s (some name) = .ok (s.keys.find? (fun o => decide (o.keyName = name.1))) := by
  simp only [normalkeyGet, findKey_eq h, bind, Except.bind, pure, Except.pure]
  rw [← List.find?_eq_bind_findIdx?_getElem?]

theorem keyMap_eq {s : NormalKey} (h : ∀ o ∈ s.keys, o.namesize.toNat ≤ 80) (name : CStr) :
    keyMap s name
      = .ok ((s.keys.find? (fun o => decide (o.keyName = name.1))).map entry) := by
  simp [keyMap, normalkeyGet_eq h]

theorem find?_perm {α β : Type} [DecidableEq β] (f : α → β) (a : β) {l l' : List α} (hp : l'.Perm l)
    (hn : (l.map f).Nodup) : l'.find? (fun x => decide (f x = a)) = l.find? (fun x => decide (f x = a)) := by
  have key : ∀ {l : List α}, (l.map f).Nodup → ∀ x,
      l.find? (fun x => decide (f x = a)) = some x ↔ x ∈ l ∧ f x = a := by
    intro l hn x
    constructor
    · intro h
      exact ⟨List.mem_of_find?_eq_some h, by simpa using List.find?_some h⟩
    · rintro ⟨hx, hfx⟩
      cases hf : l.find? (fun x => decide (f x = a)) with
      | none => exact absurd hfx (by simpa using List.find?_eq_none.mp hf x hx)
      | some y =>
        have hy : f y = a := by simpa using List.find?_some hf
        rw [List.inj_on_of_nodup_map hn (List.mem_of_find?_eq_some hf) hx (hy.trans hfx.symm)]
  have hn' : (l'.map f).Nodup := (hp.map f).nodup_iff.mpr hn
  apply Option.ext
  intro x
  rw [key hn' x, key hn x, hp.mem_iff]

/-! ## Adding and deleting -/

theorem KeysOk.namesize_le {env : Env} (h : KeysOk env keys) :
    ∀ o ∈ keys, o.namesize.toNat ≤ 80 :=
  fun o ho => (h.wf o ho).namesize_le

section Add

variable {env : Env} {s s' : NormalKey} {len attr : UInt32} {name : Option CStr}
  {buffer : Option (List UInt8)} {src : List UInt8} {p : Put}

section

variable (h : Accepted env name buffer len attr s src p)
include h

theorem Accepted.object_data :
    (p.object env len src).data = src := by
  simp [data, Put.object, patch, ← h.src_length]

theorem Accepted.object_wf
    (hn : p.obj.namesize.toNat ≤ 80) (hlt : len.toNat < 2 ^ 31) : (p.object env len src).Wf := by
  have hle := h.len_le
  have hr : 0 + src.length ≤ p.buf.length := by rw [h.src_length]; omega
  exact ⟨hn, h.len_ne, hlt, _, rfl, by rw [patch_length hr]; exact hle⟩

theorem Accepted.object_hash (hf : ∀ k, env.shash k = true) :
    (p.object env len src).hashptr = env.sha256 (p.object env len src).data := by
  rw [h.object_data]
  simp [Put.object, normalkeyHash, hf]

end

theorem KeysOk.set (hk : KeysOk env keys) {i : Nat} {o' : StorageObject}
    (hi : keys[i]? = some o) (hn : o'.keyName = o.keyName) (hw : o'.Wf)
    (hh : o'.hashptr = env.sha256 o'.data) : KeysOk env (keys.set i o') := by
  refine ⟨fun p hp => ?_, fun p hp => ?_, ?_⟩
  · rcases List.mem_or_eq_of_mem_set hp with h | rfl
    · exact hk.wf p h
    · exact hw
  · rcases List.mem_or_eq_of_mem_set hp with h | rfl
    · exact hk.hash p h
    · exact hh
  · rw [List.map_set, set_of_getElem? (by rw [List.getElem?_map, hi, hn]; rfl)]
    exact hk.nodup

theorem keyName_newName {name : List UInt8} (hl : name.length ≤ 80)
    (h1 : o.name = newName name) (h2 : o.namesize = UInt32.ofNat name.length) : o.keyName = name := by
  have hto : o.namesize.toNat = name.length := by
    rw [h2]; exact UInt32.toNat_ofNat_of_lt' (by simp [UInt32.size]; omega)
  unfold keyName
  rw [hto, h1]
  simp only [newName, List.take_take, Nat.min_eq_left hl, List.take_left]

theorem KeysOk.cons (hk : KeysOk env keys) (hnew : ∀ p ∈ keys, p.keyName ≠ o.keyName) (hw : o.Wf)
    (hh : o.hashptr = env.sha256 o.data) : KeysOk env (o :: keys) := by
  refine ⟨List.forall_mem_cons.mpr ⟨hw, hk.wf⟩, List.forall_mem_cons.mpr ⟨hh, hk.hash⟩, ?_⟩
  rw [List.map_cons, List.nodup_cons]
  refine ⟨fun hm => ?_, hk.nodup⟩
  obtain ⟨p, hp, hpe⟩ := List.mem_map.mp hm
  exact hnew p hp hpe

theorem Accepted.keysOk (h : Accepted env name buffer len attr s src p) (hf : ∀ k, env.shash k = true)
    (hk : KeysOk env s.keys) (hlt : len.toNat < 2 ^ 31) : KeysOk env (p.keys env len src s.keys) := by
  have hh := h.object_hash hf
  have hw := fun hn => h.object_wf hn hlt
  obtain ⟨n, -, hl, hs⟩ := h.slot
  cases hs with
  | grow _ ho | reuse _ ho =>
    have hn := hk.namesize_le _ (List.mem_of_getElem? ho)
    exact hk.set ho rfl (hw hn) hh
  | insert hfind =>
    have hto : (UInt32.ofNat n.1.length).toNat = n.1.length :=
      UInt32.toNat_ofNat_of_lt' (by simp only [UInt32.size]; unfold maxObjNameLen at hl; omega)
    refine hk.cons (fun o ho => ?_) (hw (hto ▸ hl)) hh
    rw [findKey_eq hk.namesize_le] at hfind
    have hname : (Put.object ⟨none, newObject n attr, List.replicate len.toNat 0, 2⟩ env len
      src).keyName = n.1 := keyName_newName hl rfl rfl
    rw [hname]
    simpa using List.findIdx?_eq_none_iff.mp (Except.ok.inj hfind) o ho

theorem normalkeyAdd_keysOk (hf : ∀ k, env.shash k = true) (hk : KeysOk env s.keys) {r : Int}
    (hlt : len.toNat < 2 ^ 31) (h : normalkeyAdd env name buffer len attr s = .ok (r, s')) : KeysOk env s'.keys := by
  rcases normalkeyAdd_cases h with ⟨-, rfl⟩ | ⟨src, p, hp, -, rfl⟩
  · exact hk
  · exact hp.keysOk hf hk hlt

end Add

theorem normalkeyDel_keysOk {env : Env} {s s' : NormalKey} (hk : KeysOk env s.keys) {name : Option CStr} {r : Int}
    (h : normalkeyDel name s = .ok (r, s')) : KeysOk env s'.keys := by
  unfold normalkeyDel at h
  split_ifs at h with hb
  · cases h; exact hk
  · cases name with
    | none => cases h; exact hk
    | some name =>
      simp only at h
      obtain ⟨i?, _, h⟩ := bind_eq_ok h
      cases i? with
      | none => cases h; exact hk
      | some i =>
        cases h
        have hsub : (s.keys.eraseIdx i).Sublist s.keys := List.eraseIdx_sublist ..
        refine ⟨?_, ?_, ?_⟩
        · intro o ho; exact hk.wf o (hsub.subset ho)
        · intro o ho; exact hk.hash o (hsub.subset ho)
        · exact hk.nodup.sublist (hsub.map _)

/-! ## Whole runs -/

theorem normalkeyAdd_total (env : Env) {s : NormalKey} (hw : ∀ o ∈ s.keys, o.Wf) {len : UInt32}
    {buf : Option (List UInt8)} (hb : ∀ b, buf = some b → len.toNat ≤ b.length)
    (name : Option CStr) (attr : UInt32) : ∃ r, normalkeyAdd env name buf len attr s = .ok r := by
  unfold normalkeyAdd
  by_cases hi : s.blockinited ≠ 2
  · exact ⟨_, if_pos hi⟩
  rw [if_neg hi]
  rcases name with _ | name
  · exact ⟨_, rfl⟩
  rcases buf with _ | buffer
  · exact ⟨_, rfl⟩
  have hb := hb buffer rfl
  simp only
  split_ifs
  · exact ⟨_, rfl⟩
  · exact ⟨_, rfl⟩
  rw [findKey_eq fun o ho => (hw o ho).namesize_le]
  cases hidx : s.keys.findIdx? (fun o => decide (o.keyName = name.1)) with
  | none =>
    show ∃ r, insertKey env name buffer len attr s = .ok r
    unfold insertKey
    split_ifs
    · exact ⟨_, rfl⟩
    · exact ⟨_, rfl⟩
    · dsimp only
      rw [fillObject_eq hb List.length_replicate.ge]
      exact ⟨_, rfl⟩
  | some i =>
    obtain ⟨hlt, -⟩ := List.findIdx?_eq_some_iff_getElem.mp hidx
    simp only [bind, Except.bind, List.getElem?_eq_getElem hlt]
    show ∃ r, updateKey env buffer len attr i s.keys[i] s = .ok r
    unfold updateKey
    split_ifs with _ hgt
    · exact ⟨_, rfl⟩
    · rw [fillObject_eq hb List.length_replicate.ge]
      exact ⟨_, rfl⟩
    · exact ⟨_, rfl⟩
    · -- the old buffer holds at least the old data
      obtain ⟨dp, hdp, hle⟩ := (hw _ (List.getElem_mem hlt)).dataptr_some
      have hle' : len.toNat ≤ (s.keys[i].dataptr.getD []).length := by
        rw [hdp, Option.getD_some]
        exact (UInt32.le_iff_toNat_le.mp (UInt32.not_lt.mp hgt)).trans hle
      rw [fillObject_eq hb hle']
      exact ⟨_, rfl⟩

theorem normalkeyDel_total {s : NormalKey} (hw : ∀ o ∈ s.keys, o.Wf) (name : Option CStr) :
    ∃ r, normalkeyDel name s = .ok r := by
  unfold normalkeyDel
  split_ifs
  · exact ⟨_, rfl⟩
  rcases name with _ | name
  · exact ⟨_, rfl⟩
  simp only [findKey_eq fun o ho => (hw o ho).namesize_le, bind, Except.bind]
  split <;> exact ⟨_, rfl⟩

theorem normalkeyAdd_frame {env : Env} {s s' : NormalKey} {name : Option CStr}
    {buf : Option (List UInt8)} {len attr : UInt32} {r : Int}
    (h : normalkeyAdd env name buf len attr s = .ok (r, s')) : ∃ keys, s' = { s with keys := keys } := by
  rcases normalkeyAdd_cases h with ⟨-, rfl⟩ | ⟨src, p, -, -, rfl⟩
  · exact ⟨_, rfl⟩
  · exact ⟨_, rfl⟩

theorem normalkeyDel_frame {s s' : NormalKey} {name : Option CStr} {r : Int}
    (h : normalkeyDel name s = .ok (r, s')) : ∃ keys, s' = { s with keys := keys } := by
  unfold normalkeyDel at h
  split_ifs at h
  · cases h; exact ⟨_, rfl⟩
  rcases name with _ | name
  · cases h; exact ⟨_, rfl⟩
  obtain ⟨i?, _, h⟩ := bind_eq_ok h
  rcases i? with _ | i <;> (cases h; exact ⟨_, rfl⟩)

theorem KeyCall.run_frame {env : Env} {s s' : NormalKey} {c : KeyCall} (h : c.run env s = .ok s') :
    ∃ keys, s' = { s with keys := keys } := by
  cases c with
  | add name buffer len attr =>
    obtain ⟨⟨r, s1⟩, h1, h⟩ := bind_eq_ok h
    cases h; exact normalkeyAdd_frame h1
  | del name =>
    obtain ⟨⟨r, s1⟩, h1, h⟩ := bind_eq_ok h
    cases h; exact normalkeyDel_frame h1

theorem runCalls_keysOk {env : Env} (hf : env.NoFail) {calls : List KeyCall}
    (hv : ∀ c ∈ calls, c.Valid) {s : NormalKey} (hk : KeysOk env s.keys) :
    ∃ keys, runCalls env calls s = .ok { s with keys := keys } ∧ KeysOk env keys := by
  induction calls generalizing s with
  | nil => exact ⟨s.keys, rfl, hk⟩
  | cons c cs ih =>
    have hc := hv c (List.mem_cons_self ..)
    obtain ⟨s1, h1, hk1⟩ : ∃ s1, c.run env s = .ok s1 ∧ KeysOk env s1.keys := by
      cases c with
      | add name buffer len attr =>
        obtain ⟨⟨r, s1⟩, h1⟩ := normalkeyAdd_total env hk.wf hc.2 name attr
        exact ⟨s1, by simp only [KeyCall.run, h1, bind, Except.bind, pure, Except.pure],
          normalkeyAdd_keysOk hf.shash hk hc.1 h1⟩
      | del name =>
        obtain ⟨⟨r, s1⟩, h1⟩ := normalkeyDel_total hk.wf name
        exact ⟨s1, by simp only [KeyCall.run, h1, bind, Except.bind, pure, Except.pure],
          normalkeyDel_keysOk hk h1⟩
    obtain ⟨keys1, rfl⟩ := KeyCall.run_frame h1
    obtain ⟨keys, h2, hk2⟩ := ih (fun c hc => hv c (List.mem_cons_of_mem _ hc)) hk1
    refine ⟨keys, ?_, hk2⟩
    unfold runCalls at h2 ⊢
    rw [List.foldlM_cons, h1]
    exact h2

end Amlogic.Unifykey
