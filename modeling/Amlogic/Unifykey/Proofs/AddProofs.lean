import Amlogic.Unifykey.BlockRoom
import Amlogic.Unifykey.Proofs.TlvProofs

/-!
# What `normalkey_add` does

A call either fails and leaves the list alone, or it puts the bytes of the caller into one object:
an old one, whose buffer is replaced when it is too small, or a new one at the head of the list.
-/

namespace Amlogic.Unifykey

def place {α : Type} (pos : Option Nat) (a : α) (l : List α) : List α :=
  match pos with
  | some i => l.set i a
  | none => a :: l

theorem map_place {α β : Type} (f : α → β) (pos : Option Nat) (a : α) (l : List α) :
    (place pos a l).map f = place pos (f a) (l.map f) := by
  cases pos with
  | none => rfl
  | some i => exact List.map_set

theorem set_of_getElem? {α : Type} {l : List α} {i : Nat} {a : α} (h : l[i]? = some a) :
    l.set i a = l := by
  obtain ⟨hlt, rfl⟩ := List.getElem?_eq_some_iff.mp h
  exact List.set_getElem_self hlt

def newObject (name : CStr) (attr : UInt32) : StorageObject :=
  { name := newName name.1, namesize := UInt32.ofNat name.1.length, attr := attr,
    type := objTypeGeneric, datasize := 0, dataptr := none, hashptr := .zero 32 }

/-- Where the data of a call go: the position of the object (none for a new one), the object before
the call, the buffer that takes the data and the number of the digest. -/
structure Put where
  pos : Option Nat
  obj : StorageObject
  buf : List UInt8
  k : Nat

def Put.object (p : Put) (env : Env) (len : UInt32) (src : List UInt8) : StorageObject :=
  { p.obj with
    datasize := len, dataptr := some (patch p.buf 0 src), hashptr := normalkeyHash env p.k src }

def Put.keys (p : Put) (env : Env) (len : UInt32) (src : List UInt8) (keys : List StorageObject) :
    List StorageObject :=
  place p.pos (p.object env len src) keys

def Put.shapes (p : Put) (len : UInt32) (keys : List StorageObject) : List Shape :=
  place p.pos ⟨p.obj.namesize.toNat, some (len.toNat, p.buf.length)⟩ (keys.map StorageObject.shape)

/-- The place for `len` bytes under a name, as far as the kernel grants the memory. -/
inductive Slot (env : Env) (name : CStr) (len attr : UInt32) (keys : List StorageObject) : Put → Prop
  | grow {i : Nat} {o : StorageObject} : findKey name keys = .ok (some i) → keys[i]? = some o →
    attr = o.attr → o.datasize < len → env.kmalloc 0 len.toNat = true →
    Slot env name len attr keys ⟨some i, o, List.replicate len.toNat 0, 1⟩
  | reuse {i : Nat} {o : StorageObject} {dp : List UInt8} : findKey name keys = .ok (some i) →
    keys[i]? = some o → attr = o.attr → len ≤ o.datasize → o.dataptr = some dp →
    len.toNat ≤ dp.length → Slot env name len attr keys ⟨some i, o, dp, 0⟩
  | insert : findKey name keys = .ok none → env.kmalloc 0 storageNodeSize = true →
    env.kmalloc 1 len.toNat = true →
    Slot env name len attr keys ⟨none, newObject name attr, List.replicate len.toNat 0, 2⟩

/-- A call that succeeds, with the bytes that it stores and their place. -/
structure Accepted (env : Env) (name : Option CStr) (buffer : Option (List UInt8))
    (len attr : UInt32) (s : NormalKey) (src : List UInt8) (p : Put) : Prop where
  inited : s.blockinited = 2
  len_ne : len ≠ 0
  not_secure : attr &&& objAttrSecure = 0
  source : ∃ b, buffer = some b ∧ len.toNat ≤ b.length ∧ src = b.take len.toNat
  slot : ∃ n, name = some n ∧ n.1.length ≤ maxObjNameLen ∧ Slot env n len attr s.keys p

section

variable {env : Env} {name : Option CStr} {buffer : Option (List UInt8)} {len attr : UInt32}
  {s s' : NormalKey} {src : List UInt8} {p : Put}

theorem Slot.len_le {n : CStr} {keys : List StorageObject} (h : Slot env n len attr keys p) :
    len.toNat ≤ p.buf.length := by
  cases h with
  | grow | insert => exact List.length_replicate.ge
  | reuse _ _ _ _ _ hle => exact hle

theorem Accepted.src_length (h : Accepted env name buffer len attr s src p) :
    src.length = len.toNat := by
  obtain ⟨b, -, hle, rfl⟩ := h.source
  rw [List.length_take, Nat.min_eq_left hle]

theorem Accepted.len_le (h : Accepted env name buffer len attr s src p) :
    len.toNat ≤ p.buf.length := by
  obtain ⟨n, -, -, hs⟩ := h.slot
  exact hs.len_le

theorem fillObject_eq {k : Nat} {b dp : List UInt8} {o : StorageObject} (hb : len.toNat ≤ b.length)
    (hd : len.toNat ≤ dp.length) :
    fillObject env k b len o dp
      = .ok { o with
          datasize := len, dataptr := some (patch dp 0 (b.take len.toNat)),
          hashptr := normalkeyHash env k (b.take len.toNat) } := by
  have hl : 0 + (b.take len.toNat).length ≤ dp.length := by
    rw [List.length_take]; omega
  unfold fillObject
  rw [load_of_le (show 0 + len.toNat ≤ b.length by omega), List.drop_zero, ok_bind, store_of_le hl]
  rfl

theorem fillObject_inv {k : Nat} {b dp : List UInt8} {o o' : StorageObject}
    (h : fillObject env k b len o dp = .ok o') : len.toNat ≤ b.length ∧ len.toNat ≤ dp.length := by
  obtain ⟨src, h1, h⟩ := bind_eq_ok h
  obtain ⟨dp', h2, -⟩ := bind_eq_ok h
  obtain ⟨hl1, rfl⟩ := load_eq_ok h1
  obtain ⟨hl2, -⟩ := store_eq_ok h2
  rw [List.length_take, List.length_drop] at hl2
  omega

theorem normalkeyAdd_accepted (h : Accepted env name buffer len attr s src p) :
    normalkeyAdd env name buffer len attr s
      = .ok (0, { s with keys := p.keys env len src s.keys }) := by
  obtain ⟨hi, h0, ha, ⟨b, rfl, hb, rfl⟩, ⟨n, rfl, hn, hs⟩⟩ := h
  have hd := hs.len_le
  unfold normalkeyAdd
  rw [if_neg (not_not_intro hi)]
  dsimp only
  rw [if_neg (not_or.mpr ⟨h0, not_not_intro ha⟩), if_neg (Nat.not_lt.mpr hn)]
  cases hs with
  | grow hf hk hat hlt hm =>
    rw [hf, ok_bind]
    simp only [hk]
    rw [updateKey, if_neg (not_not_intro hat), if_pos hlt, if_pos hm, fillObject_eq hb hd]
    rfl
  | reuse hf hk hat hle hdp =>
    rw [hf, ok_bind]
    simp only [hk]
    rw [updateKey, if_neg (not_not_intro hat), if_neg (UInt32.not_lt.mpr hle), hdp,
      Option.getD_some, fillObject_eq hb hd]
    rfl
  | insert hf h1 h2 =>
    rw [hf, ok_bind]
    rw [insertKey, if_neg (by rw [h1]; exact Bool.false_ne_true),
      if_neg (by rw [h2]; exact Bool.false_ne_true)]
    dsimp only
    rw [fillObject_eq hb hd]
    rfl

theorem normalkeyAdd_cases {r : Int} (h : normalkeyAdd env name buffer len attr s = .ok (r, s')) :
    (r = -1 ∧ s' = s) ∨ ∃ src p, Accepted env name buffer len attr s src p ∧ r = 0 ∧
      s' = { s with keys := p.keys env len src s.keys } := by
  -- an accepted call has only one result
  have accepted : ∀ {src p}, Accepted env name buffer len attr s src p →
      ∃ src p, Accepted env name buffer len attr s src p ∧ r = 0 ∧
        s' = { s with keys := p.keys env len src s.keys } := by
    intro src p hp
    have heq := (normalkeyAdd_accepted hp).symm.trans h
    cases heq
    exact ⟨src, p, hp, rfl, rfl⟩
  by_cases hi : s.blockinited ≠ 2
  · unfold normalkeyAdd at h
    rw [if_pos hi] at h
    cases h; exact .inl ⟨rfl, rfl⟩
  rcases name with _ | n
  · unfold normalkeyAdd at h
    rw [if_neg hi] at h
    cases h; exact .inl ⟨rfl, rfl⟩
  rcases buffer with _ | b
  · unfold normalkeyAdd at h
    rw [if_neg hi] at h
    cases h; exact .inl ⟨rfl, rfl⟩
  have h' := h
  unfold normalkeyAdd at h'
  dsimp only at h'
  split_ifs at h' with harg hlen
  · cases h'; exact .inl ⟨rfl, rfl⟩
  · cases h'; exact .inl ⟨rfl, rfl⟩
  obtain ⟨h0, ha⟩ := not_or.mp harg
  have stored : (r = -1 ∧ s' = s) ∨ (len.toNat ≤ b.length ∧ ∃ p, Slot env n len attr s.keys p) := by
    obtain ⟨i?, hf, h'⟩ := bind_eq_ok h'
    rcases i? with _ | i
    · unfold insertKey at h'
      split_ifs at h' with h1 h2
      · cases h'; exact .inl ⟨rfl, rfl⟩
      · cases h'; exact .inl ⟨rfl, rfl⟩
      · obtain ⟨o', ho', -⟩ := bind_eq_ok h'
        exact .inr ⟨(fillObject_inv ho').1, _, .insert hf (by simpa using h1) (by simpa using h2)⟩
    · dsimp only at h'
      split at h'
      · rename_i o hk
        unfold updateKey at h'
        split_ifs at h' with hat hlt hm
        · cases h'; exact .inl ⟨rfl, rfl⟩
        · obtain ⟨o', ho', -⟩ := bind_eq_ok h'
          exact .inr ⟨(fillObject_inv ho').1, _, .grow hf hk (not_not.mp hat) hlt hm⟩
        · cases h'; exact .inl ⟨rfl, rfl⟩
        · obtain ⟨o', ho', -⟩ := bind_eq_ok h'
          obtain ⟨hb, hd⟩ := fillObject_inv ho'
          rcases hdp : o.dataptr with _ | dp
          · -- a missing buffer takes no bytes
            rw [hdp] at hd
            exact absurd (UInt32.toNat_inj.mp (Nat.le_zero.mp hd)) h0
          · rw [hdp] at hd
            exact .inr ⟨hb, _, .reuse hf hk (not_not.mp hat) (UInt32.not_lt.mp hlt) hdp hd⟩
      · cases h'
  rcases stored with hfail | ⟨hb, p, hs⟩
  · exact .inl hfail
  · exact .inr (accepted ⟨not_not.mp hi, h0, not_not.mp ha, ⟨b, rfl, hb, rfl⟩,
      ⟨n, rfl, Nat.not_lt.mp hlen, hs⟩⟩)

end

end Amlogic.Unifykey
