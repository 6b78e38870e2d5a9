import Amlogic.Unifykey.NormalKey

/-!
# The records of a key block

What `Tlv_WriteObject` and `Tlv_WriteHead` put into the block, as lists of bytes, and that
`Tlv_ReadObject` and `Tlv_ReadHead` find the same fields in these bytes again.
-/

namespace Amlogic.Unifykey

open EmTLVTag StorageObject

variable {m' : List UInt8} {output n k k' : Nat} {tag : EmTLVTag} {value length : UInt32} {o o' : StorageObject}

/-! ## The encoding -/

def align4 (n : Nat) : Nat := (n + 3) / 4 * 4

theorem le_align4 (n : Nat) : n ≤ align4 n := by unfold align4; omega

theorem align4_lt (n : Nat) : align4 n < n + 4 := by unfold align4; omega

def recUint32 (tag : EmTLVTag) (value : UInt32) : List UInt8 :=
  le32 tag.code ++ (le32 4 ++ le32 value)

def recBuf (tag : EmTLVTag) (data : List UInt8) : List UInt8 :=
  le32 tag.code ++ (le32 (UInt32.ofNat (align4 data.length)) ++
    (data ++ List.replicate (align4 data.length - data.length) 0))

def recGroup (tag : EmTLVTag) (body : List UInt8) : List UInt8 :=
  le32 tag.code ++ (le32 (UInt32.ofNat body.length) ++ body)

@[simp] theorem recUint32_length (tag : EmTLVTag) (value : UInt32) :
    (recUint32 tag value).length = 12 := rfl

@[simp] theorem recBuf_length (tag : EmTLVTag) (data : List UInt8) :
    (recBuf tag data).length = 8 + align4 data.length := by
  have := le_align4 data.length
  simp [recBuf]; omega

@[simp] theorem recGroup_length (tag : EmTLVTag) (body : List UInt8) :
    (recGroup tag body).length = 8 + body.length := by
  simp [recGroup]; omega

def StorageObject.keyName (o : StorageObject) : List UInt8 := o.name.1.take o.namesize.toNat

def StorageObject.data (o : StorageObject) : List UInt8 :=
  (o.dataptr.getD []).take o.datasize.toNat

def encName (o : StorageObject) : List UInt8 :=
  if o.namesize ≠ 0 then recUint32 .objnamesize o.namesize ++ recBuf .objname o.keyName else []

def encData (o : StorageObject) : List UInt8 :=
  if o.dataptr.isSome ∧ o.datasize ≠ 0 then
    recUint32 .objdatasize o.datasize ++ recBuf .objdatabuf o.data
  else []

def encBody (o : StorageObject) : List UInt8 :=
  encName o ++ (encData o ++ (recBuf .objhashbuf o.hashptr.1 ++
    (recUint32 .objtype o.type ++ recUint32 .objattr o.attr)))

def encObject (o : StorageObject) : List UInt8 := recGroup .object (encBody o)

def encHeadBytes (h : EncHead) : List UInt8 :=
  recGroup .head (recUint32 .headsize h.blocksize ++ recUint32 .headflashsize h.flashsize)

/-! ## The writer -/

theorem tlvWriteUint32_eq (m : List UInt8) (output : Nat) (len : Int) (tag value : UInt32) :
    tlvWriteUint32 m output len tag value = if len < 12 then .ok (0, m) else do
      return (12, ← store m output (le32 tag ++ (le32 4 ++ le32 value))) := by
  unfold tlvWriteUint32
  rw [store_store, store_store, List.append_assoc] <;> rfl

theorem tlvWriteBuf_eq (m : List UInt8) (output : Nat) (len : Int) (tag : UInt32) (length : Nat) (input : List UInt8) :
    tlvWriteBuf m output len tag length input =
      if len < s32 (8 + u32 ((length + 3) / 4 * 4)) then .ok (0, m) else do
        let m ← store m output (le32 tag ++ (le32 (UInt32.ofNat (u32 ((length + 3) / 4 * 4))) ++
          List.replicate (u32 ((length + 3) / 4 * 4)) 0))
        let data ← load input 0 length
        return (u32 (u32 ((length + 3) / 4 * 4) + 8), ← store m (output + 8) data) := by
  unfold tlvWriteBuf
  dsimp only
  rw [store_store, store_store, List.append_assoc] <;> rfl

theorem tlvWriteUint32_ok {m : List UInt8} {len : Int} (h : tlvWriteUint32 m output len tag.code value = .ok (n, m'))
    (hn : n ≠ 0) : n = 12 ∧ output + 12 ≤ m.length ∧ m' = patch m output (recUint32 tag value) := by
  rw [tlvWriteUint32_eq] at h
  split at h
  · cases h; exact absurd rfl hn
  · obtain ⟨m1, h1, h⟩ := bind_eq_ok h
    obtain ⟨hl, rfl⟩ := store_eq_ok h1
    cases h
    exact ⟨rfl, hl, rfl⟩

theorem tlvWriteBuf_ok {m input : List UInt8} {length : Nat} {len : Int} (hm : m.length < 2 ^ 31)
    (h : tlvWriteBuf m output len tag.code length input = .ok (n, m')) (hn : n ≠ 0) :
    length ≤ input.length ∧ n = 8 + align4 length ∧ output + 8 + align4 length ≤ m.length ∧
      m' = patch m output (recBuf tag (input.take length)) := by
  rw [tlvWriteBuf_eq] at h
  split at h
  · cases h; exact absurd rfl hn
  · obtain ⟨m1, h1, h⟩ := bind_eq_ok h
    obtain ⟨data, h2, h⟩ := bind_eq_ok h
    obtain ⟨m2, h3, h⟩ := bind_eq_ok h
    obtain ⟨hl1, rfl⟩ := store_eq_ok h1
    obtain ⟨hl2, rfl⟩ := load_eq_ok h2
    obtain ⟨hl3, rfl⟩ := store_eq_ok h3
    cases h
    have hdl : (input.take length).length = length := by simp; omega
    rw [List.drop_zero] at hl3 ⊢
    rw [patch_length hl1, hdl] at hl3
    -- the data fits into the block, so the rounded length has not wrapped around
    have htmp : u32 ((length + 3) / 4 * 4) = align4 length := u32_of_lt (by omega)
    rw [htmp] at hl1 ⊢
    simp only [List.length_append, le32_length, List.length_replicate] at hl1
    have hal := le_align4 length
    refine ⟨by omega, by rw [u32_of_lt (by omega), Nat.add_comm], by omega, ?_⟩
    have hfill : List.replicate (align4 length) (0 : UInt8) =
        List.replicate length 0 ++ List.replicate (align4 length - length) 0 := by
      rw [← List.replicate_add, Nat.add_sub_cancel' hal]
    unfold recBuf
    rw [hdl, hfill, ← List.append_assoc, ← List.append_assoc]
    exact patch_patch_inside m output (le32 tag.code ++ le32 _) _ _ _ (by omega) (by simp [hdl])

/-- The step `f` of a record group at `output`, if it finds room, appends `bs` to the group. -/
def Emits (output : Nat) (f : Wrt) (bs : List UInt8) : Prop :=
  ∀ w w', w.mem.length < 2 ^ 31 → f w = .ok (true, w') →
    (bs ≠ [] → output + w.idx + bs.length ≤ w.mem.length) ∧
      w' = ⟨patch w.mem (output + w.idx) bs, w.idx + bs.length⟩

theorem emits_wrtUint32 (output : Nat) (len : Int) (tag : EmTLVTag) (value : UInt32) :
    Emits output (wrtUint32 output len tag value) (recUint32 tag value) := by
  intro w w' hm h
  obtain ⟨⟨n, m⟩, h1, h⟩ := bind_eq_ok h
  simp only [pure, Except.pure, Except.ok.injEq, Prod.mk.injEq, decide_eq_true_eq] at h
  obtain ⟨hn, rfl⟩ := h
  obtain ⟨rfl, hl, rfl⟩ := tlvWriteUint32_ok h1 hn
  rw [recUint32_length]
  exact ⟨fun _ => by omega, by rw [u32_of_lt (by omega)]⟩

theorem emits_wrtBuf (output : Nat) (len : Int) (tag : EmTLVTag) (length : Nat) (buf : List UInt8) :
    Emits output (wrtBuf output len tag length buf) (recBuf tag (buf.take length)) := by
  intro w w' hm h
  obtain ⟨⟨n, m⟩, h1, h⟩ := bind_eq_ok h
  simp only [pure, Except.pure, Except.ok.injEq, Prod.mk.injEq, decide_eq_true_eq] at h
  obtain ⟨hn, rfl⟩ := h
  obtain ⟨hin, rfl, hl, rfl⟩ := tlvWriteBuf_ok hm h1 hn
  rw [recBuf_length, List.length_take, Nat.min_eq_left hin]
  exact ⟨fun _ => by omega, by rw [u32_of_lt (by omega)]⟩

theorem emits_skip (output : Nat) : Emits output Wrt.skip [] := by
  intro w w' hm h
  cases h
  simp [patch]

theorem Emits.andThen {f g : Wrt} {bs cs : List UInt8} (hf : Emits output f bs)
    (hg : Emits output g cs) : Emits output (f.andThen g) (bs ++ cs) := by
  intro w w' hm h
  obtain ⟨⟨ok, w1⟩, h1, h⟩ := bind_eq_ok h
  cases ok with
  | false => cases h
  | true =>
    obtain ⟨hl1, rfl⟩ := hf w w1 hm h1
    by_cases hbs : bs = []
    · subst hbs
      simpa [patch] using hg _ w' (by simpa [patch] using hm) h
    · have hl1 := hl1 hbs
      obtain ⟨hl2, rfl⟩ := hg _ w' (by rw [patch_length hl1]; exact hm) h
      simp only [patch_length hl1] at hl2
      by_cases hcs : cs = []
      · subst hcs
        simp only [List.append_nil, List.length_nil, Nat.add_zero]
        exact ⟨fun _ => hl1, by simp [patch]⟩
      · have hl2 := hl2 hcs
        rw [List.length_append]
        refine ⟨fun _ => by omega, ?_⟩
        rw [← Nat.add_assoc output, patch_patch_append _ _ _ _ (by omega), Nat.add_assoc w.idx]

theorem emits_wrtName (o : StorageObject) (output : Nat) (len : Int) :
    Emits output (wrtName o output len) (encName o) := by
  unfold wrtName encName
  split
  · exact Emits.andThen (emits_wrtUint32 output len _ _) (emits_wrtBuf output len _ _ _)
  · exact emits_skip output

theorem emits_wrtData (o : StorageObject) (output : Nat) (len : Int) :
    Emits output (wrtData o output len) (encData o) := by
  unfold wrtData encData data
  cases hd : o.dataptr with
  | none => simpa using emits_skip output
  | some data =>
    simp only [Option.isSome_some, true_and, Option.getD_some]
    split
    · exact Emits.andThen (emits_wrtUint32 output len _ _) (emits_wrtBuf output len _ _ _)
    · exact emits_skip output

theorem tlvWriteGroup_ok {body : Wrt} {bs m : List UInt8} {len : Int} (hb : Emits output body bs) (hbs : bs ≠ [])
    (hm : m.length < 2 ^ 31) (h : tlvWriteGroup tag body m output len = .ok (n, m')) (hn : n ≠ 0) :
    n = 8 + bs.length ∧ output + n ≤ m.length ∧ m' = patch m output (recGroup tag bs) := by
  unfold tlvWriteGroup at h
  split at h
  · cases h; exact absurd rfl hn
  · obtain ⟨m1, h1, h⟩ := bind_eq_ok h
    obtain ⟨⟨ok, w⟩, h2, h⟩ := bind_eq_ok h
    obtain ⟨hl1, rfl⟩ := store_eq_ok h1
    cases ok with
    | false => cases h; exact absurd rfl hn
    | true =>
      obtain ⟨hl2, rfl⟩ := hb _ w (by rw [patch_length hl1]; exact hm) h2
      have hl2 := hl2 hbs
      simp only [patch_length hl1] at hl2
      obtain ⟨m3, h3, h⟩ := bind_eq_ok h
      obtain ⟨hl3, rfl⟩ := store_eq_ok h3
      cases h
      have hsum : u32 (8 + bs.length + (2 ^ 32 - 8)) = bs.length := by unfold u32; omega
      refine ⟨rfl, by simp only; omega, ?_⟩
      simp only [hsum]
      exact patch_fill_gap _ _ (le32 tag.code) (le32 (UInt32.ofNat bs.length)) _
        (by simp only [le32_length]; omega)

theorem emits_wrtHash (o : StorageObject) (output : Nat) (len : Int) :
    Emits output (wrtBuf output len .objhashbuf 32 o.hashptr.1) (recBuf .objhashbuf o.hashptr.1) := by
  have h := emits_wrtBuf output len .objhashbuf 32 o.hashptr.1
  rwa [List.take_of_length_le (by rw [o.hashptr.2])] at h

theorem recBuf_ne_nil (tag : EmTLVTag) (data : List UInt8) : recBuf tag data ≠ [] := by
  intro h
  have := congrArg List.length h
  simp at this

theorem tlvWriteObject_ok {m : List UInt8} {len : Int}
    (hm : m.length < 2 ^ 31) (h : tlvWriteObject o m output len = .ok (n, m')) (hn : n ≠ 0) :
    n = (encObject o).length ∧ output + n ≤ m.length ∧ m' = patch m output (encObject o) := by
  have hb : Emits output _ (encBody o) :=
    (emits_wrtName o output len).andThen ((emits_wrtData o output len).andThen
      ((emits_wrtHash o output len).andThen
        ((emits_wrtUint32 output len .objtype o.type).andThen
          (emits_wrtUint32 output len .objattr o.attr))))
  have hne : encBody o ≠ [] := by simp [encBody, recBuf_ne_nil]
  obtain ⟨h1, h2, h3⟩ := tlvWriteGroup_ok hb hne hm h hn
  exact ⟨by rw [h1, encObject, recGroup_length], h2, h3⟩

theorem tlvWriteHead_ok {e : EncHead} {m : List UInt8} {len : Int}
    (hm : m.length < 2 ^ 31) (h : tlvWriteHead e m output len = .ok (n, m')) (hn : n ≠ 0) :
    output + 32 ≤ m.length ∧ m' = patch m output (encHeadBytes e) := by
  have hb := (emits_wrtUint32 output len .headsize e.blocksize).andThen
    (emits_wrtUint32 output len .headflashsize e.flashsize)
  obtain ⟨h1, h2, h3⟩ := tlvWriteGroup_ok hb (by simp [recUint32, le32]) hm h hn
  simp only [List.length_append, recUint32_length] at h1
  exact ⟨by omega, h3⟩

/-! ## The reader -/

@[simp] theorem EmTLVTag.ofCode_code (t : EmTLVTag) : ofCode t.code = some t := by
  cases t <;> decide

theorem tlvReadTl_at {m val : List UInt8} {input : Nat} {len : Int} {tag : UInt32}
    (h : At m input (le32 tag ++ (le32 length ++ val))) (hl : (8 + length.toNat : Int) ≤ len) :
    tlvReadTl m input len = .ok (some (tag, length)) := by
  have h1 := h.load32
  have h2 := h.right.load32
  rw [le32_length] at h2
  unfold tlvReadTl
  rw [if_neg (by omega), h1]
  simp only [bind, Except.bind, h2, pure, Except.pure]
  rw [if_neg (by omega)]

section ReadObject

variable {env : Env} {m : List UInt8} {input : Nat} {len : Int} {sum : Nat}

theorem readObjectLoop_step {val : List UInt8} {tag : UInt32} {idx fuel : Nat}
    (h : At m (input + idx) (le32 tag ++ (le32 length ++ val)))
    (hs : idx < sum) (hl : (idx + 8 + length.toNat : Int) ≤ len) (hb : len < 2 ^ 31)
    (hf : readObjectField env m (input + (idx + 8)) tag length o k = .ok (some (o', k'))) :
    readObjectLoop env m input len sum (fuel + 1) idx o k =
      readObjectLoop env m input len sum fuel (idx + (8 + length.toNat)) o' k' := by
  have hr : s32 (len - idx) = len - idx := s32_of_range (by omega) (by omega)
  have hi : u32 (idx + 8) = idx + 8 := u32_of_lt (by omega)
  have hi' : u32 (idx + 8 + length.toNat) = idx + (8 + length.toNat) := by
    rw [u32_of_lt (by omega)]; omega
  rw [readObjectLoop, if_pos hs, hr, tlvReadTl_at h (by omega)]
  simp [hi, hf, hi']

/-- The loop of `Tlv_ReadObject` goes over the records `bs`, which turn the object `o` into `o'`. -/
def Absorbs (env : Env) (m : List UInt8) (input : Nat) (len : Int) (sum : Nat) (bs : List UInt8)
    (o : StorageObject) (k : Nat) (o' : StorageObject) (k' : Nat) : Prop :=
  ∀ idx, At m (input + idx) bs → idx + bs.length ≤ sum → ∃ c ≤ bs.length, ∀ fuel,
    readObjectLoop env m input len sum (fuel + c) idx o k =
      readObjectLoop env m input len sum fuel (idx + bs.length) o' k'

theorem Absorbs.append {bs cs : List UInt8} {o1 o2 o3 : StorageObject} {k1 k2 k3 : Nat}
    (h1 : Absorbs env m input len sum bs o1 k1 o2 k2) (h2 : Absorbs env m input len sum cs o2 k2 o3 k3) :
    Absorbs env m input len sum (bs ++ cs) o1 k1 o3 k3 := by
  intro idx hat hs
  rw [List.length_append] at hs ⊢
  obtain ⟨c1, hc1, e1⟩ := h1 idx hat.left (by omega)
  have hr := hat.right
  rw [Nat.add_assoc] at hr
  obtain ⟨c2, hc2, e2⟩ := h2 (idx + bs.length) hr (by omega)
  refine ⟨c2 + c1, by omega, fun fuel => ?_⟩
  rw [← Nat.add_assoc fuel, e1, e2, Nat.add_assoc idx]

theorem Absorbs.record {val : List UInt8} (hv : val.length = length.toNat) (hsum : (sum : Int) ≤ len)
    (hb : len < 2 ^ 31)
    (hf : ∀ off, At m off val → readObjectField env m off tag.code length o k = .ok (some (o', k'))) :
    Absorbs env m input len sum (le32 tag.code ++ (le32 length ++ val)) o k o' k' := by
  intro idx hat hs
  have hl : (le32 tag.code ++ (le32 length ++ val)).length = 8 + length.toNat := by
    simp only [List.length_append, le32_length, hv]; omega
  rw [hl] at hs ⊢
  have hval := hat.right.right
  exact ⟨1, by omega, fun fuel =>
    readObjectLoop_step hat (by omega) (by omega) hb (hf _ hval)⟩

theorem Absorbs.uint32 (hsum : (sum : Int) ≤ len) (hb : len < 2 ^ 31) (hf : ∀ off, load32 m off = .ok value →
      readObjectField env m off tag.code 4 o k = .ok (some (o', k))) :
    Absorbs env m input len sum (recUint32 tag value) o k o' k := by
  refine Absorbs.record (by rfl) hsum hb fun off h => hf off ?_
  exact h.load32

theorem Absorbs.buf {data : List UInt8} (hsum : (sum : Int) ≤ len) (hb : len < 2 ^ 31) (hd : data.length < 2 ^ 31)
    (hf : ∀ off, load m off data.length = .ok data →
      readObjectField env m off tag.code (UInt32.ofNat (align4 data.length)) o k
        = .ok (some (o', k'))) : Absorbs env m input len sum (recBuf tag data) o k o' k' := by
  have h1 := align4_lt data.length
  have h2 := le_align4 data.length
  refine Absorbs.record ?_ hsum hb fun off h => hf off h.left.load
  rw [UInt32.toNat_ofNat_of_lt' (by simp [UInt32.size]; omega)]
  simp; omega

/-! ## Reading an object back -/

/-- An object as `normalkey_add` builds them: its name fits its array and its data fills a part of
its buffer. -/
structure StorageObject.Wf (o : StorageObject) : Prop where
  namesize_le : o.namesize.toNat ≤ 80
  datasize_ne : o.datasize ≠ 0
  datasize_lt : o.datasize.toNat < 2 ^ 31
  dataptr_some : ∃ buf, o.dataptr = some buf ∧ o.datasize.toNat ≤ buf.length

theorem StorageObject.Wf.keyName_length (h : o.Wf) :
    o.keyName.length = o.namesize.toNat := by
  have := h.namesize_le
  simp [keyName, o.name.2, this]

theorem StorageObject.Wf.data_length (h : o.Wf) :
    o.data.length = o.datasize.toNat := by
  obtain ⟨buf, hbuf, hle⟩ := h.dataptr_some
  simp [data, hbuf, hle]

def reread (o : StorageObject) : StorageObject :=
  { o with name := newName o.keyName, dataptr := some o.data }

theorem newName_nil : newName [] = Bytes.zero 80 := rfl

theorem patch_zero_name {l : List UInt8} (hl : l.length ≤ 80) :
    patch (Bytes.zero maxObjNameLen).1 0 l = (newName l).1 := by
  simp only [patch, Bytes.zero, newName, maxObjNameLen, List.drop_replicate, Nat.zero_add,
    List.take_append, List.take_of_length_le hl, List.take_replicate]
  congr 2
  omega

theorem readObjectField_name {data : List UInt8} {off : Nat} (hn : o.namesize.toNat = data.length)
    (hl : data.length ≤ 80) (h : load m off data.length = .ok data) :
    readObjectField env m off objname.code length o k
      = .ok (some ({ o with name := newName data }, k)) := by
  have hst : store (Bytes.zero maxObjNameLen).1 0 data = .ok (newName data).1 := by
    unfold store
    rw [if_pos (by rw [(Bytes.zero maxObjNameLen).2]; simpa [maxObjNameLen] using hl),
      patch_zero_name hl]
  simp [readObjectField, ofCode_code, hn, h, hst, (newName data).2]

theorem absorbs_encName (hw : o.Wf) (hsum : (sum : Int) ≤ len) (hb : len < 2 ^ 31) (k : Nat) :
    Absorbs env m input len sum (encName o) .zero k
      { zero with namesize := o.namesize, name := newName o.keyName } k := by
  have hlen := hw.keyName_length
  have hle := hw.namesize_le
  unfold encName
  split
  · have h1 : Absorbs env m input len sum (recUint32 .objnamesize o.namesize) .zero k
        { zero with namesize := o.namesize } k := by
      refine Absorbs.uint32 hsum hb fun off h => ?_
      simp [readObjectField, ofCode_code, h]
    have h2 : Absorbs env m input len sum (recBuf .objname o.keyName)
        { zero with namesize := o.namesize } k
        { zero with namesize := o.namesize, name := newName o.keyName } k :=
      Absorbs.buf hsum hb (by omega) fun off h => readObjectField_name hlen.symm (by omega) h
    exact h1.append h2
  · rename_i h0
    have h0 : o.namesize = 0 := by simpa using h0
    have hk : o.keyName = [] := by rw [← List.length_eq_zero_iff, hlen, h0]; rfl
    rw [hk, h0, newName_nil]
    exact fun _ _ _ => ⟨0, Nat.le_refl _, fun _ => rfl⟩

theorem absorbs_encData {p : StorageObject} (hw : o.Wf) (hsum : (sum : Int) ≤ len)
    (hb : len < 2 ^ 31) (hk : env.kmalloc k o.datasize.toNat = true) :
    Absorbs env m input len sum (encData o) p k
      { p with datasize := o.datasize, dataptr := some o.data } (k + 1) := by
  have hlen := hw.data_length
  have hlt := hw.datasize_lt
  obtain ⟨buf, hbuf, hle⟩ := hw.dataptr_some
  unfold encData
  rw [if_pos ⟨by rw [hbuf]; rfl, hw.datasize_ne⟩]
  have h1 : Absorbs env m input len sum (recUint32 .objdatasize o.datasize) p k
      { p with datasize := o.datasize } k := by
    refine Absorbs.uint32 hsum hb fun off h => ?_
    simp [readObjectField, ofCode_code, h]
  have h2 : Absorbs env m input len sum (recBuf .objdatabuf o.data) { p with datasize := o.datasize } k
      { p with datasize := o.datasize, dataptr := some o.data } (k + 1) := by
    refine Absorbs.buf hsum hb (by omega) fun off h => ?_
    rw [hlen] at h
    simp [readObjectField, ofCode_code, hk, h]
  exact h1.append h2

theorem absorbs_encTail {p : StorageObject} (hsum : (sum : Int) ≤ len) (hb : len < 2 ^ 31) (k : Nat) :
    Absorbs env m input len sum
      (recBuf .objhashbuf o.hashptr.1 ++ (recUint32 .objtype o.type ++ recUint32 .objattr o.attr)) p k
      { p with hashptr := o.hashptr, type := o.type, attr := o.attr } k := by
  have hlen := o.hashptr.2
  have h1 : Absorbs env m input len sum (recBuf .objhashbuf o.hashptr.1) p k
      { p with hashptr := o.hashptr } k := by
    have h32 : UInt32.ofNat (align4 32) = 32 := by decide
    refine Absorbs.buf hsum hb (by omega) fun off h => ?_
    rw [hlen] at h
    simp [hlen, h32, readObjectField, ofCode_code, h]
  have h2 : Absorbs env m input len sum (recUint32 .objtype o.type) { p with hashptr := o.hashptr } k
      { p with hashptr := o.hashptr, type := o.type } k := by
    refine Absorbs.uint32 hsum hb fun off h => ?_
    simp [readObjectField, ofCode_code, h]
  have h3 : Absorbs env m input len sum (recUint32 .objattr o.attr)
      { p with hashptr := o.hashptr, type := o.type } k
      { p with hashptr := o.hashptr, type := o.type, attr := o.attr } k := by
    refine Absorbs.uint32 hsum hb fun off h => ?_
    simp [readObjectField, ofCode_code, h]
  exact h1.append (h2.append h3)

theorem tlvReadObject_of_absorbs {body : List UInt8}
    (hat : At m input (recGroup .object body)) (hlen : (8 + body.length : Int) ≤ len)
    (hb : len < 2 ^ 31) (habs : Absorbs env m input len (8 + body.length) body .zero k o k') :
    tlvReadObject env m input len k = .ok (8 + body.length, o, k') := by
  have hto : (UInt32.ofNat body.length).toNat = body.length :=
    UInt32.toNat_ofNat_of_lt' (by simp [UInt32.size]; omega)
  have hsum : u32 (body.length + 8) = 8 + body.length := by
    rw [u32_of_lt (by omega)]; omega
  have hbody := hat.right.right
  obtain ⟨c, hc, e⟩ := habs 8 hbody (by omega)
  unfold tlvReadObject
  rw [tlvReadTl_at hat (by rw [hto]; omega)]
  simp only [ok_bind, ne_eq, not_true_eq_false, if_false, hto, hsum]
  have hfuel : 8 + body.length + 1 = (8 + body.length - c) + 1 + c := by omega
  rw [hfuel, e, readObjectLoop, if_neg (by omega)]

theorem tlvReadObject_at (hw : o.Wf) (hat : At m input (encObject o)) (hlen : ((encObject o).length : Int) ≤ len)
    (hb : len < 2 ^ 31) (hk : env.kmalloc k o.datasize.toNat = true) :
    tlvReadObject env m input len k = .ok ((encObject o).length, reread o, k + 1) := by
  have hl : (encObject o).length = 8 + (encBody o).length := recGroup_length _ _
  have habs : Absorbs env m input len (encObject o).length (encBody o) .zero k (reread o) (k + 1) :=
    (absorbs_encName hw hlen hb k).append
      ((absorbs_encData hw hlen hb hk).append (absorbs_encTail hlen hb (k + 1)))
  rw [hl] at habs hlen ⊢
  exact tlvReadObject_of_absorbs hat (by omega) hb habs

end ReadObject

/-! ## Reading the encoded head back -/

theorem readHeadLoop_step {m : List UInt8} {input : Nat} {len : Int} {sum idx fuel : Nat} {h h' : EncHead}
    (hat : At m (input + idx) (recUint32 tag value)) (hs : idx < sum) (hl : (idx + 12 : Int) ≤ len)
    (hb : len < 2 ^ 31) (hf : ∀ off, load32 m off = .ok value → readHeadField m off tag.code h = .ok h') :
    readHeadLoop m input len sum (fuel + 1) idx h =
      readHeadLoop m input len sum fuel (idx + 12) h' := by
  have hr : s32 (len - idx) = len - idx := s32_of_range (by omega) (by omega)
  have hi : u32 (idx + 8) = idx + 8 := u32_of_lt (by omega)
  have hi' : u32 (idx + 8 + (4 : UInt32).toNat) = idx + 12 := by
    rw [show (4 : UInt32).toNat = 4 from rfl, u32_of_lt (by omega)]
  have hval := hat.right.right
  simp only [le32_length] at hval
  rw [← List.append_nil (le32 value), show input + idx + 4 + 4 = input + (idx + 8) by omega] at hval
  rw [readHeadLoop, if_pos hs, hr, tlvReadTl_at hat (by simp; omega)]
  simp only [bind, Except.bind, hi, hf _ hval.load32, hi']

theorem tlvReadHead_at {m : List UInt8} {input : Nat} {len : Int} {e h : EncHead} (hat : At m input (encHeadBytes e))
    (hlen : (32 : Int) ≤ len) (hb : len < 2 ^ 31) : tlvReadHead m input len h = .ok (32, e) := by
  have hbody := hat.right.right
  simp only [le32_length, Nat.add_assoc] at hbody
  have h1 := hbody.left
  have h2 := hbody.right
  rw [recUint32_length, Nat.add_assoc] at h2
  unfold tlvReadHead
  rw [tlvReadTl_at hat (by simp; omega)]
  simp only [bind, Except.bind, ne_eq, not_true_eq_false, if_false]
  have hsum : u32 ((UInt32.ofNat (recUint32 .headsize e.blocksize ++
      recUint32 .headflashsize e.flashsize).length).toNat + 8) = 32 := by rfl
  have hf1 : ∀ off, load32 m off = .ok e.blocksize →
      readHeadField m off headsize.code h = .ok { h with blocksize := e.blocksize } := by
    intro off hv
    simp [readHeadField, ofCode_code, hv]
  have hf2 : ∀ off, load32 m off = .ok e.flashsize →
      readHeadField m off headflashsize.code { h with blocksize := e.blocksize }
        = .ok e := by
    intro off hv
    simp [readHeadField, ofCode_code, hv]
  rw [hsum, readHeadLoop_step h1 (by omega) (by omega) hb hf1,
    readHeadLoop_step h2 (by omega) (by omega) hb hf2, readHeadLoop, if_neg (by omega)]

end Amlogic.Unifykey
