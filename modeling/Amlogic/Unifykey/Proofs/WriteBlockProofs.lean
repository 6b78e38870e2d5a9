import Amlogic.Unifykey.Proofs.KeyListProofs

/-!
# The written block

A block that `normalkey_writetoblock` fills holds the raw head, the encoded head and the objects of
the list, each at its place.
-/

namespace Amlogic.Unifykey

def encObjects (os : List StorageObject) : List UInt8 := (os.map encObject).flatten

theorem encObjects_cons (o : StorageObject) (os : List StorageObject) :
    encObjects (o :: os) = encObject o ++ encObjects os := rfl

/-! ## The written block -/

variable {m m' : List UInt8} {s s' : NormalKey}

theorem writeObjects_ok {size : Nat} {os : List StorageObject} {idx idx' : Nat} {cnt cnt' : UInt32} (hm : m.length < 2 ^ 31) (hr : 1024 + idx ≤ m.length)
    (h : writeObjects size os idx cnt m = .ok (true, idx', cnt', m')) :
    idx' = idx + (encObjects os).length ∧ 1024 + idx' ≤ m.length ∧
      m' = patch m (1024 + idx) (encObjects os) := by
  induction os generalizing idx cnt m with
  | nil =>
    cases h
    exact ⟨rfl, hr, by simp [encObjects, patch]⟩
  | cons o os ih =>
    unfold writeObjects storageBlockRawHeadSize storageBlockEncHeadSize at h
    obtain ⟨⟨ret, m1⟩, h1, h⟩ := bind_eq_ok h
    simp only at h
    split_ifs at h with hret
    · cases h
    · obtain ⟨h2, h3, rfl⟩ := tlvWriteObject_ok hm h1 hret
      have hl : (patch m (512 + 512 + idx) (encObject o)).length = m.length :=
        patch_length (by omega)
      have hu : u32 (idx + ret) = idx + ret := u32_of_lt (by omega)
      rw [hu] at h
      obtain ⟨h4, h5, h6⟩ := ih (by omega) (by omega) h
      have hlen : (encObjects (o :: os)).length = ret + (encObjects os).length := by
        rw [encObjects_cons, List.length_append, h2]
      refine ⟨by omega, by omega, ?_⟩
      rw [h6, encObjects_cons, ← Nat.add_assoc, h2]
      exact patch_patch_append _ _ _ _ (by omega)

theorem RawHead.hashed_length (h : RawHead) : h.hashed.length = 44 := by
  simp [RawHead.hashed, h.mark.2]

theorem RawHead.bytes_length (h : RawHead) : h.bytes.length = 108 := by
  simp [RawHead.bytes, h.hashed_length, h.headhash.2, h.hash.2]

/-- What the reader relies on in a block: the heads and the objects stand at their places and the
two hashes are right. -/
structure BlockOf (env : Env) (m : List UInt8) (size : Nat) (h : RawHead) (e : EncHead)
    (keys : List StorageObject) : Prop where
  raw : At m 0 h.bytes
  headhash : h.headhash = env.sha256 h.hashed
  enc : At m 512 (encHeadBytes e)
  objects : At m 1024 (encObjects keys)
  blocksize : e.blocksize.toNat = (encObjects keys).length
  fits : 1024 + (encObjects keys).length ≤ size
  data : ∃ data, load m 512 (size - 512) = .ok data ∧ h.hash = env.sha256 data

theorem writeHeads_ok {env : Env} (hf : ∀ k, env.shash k = true)
    (hm : m.length < 2 ^ 31) (h : writeHeads env m s = .ok (0, s', m')) :
    ∃ data, load (patch m 512 (encHeadBytes s.enchead)) 512 (u32 (s.enchead.flashsize.toNat +
        (2 ^ 32 - 512))) = .ok data ∧
      s'.rawhead.mark = s.rawhead.mark ∧ s'.rawhead.headhash = env.sha256 s'.rawhead.hashed ∧
      s'.rawhead.hash = env.sha256 data ∧ 544 ≤ m.length ∧
      m' = patch (patch m 512 (encHeadBytes s.enchead)) 0 s'.rawhead.bytes := by
  unfold writeHeads storageBlockRawHeadSize storageBlockEncHeadSize at h
  obtain ⟨⟨ret, m1⟩, h1, h⟩ := bind_eq_ok h
  simp only at h
  split_ifs at h with hret
  · cases h
  · obtain ⟨data, h2, h⟩ := bind_eq_ok h
    obtain ⟨m2, h3, h⟩ := bind_eq_ok h
    obtain ⟨hl, rfl⟩ := tlvWriteHead_ok hm h1 hret
    obtain ⟨hl3, rfl⟩ := store_eq_ok h3
    cases h
    refine ⟨data, h2, rfl, ?_, ?_, by omega, rfl⟩
    · simp only [normalkeyHash, hf, if_true]
      rfl
    · simp [normalkeyHash, hf]

theorem blockOf_writeHeads {env : Env} (hf : ∀ k, env.shash k = true) {size : Nat}
    (h : writeHeads env m s = .ok (0, s', m')) (hm : m.length < 2 ^ 31) (hlt : size < 2 ^ 31)
    (hfl : s.enchead.flashsize = UInt32.ofNat size) (hobj : At m 1024 (encObjects s.keys))
    (hbs : s.enchead.blocksize.toNat = (encObjects s.keys).length) (hfit : 1024 + (encObjects s.keys).length ≤ size) :
    BlockOf env m' size s'.rawhead s.enchead s.keys ∧ s'.rawhead.mark = s.rawhead.mark ∧
      m'.length = m.length := by
  obtain ⟨data, h2, hmark, hhead, hhash, hl, rfl⟩ := writeHeads_ok hf hm h
  have hel : (encHeadBytes s.enchead).length = 32 := rfl
  have hrl := s'.rawhead.bytes_length
  have hp1 : (patch m 512 (encHeadBytes s.enchead)).length = m.length := patch_length (by omega)
  have hu : u32 (s.enchead.flashsize.toNat + (2 ^ 32 - 512)) = size - 512 := by
    rw [hfl, UInt32.toNat_ofNat_of_lt' (by simp [UInt32.size]; omega)]
    unfold u32
    omega
  obtain ⟨hl2, hdata⟩ := load_eq_ok h2
  have hdl : data.length = size - 512 := by
    rw [hdata, List.length_take, List.length_drop]
    omega
  have hat : At (patch m 512 (encHeadBytes s.enchead)) 512 data := by
    refine ⟨by omega, ?_⟩
    rw [hdata]
    exact List.take_prefix ..
  -- the raw head lies before the encoded head, the objects and the hashed data
  have hfar : ∀ {off bs}, At (patch m 512 (encHeadBytes s.enchead)) off bs → 108 ≤ off →
      At (patch (patch m 512 (encHeadBytes s.enchead)) 0 s'.rawhead.bytes) off bs :=
    fun ha ho => ha.patch (by omega) (Or.inl (by omega))
  refine ⟨⟨At.of_patch (by omega), hhead, ?_, ?_, hbs, hfit, data, ?_, hhash⟩, hmark, ?_⟩
  · exact hfar (At.of_patch (by omega)) (by omega)
  · exact hfar (hobj.patch (by omega) (Or.inl (by omega))) (by omega)
  · rw [← hdl]
    exact (hfar hat (by omega)).load
  · rw [patch_length (by omega), hp1]

theorem normalkeyWritetoblock_ok {env : Env} (hf : ∀ k, env.shash k = true) {size : Nat} (hm : m.length = size)
    (hlt : size < 2 ^ 31) (h : normalkeyWritetoblock env (some m) size s = .ok (0, s', some m')) :
    1024 < size ∧ m'.length = size ∧ ∃ e, BlockOf env m' size s'.rawhead e s.keys ∧
      s'.rawhead.mark = s.rawhead.mark := by
  unfold normalkeyWritetoblock storageBlockRawHeadSize storageBlockEncHeadSize at h
  by_cases hb : s.blockinited ≠ 2
  · rw [if_pos hb] at h; cases h
  · simp only at h
    split_ifs at h with hsz
    · cases h
    · obtain ⟨⟨ok, idx, cnt, m1⟩, h1, h⟩ := bind_eq_ok h
      cases ok with
      | false => cases h
      | true =>
        obtain ⟨⟨ret, s2, m2⟩, h2, h⟩ := bind_eq_ok h
        cases h
        obtain ⟨hidx, hfit, rfl⟩ := writeObjects_ok (by omega) (by omega) h1
        rw [Nat.zero_add] at hidx
        have hr : 1024 + (encObjects s.keys).length ≤ size := by omega
        have hl : (patch m 1024 (encObjects s.keys)).length = m.length := patch_length (by omega)
        have hbs : (UInt32.ofNat idx).toNat = (encObjects s.keys).length := by
          rw [UInt32.toNat_ofNat_of_lt' (by simp [UInt32.size]; omega), hidx]
        obtain ⟨hblk, hmark, hl2⟩ := blockOf_writeHeads hf h2 (hl.trans_lt (hm ▸ hlt)) hlt
          (congrArg UInt32.ofNat (u32_of_lt (by omega))) (At.of_patch (hm ▸ hr)) hbs hr
        exact ⟨by omega, hl2.trans (hl.trans hm), _, hblk, hmark⟩

end Amlogic.Unifykey
