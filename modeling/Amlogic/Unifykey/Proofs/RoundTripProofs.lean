import Amlogic.Unifykey.Proofs.RoomProofs

/-!
# Writing a block and reading it back

`normalkey_readfromblock` finds the hashes of a block that `normalkey_writetoblock` filled right and
reads the same map from it.
-/

namespace Amlogic.Unifykey

open NormalKey StorageObject

/-! ## Reading the block -/

theorem loadRawHead_at {m : List UInt8} {h : RawHead} (hat : At m 0 h.bytes) :
    loadRawHead m = .ok h := by
  have hm := h.mark.2
  have hhash := hat.right
  rw [h.hashed_length] at hhash
  have hlh := hhash.left.load
  have hld := hhash.right.load
  rw [h.headhash.2] at hlh hld
  rw [h.hash.2] at hld
  have h0 := hat.left
  have h1 := h0.right
  rw [hm] at h1
  have h2 := h1.right
  have h3 := h2.right
  have h4 := h3.right
  have h5 := h4.right
  have h6 := h5.right
  have h7 := h6.right
  have hlm := h0.left.load
  rw [hm] at hlm
  simp only [le32_length, Nat.zero_add, Nat.reduceAdd] at h1 h2 h3 h4 h5 h6 h7 hlh hld
  simp [loadRawHead, hlm, h1.load32, h2.load32, h3.load32, h4.load32, h5.load32, h6.load32, h7.load32, hlh, hld, hm,
    h.headhash.2, h.hash.2]

theorem objectData_reread {o : StorageObject} (hw : o.Wf) : objectData (reread o) = .ok o.data := by
  have hl := hw.data_length
  simp [objectData, reread, load, ← hl]

def StorageObject.Sound (env : Env) (o : StorageObject) : Bool := env.sha256 o.data = o.hashptr

theorem readObjects_object {env : Env} (hf : env.NoFail) {m : List UInt8} {size : Nat} (hlt : size < 2 ^ 31)
    {o : StorageObject} (hw : o.Wf) {idx : Nat} (hat : At m (1024 + idx) (encObject o))
    (hsize : idx + (encObject o).length ≤ size) (fuel k : Nat) (node : Bool) (keys : List StorageObject)
    (flags : UInt32) :
    readObjects env m size (fuel + 1) idx k node keys flags =
      if o.Sound env then
        readObjects env m size fuel (idx + (encObject o).length) (k + 3) false (reread o :: keys) flags
      else
        readObjects env m size fuel (idx + (encObject o).length) (k + 3) true keys (flags ||| errKeychkfail) := by
  have hpos : 8 ≤ (encObject o).length := by rw [encObject, recGroup_length]; omega
  have hr : s32 ((size : Int) - idx) = size - idx := s32_of_range (by omega) (by omega)
  have hu : u32 (idx + (encObject o).length) = idx + (encObject o).length := u32_of_lt (by omega)
  have hhash : normalkeyHash env (k + 2) o.data = env.sha256 o.data := if_pos (hf.shash _)
  have hptr : (reread o).hashptr = o.hashptr := rfl
  rw [readObjects, if_pos (by omega), hf.kmalloc]
  simp only [Bool.not_true, Bool.and_false, Bool.false_eq_true, if_false, storageBlockRawHeadSize,
    storageBlockEncHeadSize, Nat.reduceAdd, hr]
  rw [tlvReadObject_at hw hat (by omega) (by omega) (hf.kmalloc _ _)]
  simp only [bind, Except.bind, objectData_reread hw, hhash, hptr, hu,
    if_neg (show ¬(encObject o).length = 0 by omega), StorageObject.Sound, decide_eq_true_eq, ne_eq, ite_not]

/-- The object loop reads the objects of a list back; they end up in reverse order, without those whose hash is
wrong. -/
theorem readObjects_enc {env : Env} (hf : env.NoFail) {m : List UInt8} {size : Nat}
    (hlt : size < 2 ^ 31) {os : List StorageObject} (hw : ∀ o ∈ os, o.Wf) {fuel idx : Nat} (k : Nat) (node : Bool)
    (keys : List StorageObject) (flags : UInt32) (hat : At m (1024 + idx) (encObjects os))
    (hsize : idx + (encObjects os).length = size) (hfuel : os.length < fuel) :
    ∃ flags', readObjects env m size fuel idx k node keys flags
      = .ok (((os.filter (·.Sound env)).map reread).reverse ++ keys, flags') := by
  induction os generalizing fuel idx k node keys flags with
  | nil =>
    obtain ⟨fuel, rfl⟩ : ∃ n, fuel = n + 1 := ⟨fuel - 1, by simp at hfuel; omega⟩
    have hidx : idx = size := by simpa [encObjects] using hsize
    rw [readObjects, if_neg (by omega)]
    exact ⟨flags, rfl⟩
  | cons o os ih =>
    obtain ⟨fuel, rfl⟩ : ∃ n, fuel = n + 1 := ⟨fuel - 1, by simp at hfuel; omega⟩
    rw [encObjects_cons] at hat hsize
    rw [List.length_append] at hsize
    rw [List.length_cons] at hfuel
    have hrest := hat.right
    rw [Nat.add_assoc] at hrest
    have hnext (k : Nat) (node : Bool) (keys : List StorageObject) (flags : UInt32) :
        ∃ flags', readObjects env m size fuel (idx + (encObject o).length) k node keys flags =
          .ok (((os.filter (·.Sound env)).map reread).reverse ++ keys, flags') :=
      ih (fun p hp => hw p (List.mem_cons_of_mem _ hp)) k node keys flags hrest (by omega) (by omega)
    rw [readObjects_object hf hlt (hw o (List.mem_cons_self ..)) hat.left (by omega)]
    by_cases hsound : o.Sound env = true
    · obtain ⟨flags', hread⟩ := hnext (k + 3) false (reread o :: keys) flags
      refine ⟨flags', ?_⟩
      rw [if_pos hsound, hread, List.filter_cons_of_pos hsound, List.map_cons, List.reverse_cons, List.append_assoc]
      rfl
    · obtain ⟨flags', hread⟩ := hnext (k + 3) true keys (flags ||| errKeychkfail)
      refine ⟨flags', ?_⟩
      rw [if_neg hsound, hread, List.filter_cons_of_neg hsound]

theorem length_le_encObjects (os : List StorageObject) : os.length ≤ (encObjects os).length := by
  induction os with
  | nil => rfl
  | cons o os ih =>
    rw [encObjects_cons, List.length_append, encObject, recGroup_length, List.length_cons]
    omega

section ReadBlock

variable {env : Env} {m : List UInt8} {size : Nat} {h : RawHead} {e : EncHead}
  {keys : List StorageObject} {s : NormalKey}

theorem readBlock_of_block (hf : env.NoFail) (hlt : size < 2 ^ 31) (hw : ∀ o ∈ keys, o.Wf)
    (hb : BlockOf env m size h e keys) :
    ∃ s', readBlock env m size h s = .ok s' ∧
      s'.keys = ((keys.filter (·.Sound env)).map reread).reverse ++ s.keys := by
  obtain ⟨data, hdata, hhash⟩ := hb.data
  have hfits := hb.fits
  have hbs := hb.blocksize
  have hhead : load m 0 44 = .ok h.hashed := by
    have := hb.raw.left.load
    rwa [h.hashed_length] at this
  have hu : u32 (size - 512) = size - 512 := u32_of_lt (by omega)
  have hsz : u32 (e.blocksize.toNat + 512 + 512) = e.blocksize.toNat + 512 + 512 :=
    u32_of_lt (by omega)
  have henc : tlvReadHead m 512 (512 : Nat) s.enchead = .ok (32, e) :=
    tlvReadHead_at hb.enc (by omega) (by omega)
  obtain ⟨r, hr⟩ : ∃ r, readRawHead env m h = .ok r := by
    unfold readRawHead
    rw [hhead]
    exact ⟨_, rfl⟩
  obtain ⟨flags, hobj⟩ : ∃ flags, readObjects env m e.blocksize.toNat (e.blocksize.toNat + 1) 0 2 false s.keys
      r.flags = .ok (((keys.filter (·.Sound env)).map reread).reverse ++ s.keys, flags) := by
    have hle := length_le_encObjects keys
    exact readObjects_enc hf (by omega) hw 2 false s.keys r.flags hb.objects (by omega) (by omega)
  refine ⟨{ s with enchead := e, keys := ((keys.filter (·.Sound env)).map reread).reverse ++ s.keys,
                   rawhead := { r with hash := h.hash, flags := flags } }, ?_, rfl⟩
  have hroom : ¬size < e.blocksize.toNat + 512 + 512 := by omega
  simp only [readBlock, hr, storageBlockRawHeadSize, storageBlockEncHeadSize, hu, hdata, henc, hobj,
    hsz, normalkeyHash, hf.shash, if_true, bind, Except.bind, pure, Except.pure, ← hhash, ne_eq,
    not_true_eq_false, if_false, OfNat.ofNat_ne_zero, hroom]

/-- `normalkey_readfromblock` on a block of a list: the objects whose hash is right, in reverse order. -/
theorem normalkeyReadfromblock_of_block (hf : env.NoFail) (h1024 : 1024 < size) (hlt : size < 2 ^ 31)
    (hw : ∀ o ∈ keys, o.Wf) (hb : BlockOf env m size h e keys) (hmark : h.mark = freshRawHead.mark)
    (hs : s.blockinited = 1) :
    ∃ s', normalkeyReadfromblock env (some m) size s = .ok (0, s') ∧
      s'.keys = ((keys.filter (·.Sound env)).map reread).reverse ++ s.keys := by
  have hc : cstr h.mark.1 = blockmark := by rw [hmark]; decide
  have hsz : ¬size ≤ 512 + 512 := by omega
  obtain ⟨s', h1, h2⟩ := readBlock_of_block hf hlt hw hb
    (s := { s with blockinited := 2, rawhead := freshRawHead,
                   enchead := { s.enchead with flashsize := UInt32.ofNat (u32 size) } })
  refine ⟨s', ?_, h2⟩
  simp [normalkeyReadfromblock, hs, storageBlockEncHeadSize, storageBlockRawHeadSize, hsz, loadRawHead_at hb.raw, hc,
    h1]

theorem KeysOk.filter_sound (hk : KeysOk env keys) : keys.filter (·.Sound env) = keys :=
  List.filter_eq_self.mpr fun o ho => decide_eq_true (hk.hash o ho).symm

end ReadBlock

/-! ## The round trip -/

theorem readRawHead_mark {env : Env} {m : List UInt8} {p h : RawHead}
    (hr : readRawHead env m p = .ok h) : h.mark = freshRawHead.mark := by
  obtain ⟨data, _, hr⟩ := bind_eq_ok hr
  cases hr
  split <;> rfl

theorem readBlock_frame {env : Env} {m : List UInt8} {size : Nat} {p : RawHead} {s s' : NormalKey}
    (h : readBlock env m size p s = .ok s') :
    s'.rawhead.mark = freshRawHead.mark ∧ s'.blockinited = s.blockinited := by
  obtain ⟨hd, hr, h⟩ := bind_eq_ok h
  have hmark := readRawHead_mark hr
  obtain ⟨data, _, h⟩ := bind_eq_ok h
  simp only at h
  split_ifs at h
  · cases h; exact ⟨hmark, rfl⟩
  · obtain ⟨⟨ret, e⟩, _, h⟩ := bind_eq_ok h
    simp only at h
    split_ifs at h
    · cases h; exact ⟨hmark, rfl⟩
    · cases h; exact ⟨hmark, rfl⟩
    · obtain ⟨⟨keys, flags⟩, _, h⟩ := bind_eq_ok h
      cases h; exact ⟨hmark, rfl⟩

theorem writeHeads_frame {env : Env} {m m' : List UInt8} {s s' : NormalKey} {r : Int}
    (h : writeHeads env m s = .ok (r, s', m')) :
    s'.rawhead.mark = s.rawhead.mark ∧ s'.blockinited = s.blockinited := by
  obtain ⟨⟨ret, m1⟩, _, h⟩ := bind_eq_ok h
  simp only at h
  split_ifs at h
  · cases h; exact ⟨rfl, rfl⟩
  · obtain ⟨data, _, h⟩ := bind_eq_ok h
    obtain ⟨m2, _, h⟩ := bind_eq_ok h
    cases h; exact ⟨rfl, rfl⟩

theorem normalkeyWritetoblock_frame {env : Env} {block out : Option (List UInt8)} {size : Nat}
    {s s' : NormalKey} {r : Int} (h : normalkeyWritetoblock env block size s = .ok (r, s', out)) :
    s'.rawhead.mark = s.rawhead.mark ∧ s'.blockinited = s.blockinited := by
  unfold normalkeyWritetoblock at h
  by_cases hb : s.blockinited ≠ 2
  · rw [if_pos hb] at h
    cases h; exact ⟨rfl, rfl⟩
  rw [if_neg hb] at h
  rcases block with _ | m
  · cases h; exact ⟨rfl, rfl⟩
  simp only at h
  split_ifs at h
  · cases h; exact ⟨rfl, rfl⟩
  obtain ⟨⟨ok, idx, cnt, m1⟩, _, h⟩ := bind_eq_ok h
  cases ok with
  | false => cases h; exact ⟨rfl, rfl⟩
  | true =>
    obtain ⟨⟨ret, s1, m2⟩, h1, h⟩ := bind_eq_ok h
    obtain ⟨h2, h3⟩ := writeHeads_frame h1
    cases h; exact ⟨h2, h3⟩

theorem Reachable.mark {s : NormalKey} (h : Reachable s) :
    s.blockinited = 2 → s.rawhead.mark = freshRawHead.mark := by
  induction h with
  | initial => intro hb; cases hb
  | @init s _ ih =>
    unfold normalkeyInit
    split_ifs
    · exact ih
    · intro hb; cases hb
  | @deinit s _ ih =>
    unfold normalkeyDeinit
    split_ifs
    · exact ih
    · intro hb; cases hb
  | call env c _ hc ih =>
    obtain ⟨keys, rfl⟩ := KeyCall.run_frame hc
    exact ih
  | @read s s' r env block size _ hc ih =>
    unfold normalkeyReadfromblock at hc
    by_cases hb : s.blockinited ≠ 1
    · rw [if_pos hb] at hc
      cases hc; exact ih
    rw [if_neg hb] at hc
    rcases block with _ | m
    · cases hc; exact ih
    simp only at hc
    split_ifs at hc
    · cases hc; exact ih
    obtain ⟨p, _, hc⟩ := bind_eq_ok hc
    split_ifs at hc
    · cases hc; exact fun _ => rfl
    · obtain ⟨s1, h1, hc⟩ := bind_eq_ok hc
      cases hc
      exact fun _ => (readBlock_frame h1).1
  | write env block size _ hc ih =>
    obtain ⟨h1, h2⟩ := normalkeyWritetoblock_frame hc
    rw [h1, h2]
    exact ih

theorem keyName_reread {o : StorageObject} (hw : o.Wf) : (reread o).keyName = o.keyName := by
  refine keyName_newName (hw.keyName_length ▸ hw.namesize_le) rfl ?_
  rw [hw.keyName_length, UInt32.ofNat_toNat]
  rfl

theorem entry_reread (o : StorageObject) : (reread o).entry = o.entry := by
  have hd : (reread o).data = o.data := by
    simp [data, reread]
  unfold entry
  rw [hd]
  rfl

theorem keyMap_reread {env : Env} {s s' : NormalKey} (hk : KeysOk env s.keys)
    (hs : s'.keys = (s.keys.map reread).reverse) (name : CStr) : keyMap s' name = keyMap s name := by
  have hns : ∀ o ∈ s'.keys, o.namesize.toNat ≤ 80 := by
    intro o ho
    rw [hs, List.mem_reverse] at ho
    obtain ⟨p, hp, rfl⟩ := List.mem_map.mp ho
    exact hk.namesize_le p hp
  have hname : ∀ o ∈ s.keys, (reread o).keyName = o.keyName := fun o ho => keyName_reread (hk.wf o ho)
  have hmap : (s.keys.map reread).map keyName = s.keys.map keyName := by
    rw [List.map_map]
    exact List.map_congr_left hname
  rw [keyMap_eq hns, keyMap_eq hk.namesize_le, hs,
    find?_perm _ _ (List.reverse_perm _) (hmap ▸ hk.nodup), List.find?_map]
  have hp : s.keys.find? ((fun o => decide (o.keyName = name.1)) ∘ reread)
      = s.keys.find? (fun o => decide (o.keyName = name.1)) := by
    rw [← List.head?_filter, ← List.head?_filter]
    congr 1
    exact List.filter_congr fun o ho => by rw [Function.comp_apply, hname o ho]
  rw [hp, Option.map_map]
  cases s.keys.find? (fun o => decide (o.keyName = name.1)) with
  | none => rfl
  | some o => simp only [Option.map_some, Function.comp_apply, entry_reread]

/-- What `normalkey_writetoblock` stores after any sequence of `normalkey_add` and `normalkey_del`
on an empty list, `normalkey_readfromblock` reads back as the same map. -/
theorem readfromblock_writetoblock {env : Env} (hf : env.NoFail) {s0 fresh : NormalKey}
    (h0 : Reachable s0) (hempty : s0.keys = []) {calls : List KeyCall}
    (hv : ∀ c ∈ calls, c.Valid) (hinit : fresh.blockinited = 1) (hfresh : fresh.keys = []) :
    ∃ s, runCalls env calls s0 = .ok s ∧ ∀ m size s1 m', m.length = size → size < 2 ^ 31 →
      normalkeyWritetoblock env (some m) size s = .ok (0, s1, some m') →
      ∃ s2, normalkeyReadfromblock env (some m') size fresh = .ok (0, s2) ∧
        ∀ name, ∃ e, keyMap s name = .ok e ∧ keyMap s2 name = .ok e := by
  have hk0 : KeysOk env s0.keys := by
    rw [hempty]
    exact ⟨by simp, by simp, by simp⟩
  obtain ⟨keys, hrun, hk⟩ := runCalls_keysOk hf hv hk0
  refine ⟨_, hrun, fun m size s1 m' hm hlt hw => ?_⟩
  obtain ⟨h1024, -, e, hblk, hmark⟩ := normalkeyWritetoblock_ok hf.shash hm hlt hw
  have hb2 : s0.blockinited = 2 := by
    by_contra hb
    rw [normalkeyWritetoblock, if_pos hb] at hw
    cases hw
  rw [h0.mark hb2] at hmark
  obtain ⟨s2, hread, hkeys⟩ :=
    normalkeyReadfromblock_of_block hf h1024 hlt hk.wf hblk hmark hinit
  rw [hfresh, List.append_nil, hk.filter_sound] at hkeys
  refine ⟨s2, hread, fun name => ?_⟩
  have hmap := keyMap_eq (s := { s0 with keys := keys }) hk.namesize_le name
  exact ⟨_, hmap, (keyMap_reread (s := { s0 with keys := keys }) hk hkeys name).trans hmap⟩

def NormalKey.ready (size : Nat) : NormalKey :=
  ⟨[], 2, freshRawHead, ⟨0, UInt32.ofNat (u32 size)⟩⟩

theorem at_blank {n : Nat} (h : 108 ≤ n) :
    At (List.replicate n 0) 0 initial.rawhead.bytes := by
  have hz : initial.rawhead.bytes = List.replicate 108 0 := by decide
  refine ⟨Nat.zero_le _, List.replicate (n - 108) 0, ?_⟩
  rw [hz, List.drop_zero, List.replicate_append_replicate, Nat.add_sub_cancel' h]

theorem normalkeyReadfromblock_blank (env : Env) {m : List UInt8} {size : Nat} (hs : 1024 < size)
    (hat : At m 0 initial.rawhead.bytes) :
    normalkeyReadfromblock env (some m) size (normalkeyInit .initial).2
      = .ok (0, ready size) := by
  have hmark : cstr initial.rawhead.mark.1 ≠ blockmark := by decide
  simp only [normalkeyReadfromblock, normalkeyInit, storageBlockEncHeadSize, storageBlockRawHeadSize,
    loadRawHead_at hat, ok_bind, if_pos hmark, if_neg (show ¬size ≤ 512 + 512 by omega)]
  rfl

theorem reachable_ready (env : Env) {size : Nat} (hs : 1024 < size) :
    Reachable (ready size) :=
  .read env _ size (.init .initial)
    (normalkeyReadfromblock_blank env hs (at_blank (show 108 ≤ size by omega)))

def plainEnv : Env := shaEnv fun _ => .zero 32

def plainName : CStr := ⟨[107], by decide⟩

def plainKey : StorageObject := ⟨newName [107], 1, 0, objTypeGeneric, 2, some [7, 8], .zero 32⟩

theorem plainKey_wf : plainKey.Wf := ⟨by decide, by decide, by decide, [7, 8], rfl, by decide⟩

theorem needObjects_plainKey {room : Nat} (h : 120 ≤ room) :
    needObjects ([plainKey].map shape) room = .ok true := by
  have hlen : (encObjects [plainKey]).length = 120 := by decide +kernel
  rw [needObjects_eq (by simpa using plainKey_wf) (by simp [plainKey]), hlen, decide_eq_true h]

theorem readfromblock_writetoblock_one_key :
    ∃ m s1 m' s2, runCalls plainEnv [.add (some ⟨[107], by decide⟩) (some [7, 8]) 2 0] (.ready 2048)
        = .ok { ready 2048 with keys := [plainKey] } ∧
      normalkeyWritetoblock plainEnv (some m) 2048 { ready 2048 with keys := [plainKey] }
        = .ok (0, s1, some m') ∧
      normalkeyReadfromblock plainEnv (some m') 2048 (normalkeyInit .initial).2 = .ok (0, s2) ∧
      keyMap s2 ⟨[107], by decide⟩ = .ok (some plainKey.entry) := by
  have hv : ∀ c ∈ [KeyCall.add (some ⟨[107], by decide⟩) (some [7, 8]) 2 0], c.Valid := by
    simp [KeyCall.Valid]
  obtain ⟨s, hrun, h⟩ := readfromblock_writetoblock (shaEnv_noFail fun _ => .zero 32)
    (reachable_ready plainEnv (show 1024 < 2048 by omega)) rfl hv
    (show (normalkeyInit .initial).2.blockinited = 1 from rfl) rfl
  have hs : runCalls plainEnv [.add (some ⟨[107], by decide⟩) (some [7, 8]) 2 0] (.ready 2048)
      = .ok { ready 2048 with keys := [plainKey] } := rfl
  obtain rfl : { ready 2048 with keys := [plainKey] } = s :=
    Except.ok.inj (hs.symm.trans hrun)
  have hm : (List.replicate 2048 (0 : UInt8)).length = 2048 := List.length_replicate
  have hroom := needObjects_plainKey (show 120 ≤ 2048 - 1024 by omega)
  obtain ⟨⟨r, s1, out⟩, hw, rfl, -, -, m', rfl, -⟩ := (normalkeyWritetoblock_room plainEnv
    (s := { ready 2048 with keys := [plainKey] }) rfl hm (by omega) (by omega)).ok_of hroom
  obtain ⟨s2, hread, hmap⟩ := h _ _ s1 m' hm (by omega) hw
  obtain ⟨e, he, he2⟩ := hmap ⟨[107], by decide⟩
  have hkey : keyMap { ready 2048 with keys := [plainKey] } ⟨[107], by decide⟩
      = .ok (some plainKey.entry) := rfl
  exact ⟨_, s1, m', s2, hs, hw, hread, he2.trans he.symm⟩

end Amlogic.Unifykey
