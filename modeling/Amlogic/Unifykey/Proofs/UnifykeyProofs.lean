import Amlogic.Unifykey.Unifykey
import Amlogic.Unifykey.Proofs.StorageKeyProofs

/-!
# Reading keys after writing them

What `key_unify_write` stores under a name stays there while keys with other names are written.
Whether `key_unify_read` gives it back depends on one more test: `key_storage_read` compares the
encryption bit of the stored attribute, 0 or 0x100, with 0 or 1.
-/

namespace Amlogic.Unifykey

def Holds (name : CStr) (len attr : UInt32) (src : List UInt8) (s : AmlkeyNormal) : Prop :=
  ∃ o, normalkeyGet s.nk (some name) = .ok (some o) ∧ o.attr = attr ∧ o.datasize = len ∧
    objectData o = .ok src

/-! ## Searches for two names -/

variable {n' : CStr} {o : StorageObject} {keys : List StorageObject}

theorem keyMatches_inj {n : CStr} (h : keyMatches n o = .ok true) (h' : keyMatches n' o = .ok true) : n = n' := by
  have name : ∀ {n : CStr}, keyMatches n o = .ok true → load o.name.1 0 o.namesize.toNat = .ok n.1 := by
    intro n h
    unfold keyMatches at h
    split_ifs at h
    · obtain ⟨l, hl, h⟩ := bind_eq_ok h
      rw [hl, of_decide_eq_true (Except.ok.inj h)]
    · cases h
  exact Subtype.ext (Except.ok.inj ((name h).symm.trans (name h')))

theorem findKey_some {n : CStr} {i : Nat}
    (h : findKey n keys = .ok (some i)) : ∃ o, keys[i]? = some o ∧ keyMatches n o = .ok true := by
  induction keys generalizing i with
  | nil => cases h
  | cons o os ih =>
    obtain ⟨b, hb, h⟩ := bind_eq_ok h
    cases b with
    | true => cases h; exact ⟨o, rfl, hb⟩
    | false =>
      obtain ⟨j?, hj, h⟩ := bind_eq_ok h
      cases j? with
      | none => cases h
      | some j => cases h; exact ih hj

theorem normalkeyGet_some {nk : NormalKey} {n : CStr} (h : normalkeyGet nk (some n) = .ok (some o)) :
    ∃ i, findKey n nk.keys = .ok (some i) ∧ nk.keys[i]? = some o := by
  obtain ⟨i?, hi, h⟩ := bind_eq_ok h
  cases i? with
  | none => cases h
  | some i => exact ⟨i, hi, Except.ok.inj h⟩

section

variable {env : Env} {write : Option Int} {buffer : Option (List UInt8)} {len attr : UInt32}
  {s s' : AmlkeyNormal} {src : List UInt8} {p : Put} {n : CStr}

theorem keyMatches_newObject (hn : n'.1.length ≤ maxObjNameLen) (hne : n' ≠ n) (h1 : o.name = newName n'.1) (h2 : o.namesize = UInt32.ofNat n'.1.length) :
    keyMatches n o = .ok false := by
  have hto : o.namesize.toNat = n'.1.length := by
    rw [h2]
    exact UInt32.toNat_ofNat_of_lt' (by simp only [UInt32.size]; unfold maxObjNameLen at hn; omega)
  rw [keyMatches_eq (hto ▸ hn), keyName_newName hn h1 h2,
    decide_eq_false fun h => hne (Subtype.ext h)]

/-! ## What a write leaves under a name -/

theorem holds_stored (h : Accepted env (some n) buffer len attr s.nk src p)
    (hst : Stored p env len src s s') : Holds n len attr src s' := by
  have hd := h.objectData_object
  obtain ⟨n1, hn1, hn, hs⟩ := h.slot
  obtain rfl : n = n1 := Option.some.inj hn1
  cases hs with
  | grow hf hk ha | reuse hf hk ha => exact ⟨_, normalkeyGet_stored hst rfl hf hk, ha.symm, rfl, hd⟩
  | insert hf =>
    have hf' : findKey n s'.nk.keys = .ok (some 0) := by
      rw [hst.keys]
      exact findKey_newObject hn rfl rfl s.nk.keys
    refine ⟨_, ?_, rfl, rfl, hd⟩
    rw [normalkeyGet_of_findKey hf', hst.keys]
    rfl

theorem get_stored_of_ne (h : Accepted env (some n') buffer len attr s.nk src p) (hst : Stored p env len src s s')
    (hne : n' ≠ n) (hget : normalkeyGet s.nk (some n) = .ok (some o)) :
    normalkeyGet s'.nk (some n) = .ok (some o) := by
  obtain ⟨i, hf, hi⟩ := normalkeyGet_some hget
  obtain ⟨n1, hn1, hn, hs⟩ := h.slot
  obtain rfl : n' = n1 := Option.some.inj hn1
  -- a changed object is not the one that the search finds
  have updated : ∀ {j : Nat} {q q' : StorageObject}, findKey n' s.nk.keys = .ok (some j) →
      s.nk.keys[j]? = some q → s'.nk.keys = s.nk.keys.set j q' → q'.name = q.name →
      q'.namesize = q.namesize → normalkeyGet s'.nk (some n) = .ok (some o) := by
    intro j q q' hj hq hkeys h1 h2
    have hij : j ≠ i := by
      rintro rfl
      obtain ⟨q1, hq1, hm1⟩ := findKey_some hf
      obtain ⟨q2, hq2, hm2⟩ := findKey_some hj
      obtain rfl : q1 = q2 := Option.some.inj (hq1.symm.trans hq2)
      exact hne (keyMatches_inj hm2 hm1)
    have hf' : findKey n s'.nk.keys = .ok (some i) := by
      rw [hkeys, findKey_set hq h1 h2, hf]
    rw [normalkeyGet_of_findKey hf', Option.bind_some, hkeys, List.getElem?_set_ne hij, hi]
  cases hs with
  | grow hj hq | reuse hj hq => exact updated hj hq hst.keys rfl rfl
  | insert =>
    have hf' : findKey n s'.nk.keys = .ok (some (i + 1)) := by
      rw [hst.keys]
      show findKey n (_ :: s.nk.keys) = _
      rw [findKey, keyMatches_newObject hn hne rfl rfl, hf]
      rfl
    rw [normalkeyGet_of_findKey hf', Option.bind_some, hst.keys]
    exact congrArg Except.ok hi

theorem holds_of_write_ne {r : Int} {len' attr' : UInt32} (hi : s.Inv) (hne : n' ≠ n)
    (hw : amlkeyWriteNormal env write (some n') buffer len' attr' s = .ok (r, s'))
    (h : Holds n len attr src s) : Holds n len attr src s' := by
  rcases amlkeyWriteNormal_cases hi hw with ⟨-, rfl⟩ | ⟨wret, src', p, fits, -, hp, -, -, hst⟩
  · exact h
  · obtain ⟨o, hget, ho⟩ := h
    exact ⟨o, get_stored_of_ne hp hst hne hget, ho⟩

end

/-! ## Key items -/

theorem writeAttr_normal {key : KeyItem} (h : key.dev = .normal) :
    writeAttr key = if key.attr &&& keyAttrEncrypt ≠ 0 then keyAttrEncrypt else 0 := by
  unfold writeAttr
  rw [h, if_neg (by decide), UInt32.zero_or]

section

variable {env : Env} {write : Option Int} {efuse : Int} {items : List KeyItem} {name : CStr}
  {data : Option (List UInt8)} {len : UInt32} {s s' : AmlkeyNormal} {key : KeyItem} {r : Int}

theorem keyUnifyWrite_store (h : keyUnifyWrite env write efuse items name data len s = .ok (r, s')) :
    s' = s ∨ ∃ attr w, amlkeyWriteNormal env write (some name) data len attr s = .ok (w, s') := by
  unfold keyUnifyWrite at h
  split at h
  · cases h; exact .inl rfl
  · split_ifs at h
    · cases h; exact .inl rfl
    · split at h
      · cases h; exact .inl rfl
      · obtain ⟨⟨w, s1⟩, hw, h⟩ := bind_eq_ok h
        cases h; exact .inr ⟨_, w, hw⟩
      · obtain ⟨⟨w, s1⟩, hw, h⟩ := bind_eq_ok h
        cases h; exact .inr ⟨_, w, hw⟩
      · cases h; exact .inl rfl

theorem AmlkeyNormal.Inv.of_write {name : Option CStr} {attr : UInt32} (hi : s.Inv)
    (h : amlkeyWriteNormal env write name data len attr s = .ok (r, s')) : s'.Inv := by
  rcases amlkeyWriteNormal_cases hi h with ⟨-, rfl⟩ | ⟨wret, src, p, fits, -, hp, -, -, hst⟩
  · exact hi
  · exact hi.stored hp.inited hst

theorem keyUnifyWrite_holds (hi : s.Inv) (hkey : ukFindItemByName items name = some key) (hdev : key.dev = .normal)
    (hlen : len ≠ 0) (h : keyUnifyWrite env write efuse items name data len s = .ok (0, s')) :
    s'.Inv ∧ ∃ b, data = some b ∧ Holds name len (writeAttr key) (b.take len.toNat) s' := by
  unfold keyUnifyWrite at h
  rw [hkey] at h
  dsimp only at h
  split_ifs at h
  · cases h
  rw [hdev] at h
  obtain ⟨⟨w, s1⟩, hw, h⟩ := bind_eq_ok h
  have hs1 : s1 = s' := congrArg Prod.snd (Except.ok.inj h)
  have hw0 : w ≠ 0 := by
    rintro rfl
    have hne : (0 : Int) ≠ len.toNat := fun e => hlen (UInt32.toNat_inj.mp (Int.ofNat.inj e.symm))
    rw [if_pos hne] at h
    cases h
  subst hs1
  refine ⟨hi.of_write hw, ?_⟩
  rcases amlkeyWriteNormal_cases hi hw with ⟨h0, -⟩ | ⟨wret, src, p, fits, -, hp, -, -, hst⟩
  · exact absurd h0 hw0
  · obtain ⟨b, hb, -, rfl⟩ := hp.source
    exact ⟨b, hb, holds_stored hp hst⟩

theorem holds_otherWrites {attr : UInt32} {src : List UInt8} (h : OtherWrites items name s s') :
    s.Inv → Holds name len attr src s → s'.Inv ∧ Holds name len attr src s' := by
  induction h with
  | refl => exact fun hi hh => ⟨hi, hh⟩
  | step env write efuse name' data len' _ hne hw ih =>
    intro hi hh
    obtain ⟨hi1, hh1⟩ := ih hi hh
    rcases keyUnifyWrite_store hw with rfl | ⟨attr', w, hw⟩
    · exact ⟨hi1, hh1⟩
    · exact ⟨hi1.of_write hw, holds_of_write_ne hi1 hne hw hh1⟩

theorem keyStorageRead_holds (hdev : key.dev = .normal) {src : List UInt8}
    (hh : Holds name len (writeAttr key) src s) (hl : src.length = len.toNat) :
    keyStorageRead s name len key.attr
      = .ok (if key.attr &&& keyAttrEncrypt = 0 then (0, src, some len) else (-einval, [], none)) := by
  obtain ⟨o, hget, ha, hsz, hd⟩ := hh
  have hattr : amlkeyGetAttrNormal s (some name) = .ok (writeAttr key) := by
    unfold amlkeyGetAttrNormal
    rw [hget, ok_bind, ← ha]
    rfl
  have hread : amlkeyReadNormal s (some name) len = .ok src := by
    unfold amlkeyReadNormal
    rw [hget, ok_bind]
    exact (if_pos (hsz ▸ UInt32.le_refl _)).trans hd
  unfold keyStorageRead
  rw [hattr, ok_bind, hread]
  by_cases he : key.attr &&& keyAttrEncrypt = 0
  · have hst : writeAttr key = 0 := (writeAttr_normal hdev).trans (if_neg (not_not_intro he))
    rw [hst, if_neg (by decide), if_pos he, if_neg (not_not_intro he), if_neg (by decide), ok_bind,
      if_neg (not_not_intro hl)]
    rfl
  · -- the stored bit is 0x100 and is compared with 1
    have hst : writeAttr key = keyAttrEncrypt := (writeAttr_normal hdev).trans (if_pos he)
    rw [hst, if_neg (by decide), if_neg he, if_pos he, if_pos (by decide)]
    rfl

theorem keyUnifyRead_after_write {s1 s2 : AmlkeyNormal} {b : List UInt8}
    (hkey : ukFindItemByName items name = some key) (hdev : key.dev = .normal)
    (hperm : key.perm &&& keyPermRead = keyPermRead) (hs : s.Inv) (hlen : len ≠ 0) (hb : b.length = len.toNat)
    (hwrite : keyUnifyWrite env write efuse items name (some b) len s = .ok (0, s1))
    (hother : OtherWrites items name s1 s2) (efuseRead : Int × List UInt8 × Option UInt32) :
    keyUnifyRead efuseRead items name true len s2
      = .ok (if key.attr &&& keyAttrEncrypt = 0 then (0, b, some len) else (-einval, [], none)) := by
  obtain ⟨hi1, b', hb', hh1⟩ := keyUnifyWrite_holds hs hkey hdev hlen hwrite
  obtain rfl : b = b' := Option.some.inj hb'
  rw [← hb, List.take_length] at hh1
  obtain ⟨-, hh2⟩ := holds_otherWrites hother hi1 hh1
  rw [← keyStorageRead_holds hdev hh2 hb]
  unfold keyUnifyRead
  rw [if_neg (by decide), hkey]
  dsimp only
  rw [if_neg (not_not_intro hperm), hdev]

end

/-- After a successful write of a key of the normal device, and after any successful writes of other
keys, a read of the same length gives the bytes back exactly if the key is not encrypted. -/
theorem keyUnifyRead_after_write_iff {items : List KeyItem} {name : CStr} {key : KeyItem}
    (hkey : ukFindItemByName items name = some key) (hdev : key.dev = .normal)
    (hperm : key.perm &&& keyPermRead = keyPermRead ∧ key.perm &&& keyPermWrite = keyPermWrite)
    {s s1 s2 : AmlkeyNormal} (hs : AmlkeyNormal.Reachable s) {env : Env} {write : Option Int}
    {efuse : Int} {data : List UInt8} {len : UInt32} (hlen : len ≠ 0) (hdata : data.length = len.toNat)
    (hwrite : keyUnifyWrite env write efuse items name (some data) len s = .ok (0, s1))
    (hother : OtherWrites items name s1 s2) (efuseRead : Int × List UInt8 × Option UInt32) :
    keyUnifyRead efuseRead items name true len s2 = .ok (0, data, some len) ↔
      key.attr &&& keyAttrEncrypt = 0 := by
  rw [keyUnifyRead_after_write hkey hdev hperm.1 hs.inv hlen hdata hwrite hother efuseRead]
  by_cases he : key.attr &&& keyAttrEncrypt = 0
  · simp [he]
  · rw [if_neg he]
    exact ⟨fun h => (by cases h), fun h => absurd h he⟩

def oneKeyBoard (encrypt : Bool) : List KeyItem :=
  ukItemCreate [(true, ⟨some plainName, some "normal", true, true, encrypt⟩)]

theorem keyUnifyWrite_oneKeyBoard (encrypt : Bool) :
    ∃ s1, keyUnifyWrite smallEnv (some 0) 0 (oneKeyBoard encrypt) ⟨[107], by decide⟩ (some [7, 8]) 2
      .ready = .ok (0, s1) := by
  obtain ⟨key, hkey, hperm, hdev, hattr⟩ : ∃ key, ukFindItemByName (oneKeyBoard encrypt)
      ⟨[107], by decide⟩ = some key ∧ key.perm = 3 ∧ key.dev = .normal ∧
      writeAttr key &&& objAttrSecure = 0 := by
    cases encrypt <;> exact ⟨_, rfl, by decide, by decide, by decide⟩
  obtain ⟨⟨w, s1⟩, hw, hr, -⟩ := (amlkeyWriteNormal_accepted AmlkeyNormal.reachable_ready.inv 0
    (accepted_first_key hattr)).ok_of (needObjects_plainKey (show 120 ≤ 4096 - 1024 by omega))
  refine ⟨s1, ?_⟩
  unfold keyUnifyWrite
  rw [hkey]
  dsimp only
  rw [hperm, if_neg (by decide), hdev]
  rw [hw, ok_bind]
  obtain rfl : w = 2 := hr.trans (by decide)
  rfl

theorem keyUnifyRead_after_write_iff_plain :
    ∃ s1, keyUnifyWrite smallEnv (some 0) 0 (oneKeyBoard false) ⟨[107], by decide⟩ (some [7, 8]) 2
        .ready = .ok (0, s1) ∧
      keyUnifyRead (0, [], none) (oneKeyBoard false) ⟨[107], by decide⟩ true 2 s1
        = .ok (0, [7, 8], some 2) := by
  obtain ⟨s1, hw⟩ := keyUnifyWrite_oneKeyBoard false
  exact ⟨s1, hw, (keyUnifyRead_after_write_iff rfl (by decide) (by decide)
    AmlkeyNormal.reachable_ready (by decide) (by decide) hw (.refl s1) (0, [], none)).mpr (by decide)⟩

/-- An encrypted key is written with success and cannot be read. -/
theorem keyUnifyRead_fails_encrypted :
    ∃ s1, keyUnifyWrite smallEnv (some 0) 0 (oneKeyBoard true) ⟨[107], by decide⟩ (some [7, 8]) 2
        .ready = .ok (0, s1) ∧
      keyUnifyRead (0, [], none) (oneKeyBoard true) ⟨[107], by decide⟩ true 2 s1
        = .ok (-22, [], none) := by
  obtain ⟨s1, hw⟩ := keyUnifyWrite_oneKeyBoard true
  have hread := keyUnifyRead_after_write
    (show ukFindItemByName (oneKeyBoard true) ⟨[107], by decide⟩ = some _ from rfl) (by decide)
    (by decide) AmlkeyNormal.reachable_ready.inv (by decide) (by decide) hw (.refl s1) (0, [], none)
  exact ⟨s1, hw, hread⟩

end Amlogic.Unifykey
