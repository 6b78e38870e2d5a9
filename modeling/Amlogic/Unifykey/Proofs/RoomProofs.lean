import Amlogic.Unifykey.Proofs.WriteBlockProofs

/-!
# Finding room

The writer follows the computation of the room: `normalkey_writetoblock` returns 0 exactly when the
sizes of the objects say so. For well-formed objects the room that is needed is the length of their
records.
-/

namespace Amlogic.Unifykey

open StorageObject

/-! ## Records -/

/-- What a record in `room` bytes of `m` leaves, when it takes `n` bytes or finds no room. -/
def Takes (m : List UInt8) (room : Nat) : Option Nat → Nat × List UInt8 → Prop
  | none, r => r.1 = 0 ∧ r.2.length = m.length
  | some n, r => r.1 = n ∧ r.2.length = m.length ∧ n ≠ 0 ∧ n ≤ room

variable {m : List UInt8}

theorem tlvWriteUint32_room {output room : Nat} (h : output + room ≤ m.length) (tag value : UInt32) :
    Sim (Takes m room) (needBytes 12 room)
      (tlvWriteUint32 m output room tag value) := by
  rw [tlvWriteUint32_eq]
  unfold needBytes
  by_cases hlt : room < 12
  · rw [if_pos hlt, if_pos (by omega)]
    exact .ok ⟨rfl, rfl⟩
  · have hl : output + (le32 tag ++ (le32 4 ++ le32 value)).length ≤ m.length := by simp; omega
    rw [if_neg hlt, if_neg (by omega), store_of_le hl, ok_bind]
    exact .ok ⟨rfl, patch_length hl, by omega, by omega⟩

theorem store_of_gt {bs : List UInt8} {off : Nat} (h : m.length < off + bs.length) :
    store m off bs = .error .access := if_neg (by omega)

theorem load_of_gt {off n : Nat} (h : m.length < off + n) :
    load m off n = .error .access := if_neg (by omega)

/-- A buffer record that is longer than its room faults: the check can pass only by wrap-around, and
then the padding does not fit into the block either. -/
theorem tlvWriteBuf_room {input : List UInt8} {output room length : Nat} (hm : m.length < 2 ^ 31)
    (h : output + room ≤ m.length) (tag : UInt32) :
    Sim (Takes m room) (needBuf length input.length room)
      (tlvWriteBuf m output room tag length input) := by
  rw [tlvWriteBuf_eq]
  unfold needBuf
  generalize htmp : u32 ((length + 3) / 4 * 4) = tmplen
  generalize hrec : le32 tag ++ (le32 (UInt32.ofNat tmplen) ++ List.replicate tmplen 0) = bs
  have hbs : bs.length = 8 + tmplen := by simp [← hrec]; omega
  by_cases hfull : (room : Int) < s32 (8 + tmplen)
  · rw [if_pos hfull, if_pos hfull]
    exact .ok ⟨rfl, rfl⟩
  rw [if_neg hfull, if_neg hfull]
  by_cases hfits : 8 + tmplen ≤ room
  · have hl : output + bs.length ≤ m.length := by omega
    have hp := patch_length hl
    rw [store_of_le hl, ok_bind]
    by_cases hin : length ≤ input.length
    · have hsl : ((input.drop 0).take length).length = length := by
        rw [List.length_take, List.drop_zero]; omega
      rw [load_of_le (show 0 + length ≤ input.length by omega), ok_bind]
      by_cases hpad : length ≤ tmplen
      · have hl' : output + 8 + ((input.drop 0).take length).length ≤ (patch m output bs).length := by omega
        rw [if_pos ⟨hin, hpad, hfits⟩, store_of_le hl', ok_bind]
        have h8 : u32 (tmplen + 8) = 8 + tmplen := by
          rw [u32_of_lt (by omega)]
          omega
        exact .ok ⟨h8, (patch_length hl').trans hp, by omega, hfits⟩
      · -- the rounded length has wrapped around, so the data is longer than any block
        have hlong : m.length < length := by
          by_contra hle
          rw [u32_of_lt (by omega)] at htmp
          omega
        rw [if_neg (fun hc => hpad hc.2.1), store_of_gt (by omega)]
        exact .error _
    · rw [if_neg (fun hc => hin hc.1), load_of_gt (by omega)]
      exact .error _
  · have hbig : 2 ^ 31 ≤ 8 + tmplen := by
      by_contra hlt
      rw [s32_of_range (by omega) (by omega)] at hfull
      omega
    rw [if_neg (fun hc => hfits hc.2.2), store_of_gt (by omega)]
    exact .error _

/-! ## Record groups -/

/-- What a step of a record group in `len` bytes leaves, when it takes `n` bytes or finds no room. -/
def Advances (len : Nat) (w : WrtState) : Option Nat → Bool × WrtState → Prop
  | none, r => r.1 = false ∧ r.2.mem.length = w.mem.length
  | some n, r => r.1 = true ∧ r.2.mem.length = w.mem.length ∧ r.2.idx = w.idx + n ∧ w.idx + n ≤ len

/-- The step `f` of a record group in `len` bytes at `output` follows the computation `need`. -/
def Meets (output len : Nat) (f : Wrt) (need : Need) : Prop :=
  ∀ w : WrtState, w.mem.length < 2 ^ 31 → output + len ≤ w.mem.length → w.idx ≤ len →
    Sim (Advances len w) (need (len - w.idx)) (f w)

section Group

variable (output len : Nat)

theorem advances_of_takes {w : WrtState} {need : Except Fault (Option Nat)} {rec : Except Fault (Nat × List UInt8)}
    (hlen : len < 2 ^ 31) (hidx : w.idx ≤ len) (h : Sim (Takes w.mem (len - w.idx)) need rec) :
    Sim (Advances len w) need (do
      let (tmp, m) ← rec
      return (decide (tmp ≠ 0), ⟨m, u32 (w.idx + tmp)⟩)) := by
  refine h.map_right fun n r hr => ?_
  rcases n with _ | n
  · obtain ⟨h1, h2⟩ := hr
    exact ⟨by simp [h1], h2⟩
  · obtain ⟨rfl, h2, h3, h4⟩ := hr
    exact ⟨by simp [h3], h2, u32_of_lt (by omega), by omega⟩

theorem meets_wrtUint32 (tag : EmTLVTag) (value : UInt32) :
    Meets output len (wrtUint32 output len tag value) (needBytes 12) := by
  intro w hm hlen hidx
  have hr : s32 ((len : Int) - w.idx) = ((len - w.idx : Nat) : Int) := by
    rw [s32_of_range (by omega) (by omega)]; omega
  have hin : output + w.idx + (len - w.idx) ≤ w.mem.length := by omega
  unfold wrtUint32
  rw [hr]
  exact advances_of_takes len (by omega) hidx (tlvWriteUint32_room hin tag.code value)

theorem meets_wrtBuf (tag : EmTLVTag) (length : Nat) (buf : List UInt8) :
    Meets output len (wrtBuf output len tag length buf) (needBuf length buf.length) := by
  intro w hm hlen hidx
  have hr : s32 ((len : Int) - w.idx) = ((len - w.idx : Nat) : Int) := by
    rw [s32_of_range (by omega) (by omega)]; omega
  have hin : output + w.idx + (len - w.idx) ≤ w.mem.length := by omega
  unfold wrtBuf
  rw [hr]
  exact advances_of_takes len (by omega) hidx (tlvWriteBuf_room hm hin tag.code)

theorem meets_skip : Meets output len Wrt.skip Need.skip := by
  intro w hm hlen hidx
  exact .ok ⟨rfl, rfl, rfl, hidx⟩

variable {output len}

theorem Meets.andThen {f g : Wrt} {nf ng : Need} (hf : Meets output len f nf)
    (hg : Meets output len g ng) : Meets output len (f.andThen g) (nf.andThen ng) := by
  intro w hm hlen hidx
  refine (hf w hm hlen hidx).bind fun n r hr => ?_
  obtain ⟨ok, w1⟩ := r
  rcases n with _ | n
  · obtain ⟨rfl, h2⟩ := hr
    exact .ok ⟨rfl, h2⟩
  · obtain ⟨rfl, h2, h3, h4⟩ := hr
    dsimp only at h2 h3 ⊢
    have hg1 := hg w1 (by omega) (by omega) (by omega)
    rw [if_pos rfl, show len - w.idx - n = len - w1.idx by omega]
    refine hg1.map_left fun n' r hr => ?_
    rcases n' with _ | n'
    · exact ⟨hr.1, hr.2.trans h2⟩
    · obtain ⟨h5, h6, h7, h8⟩ := hr
      refine ⟨h5, h6.trans h2, ?_, ?_⟩
      · show r.2.idx = w.idx + (n + n')
        omega
      · show w.idx + (n + n') ≤ len
        omega

theorem meets_wrtName (o : StorageObject) :
    Meets output len (wrtName o output len) (needName o.shape) := by
  unfold wrtName needName shape
  by_cases hn : o.namesize = 0
  · rw [if_neg (by simp [hn]), if_neg (by simp [hn])]
    exact meets_skip output len
  · have hn' : o.namesize.toNat ≠ 0 := fun h => hn (UInt32.toNat_inj.mp h)
    rw [if_pos hn, if_pos hn']
    have hbuf := meets_wrtBuf output len .objname o.namesize.toNat o.name.1
    rw [o.name.2] at hbuf
    exact (meets_wrtUint32 output len _ _).andThen hbuf

theorem meets_wrtData (o : StorageObject) :
    Meets output len (wrtData o output len) (needData o.shape) := by
  unfold wrtData needData shape
  rcases o.dataptr with _ | data
  · exact meets_skip output len
  dsimp only [Option.map_some]
  by_cases hn : o.datasize = 0
  · rw [if_neg (by simp [hn]), if_neg (by simp [hn])]
    exact meets_skip output len
  · have hn' : o.datasize.toNat ≠ 0 := fun h => hn (UInt32.toNat_inj.mp h)
    rw [if_pos hn, if_pos hn']
    exact (meets_wrtUint32 output len _ _).andThen (meets_wrtBuf output len _ _ data)

theorem tlvWriteGroup_room (tag : EmTLVTag) {body : Wrt} {need : Need}
    (hb : Meets output len body need) (hm : m.length < 2 ^ 31) (h : output + len ≤ m.length) :
    Sim (Takes m len) ((needBytes 8).andThen need len) (tlvWriteGroup tag body m output len) := by
  unfold tlvWriteGroup Need.andThen needBytes
  by_cases hlt : len < 8
  · rw [if_pos hlt, if_pos (by omega)]
    exact .ok ⟨rfl, rfl⟩
  have hl1 : output + (le32 tag.code).length ≤ m.length := by rw [le32_length]; omega
  have hp := patch_length hl1
  rw [if_neg hlt, if_neg (by omega), store_of_le hl1]
  have hstep := hb ⟨patch m output (le32 tag.code), 8⟩ (hp.trans_lt hm) (by rw [hp]; exact h)
    (by dsimp only; omega)
  refine hstep.bind fun n r hr => ?_
  obtain ⟨ok, w⟩ := r
  rcases n with _ | n
  · obtain ⟨rfl, h2⟩ := hr
    exact .ok ⟨rfl, h2.trans hp⟩
  · obtain ⟨rfl, h2, h3, h4⟩ := hr
    dsimp only at h2 h3 h4 ⊢
    have hl3 : output + 4 + (le32 (UInt32.ofNat (u32 (w.idx + (2 ^ 32 - 8))))).length
        ≤ w.mem.length := by
      rw [le32_length]; omega
    rw [if_pos rfl, store_of_le hl3, ok_bind]
    refine .ok ⟨h3, (patch_length hl3).trans (h2.trans hp), ?_, h4⟩
    show 8 + n ≠ 0
    omega

theorem tlvWriteObject_room (o : StorageObject) (hm : m.length < 2 ^ 31) (h : output + len ≤ m.length) :
    Sim (Takes m len) (needObject o.shape len) (tlvWriteObject o m output len) := by
  have hash := meets_wrtBuf output len .objhashbuf 32 o.hashptr.1
  rw [o.hashptr.2] at hash
  exact tlvWriteGroup_room .object ((meets_wrtName o).andThen ((meets_wrtData o).andThen (hash.andThen
    ((meets_wrtUint32 output len .objtype o.type).andThen
      (meets_wrtUint32 output len .objattr o.attr))))) hm h

end Group

/-! ## The list -/

theorem writeObjects_room {size : Nat} (os : List StorageObject) {idx : Nat} (cnt : UInt32) (hm : m.length < 2 ^ 31) (hsize : 1024 + size = m.length) (hidx : idx ≤ size) :
    Sim (fun fits r => r.1 = fits ∧ r.2.2.2.length = m.length)
      (needObjects (os.map shape) (size - idx)) (writeObjects size os idx cnt m) := by
  induction os generalizing idx cnt m with
  | nil => exact .ok ⟨rfl, rfl⟩
  | cons o os ih =>
    have hr : s32 ((size : Int) - idx) = ((size - idx : Nat) : Int) := by
      rw [s32_of_range (by omega) (by omega)]; omega
    have hin : 512 + 512 + idx + (size - idx) ≤ m.length := by omega
    unfold writeObjects storageBlockRawHeadSize storageBlockEncHeadSize
    rw [List.map_cons, needObjects, hr]
    refine (tlvWriteObject_room o hm hin).bind fun n r hr => ?_
    obtain ⟨ret, m1⟩ := r
    rcases n with _ | n
    · obtain ⟨h1, h2⟩ := hr
      dsimp only at h1 h2 ⊢
      rw [if_pos h1]
      exact .ok ⟨rfl, h2⟩
    · obtain ⟨h1, h2, h3, h4⟩ := hr
      dsimp only at h1 h2 ⊢
      have hu : u32 (idx + ret) = idx + n := by rw [h1, u32_of_lt (by omega)]
      rw [if_neg (by omega), hu, show size - idx - n = size - (idx + n) by omega]
      have hrest := ih (cnt + 1) (h2.trans_lt hm) (hsize.trans h2.symm) (show idx + n ≤ size by omega)
      rw [h2] at hrest
      exact hrest

theorem writeHeads_room (env : Env) {s : NormalKey} {size : Nat} (hm : m.length = size) (h1024 : 1024 < size)
    (hlt : size < 2 ^ 31) (hfl : s.enchead.flashsize = UInt32.ofNat size) :
    ∃ s' m', writeHeads env m s = .ok (0, s', m') ∧ m'.length = size ∧ s'.keys = s.keys ∧
      s'.blockinited = s.blockinited := by
  have hb := (meets_wrtUint32 512 512 .headsize s.enchead.blocksize).andThen
    (meets_wrtUint32 512 512 .headflashsize s.enchead.flashsize)
  obtain ⟨⟨n, m1⟩, h1, hn, hl1, hn0, -⟩ :=
    (tlvWriteGroup_room .head (m := m) hb (by omega) (by omega)).ok_of rfl
  have hu : u32 (s.enchead.flashsize.toNat + (2 ^ 32 - 512)) = size - 512 := by
    rw [hfl, UInt32.toNat_ofNat_of_lt' (by simp [UInt32.size]; omega)]
    unfold u32
    omega
  have hst : ∀ h : RawHead, 0 + h.bytes.length ≤ m1.length := fun h => by
    rw [h.bytes_length]; dsimp only at hl1; omega
  have hhead : tlvWriteHead s.enchead m storageBlockRawHeadSize storageBlockEncHeadSize
      = .ok (n, m1) := h1
  have hdata : load m1 storageBlockRawHeadSize (u32 (s.enchead.flashsize.toNat +
      (2 ^ 32 - storageBlockRawHeadSize))) = .ok ((m1.drop 512).take (size - 512)) := by
    unfold storageBlockRawHeadSize
    rw [hu, load_of_le (by dsimp only at hl1; omega)]
  have hn1 : ¬n = 0 := by dsimp only at hn; omega
  unfold writeHeads
  simp only [hhead, ok_bind, if_neg hn1, hdata, store_of_le (hst _)]
  exact ⟨_, _, rfl, by rw [patch_length (hst _)]; exact hl1.trans hm, rfl, rfl⟩

/-- `normalkey_writetoblock` returns 0 when the objects find room and -1 when they do not. -/
theorem normalkeyWritetoblock_room (env : Env) {s : NormalKey} {size : Nat}
    (hb : s.blockinited = 2) (hm : m.length = size) (h1024 : 1024 < size) (hlt : size < 2 ^ 31) :
    Sim (fun fits r => r.1 = (if fits then 0 else -1) ∧ r.2.1.keys = s.keys ∧
        r.2.1.blockinited = 2 ∧ ∃ m', r.2.2 = some m' ∧ m'.length = size)
      (needObjects (s.keys.map shape) (size - 1024))
      (normalkeyWritetoblock env (some m) size s) := by
  have hobj := writeObjects_room s.keys 0 (hm.trans_lt hlt)
    (show 1024 + (size - 1024) = m.length by omega) (Nat.zero_le _)
  rw [Nat.sub_zero] at hobj
  unfold normalkeyWritetoblock storageBlockRawHeadSize storageBlockEncHeadSize
  rw [if_neg (not_not_intro hb)]
  simp only [Nat.reduceAdd, if_neg (show ¬size ≤ 1024 by omega)]
  refine hobj.bind_right fun fits r hr => ?_
  obtain ⟨ok, idx, cnt, m1⟩ := r
  obtain ⟨rfl, hl1⟩ := hr
  cases ok with
  | false => exact ⟨_, rfl, rfl, rfl, hb, m1, rfl, hl1.trans hm⟩
  | true =>
    obtain ⟨s', m', h2, hl2, hk, hbi⟩ := writeHeads_room env (hl1.trans hm) h1024 hlt
      (s := { s with
        rawhead := { s.rawhead with keycnt := cnt }
        enchead := { s.enchead with
          flashsize := UInt32.ofNat (u32 size), blocksize := UInt32.ofNat idx } })
      (congrArg UInt32.ofNat (u32_of_lt (by omega)))
    simp only [Bool.not_true, Bool.false_eq_true, if_false, h2, ok_bind]
    exact ⟨_, rfl, rfl, hk, hbi.trans hb, m', rfl, hl2⟩

/-! ## Well-formed objects -/

theorem needBuf_eq {length avail : Nat} (hin : length ≤ avail) (hlt : length + 11 < 2 ^ 31) :
    needBuf length avail = needBytes (8 + align4 length) := by
  funext room
  have hal : align4 length + 8 < 2 ^ 31 := by unfold align4; omega
  have hle := le_align4 length
  have htmp : u32 ((length + 3) / 4 * 4) = align4 length := u32_of_lt (by unfold align4 at hal; omega)
  have hs : s32 (8 + (align4 length : Int)) = 8 + align4 length := s32_of_range (by omega) (by omega)
  unfold needBuf needBytes
  dsimp only
  rw [htmp, hs]
  by_cases hr : room < 8 + align4 length
  · rw [if_pos (by omega), if_pos hr]
  · rw [if_neg (by omega), if_pos ⟨hin, hle, by omega⟩, if_neg hr]

theorem needBytes_andThen (a b : Nat) :
    (needBytes a).andThen (needBytes b) = needBytes (a + b) := by
  funext room
  unfold Need.andThen needBytes
  by_cases ha : room < a
  · rw [if_pos ha, if_pos (by omega)]
    rfl
  · rw [if_neg ha]
    by_cases hb : room - a < b
    · simp only [ok_bind, if_pos hb, if_pos (show room < a + b by omega)]
      rfl
    · simp only [ok_bind, if_neg hb, if_neg (show ¬room < a + b by omega)]
      rfl

theorem needObject_eq {o : StorageObject} (hw : o.Wf) (hd : o.datasize.toNat + 11 < 2 ^ 31) :
    needObject o.shape = needBytes (encObject o).length := by
  obtain ⟨buf, hbuf, hle⟩ := hw.dataptr_some
  have hname : needName o.shape = needBytes (encName o).length := by
    unfold needName encName shape
    by_cases hn : o.namesize = 0
    · rw [if_neg (by simp [hn]), if_neg (by simp [hn])]
      rfl
    · have hn' : o.namesize.toNat ≠ 0 := fun h => hn (UInt32.toNat_inj.mp h)
      have := hw.namesize_le
      rw [if_pos hn', if_pos hn, needBuf_eq this (by omega), needBytes_andThen, List.length_append,
        recUint32_length, recBuf_length, hw.keyName_length]
  have hdata : needData o.shape = needBytes (encData o).length := by
    have hn' : o.datasize.toNat ≠ 0 := fun h => hw.datasize_ne (UInt32.toNat_inj.mp h)
    have hlen := hw.data_length
    unfold needData encData shape
    rw [if_pos ⟨by rw [hbuf]; rfl, hw.datasize_ne⟩, hbuf]
    dsimp only [Option.map_some]
    rw [if_pos hn', needBuf_eq hle hd, needBytes_andThen, List.length_append, recUint32_length,
      recBuf_length, hlen]
  unfold needObject
  rw [hname, hdata, needBuf_eq (Nat.le_refl 32) (by omega), needBytes_andThen, needBytes_andThen,
    needBytes_andThen, needBytes_andThen, needBytes_andThen]
  congr 1
  simp [encObject, recGroup_length, encBody, recUint32_length, recBuf_length, o.hashptr.2]

theorem needObjects_eq {os : List StorageObject} (hw : ∀ o ∈ os, o.Wf)
    (hd : ∀ o ∈ os, o.datasize.toNat + 11 < 2 ^ 31) (room : Nat) :
    needObjects (os.map shape) room
      = .ok (decide ((encObjects os).length ≤ room)) := by
  induction os generalizing room with
  | nil => simp [needObjects, encObjects]
  | cons o os ih =>
    rw [List.map_cons, needObjects, needObject_eq (hw o (List.mem_cons_self ..))
      (hd o (List.mem_cons_self ..)), needBytes, encObjects_cons, List.length_append]
    by_cases hr : room < (encObject o).length
    · rw [if_pos hr, decide_eq_false (by omega)]
      rfl
    · rw [if_neg hr]
      simp only [ok_bind]
      rw [ih (fun p hp => hw p (List.mem_cons_of_mem _ hp))
        (fun p hp => hd p (List.mem_cons_of_mem _ hp))]
      congr 2
      exact propext ⟨fun h => by omega, fun h => by omega⟩

end Amlogic.Unifykey
