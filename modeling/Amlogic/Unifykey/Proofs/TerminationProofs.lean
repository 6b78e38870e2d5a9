import Amlogic.Unifykey.NormalKey

/-!
# The reader of a block ends

A record that is accepted lies within the length that its loop was given. So the cursors advance by at least
the eight bytes of the record's head and do not wrap. The check of the block size is not needed for this: when
the rest of the block is negative as an `int32_t`, no object is accepted.
-/

namespace Amlogic.Unifykey

section Halts

variable {α β : Type} {P : α → Prop} {Q : β → Prop}

/-- The rounds that the loops are given are enough, and the result meets `P`. -/
def Halts (x : Except Fault α) (P : α → Prop) : Prop := x ≠ .error .fuel ∧ ∀ a, x = .ok a → P a

@[simp] theorem halts_ok {a : α} : Halts (.ok a) P ↔ P a := by simp [Halts]

@[simp] theorem halts_pure {a : α} : Halts (pure a) P ↔ P a := halts_ok

@[simp] theorem halts_access : Halts (.error .access) P := by simp [Halts]

@[simp] theorem halts_bind {x : Except Fault α} {f : α → Except Fault β} :
    Halts (x >>= f) Q ↔ Halts x fun a => Halts (f a) Q := by
  cases x with
  | ok a => rw [ok_bind, halts_ok]
  | error e => cases e <;> simp [Halts, bind, Except.bind]

@[simp] theorem halts_load {m : List α} {off n : Nat} {P : List α → Prop} :
    Halts (load m off n) P ↔ (off + n ≤ m.length → P ((m.drop off).take n)) := by
  unfold load
  split_ifs with h <;> simp [h]

theorem Halts.mono {x : Except Fault α} {P' : α → Prop} (h : Halts x P) (hP : ∀ a, P a → P' a) : Halts x P' :=
  ⟨h.1, fun a ha => hP a (h.2 a ha)⟩

end Halts

/-! ## Records -/

section Records

variable {env : Env} {m : List UInt8} {input sum fuel idx k : Nat} {len : Int} {tag length : UInt32}

def nextCursor (idx : Nat) (length : UInt32) : Nat := u32 (u32 (idx + 8) + length.toNat)

/-- The cursors that a record loop over `len` bytes reaches. -/
inductive Cursor (m : List UInt8) (input : Nat) (len : Int) : Nat → Prop
  | first {tag length : UInt32} : tlvReadTl m input len = .ok (some (tag, length)) → Cursor m input len 8
  | next {idx : Nat} {tag length : UInt32} : Cursor m input len idx →
      tlvReadTl m (input + idx) (s32 (len - idx)) = .ok (some (tag, length)) →
      Cursor m input len (nextCursor idx length)

theorem tlvReadTl_halts (m : List UInt8) (input : Nat) (len : Int) :
    Halts (tlvReadTl m input len) fun r => ∀ tag length, r = some (tag, length) → 8 + length.toNat ≤ len := by
  unfold tlvReadTl load32
  split_ifs <;> simp

theorem record_step (hlen : len < 2 ^ 31) (hidx : (idx : Int) ≤ len) (h : 8 + length.toNat ≤ s32 (len - idx)) :
    nextCursor idx length = idx + 8 + length.toNat ∧ (nextCursor idx length : Int) ≤ len := by
  rw [s32_of_range (by omega) (by omega)] at h
  unfold nextCursor u32
  omega

theorem Cursor.le (hlen : len < 2 ^ 31) (h : Cursor m input len idx) : (idx : Int) ≤ len := by
  induction h with
  | first h =>
    have hfits := (tlvReadTl_halts _ _ _).2 _ h _ _ rfl
    omega
  | next _ h ih => exact (record_step hlen ih ((tlvReadTl_halts _ _ _).2 _ h _ _ rfl)).2

theorem readHeadField_halts (h : EncHead) : Halts (readHeadField m input tag h) fun _ => True := by
  unfold readHeadField load32
  split <;> simp

theorem readHeadLoop_halts (hlen : len < 2 ^ 31) (hidx : (idx : Int) ≤ len) (hfuel : sum - idx < fuel) (h : EncHead) :
    Halts (readHeadLoop m input len sum fuel idx h) fun _ => True := by
  induction fuel generalizing idx h with
  | zero => omega
  | succ fuel ih =>
    rw [readHeadLoop]
    split_ifs
    · refine halts_bind.mpr ((tlvReadTl_halts _ _ _).mono fun r hr => ?_)
      rcases r with - | ⟨tag, length⟩
      · simp
      · obtain ⟨hnext, hle⟩ := record_step hlen hidx (hr _ _ rfl)
        exact halts_bind.mpr ((readHeadField_halts _).mono fun h _ => ih hle (by omega) h)
    · simp

theorem tlvReadHead_halts (hlen : len < 2 ^ 31) (h : EncHead) : Halts (tlvReadHead m input len h) fun _ => True := by
  refine halts_bind.mpr ((tlvReadTl_halts _ _ _).mono fun r hr => ?_)
  rcases r with - | ⟨tag, length⟩
  · simp
  · have hfits := hr _ _ rfl
    dsimp only
    split_ifs
    · simp
    · exact readHeadLoop_halts hlen (by omega) (by omega) h

theorem readObjectField_halts (o : StorageObject) :
    Halts (readObjectField env m input tag length o k) fun _ => True := by
  unfold readObjectField load32 store
  split <;> simp <;> split_ifs <;> simp <;> intros <;> split_ifs <;> simp

theorem readObjectLoop_halts (hlen : len < 2 ^ 31) (hidx : (idx : Int) ≤ len) (hfuel : sum - idx < fuel)
    (o : StorageObject) (k : Nat) :
    Halts (readObjectLoop env m input len sum fuel idx o k) fun r => r.1 = 0 ∨ r.1 = sum := by
  induction fuel generalizing idx o k with
  | zero => omega
  | succ fuel ih =>
    rw [readObjectLoop]
    split_ifs
    · refine halts_bind.mpr ((tlvReadTl_halts _ _ _).mono fun r hr => ?_)
      rcases r with - | ⟨tag, length⟩
      · simp
      obtain ⟨hnext, hle⟩ := record_step hlen hidx (hr _ _ rfl)
      refine halts_bind.mpr ((readObjectField_halts _).mono fun f _ => ?_)
      rcases f with - | ⟨o, k⟩
      · simp
      · exact ih hle (by omega) o k
    · simp

theorem tlvReadObject_halts (hlen : len < 2 ^ 31) (k : Nat) :
    Halts (tlvReadObject env m input len k) fun r => r.1 = 0 ∨ 8 ≤ r.1 ∧ (r.1 : Int) ≤ len := by
  refine halts_bind.mpr ((tlvReadTl_halts _ _ _).mono fun r hr => ?_)
  rcases r with - | ⟨tag, length⟩
  · simp
  have hfits := hr _ _ rfl
  dsimp only
  split_ifs
  · simp
  rw [u32_of_lt (by omega)]
  exact (readObjectLoop_halts hlen (by omega) (by omega) _ _).mono fun a ha => ha.imp id (by omega)

end Records

/-! ## Objects -/

section Objects

variable {env : Env} {m : List UInt8} {blocksize fuel idx ret : Nat}

theorem object_step (hsize : blocksize < 2 ^ 32) (hidx : idx < blocksize)
    (h : 8 ≤ ret ∧ (ret : Int) ≤ s32 (blocksize - idx)) : u32 (idx + ret) = idx + ret ∧ idx + ret ≤ blocksize := by
  have hle : s32 (blocksize - idx) ≤ blocksize - idx := by
    unfold s32
    split <;> omega
  unfold u32
  omega

theorem readObjects_halts (hsize : blocksize < 2 ^ 32) (hfuel : blocksize - idx < fuel) (k : Nat) (node : Bool)
    (keys : List StorageObject) (flags : UInt32) :
    Halts (readObjects env m blocksize fuel idx k node keys flags) fun _ => True := by
  induction fuel generalizing idx k node keys flags with
  | zero => omega
  | succ fuel ih =>
    rw [readObjects]
    split_ifs with hidx
    · simp
    · refine halts_bind.mpr ((tlvReadObject_halts (s32_lt _) _).mono fun r hr => ?_)
      dsimp only
      split_ifs with hret
      · simp
      obtain ⟨hnext, hle⟩ := object_step hsize hidx (hr.resolve_left hret)
      have hfuel' : blocksize - u32 (idx + r.1) < fuel := by omega
      refine halts_bind.mpr (halts_load.mpr fun _ => ?_)
      split_ifs
      · exact ih hfuel' ..
      · exact ih hfuel' ..
    · simp

theorem readBlock_halts (size : Nat) (p : RawHead) (s : NormalKey) : Halts (readBlock env m size p s) fun _ => True := by
  have hraw : Halts (readRawHead env m p) fun _ => True := by simp [readRawHead]
  refine halts_bind.mpr (hraw.mono fun _ _ => halts_bind.mpr (halts_load.mpr fun _ => ?_))
  dsimp only
  split_ifs
  · simp
  refine halts_bind.mpr ((tlvReadHead_halts (show (storageBlockEncHeadSize : Int) < 2 ^ 31 by decide) _).mono fun r _ => ?_)
  split_ifs
  · simp
  · simp
  · exact halts_bind.mpr ((readObjects_halts r.2.blocksize.toNat_lt (by omega) ..).mono (by simp))

theorem normalkeyReadfromblock_halts (block : Option (List UInt8)) (size : Nat) (s : NormalKey) :
    Halts (normalkeyReadfromblock env block size s) fun _ => True := by
  unfold normalkeyReadfromblock
  rcases block with - | m
  · split_ifs <;> simp
  split_ifs
  · simp
  · simp
  have hhead : Halts (loadRawHead m) fun _ => True := by
    unfold loadRawHead load32
    simp
    intros
    split_ifs <;> simp
  refine halts_bind.mpr (hhead.mono fun p _ => ?_)
  split_ifs
  · simp
  · exact halts_bind.mpr ((readBlock_halts size p _).mono (by simp))

end Objects

/-- Every block is read to an end. Each record or object that is accepted moves the cursor on by at least eight bytes,
without wrapping, and lies within what its loop was given. -/
theorem readfromblock_terminates (env : Env) :
    (∀ block size s, normalkeyReadfromblock env block size s ≠ .error .fuel) ∧
    (∀ m input (len : Int), len < 2 ^ 31 →
      (∀ h, tlvReadHead m input len h ≠ .error .fuel) ∧ (∀ k, tlvReadObject env m input len k ≠ .error .fuel) ∧
      ∀ idx tag length, Cursor m input len idx →
        tlvReadTl m (input + idx) (s32 (len - idx)) = .ok (some (tag, length)) →
        nextCursor idx length = idx + 8 + length.toNat ∧ (nextCursor idx length : Int) ≤ len) ∧
    ∀ m input blocksize idx k r, blocksize < 2 ^ 32 → idx < blocksize →
      tlvReadObject env m (input + idx) (s32 (blocksize - idx)) k = .ok r → r.1 ≠ 0 →
      u32 (idx + r.1) = idx + r.1 ∧ 8 ≤ r.1 ∧ idx + r.1 ≤ blocksize := by
  refine ⟨fun block size s => (normalkeyReadfromblock_halts block size s).1, fun m input len hlen => ?_, ?_⟩
  · refine ⟨fun h => (tlvReadHead_halts hlen h).1, fun k => (tlvReadObject_halts hlen k).1, ?_⟩
    intro idx tag length hcursor hread
    exact record_step hlen (hcursor.le hlen) ((tlvReadTl_halts _ _ _).2 _ hread _ _ rfl)
  · intro m input blocksize idx k r hsize hidx hread hret
    have hfits := ((tlvReadObject_halts (s32_lt _) k).2 r hread).resolve_left hret
    obtain ⟨hnext, hle⟩ := object_step hsize hidx hfits
    exact ⟨hnext, hfits.1, hle⟩

end Amlogic.Unifykey
