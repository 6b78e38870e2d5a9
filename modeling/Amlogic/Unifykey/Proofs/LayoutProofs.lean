import Amlogic.Unifykey.BlockLayout
import Amlogic.Unifykey.Proofs.RoundTripProofs

/-!
# The reader follows the layout

`Tlv_ReadObject` copies the fields of an object from the ranges that the block declares. It checks
the length of a record against the rest of the block only, and the declared sizes of name and data
against nothing, so the object can depend on bytes outside its window.
-/

namespace Amlogic.Unifykey

open Source StorageObject

/-! ## Records -/

theorem load_eq_slice (m : List UInt8) (off n : Nat) :
    load m off n = if off + n ≤ m.length then .ok (slice m off n) else .error .access := rfl

theorem load32_eq_word (m : List UInt8) (off : Nat) :
    load32 m off = if off + 4 ≤ m.length then .ok (word m off) else .error .access := by
  unfold load32
  rw [load_eq_slice]
  split <;> rfl

theorem slice_length {m : List UInt8} {off n : Nat} (h : off + n ≤ m.length) :
    (slice m off n).length = n := by
  simp [slice]; omega

theorem tlvReadTl_eq {m : List UInt8} {input len : Nat} (h : input + len ≤ m.length) :
    tlvReadTl m input len = .ok (if 8 + (word m (input + 4)).toNat ≤ len then
      some (word m input, word m (input + 4)) else none) := by
  unfold tlvReadTl
  by_cases h8 : len < 8
  · rw [if_pos (by omega), if_neg (by omega)]
  · rw [if_neg (by omega), load32_eq_word, load32_eq_word, if_pos (by omega), if_pos (by omega)]
    simp only [ok_bind, ok_pure]
    congr 1
    by_cases hl : 8 + (word m (input + 4)).toNat ≤ len
    · rw [if_pos hl, if_neg (by omega)]
    · rw [if_neg hl, if_pos (by omega)]

section Fields

variable {env : Env} {m : List UInt8} {input k : Nat} {src : Source} {r : Rec}

theorem load32_field {f : Field} (g : UInt32 → StorageObject) (hf : Field.ofTag r.tag = some f) (hn : f ≠ .name)
    (hc : src.count m input f = 4) (hg : object (Function.update src f (some (r.off, 4))) m input
      = g (word m (input + r.off))) :
    (do return some (g (← load32 m (input + r.off)), k) : Except Fault _)
      = if src.safe m input r then .ok (some ((src.step m input r).object m input, k))
        else .error .access := by
  have hs : src.safe m input r = decide (input + r.off + 4 ≤ m.length) := by
    unfold safe
    cases f <;> simp_all
  rw [load32_eq_word, hs]
  by_cases h : input + r.off + 4 ≤ m.length
  · simp [h, step, hf, hc, hg]
  · simp [h]
    rfl

theorem readObjectField_eq (env : Env) (k : Nat) (src : Source) (hr : input + r.off + r.length.toNat ≤ m.length) :
    readObjectField env m (input + r.off) r.tag r.length (src.object m input) k
      = if src.accepts env m input k r then
          if src.safe m input r then
            .ok (some ((src.step m input r).object m input, nextRequest k r))
          else .error .access
        else .ok none := by
  have hskip : Field.ofTag r.tag = none → src.accepts env m input k r = true ∧
      src.safe m input r = true ∧ src.step m input r = src ∧ nextRequest k r = k := by
    intro hf
    simp [accepts, safe, step, nextRequest, hf]
  rcases hc : EmTLVTag.ofCode r.tag with _ | t
  · obtain ⟨h1, h2, h3, h4⟩ := hskip (by simp [Field.ofTag, hc])
    simp [readObjectField, hc, h1, h2, h3, h4]
  cases t
  case objnamesize =>
    have hf : Field.ofTag r.tag = some .namesize := by simp [Field.ofTag, hc]
    simp only [readObjectField, hc, accepts, nextRequest, hf, if_true, reduceCtorEq,
      Option.some.injEq, if_false]
    refine load32_field (fun w => { src.object m input with namesize := w }) hf (by simp) rfl ?_
    simp [object, bytes, word]
  case objtype =>
    have hf : Field.ofTag r.tag = some .type := by simp [Field.ofTag, hc]
    simp only [readObjectField, hc, accepts, nextRequest, hf, if_true, reduceCtorEq,
      Option.some.injEq, if_false]
    refine load32_field (fun w => { src.object m input with type := w }) hf (by simp) rfl ?_
    simp [object, bytes, word]
  case objattr =>
    have hf : Field.ofTag r.tag = some .attr := by simp [Field.ofTag, hc]
    simp only [readObjectField, hc, accepts, nextRequest, hf, if_true, reduceCtorEq,
      Option.some.injEq, if_false]
    refine load32_field (fun w => { src.object m input with attr := w }) hf (by simp) rfl ?_
    simp [object, bytes, word]
  case objdatasize =>
    have hf : Field.ofTag r.tag = some .datasize := by simp [Field.ofTag, hc]
    simp only [readObjectField, hc, accepts, nextRequest, hf, if_true, reduceCtorEq,
      Option.some.injEq, if_false]
    refine load32_field (fun w => { src.object m input with datasize := w }) hf (by simp) rfl ?_
    simp [object, bytes, word]
  case objname =>
    have hf : Field.ofTag r.tag = some .name := by simp [Field.ofTag, hc]
    have hobj : (src.step m input r).object m input = { src.object m input with
        name := newName (slice m (input + r.off) (src.count m input .name)) } := by
      simp [step, hf, object, bytes]
    have hcnt : (src.object m input).namesize.toNat = src.count m input .name := rfl
    simp only [readObjectField, hc, accepts, safe, nextRequest, hf, if_true,
      reduceCtorEq, Option.some.injEq, if_false, hcnt, hobj, load_eq_slice]
    by_cases h1 : input + r.off + src.count m input .name ≤ m.length
    · have hl := slice_length h1
      by_cases h2 : src.count m input .name ≤ 80
      · have hst : store (Bytes.zero maxObjNameLen).1 0
            (slice m (input + r.off) (src.count m input .name))
            = .ok (newName (slice m (input + r.off) (src.count m input .name))).1 := by
          rw [store_of_le (by rw [hl, (Bytes.zero maxObjNameLen).2]; simpa [maxObjNameLen] using h2),
            patch_zero_name (by omega)]
        simp [h1, h2, hst, (newName _).2]
      · have hst : store (Bytes.zero maxObjNameLen).1 0
            (slice m (input + r.off) (src.count m input .name)) = .error .access := by
          unfold store
          rw [if_neg (by rw [hl, (Bytes.zero maxObjNameLen).2]; simpa [maxObjNameLen] using h2)]
        simp [h1, h2, hst]
        rfl
    · simp [h1]
      rfl
  case objdatabuf =>
    have hf : Field.ofTag r.tag = some .data := by simp [Field.ofTag, hc]
    have hobj : (src.step m input r).object m input = { src.object m input with
        dataptr := some (slice m (input + r.off) (src.count m input .data)) } := by
      simp [step, hf, object, bytes]
    have hcnt : (src.object m input).datasize.toNat = src.count m input .data := rfl
    simp only [readObjectField, hc, accepts, safe, nextRequest, hf, if_true, hcnt, hobj,
      load_eq_slice]
    by_cases hk : env.kmalloc k (src.count m input .data)
    · by_cases h1 : input + r.off + src.count m input .data ≤ m.length
      · simp [hk, h1]
      · simp [hk, h1]
        rfl
    · simp [hk]
  case objhashbuf =>
    have hf : Field.ofTag r.tag = some .hash := by simp [Field.ofTag, hc]
    simp only [readObjectField, hc, accepts, safe, nextRequest, hf, reduceCtorEq,
      Option.some.injEq, if_false]
    by_cases h32 : r.length = 32
    · have hl : input + r.off + 32 ≤ m.length := by
        rw [h32] at hr
        exact hr
      have hsl := slice_length hl
      have hh : hashOf (slice m (input + r.off) 32) = ⟨slice m (input + r.off) 32, hsl⟩ := by
        apply Subtype.ext
        simp [hashOf, hsl]
      have hobj : (src.step m input r).object m input = { src.object m input with
          hashptr := ⟨slice m (input + r.off) 32, hsl⟩ } := by
        rw [← hh]
        simp [step, hf, object, bytes, count]
      simp [h32, load_eq_slice, hl, hsl, hobj, count]
    · simp [h32]
  all_goals
    obtain ⟨h1, h2, h3, h4⟩ := hskip (by simp [Field.ofTag, hc])
    simp [readObjectField, hc, h1, h2, h3, h4]

end Fields

section Objects

variable {env : Env} {m : List UInt8} {input len : Nat}

theorem readObjectLoop_eq (env : Env) (hlen : len < 2 ^ 31) (hm : input + len ≤ m.length) (sum fuel : Nat) {idx : Nat}
    (hidx : idx ≤ len) (hfuel : sum - idx < fuel) (src : Source) (k : Nat) :
    readObjectLoop env m input len sum fuel idx (src.object m input) k = (do
      let (ok, src', k') ← scanFields env m input (records m input len sum fuel idx).1 src k
      return (if ok && (records m input len sum fuel idx).2 then sum else 0,
        src'.object m input, k')) := by
  induction fuel generalizing idx src k with
  | zero => omega
  | succ fuel ih =>
    unfold readObjectLoop records
    by_cases hs : idx < sum
    · have hr : s32 ((len : Int) - idx) = ((len - idx : Nat) : Int) := by
        rw [s32_of_range (by omega) (by omega)]; omega
      rw [if_pos hs, if_pos hs, hr, tlvReadTl_eq (by omega)]
      by_cases hl : idx + 8 + (word m (input + idx + 4)).toNat ≤ len
      · have hi : u32 (idx + 8) = idx + 8 := u32_of_lt (by omega)
        have hi2 : u32 (idx + 8 + (word m (input + idx + 4)).toNat)
            = idx + 8 + (word m (input + idx + 4)).toNat := u32_of_lt (by omega)
        rw [if_pos (by omega), if_pos hl, hi]
        simp only [ok_bind, hi2]
        have hf := readObjectField_eq env k src
          (r := ⟨word m (input + idx), idx + 8, word m (input + idx + 4)⟩)
          (show input + (idx + 8) + (word m (input + idx + 4)).toNat ≤ m.length by omega)
        rw [hf, scanFields]
        split
        · split
          · exact ih (by omega) (by omega) _ _
          · rfl
        · rfl
      · rw [if_neg (by omega), if_neg hl]
        simp [scanFields]
    · rw [if_neg hs, if_neg hs]
      simp [scanFields]

theorem object_none (m : List UInt8) (input : Nat) :
    object (fun _ => none) m input = zero := rfl

/-- What `Tlv_ReadObject` returns for an object of the layout. -/
def ReadsAs (m : List UInt8) (input : Nat) :
    Option (Source × Nat) → Nat × StorageObject × Nat → Prop
  | none, (ret, _, _) => ret = 0
  | some (src, k), (ret, o, k') => ret = windowSize m input ∧ o = src.object m input ∧ k' = k

theorem tlvReadObject_sim (env : Env) (hlen : len < 2 ^ 31) (hm : input + len ≤ m.length) (k : Nat) :
    Sim (ReadsAs m input) (scanObject env m input len k) (tlvReadObject env m input len k) := by
  unfold scanObject tlvReadObject
  rw [tlvReadTl_eq hm]
  by_cases hw : windowSize m input ≤ len
  swap
  · have hw' : ¬8 + (word m (input + 4)).toNat ≤ len := hw
    rw [if_neg (fun h => hw h.1), if_neg hw', ok_bind]
    exact .ok rfl
  have hw' : 8 + (word m (input + 4)).toNat ≤ len := hw
  rw [if_pos hw']
  by_cases ht : word m input = EmTLVTag.object.code
  swap
  · rw [if_neg (fun h => ht h.2), ok_bind]
    simp only [ne_eq, ht, not_false_eq_true, if_true]
    exact .ok rfl
  have hsum : u32 ((word m (input + 4)).toNat + 8) = windowSize m input := by
    rw [u32_of_lt (by omega)]
    exact Nat.add_comm _ _
  have hloop := readObjectLoop_eq env hlen hm (windowSize m input) (windowSize m input + 1)
    (show 8 ≤ len by omega) (by omega) (fun _ => none) k
  rw [object_none] at hloop
  simp only [ok_bind, ht, hw, ne_eq, not_true_eq_false, if_false, hsum, hloop, and_self, if_true]
  refine Sim.bind_same fun ⟨ok, src, k'⟩ _ => ?_
  by_cases hd : (ok && (objectRecords m input len).2) = true
  · refine .ok ?_
    rw [if_pos hd]
    exact ⟨if_pos hd, rfl, rfl⟩
  · refine .ok ?_
    rw [if_neg hd]
    exact if_neg hd

end Objects

/-! ## Bytes outside the window -/

def AgreeOn (m m' : List UInt8) (off n : Nat) : Prop :=
  m'.length = m.length ∧ slice m' off n = slice m off n

theorem AgreeOn.slice {m m' : List UInt8} {off n off' n' : Nat} (h : AgreeOn m m' off n)
    (ho : off ≤ off') (hn : off' + n' ≤ off + n) : slice m' off' n' = slice m off' n' := by
  have key : ∀ l : List UInt8, Unifykey.slice l off' n'
      = ((Unifykey.slice l off n).drop (off' - off)).take n' := by
    intro l
    simp only [Unifykey.slice, List.drop_take, List.drop_drop, List.take_take]
    rw [Nat.min_eq_left (by omega), show off + (off' - off) = off' by omega]
  rw [key m', key m, h.2]

theorem AgreeOn.word {m m' : List UInt8} {off n off' : Nat} (h : AgreeOn m m' off n)
    (ho : off ≤ off') (hn : off' + 4 ≤ off + n) : word m' off' = word m off' := by
  unfold Unifykey.word
  rw [h.slice ho hn]

section Window

variable {env : Env} {m m' : List UInt8} {input len sum : Nat}

theorem records_agree (ha : AgreeOn m m' input sum) {fuel idx : Nat}
    (hdone : (records m input len sum fuel idx).2 = true)
    (hin : ∀ r ∈ (records m input len sum fuel idx).1, r.off + r.length.toNat ≤ sum) :
    records m' input len sum fuel idx = records m input len sum fuel idx := by
  induction fuel generalizing idx with
  | zero => rfl
  | succ fuel ih =>
    unfold records at hdone hin ⊢
    by_cases hs : idx < sum
    · rw [if_pos hs] at hdone hin ⊢
      rw [if_pos hs]
      by_cases hl : idx + 8 + (word m (input + idx + 4)).toNat ≤ len
      · rw [if_pos hl] at hdone hin ⊢
        have hr := hin _ (List.mem_cons_self ..)
        simp only at hr
        have ht : word m' (input + idx) = word m (input + idx) := ha.word (by omega) (by omega)
        rw [ha.word (by omega) (by omega), ht, if_pos hl,
          ih hdone fun r hr => hin r (List.mem_cons_of_mem _ hr)]
      · rw [if_neg hl] at hdone
        cases hdone
    · rw [if_neg hs, if_neg hs]

def Source.DeclWithin (src : Source) (size : Nat) : Prop :=
  (∀ off n, src .namesize = some (off, n) → off + n ≤ size) ∧
    ∀ off n, src .datasize = some (off, n) → off + n ≤ size

theorem bytes_agree (ha : AgreeOn m m' input sum) {src : Source} {f : Field}
    (hw : ∀ off n, src f = some (off, n) → off + n ≤ sum) : src.bytes m' input f = src.bytes m input f := by
  unfold bytes
  rcases hf : src f with _ | ⟨off, n⟩
  · rfl
  · have := hw off n hf
    exact ha.slice (by omega) (by omega)

theorem count_agree (ha : AgreeOn m m' input sum) {src : Source} (hd : src.DeclWithin sum)
    (f : Field) : src.count m' input f = src.count m input f := by
  cases f <;> try rfl
  · simp only [count, object, bytes_agree ha hd.1]
  · simp only [count, object, bytes_agree ha hd.2]

theorem step_agree (env : Env) (ha : AgreeOn m m' input sum) {src : Source} (hd : src.DeclWithin sum) (r : Rec)
    (k : Nat) : src.step m' input r = src.step m input r ∧
      src.accepts env m' input k r = src.accepts env m input k r ∧
      src.safe m' input r = src.safe m input r := by
  have hc := count_agree ha hd
  unfold step accepts safe
  rw [ha.1]
  rcases Field.ofTag r.tag with _ | f
  · exact ⟨rfl, rfl, rfl⟩
  · simp only [hc]
    exact ⟨trivial, trivial, trivial⟩

theorem step_apply {src : Source} {r : Rec} {f : Field} {off n : Nat} (h : src.step m input r f = some (off, n)) :
    src f = some (off, n) ∨
      (Field.ofTag r.tag = some f ∧ off = r.off ∧ n = src.count m input f) := by
  unfold step at h
  rcases hg : Field.ofTag r.tag with _ | g
  · rw [hg] at h
    exact .inl h
  · rw [hg] at h
    dsimp only at h
    by_cases hfg : f = g
    · subst hfg
      rw [Function.update_self] at h
      cases h
      exact .inr ⟨rfl, rfl, rfl⟩
    · rw [Function.update_of_ne hfg] at h
      exact .inl h

theorem declWithin_step {src : Source} (hd : src.DeclWithin sum) {r : Rec} (hr : r.off + 4 ≤ sum) :
    (src.step m input r).DeclWithin sum := by
  constructor
  · intro off n h
    rcases step_apply h with h | ⟨_, rfl, rfl⟩
    · exact hd.1 off n h
    · exact hr
  · intro off n h
    rcases step_apply h with h | ⟨_, rfl, rfl⟩
    · exact hd.2 off n h
    · exact hr

theorem records_head {fuel idx : Nat} {r : Rec} {rs : List Rec}
    (h : (records m input len sum fuel idx).1 = r :: rs) : r.off = idx + 8 := by
  cases fuel with
  | zero => cases h
  | succ fuel =>
    unfold records at h
    dsimp only at h
    split_ifs at h
    cases h
    rfl

/-- The records that lie in the window lead to the same sources, whatever stands outside: the value
of the last record alone may reach out of the window, and no other field depends on it. -/
theorem scanFields_agree (ha : AgreeOn m m' input sum) {fuel idx : Nat} {src : Source} (hd : src.DeclWithin sum)
    (hin : ∀ r ∈ (records m input len sum fuel idx).1, r.off + r.length.toNat ≤ sum) (k : Nat) :
    scanFields env m' input (records m input len sum fuel idx).1 src k
      = scanFields env m input (records m input len sum fuel idx).1 src k := by
  induction fuel generalizing idx src k with
  | zero => rfl
  | succ fuel ih =>
    rw [records] at hin ⊢
    by_cases hs : idx < sum
    · rw [if_pos hs] at hin ⊢
      by_cases hl : idx + 8 + (word m (input + idx + 4)).toNat ≤ len
      · rw [if_pos hl] at hin ⊢
        obtain ⟨h1, h2, h3⟩ := step_agree env ha hd
          ⟨word m (input + idx), idx + 8, word m (input + idx + 4)⟩ k
        simp only [scanFields, h1, h2, h3]
        have hrest : ∀ r ∈ (records m input len sum fuel
            (idx + 8 + (word m (input + idx + 4)).toNat)).1, r.off + r.length.toNat ≤ sum :=
          fun r hr => hin r (List.mem_cons_of_mem _ hr)
        cases hrs : (records m input len sum fuel (idx + 8 + (word m (input + idx + 4)).toNat)).1 with
        | nil => rfl
        | cons r' rs =>
          -- the next record starts inside the window, so the value of this one is at least a word
          have hoff := records_head hrs
          have hr' := hrest r' (by rw [hrs]; exact List.mem_cons_self ..)
          rw [← hrs, ih (declWithin_step hd (by simp only; omega)) hrest]
      · rw [if_neg hl]
        rfl
    · rw [if_neg hs]
      rfl

/-- What holds of the sources while the records of an object are gone over: the copies stay in the
block, and their sizes fit the fields. -/
def Source.Inv (src : Source) (m : List UInt8) (input size : Nat) : Prop :=
  ∀ f off n, src f = some (off, n) → off ≤ size ∧ input + off + n ≤ m.length ∧
    match f with
    | .name => n ≤ 80
    | .data => True
    | .hash => n = 32
    | _ => n = 4

theorem safe_field {src : Source} {r : Rec} {f : Field} (hs : src.safe m input r = true)
    (hf : Field.ofTag r.tag = some f) :
    input + r.off + src.count m input f ≤ m.length ∧ (f = .name → src.count m input f ≤ 80) := by
  unfold safe at hs
  cases f <;> simp_all

theorem scanFields_inv {recs : List Rec} {src src' : Source} {k k' : Nat}
    (h : scanFields env m input recs src k = .ok (true, src', k')) (hin : ∀ r ∈ recs, r.off ≤ sum)
    (hi : src.Inv m input sum) : src'.Inv m input sum := by
  induction recs generalizing src k with
  | nil => cases h; exact hi
  | cons r rs ih =>
    unfold scanFields at h
    split_ifs at h with ha hs
    · refine ih h (fun r' hr' => hin r' (List.mem_cons_of_mem _ hr')) ?_
      intro f off n hstep
      rcases step_apply hstep with hf | ⟨hf, rfl, rfl⟩
      · exact hi f off n hf
      · obtain ⟨h1, h2⟩ := safe_field hs hf
        refine ⟨hin r (List.mem_cons_self ..), h1, ?_⟩
        cases f <;> first | rfl | trivial | exact h2 rfl
    · cases h

theorem getLe32_inj {a b : List UInt8} (ha : a.length = 4) (hb : b.length = 4)
    (h : getLe32 a = getLe32 b) : a = b := by
  have key : ∀ l : List UInt8, l.length = 4 → le32 (getLe32 l) = l := by
    intro l hl
    obtain ⟨x, y, z, w, rfl⟩ : ∃ x y z w, l = [x, y, z, w] := by
      rcases l with _ | ⟨x, _ | ⟨y, _ | ⟨z, _ | ⟨w, _ | _⟩⟩⟩⟩ <;> simp_all
    have hx := x.toNat_lt
    have hy := y.toNat_lt
    have hz := z.toNat_lt
    have hw := w.toNat_lt
    simp only [getLe32, le32, UInt32.toNat_ofNat', List.cons.injEq, and_true]
    refine ⟨?_, ?_, ?_, ?_⟩ <;> apply UInt8.toNat_inj.mp <;> rw [UInt8.toNat_ofNat'] <;> omega
  rw [← key a ha, ← key b hb, h]

theorem take_padded_inj {n : Nat} {a b : List UInt8} (ha : a.length ≤ n) (hl : a.length = b.length)
    (h : (a ++ List.replicate n 0).take n = (b ++ List.replicate n 0).take n) : a = b := by
  have := congrArg (List.take a.length) h
  rwa [List.take_take, List.take_take, Nat.min_eq_left ha, List.take_left, hl, List.take_left] at this

theorem bytes_eq_of_object_eq {src : Source} (hi : src.Inv m input sum) (hl : m'.length = m.length)
    (h : src.object m' input = src.object m input) (f : Field) : src.bytes m' input f = src.bytes m input f := by
  rcases hf : src f with _ | ⟨off, n⟩
  · simp [bytes, hf]
  have hinv := hi f off n hf
  have hb : ∀ l : List UInt8, l.length = m.length → (src.bytes l input f).length = n := by
    intro l hl
    simp only [bytes, hf]
    exact slice_length (by omega)
  have h1 := hb m rfl
  have h2 := hb m' hl
  cases f
  case namesize =>
    exact getLe32_inj (by rw [h2]; exact hinv.2.2) (by rw [h1]; exact hinv.2.2)
      (congrArg namesize h)
  case type =>
    exact getLe32_inj (by rw [h2]; exact hinv.2.2) (by rw [h1]; exact hinv.2.2)
      (congrArg type h)
  case attr =>
    exact getLe32_inj (by rw [h2]; exact hinv.2.2) (by rw [h1]; exact hinv.2.2)
      (congrArg attr h)
  case datasize =>
    exact getLe32_inj (by rw [h2]; exact hinv.2.2) (by rw [h1]; exact hinv.2.2)
      (congrArg datasize h)
  case name =>
    exact take_padded_inj (by rw [h2]; exact hinv.2.2) (h2.trans h1.symm)
      (congrArg (fun o => o.name.1) h)
  case hash =>
    exact take_padded_inj (by rw [h2]; exact hinv.2.2.le) (h2.trans h1.symm)
      (congrArg (fun o => o.hashptr.1) h)
  case data =>
    have := congrArg dataptr h
    simpa only [object, hf, Option.map_some, Option.some.injEq] using this

theorem scanObject_some {k k' : Nat} {src : Source} (h : scanObject env m input len k = .ok (some (src, k'))) :
    windowSize m input ≤ len ∧ word m input = EmTLVTag.object.code ∧
      (objectRecords m input len).2 = true ∧
      scanFields env m input (objectRecords m input len).1 (fun _ => none) k = .ok (true, src, k') := by
  unfold scanObject at h
  by_cases hw : windowSize m input ≤ len ∧ word m input = EmTLVTag.object.code
  swap
  · rw [if_neg hw] at h
    cases h
  rw [if_pos hw] at h
  obtain ⟨⟨ok, src1, k1⟩, h1, h⟩ := bind_eq_ok h
  simp only [ok_pure, Except.ok.injEq] at h
  split_ifs at h with hok
  obtain ⟨hok, hdone⟩ := Bool.and_eq_true_iff.mp hok
  cases h
  subst hok
  exact ⟨hw.1, hw.2, hdone, h1⟩

theorem scanObject_agree {k k' : Nat} {src : Source} (h : scanObject env m input len k = .ok (some (src, k')))
    (hin : ∀ r ∈ (objectRecords m input len).1, r.off + r.length.toNat ≤ windowSize m input)
    (ha : AgreeOn m m' input (windowSize m input)) :
    windowSize m' input = windowSize m input ∧
      scanObject env m' input len k = .ok (some (src, k')) := by
  obtain ⟨hw, ht, hdone, hscan⟩ := scanObject_some h
  have h8 : 8 ≤ windowSize m input := Nat.le_add_right 8 _
  have hwin : windowSize m' input = windowSize m input := by
    unfold windowSize
    rw [ha.word (by omega) (by omega)]
  have htag : word m' input = word m input := ha.word (by omega) (by omega)
  have hrecs : objectRecords m' input len = objectRecords m input len := by
    unfold objectRecords
    rw [hwin]
    exact records_agree ha hdone hin
  have hsrc : Source.DeclWithin (fun _ => none) (windowSize m input) :=
    ⟨fun off n h => (by cases h), fun off n h => (by cases h)⟩
  refine ⟨hwin, ?_⟩
  unfold scanObject
  rw [if_pos ⟨hwin.trans_le hw, htag.trans ht⟩, hrecs]
  have hfields : scanFields env m' input (objectRecords m input len).1 (fun _ => none) k
      = .ok (true, src, k') := (scanFields_agree ha hsrc hin k).trans hscan
  rw [hfields, hdone]
  rfl

end Window

def flip (m : List UInt8) (p : Nat) : List UInt8 := m.modify p (· + 1)

theorem agreeOn_flip {m : List UInt8} {p off n : Nat} (h : off + n ≤ p) : AgreeOn m (flip m p) off n := by
  refine ⟨List.length_modify .., ?_⟩
  apply List.ext_getElem?
  intro i
  unfold slice flip
  rw [List.getElem?_take, List.getElem?_take]
  split_ifs with hi
  · have hne : p ≠ off + i := by omega
    simp [List.getElem?_drop, hne]
  · rfl

theorem slice_flip_ne {m : List UInt8} {p off n : Nat} (h1 : off ≤ p) (h2 : p < off + n)
    (hp : p < m.length) : slice (flip m p) off n ≠ slice m off n := by
  intro h
  have := congrArg (fun l => l[p - off]?) h
  simp only [slice, flip, List.getElem?_take, if_pos (show p - off < n by omega), List.getElem?_drop,
    show off + (p - off) = p by omega, List.getElem?_modify, if_true,
    List.getElem?_eq_getElem hp] at this
  have h1 := congrArg UInt8.toNat (Option.some.inj this)
  simp at h1
  omega

/-- What the reader should guarantee for an object that it takes over from `input`: its declared
sizes keep to the name array and to their records, its records keep to its window, and no byte
outside the window makes a difference. -/
structure Validated (env : Env) (m : List UInt8) (input len k : Nat) (o : StorageObject) : Prop where
  namesize_le : o.namesize.toNat ≤ maxObjNameLen
  name_le : o.namesize.toNat ≤ lastLength .objname (objectRecords m input len).1
  data_le : o.datasize.toNat ≤ lastLength .objdatabuf (objectRecords m input len).1
  records_le : ∀ r ∈ (objectRecords m input len).1, r.off + r.length.toNat ≤ windowSize m input
  independent : ∀ m', AgreeOn m m' input (windowSize m input) →
    ∃ k', tlvReadObject env m' input len k = .ok (windowSize m input, o, k')

theorem validated_iff_contained {env : Env} {m : List UInt8} {input len k k' : Nat} {src : Source}
    (hlen : len < 2 ^ 31) (hm : input + len ≤ m.length) (h : scanObject env m input len k = .ok (some (src, k'))) :
    Validated env m input len k (src.object m input) ↔ Contained m input len src := by
  constructor
  · intro hv
    refine ⟨hv.namesize_le, hv.name_le, hv.data_le, hv.records_le, fun f off n hf => ?_⟩
    obtain ⟨hw, -, -, hscan⟩ := scanObject_some h
    have hinv : src.Inv m input (windowSize m input) := by
      refine scanFields_inv hscan (fun r hr => ?_) nofun
      have := hv.records_le r hr
      omega
    obtain ⟨h1, h2, -⟩ := hinv f off n hf
    by_contra hout
    -- change the last byte of the range, which lies outside the window
    have ha : AgreeOn m (flip m (input + off + n - 1)) input (windowSize m input) :=
      agreeOn_flip (by omega)
    obtain ⟨hwin, hscan'⟩ := scanObject_agree h hv.records_le ha
    have hread := tlvReadObject_sim env hlen (ha.1.symm ▸ hm) k
    obtain ⟨k2, hread2⟩ := hv.independent _ ha
    obtain ⟨⟨ret, o, k3⟩, hread3, -, hobj, -⟩ := hread.ok_of hscan'
    rw [hread2] at hread3
    cases hread3
    have hbytes := bytes_eq_of_object_eq hinv ha.1 hobj.symm f
    simp only [bytes, hf] at hbytes
    exact slice_flip_ne (by omega) (by omega) (by omega) hbytes
  · intro hc
    refine ⟨hc.namesize_le, hc.name_le, hc.data_le, hc.records_le, fun m' ha => ⟨k', ?_⟩⟩
    obtain ⟨hwin, hscan'⟩ := scanObject_agree h hc.records_le ha
    obtain ⟨⟨ret, o, k2⟩, hread, h1, h2, h3⟩ :=
      (tlvReadObject_sim env hlen (ha.1.symm ▸ hm) k).ok_of hscan'
    have hobj : src.object m' input = src.object m input := by
      have hb : ∀ f, src.bytes m' input f = src.bytes m input f := fun f =>
        bytes_agree ha (hc.sources_le f)
      simp only [object, hb]
    rw [hread, h1, h2, h3, hwin, hobj]

end Amlogic.Unifykey
