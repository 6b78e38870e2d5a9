import Amlogic.Unifykey.Efuse

/-!
# What a write of an efuse key burns

Input without a colon is raw: it is burned if it has the key's size, with or without a newline
behind it, and rejected otherwise. Hexadecimal fields with colons between them are burned as the
bytes they stand for; the loop reads each field before it overwrites the text from the left.
-/

namespace Amlogic.Efuse

open Unifykey (CStr)

/-! ## Fields -/

structure Field where
  hi : UInt8
  lo : UInt8
  hi_digit : isDigit 16 hi = true
  lo_digit : isDigit 16 lo = true

def Field.value (f : Field) : UInt8 :=
  UInt8.ofNat (16 * (digitVal f.hi).getD 0 + (digitVal f.lo).getD 0)

def fieldsText : List Field → List UInt8
  | [] => []
  | [f] => [f.hi, f.lo]
  | f :: g :: fs => f.hi :: f.lo :: charColon :: fieldsText (g :: fs)

/-- What may follow the last field: the end of the string, or a newline and the end. -/
def EndsText (t : List UInt8) : Prop := (∃ r, t = 0 :: r) ∨ ∃ r, t = charNewline :: 0 :: r

theorem digitVal_of_isDigit {c : UInt8} (h : isDigit 16 c = true) : ∃ d, digitVal c = some d ∧ d < 16 := by
  unfold isDigit at h
  cases hd : digitVal c with
  | none => simp [hd] at h
  | some d => exact ⟨d, rfl, by simpa [hd] using h⟩

theorem isX_of_isDigit {c : UInt8} (h : isDigit 16 c = true) : isX c = false := by
  have h1 : c ≠ 0x78 := ne_of_isDigit h (by decide)
  have h2 : c ≠ 0x58 := ne_of_isDigit h (by decide)
  simp [isX, h1, h2]

namespace Field

variable (f : Field)

theorem value_lt : 16 * (digitVal f.hi).getD 0 + (digitVal f.lo).getD 0 < 2 ^ 8 := by
  obtain ⟨a, ha, hlta⟩ := digitVal_of_isDigit f.hi_digit
  obtain ⟨b, hb, hltb⟩ := digitVal_of_isDigit f.lo_digit
  rw [ha, hb]
  simp only [Option.getD_some]
  omega

theorem fixupRadix_text (r : List UInt8) :
    fixupRadix 16 (f.hi :: f.lo :: r) = .ok (16, f.hi :: f.lo :: r) := by
  unfold fixupRadix
  by_cases h0 : f.hi = 0x30 <;> simp [h0, isX_of_isDigit f.lo_digit]

theorem parseInteger_text {c : UInt8} (hc : isDigit 16 c = false) (r : List UInt8) :
    parseInteger 16 (f.hi :: f.lo :: c :: r) 0 0 =
      .ok (16 * (digitVal f.hi).getD 0 + (digitVal f.lo).getD 0, 2, c :: r) := by
  obtain ⟨a, ha, hlta⟩ := digitVal_of_isDigit f.hi_digit
  obtain ⟨b, hb, hltb⟩ := digitVal_of_isDigit f.lo_digit
  rw [parseInteger_digit ha hlta, parseInteger_digit hb hltb, parseInteger_stop hc, ha, hb]
  simp

theorem readField_inner (r : List UInt8) :
    readField false (f.hi :: f.lo :: charColon :: r) =
      .ok (.ok (16 * (digitVal f.hi).getD 0 + (digitVal f.lo).getD 0)) := by
  have hlt := f.value_lt
  have hscan := scanHex_of_digits f.hi_digit (f.fixupRadix_text (charColon :: r))
    (f.parseInteger_text (by decide) r) (by omega)
  have hmod : (16 * (digitVal f.hi).getD 0 + (digitVal f.lo).getD 0) % 2 ^ 32 =
      16 * (digitVal f.hi).getD 0 + (digitVal f.lo).getD 0 := Nat.mod_eq_of_lt (by omega)
  simp only [readField, hscan, Bool.false_eq_true, if_false, ok_bind, hmod, ok_pure]
  rw [if_neg (by omega)]

theorem readField_last {t : List UInt8} (ht : EndsText t) :
    readField true (f.hi :: f.lo :: t) =
      .ok (.ok (16 * (digitVal f.hi).getD 0 + (digitVal f.lo).getD 0)) := by
  have hplus : f.hi ≠ 0x2b := ne_of_isDigit f.hi_digit (by decide)
  have hparse : parseInteger 16 (f.hi :: f.lo :: t) 0 0 =
      .ok (16 * (digitVal f.hi).getD 0 + (digitVal f.lo).getD 0, 2, t) := by
    rcases ht with ⟨r, rfl⟩ | ⟨r, rfl⟩
    · exact f.parseInteger_text (by decide) r
    · exact f.parseInteger_text (by decide) (0 :: r)
  exact kstrtou_of_number (by omega) hplus (f.fixupRadix_text t) hparse (by omega) f.value_lt ht

end Field

/-! ## The loop -/

section Patch

variable {op : List UInt8} {v : UInt8} {i k : Nat}

theorem take_patch_succ (hi : i < op.length) : (patch op i [v]).take (i + 1) = op.take i ++ [v] := by
  unfold patch
  have hlen : (op.take i ++ [v]).length = i + 1 := by simp; omega
  rw [← hlen, List.take_left]

theorem drop_patch_of_lt (hk : i < k) (hi : i < op.length) : (patch op i [v]).drop k = op.drop k := by
  apply List.ext_getElem?
  intro j
  rw [List.getElem?_drop, List.getElem?_drop, patch_getElem? (by simpa using hi)]
  simp only [List.length_singleton]
  exact if_neg (by omega)

end Patch

theorem fieldsText_cons (f : Field) (fs : List Field) (t : List UInt8) :
    fieldsText (f :: fs) ++ t =
      f.hi :: f.lo :: (if fs = [] then t else charColon :: (fieldsText fs ++ t)) := by
  cases fs with
  | nil | cons g fs => simp [fieldsText]

theorem EndsText.head_ne_colon {t : List UInt8} (ht : EndsText t) :
    ∃ c r, t = c :: r ∧ c ≠ charColon := by
  rcases ht with ⟨r, rfl⟩ | ⟨r, rfl⟩
  · exact ⟨_, _, rfl, by decide⟩
  · exact ⟨_, _, rfl, by decide⟩

theorem readFields_text {fs : List Field} {t op : List UInt8} {i s : Nat} (ht : EndsText t) (his : i ≤ s)
    (htext : fs ≠ [] → op.drop s = fieldsText fs ++ t) (hi : i + fs.length ≤ op.length) :
    ∃ op', readFields fs.length i s op = .ok (.ok op') ∧
      op'.take (i + fs.length) = op.take i ++ fs.map Field.value := by
  induction fs generalizing i s op with
  | nil => exact ⟨op, rfl, by simp⟩
  | cons f fs ih =>
    have hdrop := htext (List.cons_ne_nil f fs)
    rw [fieldsText_cons] at hdrop
    have hilt : i < op.length := by
      simp only [List.length_cons] at hi
      omega
    have hdrop2 : ∀ v : UInt8, (patch op i [v]).drop (s + 2) =
        if fs = [] then t else charColon :: (fieldsText fs ++ t) := by
      intro v
      rw [drop_patch_of_lt (by omega) hilt, ← List.drop_drop, hdrop]
      rfl
    have hstore : store op i [f.value] = .ok (patch op i [f.value]) := store_of_le (by simpa using hilt)
    have hlen : (patch op i [f.value]).length = op.length := patch_length (by simpa using hilt)
    have hread : readField (fs.length = 0) (op.drop s) =
        .ok (.ok (16 * (digitVal f.hi).getD 0 + (digitVal f.lo).getD 0)) := by
      rw [hdrop]
      cases fs with
      | nil => exact f.readField_last ht
      | cons g fs => exact f.readField_inner _
    have hround : readFields (fs.length + 1) i s op =
        readFields fs.length (i + 1) (if fs = [] then s + 2 else s + 3) (patch op i [f.value]) := by
      rw [readFields, hread]
      simp only [ok_bind]
      rw [show UInt8.ofNat (16 * (digitVal f.hi).getD 0 + (digitVal f.lo).getD 0) = f.value from rfl, hstore]
      simp only [ok_bind, hdrop2]
      by_cases hfs : fs = []
      · obtain ⟨c, r, rfl, hc⟩ := ht.head_ne_colon
        simp [hfs, hc]
      · simp [hfs]
    obtain ⟨op', hrun, htake⟩ := ih (i := i + 1) (s := if fs = [] then s + 2 else s + 3)
      (by split_ifs <;> omega) (by
        intro hfs
        rw [if_neg hfs]
        have h3 := congrArg (List.drop 1) (hdrop2 f.value)
        rw [if_neg hfs, List.drop_drop] at h3
        simpa using h3) (by
        simp only [List.length_cons] at hi
        omega)
    refine ⟨op', hround.trans hrun, ?_⟩
    rw [List.length_cons, show i + (fs.length + 1) = i + 1 + fs.length by omega, htake,
      take_patch_succ hilt]
    simp

/-! ## The request -/

/-- The parts of the kernel the driver relies on work: memory is there, and the copy of the input is
shorter than the object it lies in. -/
structure Env.Works (env : Env) : Prop where
  kzalloc : env.kzalloc = true
  kmalloc : env.kmalloc = true
  slack : ∀ n, 0 < n → 0 < env.slack n

def hasColon (buf : List UInt8) : Bool := charColon ∈ buf.takeWhile (· ≠ 0)

section Store

variable {env : Env} {infos : List EfusekeyInfo} {name : CStr} {info : EfusekeyInfo} {buf : List UInt8}

def copyOf (env : Env) (buf : List UInt8) : List UInt8 := buf ++ List.replicate (env.slack buf.length) 0

section

variable (henv : env.Works)
include henv

theorem copyOf_eq_append_cons (hbuf : buf ≠ []) : ∃ k, copyOf env buf =
    buf ++ 0 :: List.replicate k 0 := by
  have hpos := henv.slack buf.length (List.length_pos_iff.mpr hbuf)
  refine ⟨env.slack buf.length - 1, ?_⟩
  rw [← List.replicate_succ, Nat.sub_add_cancel hpos]
  rfl

theorem strchr_copyOf (hbuf : buf ≠ []) :
    strchr charColon (copyOf env buf) = .ok (hasColon buf) := by
  obtain ⟨k, hk⟩ := copyOf_eq_append_cons henv hbuf
  have htake : ∀ l : List UInt8, (l ++ 0 :: List.replicate k 0).takeWhile (· ≠ 0) =
      l.takeWhile (· ≠ 0) := by
    intro l
    induction l with
    | nil => simp
    | cons c l ih =>
      rw [List.cons_append, List.takeWhile_cons, List.takeWhile_cons, ih]
  rw [hk, strchr_eq (by decide) (by simp), htake]
  rfl

theorem writeKey_burns {op data : List UInt8} (count : Nat)
    (hlen : info.size.toNat ≤ op.length) (hdata : op.take info.size.toNat = data) :
    ∃ out, writeKey env info op count = .ok out ∧ out.burned = some (info.offset.toNat, data) := by
  have hload : load op 0 info.size.toNat = .ok data := by
    rw [load_of_le (by omega), List.drop_zero, hdata]
  refine ⟨if (efuseWrite env data info.offset.toNat).ret < 0 then efuseWrite env data info.offset.toNat
    else { efuseWrite env data info.offset.toNat with ret := count }, ?_, ?_⟩
  · simp [writeKey, efuseWriteUsr, henv.kmalloc, hload]
  · split_ifs <;> rfl

section

variable (hinfo : efuseGetinfo infos name = some info)
include hinfo

theorem store_raw (hbuf : buf ≠ []) (hcolon : hasColon buf = false) :
    efuseUserAttrStore env infos name buf =
      if (buf.getLast hbuf ≠ charNewline ∧ buf.length ≠ info.size.toNat) ∨
          buf.length - 1 > info.size.toNat ∨ buf.length < info.size.toNat then
        .ok ⟨-22, none⟩
      else writeKey env info (copyOf env buf) buf.length := by
  have hlen : buf.length ≠ 0 := by simpa using hbuf
  have hlast : charAt (copyOf env buf) (buf.length - 1) = .ok (buf.getLast hbuf) := by
    unfold charAt copyOf
    rw [List.getElem?_append_left (by omega), ← List.getLast?_eq_getElem?,
      List.getLast?_eq_getLast_of_ne_nil hbuf]
  have hsearch := strchr_copyOf henv hbuf
  unfold copyOf at hsearch hlast
  unfold efuseUserAttrStore copyOf
  simp [hinfo, henv.kzalloc, hlen, hsearch, hcolon, hlast]

theorem store_text (hbuf : buf ≠ []) (hcolon : hasColon buf = true) {op : List UInt8}
    (hread : readFields info.size.toNat 0 0 (copyOf env buf) = .ok (.ok op)) :
    efuseUserAttrStore env infos name buf = writeKey env info op buf.length := by
  have hlen : buf.length ≠ 0 := by simpa using hbuf
  have hsearch := strchr_copyOf henv hbuf
  unfold copyOf at hsearch hread
  unfold efuseUserAttrStore
  simp [hinfo, henv.kzalloc, hlen, hsearch, hcolon, hread]

end

end

theorem hasColon_fieldsText (f g : Field) (fs : List Field) (t : List UInt8) :
    hasColon (fieldsText (f :: g :: fs) ++ t) = true := by
  have h1 : f.hi ≠ 0 := ne_of_isDigit f.hi_digit (by decide)
  have h2 : f.lo ≠ 0 := ne_of_isDigit f.lo_digit (by decide)
  have h3 : charColon ≠ 0 := by decide
  simp [hasColon, fieldsText, h1, h2, h3]

theorem length_le_fieldsText (fs : List Field) : fs.length ≤ (fieldsText fs).length := by
  induction fs with
  | nil => exact Nat.zero_le _
  | cons f fs ih =>
    cases fs with
    | nil => exact Nat.le_succ 1
    | cons g fs =>
      simp only [fieldsText, List.length_cons] at ih ⊢
      omega

theorem store_text_burns (henv : env.Works) (hinfo : efuseGetinfo infos name = some info)
    {fs : List Field} (hsize : fs.length = info.size.toNat) (htwo : 2 ≤ fs.length)
    (hform : buf = fieldsText fs ∨ buf = fieldsText fs ++ [charNewline]) :
    ∃ out, efuseUserAttrStore env infos name buf = .ok out ∧
      out.burned = some (info.offset.toNat, fs.map Field.value) := by
  obtain ⟨t, ht, hbuf⟩ : ∃ t, (t = [] ∨ t = [charNewline]) ∧ buf = fieldsText fs ++ t := by
    rcases hform with rfl | rfl
    · exact ⟨[], .inl rfl, (List.append_nil _).symm⟩
    · exact ⟨[charNewline], .inr rfl, rfl⟩
  obtain ⟨f, g, fs', rfl⟩ : ∃ f g fs', fs = f :: g :: fs' := by
    match fs, htwo with
    | f :: g :: fs', _ => exact ⟨f, g, fs', rfl⟩
  have hcolon : hasColon buf = true := hbuf ▸ hasColon_fieldsText f g fs' t
  have hne : buf ≠ [] := by
    rintro rfl
    exact Bool.noConfusion hcolon
  obtain ⟨k, hk⟩ := copyOf_eq_append_cons henv hne
  have hend : EndsText (t ++ 0 :: List.replicate k 0) := by
    rcases ht with rfl | rfl
    · exact .inl ⟨_, rfl⟩
    · exact .inr ⟨_, rfl⟩
  have hcopy : (copyOf env buf).drop 0 =
      fieldsText (f :: g :: fs') ++ (t ++ 0 :: List.replicate k 0) := by
    rw [List.drop_zero, hk, hbuf, List.append_assoc]
  have hroom : 0 + (f :: g :: fs').length ≤ (copyOf env buf).length := by
    have hle := length_le_fieldsText (f :: g :: fs')
    have hlen := congrArg List.length hcopy
    rw [List.drop_zero, List.length_append] at hlen
    omega
  obtain ⟨op, hread, htake⟩ := readFields_text hend (Nat.le_refl 0) (fun _ => hcopy) hroom
  rw [Nat.zero_add, hsize] at htake
  rw [hsize] at hread
  rw [store_text henv hinfo hne hcolon hread]
  refine writeKey_burns henv _ ?_ (by simpa using htake)
  have hlen := congrArg List.length htake
  simp only [List.length_take, List.take_zero, List.nil_append, List.length_map] at hlen
  omega

end Store

def plainEnv : Env := ⟨true, true, fun _ => 1, fun _ buf => (0, UInt32.ofNat buf.length)⟩

theorem plainEnv_works : plainEnv.Works := ⟨rfl, rfl, fun _ _ => Nat.one_pos⟩

def twoByteKey : EfusekeyInfo := ⟨⟨[0x6d], by decide⟩, 4, 2⟩

end Amlogic.Efuse
