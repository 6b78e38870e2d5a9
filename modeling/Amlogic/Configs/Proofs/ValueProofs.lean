import Amlogic.Configs.Value

/-!
# The text of a config entry read back

A printed number is digits only, so it reaches the right scan of the parser: `kstrtou32` for a plain
number, `sscanf` behind a sign or behind `0x`. Two formats do not come back: the parser does not take
`false`, and the 64-bit number behind a pointer is printed in base 16 without its prefix.
-/

namespace Amlogic.Configs

open Mconfig

variable {base n : Nat}

/-! ## Texts of digits -/

section Digits

variable {s : List UInt8}

theorem dropWhile_space_of_digits (hs : ∀ c ∈ s, isDigit 16 c = true) :
    s.dropWhile (· = charSpace) = s := by
  cases s with
  | nil => rfl
  | cons c s =>
    have hc : c ≠ charSpace := ne_of_isDigit (hs c List.mem_cons_self) (by decide)
    simp [hc]

theorem head_ne_of_digits (hs : ∀ c ∈ s, isDigit 16 c = true) {x : UInt8} (hx : isDigit 16 x = false) :
    s.head? ≠ some x := by
  intro h
  exact ne_of_isDigit (hs x (List.mem_of_mem_head? h)) hx rfl

theorem hasPair_of_digits (hs : ∀ c ∈ s, isDigit 16 c = true) : hasPair 0x30 0x78 s = false := by
  induction s with
  | nil => rfl
  | cons c s ih =>
    cases s with
    | nil => rfl
    | cons d s =>
      have hd : d ≠ 0x78 := ne_of_isDigit (hs d (by simp)) (by decide)
      have htail := ih fun e he => hs e (List.mem_cons_of_mem _ he)
      simp [hasPair, hd, htail]

end Digits

theorem isDigit_sixteen_of (hb : base ≤ 16) {c : UInt8} (h : isDigit base c = true) :
    isDigit 16 c = true := by
  unfold isDigit at h ⊢
  cases hd : digitVal c with
  | none => simp [hd] at h
  | some d =>
    rw [hd] at h
    have hlt : d < base := by simpa using h
    simpa using lt_of_lt_of_le hlt hb

theorem printNat_digits (h1 : 1 < base) (hb : base ≤ 16) (n : Nat) :
    ∀ c ∈ printNat base n, isDigit 16 c = true := fun c hc =>
  isDigit_sixteen_of hb ((isDigit_of_mem_printNat h1 hb n).2 c hc)

theorem printNat_length_pos (h1 : 1 < base) (hb : base ≤ 16) (n : Nat) :
    ¬ (printNat base n).length ≤ 0 := by
  have hne := (isDigit_of_mem_printNat h1 hb n).1
  rwa [Nat.le_zero, List.length_eq_zero_iff]

theorem printNat_head (h1 : 1 < base) (hb : base ≤ 16) (n : Nat) (t : List UInt8) :
    ∃ c r, printNat base n ++ t = c :: r ∧ isDigit base c = true := by
  obtain ⟨hne, hall⟩ := isDigit_of_mem_printNat h1 hb n
  cases hp : printNat base n with
  | nil => exact absurd hp hne
  | cons c r => exact ⟨c, r ++ t, rfl, hall c (hp ▸ List.mem_cons_self)⟩

/-! ## Numbers of 32 bits -/

theorem simpleStrtoull_printNat (hn : n < 2 ^ 64) :
    simpleStrtoull (printNat 10 n ++ [0]) 10 = .ok n := by
  obtain ⟨k, -, hparse⟩ := parseInteger_printNat (s := []) (c := 0) (by omega : 1 < 10) (by omega)
    (by decide) n
  obtain ⟨c, r, htext, -⟩ := printNat_head (by omega : 1 < 10) (by omega) n [0]
  have hfix : fixupRadix 10 (printNat 10 n ++ [0]) = .ok (10, printNat 10 n ++ [0]) := by
    rw [htext]
    rfl
  simpa [simpleStrtoull, hfix, hparse] using hn

theorem scanInt_printNat (hn : n < 2 ^ 64) :
    scanInt (printNat 10 n ++ [0]) = .ok (some (n : Int)) := by
  have hstr := simpleStrtoull_printNat hn
  obtain ⟨c, r, htext, hc⟩ := printNat_head (by omega : 1 < 10) (by omega) n [0]
  have hc16 := isDigit_sixteen_of (by omega) hc
  have hminus : c ≠ charMinus := ne_of_isDigit hc16 (by decide)
  rw [htext] at hstr ⊢
  simp [scanInt, skipSpaces_of_not (isSpace_of_isDigit hc16), hminus, hc, hstr]

theorem parser_u32_printNat (hn : n < 2 ^ 32) :
    configsParserValueU32 (printNat 10 n) = .ok (1, BitVec.ofNat 32 n) := by
  have hall := printNat_digits (by omega : 1 < 10) (by omega) n
  have hlen := printNat_length_pos (by omega : 1 < 10) (by omega) n
  have hminus := head_ne_of_digits hall (by decide : isDigit 16 charMinus = false)
  simp only [configsParserValueU32, parseValue, if_neg hlen, dropWhile_space_of_digits hall, if_neg hminus,
    hasPair_of_digits hall, kstrtou_printNat (by omega : 32 ≤ 64) hn, Bool.false_eq_true, if_false,
    ok_bind, ok_pure]

theorem parser_u32_minus (hn : n < 2 ^ 64) :
    configsParserValueU32 (charMinus :: printNat 10 n) = .ok (1, -BitVec.ofInt 32 n) := by
  have hdrop : (charMinus :: printNat 10 n).dropWhile (· = charSpace) = charMinus :: printNat 10 n := rfl
  simp [configsParserValueU32, parseValue, hdrop, scanInt_printNat hn]

theorem parser_u32_printInt (v : BitVec 32) : configsParserValueU32 (printInt v.toInt) = .ok (1, v) := by
  have hrange := v.le_toInt
  have hrange' := v.toInt_lt
  unfold printInt
  split_ifs with hneg
  · rw [parser_u32_minus (by omega)]
    have habs : ((v.toInt.natAbs : Nat) : Int) = -v.toInt := by omega
    rw [habs, BitVec.ofInt_neg, BitVec.ofInt_toInt, BitVec.neg_neg]
  · rw [parser_u32_printNat (by omega)]
    have habs : ((v.toInt.natAbs : Nat) : Int) = v.toInt := by omega
    have hv : BitVec.ofNat 32 v.toInt.natAbs = BitVec.ofInt 32 (v.toInt.natAbs : Nat) :=
      (BitVec.ofInt_ofNat ..).symm
    rw [hv, habs, BitVec.ofInt_toInt]

theorem parser_u32_printNat_toNat (v : BitVec 32) :
    configsParserValueU32 (printNat 10 v.toNat) = .ok (1, v) := by
  rw [parser_u32_printNat v.isLt, BitVec.ofNat_toNat, BitVec.setWidth_eq]

/-! ## Numbers of 64 bits -/

theorem scanHex_printNat (hn : n < 2 ^ 64) : scanHex (printNat 16 n ++ [0]) = .ok (some n) := by
  obtain ⟨k, -, hparse⟩ := parseInteger_printNat (s := []) (c := 0) (by omega : 1 < 16) (le_refl _)
    (by decide) n
  by_cases h0 : n = 0
  · subst h0
    rfl
  · obtain ⟨d, ds, htext, hd, hlt, -⟩ := printNat_eq_cons (by omega : 1 < 16) h0
    have hd16 : d < 16 := hlt d List.mem_cons_self
    have hfix : ∀ s, fixupRadix 16 (digitChar d :: s) = .ok (16, digitChar d :: s) := by
      intro s
      simp [fixupRadix, digitChar_ne_zero hd hd16]
    rw [htext] at hparse ⊢
    exact scanHex_of_digits (isDigit_digitChar hd16 (le_refl _)) (hfix _) hparse hn

theorem parser_u64_hex (v : BitVec 64) :
    configsParserValueU64 (text0x ++ printNat 16 v.toNat) = .ok (1, v) := by
  have hlit : scanLiteral text0x (text0x ++ printNat 16 v.toNat ++ [0]) =
      .ok (some (printNat 16 v.toNat ++ [0])) := rfl
  have hdrop : (text0x ++ printNat 16 v.toNat).dropWhile (· = charSpace) =
      text0x ++ printNat 16 v.toNat := rfl
  have hpair : hasPair 0x30 0x78 (text0x ++ printNat 16 v.toNat) = true := by
    simp [text0x, hasPair]
  have hlen : ¬ (text0x ++ printNat 16 v.toNat).length ≤ 0 := Nat.not_succ_le_zero _
  have hminus : (text0x ++ printNat 16 v.toNat).head? ≠ some charMinus := by
    show some (0x30 : UInt8) ≠ some charMinus
    decide
  simp only [configsParserValueU64, parseValue, if_neg hlen, hdrop, if_neg hminus, hpair, if_true, hlit, ok_bind,
    scanHex_printNat v.isLt, ok_pure, BitVec.ofNat_toNat, BitVec.setWidth_eq]

theorem parser_u64_printNat_iff (h1 : 1 < base) (hb : base ≤ 16) {v : BitVec 64} :
    (∃ ret, 0 < ret ∧ configsParserValueU64 (printNat base n) = .ok (ret, v)) ↔
      kstrtou 64 (printNat base n ++ [0]) 0 = .ok (.ok v.toNat) := by
  have hall := printNat_digits h1 hb n
  have hlen := printNat_length_pos h1 hb n
  have hminus := head_ne_of_digits hall (by decide : isDigit 16 charMinus = false)
  simp only [configsParserValueU64, parseValue, if_neg hlen, dropWhile_space_of_digits hall, if_neg hminus,
    hasPair_of_digits hall, Bool.false_eq_true, if_false]
  cases hk : kstrtou 64 (printNat base n ++ [0]) 0 with
  | error f =>
    refine iff_of_false ?_ (by simp)
    rintro ⟨ret, -, hparse⟩
    cases hparse
  | ok r =>
    rcases kstrtou_result hk with ⟨e, rfl, he⟩ | ⟨w, rfl, hw⟩
    · refine iff_of_false ?_ (by simp)
      rintro ⟨ret, hret, hparse⟩
      cases hparse
      omega
    · simp only [ok_bind, ok_pure, Except.ok.injEq, Prod.mk.injEq]
      constructor
      · rintro ⟨ret, -, -, rfl⟩
        rw [BitVec.toNat_ofNat, Nat.mod_eq_of_lt hw]
      · rintro rfl
        exact ⟨1, by decide, rfl, by simp⟩

theorem printNat_single (hn : n < 10) : printNat 16 n = printNat 10 n := by
  have hall : ∀ n : Fin 10, printNat 16 n = printNat 10 n := by decide
  exact hall ⟨n, hn⟩

theorem isDigit_ten_digitChar {d : Nat} (hd : d < 16) : isDigit 10 (digitChar d) = decide (d < 10) := by
  have hall : ∀ d : Fin 16, isDigit 10 (digitChar d) = decide (d.val < 10) := by decide
  exact hall ⟨d, hd⟩

theorem parseInteger_ten {ds : List Nat} (hds : ∀ d ∈ ds, d < 16) (acc n : Nat) :
    (∃ k, parseInteger 10 (ds.map digitChar ++ [0]) acc n = .ok (digitsValue 10 acc ds, k, [0])) ∨
      ∃ val k d r, 10 ≤ d ∧ d < 16 ∧
        parseInteger 10 (ds.map digitChar ++ [0]) acc n = .ok (val, k, digitChar d :: r) := by
  induction ds generalizing acc n with
  | nil => exact .inl ⟨n, rfl⟩
  | cons d ds ih =>
    have hd : d < 16 := hds d List.mem_cons_self
    rw [List.map_cons, List.cons_append]
    by_cases h10 : d < 10
    · rw [parseInteger_digit (digitVal_digitChar hd) h10]
      exact ih (fun e he => hds e (List.mem_cons_of_mem _ he)) _ _
    · refine .inr ⟨acc, n, d, _, by omega, hd, parseInteger_stop ?_ acc n⟩
      rw [isDigit_ten_digitChar hd, decide_eq_false h10]

theorem digitChar_letter {d : Nat} (h10 : 10 ≤ d) (hd : d < 16) :
    digitChar d ≠ charNewline ∧ digitChar d ≠ 0 := by
  have hall : ∀ d : Fin 16, 10 ≤ d.val → digitChar d ≠ charNewline ∧ digitChar d ≠ 0 := by decide
  exact hall ⟨d, hd⟩ h10

theorem kstrtou_printNat_sixteen (hn : 10 ≤ n) :
    kstrtou 64 (printNat 16 n ++ [0]) 0 ≠ .ok (.ok n) := by
  obtain ⟨d, ds, htext, hd, hlt, hval⟩ := printNat_eq_cons (by omega : 1 < 16) (by omega : n ≠ 0)
  have hd16 : d < 16 := hlt d List.mem_cons_self
  have hplus : digitChar d ≠ 0x2b := ne_of_isDigit (isDigit_digitChar hd16 (le_refl _)) (by decide)
  have hfix : ∀ s, fixupRadix 0 (digitChar d :: s) = .ok (10, digitChar d :: s) := fun s =>
    fixupRadix_zero_of_ne (digitChar_ne_zero hd hd16)
  rw [htext]
  intro hread
  rcases parseInteger_ten hlt 0 0 with ⟨k, hparse⟩ | ⟨val, k, e, r, h10, he, hparse⟩
  · -- read to the end: in base 10 the same digits are a smaller number
    obtain ⟨heq, -⟩ := eq_of_kstrtou_eq_ok hplus (hfix _) hparse hread
    cases ds with
    | nil =>
      have hten : d < 10 := by
        by_contra hge
        have hletter : isDigit 10 (digitChar d) = false := by
          rw [isDigit_ten_digitChar hd16, decide_eq_false hge]
        rw [show ([d].map digitChar ++ [0]) = [digitChar d, 0] from rfl, parseInteger_stop hletter] at hparse
        simp at hparse
      have hone : digitsValue 16 0 [d] = d := by simp [digitsValue]
      omega
    | cons e es =>
      have hless := digitsValue_lt (by omega : 10 ≤ 16)
        (by omega : 10 * (10 * 0 + d) + e < 16 * (16 * 0 + d) + e) es (by omega)
      have hten : digitsValue 10 0 (d :: e :: es) = digitsValue 10 (10 * (10 * 0 + d) + e) es := rfl
      have hsixteen : digitsValue 16 0 (d :: e :: es) = digitsValue 16 (16 * (16 * 0 + d) + e) es := rfl
      omega
  · obtain ⟨-, hend⟩ := eq_of_kstrtou_eq_ok hplus (hfix _) hparse hread
    obtain ⟨hnl, hnz⟩ := digitChar_letter h10 he
    exact hend.elim hnz hnl

/-! ## Entries -/

def ConfigType.isScalar : ConfigType → Bool
  | .pi32 | .pu32 | .pu64 | .pbool | .i32 | .u32 | .u64 | .bool => true
  | .pstr | .pcstr | .func | .other => false

def Mconfig.value (c : Mconfig) : BitVec 64 :=
  match c.type with
  | .pi32 | .pu32 => c.pu32val.setWidth 64
  | .pu64 => c.object
  | .pbool => if c.pboolval then 1 else 0
  | .i32 | .u32 => c.u32val.setWidth 64
  | .u64 => c.data
  | .bool => if c.boolval then 1 else 0
  | .pstr | .pcstr | .func | .other => 0

/-- Storing the text succeeds and leaves the value as it is. -/
def ReadsBack (c : Mconfig) (text : List UInt8) : Prop :=
  ∃ ret c', configsStr2config c text = .ok (ret, c') ∧ 0 < ret ∧ c'.value = c.value

/-- The values whose text is taken: true for a boolean, a single digit behind a pointer to 64 bits,
and everything else. -/
def Mconfig.Plain (c : Mconfig) : Prop :=
  match c.type with
  | .pbool | .bool => c.value ≠ 0
  | .pu64 => c.value.toNat < 10
  | _ => True

@[simp] theorem setWidth_setLow32 (x : BitVec 64) (v : BitVec 32) : (setLow32 x v).setWidth 32 = v :=
  BitVec.setWidth_append_eq_right

@[simp] theorem setWidth_setLowBool (x : BitVec 64) (b : Bool) :
    (setLowBool x b).setWidth 8 = if b then 1 else 0 := BitVec.setWidth_append_eq_right

theorem configsConfig2str_text {c : Mconfig} (hscalar : c.type.isScalar = true) {size : Int}
    (hfits : (configText c).length < size) : (configsConfig2str c size).2 = configText c := by
  have hprint : printConfig c size.toNat = snprintf size.toNat (configText c) := by
    unfold printConfig
    cases ht : c.type <;> first | rfl | (rw [ht] at hscalar; exact Bool.noConfusion hscalar)
  have htake : (configText c).take (size.toNat - 1) = configText c := List.take_of_length_le (by omega)
  have hone : ¬ size < 1 := by omega
  have hlen : ¬ ((configText c).length : Int) ≥ size := by omega
  simp only [configsConfig2str, hprint, snprintf, htake, if_neg hone, if_neg hlen]
  split_ifs <;> rfl

section Types

variable {c : Mconfig}

theorem str2config_object32 (ht : c.type = .pi32 ∨ c.type = .pu32)
    (hparse : configsParserValueU32 (configText c) = .ok (1, c.pu32val)) (hne : configText c ≠ []) :
    ReadsBack c (configText c) := by
  have hlen : ¬ (configText c).length ≤ 0 := by simpa using hne
  refine ⟨1, { c with object := setLow32 c.object c.pu32val }, ?_, by decide, ?_⟩
  · rcases ht with ht | ht <;> simp [configsStr2config, ht, hlen, hparse]
  · rcases ht with ht | ht <;> simp [value, pu32val, ht]

theorem str2config_data32 (ht : c.type = .i32 ∨ c.type = .u32)
    (hparse : configsParserValueU32 (configText c) = .ok (1, c.u32val)) (hne : configText c ≠ []) :
    ReadsBack c (configText c) := by
  have hlen : ¬ (configText c).length ≤ 0 := by simpa using hne
  refine ⟨1, { c with data := setLow32 c.data c.u32val }, ?_, by decide, ?_⟩
  · rcases ht with ht | ht <;> simp [configsStr2config, ht, hlen, hparse]
  · rcases ht with ht | ht <;> simp [value, u32val, ht]

theorem printInt_ne_nil (n : Int) : printInt n ≠ [] := by
  unfold printInt
  split_ifs
  · exact List.cons_ne_nil _ _
  · exact (isDigit_of_mem_printNat (by omega) (by omega) _).1

theorem configsParserValueBool_boolText (b : Bool) :
    configsParserValueBool (boolText b) = if b then (1, true) else (0, false) := by
  cases b <;> decide

theorem readsBack_pbool (ht : c.type = .pbool) : ReadsBack c (configText c) ↔ c.value ≠ 0 := by
  have htext : configText c = boolText c.pboolval := by simp [configText, ht]
  have hlen : ¬ (boolText c.pboolval).length ≤ 0 := by cases c.pboolval <;> decide
  have hvalue : c.value = if c.pboolval then 1 else 0 := by simp [value, ht]
  unfold ReadsBack
  rw [htext, hvalue]
  cases hb : c.pboolval with
  | true =>
    rw [hb] at hlen
    refine iff_of_true ⟨1, { c with object := setLowBool c.object true }, ?_, by decide, ?_⟩ (by decide)
    · simp [configsStr2config, ht, hlen, configsParserValueBool_boolText]
    · simp [value, pboolval, ht]
  | false =>
    rw [hb] at hlen
    refine iff_of_false ?_ (by decide)
    rintro ⟨ret, c', hrun, hret, -⟩
    simp only [configsStr2config, if_neg hlen, ht, configsParserValueBool_boolText, Bool.false_eq_true,
      if_false, ok_pure, Except.ok.injEq, Prod.mk.injEq] at hrun
    omega

theorem readsBack_bool (ht : c.type = .bool) : ReadsBack c (configText c) ↔ c.value ≠ 0 := by
  have htext : configText c = boolText (c.data ≠ 0) := by simp [configText, ht]
  have hvalue : c.value = if c.boolval then 1 else 0 := by simp [value, ht]
  have hlen : ∀ b, ¬ (boolText b).length ≤ 0 := by decide
  unfold ReadsBack
  rw [htext, hvalue]
  by_cases hd : c.data = 0
  · -- the text is `false`, which the parser does not take
    have hb : c.boolval = false := by simp [boolval, hd]
    rw [hb]
    refine iff_of_false ?_ (by decide)
    rintro ⟨ret, c', hrun, hret, -⟩
    simp only [configsStr2config, if_neg (hlen _), ht, configsParserValueBool_boolText, hd, ne_eq,
      not_true_eq_false, decide_false, Bool.false_eq_true, if_false, ok_pure, Except.ok.injEq,
      Prod.mk.injEq] at hrun
    omega
  · -- the text is `true`, whatever the boolean is
    have hrun : configsStr2config c (boolText (c.data ≠ 0)) =
        .ok (1, { c with data := setLowBool c.data true }) := by
      have htrue : decide (c.data ≠ 0) = true := decide_eq_true hd
      rw [htrue]
      simp [configsStr2config, ht, hlen, configsParserValueBool_boolText]
    have hafter : ({ c with data := setLowBool c.data true } : Mconfig).value = 1 := by
      simp [value, boolval, ht]
    constructor
    · rintro ⟨ret, c', hrun', -, hval⟩
      rw [hrun] at hrun'
      cases hrun'
      rw [← hval, hafter]
      decide
    · intro hne
      refine ⟨1, _, hrun, by decide, ?_⟩
      rw [hafter]
      cases hb : c.boolval with
      | true => rfl
      | false => exact absurd (by rw [hb]; rfl) hne

theorem readsBack_u64 (ht : c.type = .u64) : ReadsBack c (configText c) := by
  have htext : configText c = text0x ++ printNat 16 c.data.toNat := by simp [configText, ht]
  have hlen : ¬ (text0x ++ printNat 16 c.data.toNat).length ≤ 0 := Nat.not_succ_le_zero _
  refine ⟨1, c, ?_, by decide, rfl⟩
  rw [htext]
  simp only [configsStr2config, if_neg hlen, ht, parser_u64_hex, ok_bind, ok_pure]
  rw [if_pos (by decide), ← ht]

theorem readsBack_pu64 (ht : c.type = .pu64) : ReadsBack c (configText c) ↔ c.value.toNat < 10 := by
  have htext : configText c = printNat 16 c.object.toNat := by simp [configText, ht]
  have hvalue : c.value = c.object := by simp [value, ht]
  have hlen := printNat_length_pos (by omega : 1 < 16) (le_refl _) c.object.toNat
  have hparse := parser_u64_printNat_iff (n := c.object.toNat) (by omega : 1 < 16) (le_refl _)
    (v := c.object)
  unfold ReadsBack
  rw [htext, hvalue]
  constructor
  · rintro ⟨ret, c', hrun, hret, hval⟩
    simp only [configsStr2config, if_neg hlen, ht] at hrun
    obtain ⟨⟨ret', val⟩, hread, hrest⟩ := bind_eq_ok hrun
    cases hrest
    rw [if_pos hret] at hval
    have hval' : val = c.object := by simpa [value, ht] using hval
    by_contra hge
    exact kstrtou_printNat_sixteen (Nat.not_lt.mp hge) (hparse.mp ⟨_, hret, hval' ▸ hread⟩)
  · intro hlt
    have hk : kstrtou 64 (printNat 16 c.object.toNat ++ [0]) 0 = .ok (.ok c.object.toNat) := by
      rw [printNat_single hlt]
      exact kstrtou_printNat (le_refl _) c.object.isLt
    obtain ⟨ret, hret, hread⟩ := hparse.mpr hk
    refine ⟨ret, c, ?_, hret, hvalue⟩
    simp only [configsStr2config, if_neg hlen, ht, hread, ok_bind, ok_pure]
    rw [if_pos hret, ← ht]

/-- An entry takes back the text it prints iff its value is plain. -/
theorem text_reads_back_iff (c : Mconfig) (hscalar : c.type.isScalar = true) (size : Int)
    (hfits : (configText c).length < size) : ReadsBack c (configsConfig2str c size).2 ↔ c.Plain := by
  rw [configsConfig2str_text hscalar hfits]
  unfold Mconfig.Plain
  cases ht : c.type with
  | pbool => exact readsBack_pbool ht
  | bool => exact readsBack_bool ht
  | pu64 => exact readsBack_pu64 ht
  | u64 => exact iff_of_true (readsBack_u64 ht) trivial
  | pi32 =>
    have htext : configText c = printNat 10 c.pu32val.toNat := by simp [configText, ht]
    refine iff_of_true (str2config_object32 (.inl ht) ?_ ?_) trivial
    · rw [htext, parser_u32_printNat_toNat]
    · rw [htext]
      exact (isDigit_of_mem_printNat (by omega) (by omega) _).1
  | pu32 =>
    have htext : configText c = printInt c.pu32val.toInt := by simp [configText, ht]
    refine iff_of_true (str2config_object32 (.inr ht) ?_ ?_) trivial
    · rw [htext, parser_u32_printInt]
    · rw [htext]
      exact printInt_ne_nil _
  | i32 =>
    have htext : configText c = printInt c.u32val.toInt := by simp [configText, ht]
    refine iff_of_true (str2config_data32 (.inl ht) ?_ ?_) trivial
    · rw [htext, parser_u32_printInt]
    · rw [htext]
      exact printInt_ne_nil _
  | u32 =>
    have htext : configText c = printNat 10 c.u32val.toNat := by simp [configText, ht]
    refine iff_of_true (str2config_data32 (.inr ht) ?_ ?_) trivial
    · rw [htext, parser_u32_printNat_toNat]
    · rw [htext]
      exact (isDigit_of_mem_printNat (by omega) (by omega) _).1
  | pstr | pcstr | func | other =>
    rw [ht] at hscalar
    exact Bool.noConfusion hscalar

end Types

def minusSeven : Mconfig := { type := .i32, itemName := [0x61], data := 0xfffffff9 }

theorem text_reads_back_iff_minusSeven :
    configText minusSeven = [charMinus, 0x37] ∧
      (ReadsBack minusSeven (configsConfig2str minusSeven 16).2 ↔ minusSeven.Plain) :=
  ⟨by decide, text_reads_back_iff minusSeven rfl 16 (by decide)⟩

/-- The text of a boolean that is false is not taken. -/
theorem text_not_read_back :
    ¬ ∀ (c : Mconfig) (size : Int), c.type.isScalar = true → (configText c).length < size →
      ReadsBack c (configsConfig2str c size).2 := by
  intro hall
  have hread := hall { type := .pbool, itemName := [0x61], data := 8 } 16 rfl (by decide)
  rw [configsConfig2str_text rfl (by decide), readsBack_pbool rfl] at hread
  exact hread (by decide)

/-! ## Numbers set and got -/

def ConfigType.intSize : ConfigType → Option Int
  | .pi32 | .pu32 | .i32 | .u32 => some 4
  | .pu64 | .u64 => some 8
  | _ => none

/-- A number that is set is there when it is got. -/
def SetGetLaw (c : Mconfig) (size : Int) (v u : UserVal) : Prop :=
  ∃ c' u', configsSetgetConfigValue c (some v) none size true = (size, c', none) ∧
    configsSetgetConfigValue c' none (some u) size false = (size, c', some u') ∧
    u'.num.setWidth (8 * size.toNat) = v.num.setWidth (8 * size.toNat)

/-- The union of an entry that is not a pointer is not zero before and after a number is stored there. -/
def Mconfig.StaysNonzero (c : Mconfig) (v : UserVal) : Prop :=
  match c.type with
  | .i32 | .u32 => c.data ≠ 0 ∧ (c.data.extractLsb' 32 32 ≠ 0 ∨ v.num.setWidth 32 ≠ 0)
  | .u64 => c.data ≠ 0 ∧ v.num ≠ 0
  | _ => True

theorem setLow32_eq_zero {x : BitVec 64} {w : BitVec 32} : setLow32 x w = 0 ↔ x.extractLsb' 32 32 = 0 ∧ w = 0 := by
  constructor
  · intro h
    have hhigh : (setLow32 x w).extractLsb' 32 32 = x.extractLsb' 32 32 := BitVec.extractLsb'_append_eq_left
    exact ⟨by rw [← hhigh, h]; rfl, by rw [← setWidth_setLow32 x w, h]; rfl⟩
  · rintro ⟨hx, rfl⟩
    rw [setLow32, hx]
    rfl

def Mconfig.stored (c : Mconfig) (x : BitVec 64) : Mconfig :=
  match c.type with
  | .pi32 | .pu32 => { c with object := setLow32 c.object (x.setWidth 32) }
  | .pu64 => { c with object := x }
  | .i32 | .u32 => { c with data := setLow32 c.data (x.setWidth 32) }
  | .u64 => { c with data := x }
  | _ => c

theorem setget_of_zero {c : Mconfig} (h : c.data = 0) (valSet valGet : Option UserVal) (size : Int) (set : Bool) :
    configsSetgetConfigValue c valSet valGet size set = (-1, c, valGet) := by
  simp [configsSetgetConfigValue, h]

section Numbers

variable {c : Mconfig} {size : Int} (hsize : c.type.intSize = some size)
include hsize

theorem set_number (h : c.data ≠ 0) (v : UserVal) :
    configsSetgetConfigValue c (some v) none size true = (size, c.stored v.num, none) := by
  unfold configsSetgetConfigValue stored
  rw [if_neg h]
  cases ht : c.type <;> rw [ht] at hsize <;> cases hsize <;> rfl

theorem get_number {x : BitVec 64} (h : (c.stored x).data ≠ 0) (u : UserVal) :
    ∃ u', configsSetgetConfigValue (c.stored x) none (some u) size false = (size, c.stored x, some u') ∧
      u'.num.setWidth (8 * size.toNat) = x.setWidth (8 * size.toNat) := by
  unfold configsSetgetConfigValue
  rw [if_neg h]
  obtain ⟨type, itemName, data, object, str, fGet, fSet, bytes⟩ := c
  cases type <;> cases hsize <;> refine ⟨_, rfl, ?_⟩
  case pu64 | u64 => rfl
  all_goals exact (setWidth_setLow32 _ _).trans (setWidth_setLow32 _ _)

/-- A number is got as it was set just if no null pointer is taken from the union of a direct entry. -/
theorem number_reads_back_iff (hptr : c.type = .pi32 ∨ c.type = .pu32 ∨ c.type = .pu64 → c.data ≠ 0)
    (v u : UserVal) : SetGetLaw c size v u ↔ c.StaysNonzero v := by
  have hstays : c.StaysNonzero v ↔ c.data ≠ 0 ∧ (c.stored v.num).data ≠ 0 := by
    obtain ⟨type, itemName, data, object, str, fGet, fSet, bytes⟩ := c
    cases type <;> cases hsize
    case i32 | u32 => exact and_congr_right fun _ => not_and_or.symm.trans (not_congr setLow32_eq_zero.symm)
    case u64 => exact Iff.rfl
    all_goals
      have h0 := hptr (by simp)
      exact iff_of_true trivial ⟨h0, h0⟩
  have hneg : -1 ≠ size := by
    rintro rfl
    cases ht : c.type <;> rw [ht] at hsize <;> cases hsize
  rw [hstays]
  constructor
  · rintro ⟨c', u', hset, hget, -⟩
    have h0 : c.data ≠ 0 := by
      intro h0
      rw [setget_of_zero h0] at hset
      exact hneg (Prod.mk.inj hset).1
    obtain rfl : c.stored v.num = c' := by simpa [set_number hsize h0] using hset
    refine ⟨h0, fun h1 => ?_⟩
    rw [setget_of_zero h1] at hget
    exact hneg (Prod.mk.inj hget).1
  · rintro ⟨h0, h1⟩
    obtain ⟨u', hget, heq⟩ := get_number hsize h1 u
    exact ⟨_, u', set_number hsize h0 v, hget, heq⟩

end Numbers

/-- An entry of 64 bits goes from 5 to 7. -/
theorem number_reads_back_iff_seven : SetGetLaw { type := .u64, itemName := [0x61], data := 5 } 8 { num := 7 } {} :=
  (number_reads_back_iff rfl (by decide) { num := 7 } {}).mpr ⟨by decide, by decide⟩

/-- An entry that is 0 cannot be set, and one that has been set to 0 cannot be got. -/
theorem number_not_read_back :
    ¬SetGetLaw { type := .u32, itemName := [0x61], data := 0 } 4 { num := 7 } {} ∧
      ¬SetGetLaw { type := .u32, itemName := [0x61], data := 7 } 4 { num := 0 } {} := by
  constructor
  · rintro ⟨c', u', hset, -⟩
    rw [setget_of_zero rfl] at hset
    cases hset
  · rintro ⟨c', u', hset, hget, -⟩
    rw [set_number rfl (by decide)] at hset
    cases hset
    rw [setget_of_zero (by decide)] at hget
    cases hget

/-! ## Every text has a result -/

theorem mem_append_terminator (s : List UInt8) : (0 : UInt8) ∈ s ++ [0] :=
  List.mem_append_right s List.mem_cons_self

theorem parseValue_total (w : Nat) (neg : Int → BitVec w) (str : List UInt8) :
    ∃ r, parseValue w neg str = .ok r := by
  unfold parseValue
  split_ifs with hlen
  · exact ⟨_, rfl⟩
  generalize str.dropWhile (· = charSpace) = pstr
  dsimp only
  split_ifs with hminus hpair
  · obtain ⟨r, hr⟩ := scanInt_total (mem_append_terminator (pstr.drop 1))
    rw [hr, ok_bind]
    cases r <;> exact ⟨_, rfl⟩
  · rcases scanLiteral_total (by decide : 0 ∉ text0x) (mem_append_terminator pstr) with hl | ⟨rest, hl, hrest⟩
    · rw [hl]
      exact ⟨_, rfl⟩
    · obtain ⟨r, hr⟩ := scanHex_total hrest
      rw [hl, ok_bind]
      dsimp only
      rw [hr, ok_bind]
      cases r <;> exact ⟨_, rfl⟩
  · obtain ⟨r, hr⟩ := kstrtou_total w 0 (mem_append_terminator pstr)
    rw [hr, ok_bind]
    cases r <;> exact ⟨_, rfl⟩

theorem configsStr2config_total (c : Mconfig) (str : List UInt8) : ∃ r, configsStr2config c str = .ok r := by
  obtain ⟨r32, h32⟩ := parseValue_total 32 (fun val => -BitVec.ofInt 32 val) str
  obtain ⟨r64, h64⟩ := parseValue_total 64 (fun val => (-BitVec.ofInt 32 val).signExtend 64) str
  unfold configsStr2config configsParserValueU32 configsParserValueU64
  rw [h32, h64]
  split_ifs
  · exact ⟨_, rfl⟩
  cases c.type with
  | func =>
    cases c.fSet with
    | none | some f => exact ⟨_, rfl⟩
  | _ => exact ⟨_, rfl⟩

end Amlogic.Configs
