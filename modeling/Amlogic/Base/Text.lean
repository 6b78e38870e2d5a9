import Amlogic.Base.Bytes
import Mathlib.Data.Nat.Digits.Lemmas

/-!
# Numbers as text

The kernel's conversions between numbers and text. A string is the memory it starts at: it goes on
to its first zero byte, and a scan that runs off the end of the memory is a fault.
-/

namespace Amlogic

def charColon : UInt8 := 0x3a
def charNewline : UInt8 := 0x0a
def charMinus : UInt8 := 0x2d
def charSpace : UInt8 := 0x20

def charAt (s : List UInt8) (i : Nat) : Except Fault UInt8 :=
  match s[i]? with
  | some c => .ok c
  | none => .error .access

/-! ## Reading numbers -/

def digitVal (c : UInt8) : Option Nat :=
  if 0x30 ≤ c.toNat ∧ c.toNat ≤ 0x39 then some (c.toNat - 0x30)
  else if 0x61 ≤ c.toNat ∧ c.toNat ≤ 0x66 then some (c.toNat - 0x57)
  else if 0x41 ≤ c.toNat ∧ c.toNat ≤ 0x46 then some (c.toNat - 0x37)
  else none

def isDigit (base : Nat) (c : UInt8) : Bool := (digitVal c).any (· < base)

/-- `_parse_integer`: the value of the digits at the start of a string, their number, and the string
behind them. -/
def parseInteger (base : Nat) : List UInt8 → Nat → Nat → Except Fault (Nat × Nat × List UInt8)
  | [], _, _ => .error .access
  | c :: s, acc, n =>
    match digitVal c with
    | some d => if d < base then parseInteger base s (base * acc + d) (n + 1) else .ok (acc, n, c :: s)
    | none => .ok (acc, n, c :: s)

def isX (c : UInt8) : Bool := c = 0x78 || c = 0x58

/-- `_parse_integer_fixup_radix`: the base, which base 0 leaves to the text, and the string that
starts with the digits. -/
def fixupRadix (base : Nat) (s : List UInt8) : Except Fault (Nat × List UInt8) := do
  let c0 ← charAt s 0
  let base ←
    if base ≠ 0 then pure base
    else if c0 ≠ 0x30 then pure 10
    else do
      let c1 ← charAt s 1
      if isX c1 then do
        let c2 ← charAt s 2
        pure (if isDigit 16 c2 then 16 else 8)
      else pure 8
  if base = 16 ∧ c0 = 0x30 then do
    let c1 ← charAt s 1
    pure (base, if isX c1 then s.drop 2 else s)
  else pure (base, s)

/-- `kstrtoull`: the whole string, up to one newline, is a number. -/
def kstrtoull (s : List UInt8) (base : Nat) : Except Fault (Except Int Nat) := do
  let c ← charAt s 0
  let s := if c = 0x2b then s.drop 1 else s
  let (base, s) ← fixupRadix base s
  let (val, n, rest) ← parseInteger base s 0 0
  if 2 ^ 64 ≤ val then return .error (-34)
  if n = 0 then return .error (-22)
  let c ← charAt rest 0
  let rest := if c = charNewline then rest.drop 1 else rest
  let c ← charAt rest 0
  if c ≠ 0 then return .error (-22)
  return .ok val

/-- `kstrtou8`, `kstrtou32` and `kstrtou64`. -/
def kstrtou (bits : Nat) (s : List UInt8) (base : Nat) : Except Fault (Except Int Nat) := do
  match ← kstrtoull s base with
  | .error e => return .error e
  | .ok val => return if 2 ^ bits ≤ val then .error (-34) else .ok val

def isSpace (c : UInt8) : Bool := c = charSpace || (0x09 ≤ c.toNat && c.toNat ≤ 0x0d) || c = 0xa0

def skipSpaces : List UInt8 → Except Fault (List UInt8)
  | [] => .error .access
  | c :: s => if isSpace c then skipSpaces s else .ok (c :: s)

/-- `simple_strtoull`, which drops what does not fit into 64 bits. -/
def simpleStrtoull (s : List UInt8) (base : Nat) : Except Fault Nat := do
  let (base, s) ← fixupRadix base s
  let (val, _, _) ← parseInteger base s 0 0
  return val % 2 ^ 64

/-- The conversion `%x` of `sscanf`; without a number in the text there is no result. -/
def scanHex (s : List UInt8) : Except Fault (Option Nat) := do
  let s ← skipSpaces s
  let c ← charAt s 0
  if isDigit 16 c then
    return some (← simpleStrtoull s 16)
  else
    return none

def scanInt (s : List UInt8) : Except Fault (Option Int) := do
  let s ← skipSpaces s
  let c ← charAt s 0
  let digit ← if c = charMinus then charAt s 1 else pure c
  if isDigit 10 digit then
    if c = charMinus then
      return some (-((← simpleStrtoull (s.drop 1) 10 : Nat) : Int))
    else
      return some ((← simpleStrtoull s 10 : Nat) : Int)
  else
    return none

def scanLiteral : List UInt8 → List UInt8 → Except Fault (Option (List UInt8))
  | [], s => .ok (some s)
  | _ :: _, [] => .error .access
  | f :: fs, c :: s => if f = c then scanLiteral fs s else .ok none

def strchr (x : UInt8) : List UInt8 → Except Fault Bool
  | [] => .error .access
  | c :: s => if c = 0 then .ok false else if c = x then .ok true else strchr x s

/-! ## Writing numbers -/

/-- The digit of a value below 16, `hex_asc_lower`. -/
def digitChar (d : Nat) : UInt8 := UInt8.ofNat (if d < 10 then 0x30 + d else 0x57 + d)

/-- The digits of a number, as `%u` (base 10) and `%x` (base 16) print them. -/
def printNat (base n : Nat) : List UInt8 :=
  if n = 0 then [0x30] else (Nat.digits base n).reverse.map digitChar

def printInt (n : Int) : List UInt8 :=
  if n < 0 then charMinus :: printNat 10 n.natAbs else printNat 10 n.natAbs

/-! ## What is written is read back -/

@[simp] theorem charAt_zero (c : UInt8) (s : List UInt8) : charAt (c :: s) 0 = .ok c := rfl

@[simp] theorem charAt_succ (c : UInt8) (s : List UInt8) (i : Nat) :
    charAt (c :: s) (i + 1) = charAt s i := rfl

theorem digitVal_digitChar {d : Nat} (hd : d < 16) : digitVal (digitChar d) = some d := by
  have hall : ∀ d : Fin 16, digitVal (digitChar d) = some d.val := by decide
  exact hall ⟨d, hd⟩

def digitsValue (base : Nat) (acc : Nat) (ds : List Nat) : Nat := ds.foldl (fun a d => base * a + d) acc

theorem digitsValue_reverse_digits (base n : Nat) :
    digitsValue base 0 (Nat.digits base n).reverse = n := by
  have hfold : (Nat.digits base n).foldr (fun d a => base * a + d) 0 =
      (Nat.digits base n).foldr (fun d a => d + base * a) 0 := by
    congr 1
    funext d a
    omega
  unfold digitsValue
  rw [List.foldl_reverse, hfold]
  have hof := Nat.ofDigits_eq_foldr base (Nat.digits base n)
  rw [Nat.ofDigits_digits] at hof
  simpa using hof.symm

theorem digitsValue_lt {b c a a' : Nat} (hbc : b ≤ c) (hlt : a < a') (ds : List Nat) (hb : 0 < b) :
    digitsValue b a ds < digitsValue c a' ds := by
  induction ds generalizing a a' with
  | nil => exact hlt
  | cons d ds ih =>
    have h1 : b * a < b * a' := Nat.mul_lt_mul_of_pos_left hlt hb
    have h2 : b * a' ≤ c * a' := Nat.mul_le_mul_right _ hbc
    exact ih (by omega : b * a + d < c * a' + d)

section Parse

variable {base : Nat} {c : UInt8} {s : List UInt8}

theorem parseInteger_stop (hc : isDigit base c = false) (acc n : Nat) :
    parseInteger base (c :: s) acc n = .ok (acc, n, c :: s) := by
  unfold parseInteger
  cases hv : digitVal c with
  | none => rfl
  | some d =>
    have hd : ¬ d < base := by simpa [isDigit, hv] using hc
    simp only [if_neg hd]

theorem parseInteger_digit {d : Nat} (hc : digitVal c = some d) (hd : d < base) (acc n : Nat) :
    parseInteger base (c :: s) acc n = parseInteger base s (base * acc + d) (n + 1) := by
  rw [parseInteger, hc]
  simp only [if_pos hd]

theorem parseInteger_digits (hb : base ≤ 16) (hc : isDigit base c = false) {ds : List Nat}
    (hds : ∀ d ∈ ds, d < base) (acc n : Nat) :
    parseInteger base (ds.map digitChar ++ c :: s) acc n =
      .ok (digitsValue base acc ds, n + ds.length, c :: s) := by
  induction ds generalizing acc n with
  | nil => exact parseInteger_stop hc acc n
  | cons d ds ih =>
    have hd : d < base := hds d List.mem_cons_self
    rw [List.map_cons, List.cons_append,
      parseInteger_digit (digitVal_digitChar (lt_of_lt_of_le hd hb)) hd,
      ih (fun e he => hds e (List.mem_cons_of_mem _ he))]
    simp [digitsValue, Nat.add_assoc, Nat.add_comm 1]

theorem printNat_eq_cons (h1 : 1 < base) {n : Nat} (hn : n ≠ 0) :
    ∃ d ds, printNat base n = (d :: ds).map digitChar ∧ 0 < d ∧ (∀ e ∈ d :: ds, e < base) ∧
      digitsValue base 0 (d :: ds) = n := by
  have hne : Nat.digits base n ≠ [] := Nat.digits_ne_nil_iff_ne_zero.mpr hn
  cases hr : (Nat.digits base n).reverse with
  | nil => exact absurd (List.reverse_eq_nil_iff.mp hr) hne
  | cons d ds =>
    refine ⟨d, ds, by rw [printNat, if_neg hn, hr], ?_, ?_, ?_⟩
    · have hlast := Nat.getLast_digit_ne_zero base hn
      have hd : (Nat.digits base n).getLast hne = d := by
        have hlast? := List.getLast?_eq_getLast_of_ne_nil hne
        rw [List.getLast?_eq_head?_reverse, hr] at hlast?
        exact (Option.some.inj hlast?).symm
      omega
    · intro e he
      rw [← hr, List.mem_reverse] at he
      exact Nat.digits_lt_base h1 he
    · rw [← hr, digitsValue_reverse_digits]

theorem parseInteger_printNat (h1 : 1 < base) (hb : base ≤ 16) (hc : isDigit base c = false) (n : Nat) :
    ∃ k, 0 < k ∧ parseInteger base (printNat base n ++ c :: s) 0 0 = .ok (n, k, c :: s) := by
  by_cases hn : n = 0
  · subst hn
    refine ⟨1, by omega, ?_⟩
    have hz : digitVal 0x30 = some 0 := by decide
    show parseInteger base (0x30 :: c :: s) 0 0 = _
    rw [parseInteger_digit hz (by omega), parseInteger_stop hc, Nat.mul_zero]
  · obtain ⟨d, ds, htext, -, hlt, hval⟩ := printNat_eq_cons h1 hn
    refine ⟨(d :: ds).length, by simp, ?_⟩
    rw [htext, parseInteger_digits hb hc hlt, hval, Nat.zero_add]

end Parse

section Convert

variable {base base' val n : Nat} {c : UInt8} {s digits rest : List UInt8}

theorem kstrtou_of_number {bits : Nat} (hbits : bits ≤ 64) (hplus : c ≠ 0x2b)
    (hfix : fixupRadix base (c :: s) = .ok (base', digits))
    (hparse : parseInteger base' digits 0 0 = .ok (val, n, rest)) (hn : 0 < n) (hval : val < 2 ^ bits)
    (hend : (∃ t, rest = 0 :: t) ∨ ∃ t, rest = charNewline :: 0 :: t) :
    kstrtou bits (c :: s) base = .ok (.ok val) := by
  have h64 : val < 2 ^ 64 := lt_of_lt_of_le hval (Nat.pow_le_pow_right (by omega) hbits)
  have hull : kstrtoull (c :: s) base = .ok (.ok val) := by
    unfold kstrtoull
    rcases hend with ⟨t, rfl⟩ | ⟨t, rfl⟩ <;>
      simpa [hplus, hfix, hparse, Nat.pos_iff_ne_zero.mp hn, charNewline] using h64
  simp [kstrtou, hull, Nat.not_le.mpr hval]

theorem kstrtoull_error {e : Int} (h : kstrtoull s base = .ok (.error e)) : e < 0 := by
  obtain ⟨c, -, h⟩ := bind_eq_ok h
  obtain ⟨⟨b, digits⟩, -, h⟩ := bind_eq_ok h
  obtain ⟨⟨val, n, rest⟩, -, h⟩ := bind_eq_ok h
  dsimp only at h
  split_ifs at h
  · cases h; decide
  · cases h; decide
  all_goals
    obtain ⟨c1, -, h⟩ := bind_eq_ok h
    obtain ⟨c2, -, h⟩ := bind_eq_ok h
    split_ifs at h <;> cases h
    decide

theorem kstrtou_result {bits : Nat} {r : Except Int Nat} (h : kstrtou bits s base = .ok r) :
    (∃ e, r = .error e ∧ e < 0) ∨ ∃ v, r = .ok v ∧ v < 2 ^ bits := by
  obtain ⟨r', hr, hrest⟩ := bind_eq_ok h
  cases r' with
  | error e =>
    cases hrest
    exact .inl ⟨e, rfl, kstrtoull_error hr⟩
  | ok w =>
    simp only [ok_pure, Except.ok.injEq] at hrest
    split_ifs at hrest with hw
    · exact .inl ⟨-34, hrest.symm, by decide⟩
    · exact .inr ⟨w, hrest.symm, Nat.not_le.mp hw⟩

/-- A conversion that succeeds has read the digits up to the end of the string or a newline. -/
theorem eq_of_kstrtou_eq_ok {bits v : Nat} {e : UInt8} (hplus : c ≠ 0x2b)
    (hfix : fixupRadix base (c :: s) = .ok (base', digits))
    (hparse : parseInteger base' digits 0 0 = .ok (val, n, e :: rest))
    (h : kstrtou bits (c :: s) base = .ok (.ok v)) : v = val ∧ (e = 0 ∨ e = charNewline) := by
  have hull : ∃ w, kstrtoull (c :: s) base = .ok (.ok w) ∧ v = w := by
    obtain ⟨r, hr, hrest⟩ := bind_eq_ok h
    cases r with
    | error e => simp at hrest
    | ok w =>
      simp only [ok_pure, Except.ok.injEq] at hrest
      split_ifs at hrest
      exact ⟨w, hr, (Except.ok.inj hrest).symm⟩
  obtain ⟨w, hull, rfl⟩ := hull
  simp only [kstrtoull, charAt_zero, ok_bind, if_neg hplus, hfix, hparse] at hull
  split_ifs at hull with h1 h2 h3
  · simp at hull
  · simp at hull
  · obtain ⟨d, -, hd⟩ := bind_eq_ok hull
    simp only [ok_pure, ite_not] at hd
    split_ifs at hd
    · exact ⟨by simpa using hd.symm, .inr h3⟩
    · simp at hd
  · simp only [charAt_zero, ok_bind, ok_pure, ite_not] at hull
    split_ifs at hull with h4
    · exact ⟨by simpa using hull.symm, .inl h4⟩
    · simp at hull

theorem isDigit_digitChar (hd : n < base) (hb : base ≤ 16) : isDigit base (digitChar n) = true := by
  simpa [isDigit, digitVal_digitChar (lt_of_lt_of_le hd hb)] using hd

theorem isDigit_of_mem_printNat (h1 : 1 < base) (hb : base ≤ 16) (n : Nat) :
    printNat base n ≠ [] ∧ ∀ c ∈ printNat base n, isDigit base c = true := by
  by_cases hn : n = 0
  · subst hn
    have hz : isDigit base 0x30 = true := isDigit_digitChar (by omega : 0 < base) hb
    exact ⟨List.cons_ne_nil _ _, fun c hc => List.mem_singleton.mp hc ▸ hz⟩
  · obtain ⟨d, ds, htext, -, hlt, -⟩ := printNat_eq_cons h1 hn
    rw [htext]
    refine ⟨List.cons_ne_nil _ _, ?_⟩
    intro c hc
    obtain ⟨e, he, rfl⟩ := List.mem_map.mp hc
    exact isDigit_digitChar (hlt e he) hb

theorem fixupRadix_zero_of_ne (hc : c ≠ 0x30) : fixupRadix 0 (c :: s) = .ok (10, c :: s) := by
  simp [fixupRadix, hc]

theorem digitChar_ne_zero {d : Nat} (h0 : 0 < d) (hd : d < 16) : digitChar d ≠ 0x30 := by
  have hall : ∀ d : Fin 16, 0 < d.val → digitChar d ≠ 0x30 := by decide
  exact hall ⟨d, hd⟩ h0

theorem ne_of_isDigit {c x : UInt8} (h : isDigit 16 c = true) (hx : isDigit 16 x = false) : c ≠ x := by
  rintro rfl
  rw [h] at hx
  exact Bool.noConfusion hx

/-- A number printed in base 10 is read back by a conversion that leaves the base to the text. -/
theorem kstrtou_printNat {bits : Nat} (hbits : bits ≤ 64) (hn : n < 2 ^ bits) :
    kstrtou bits (printNat 10 n ++ [0]) 0 = .ok (.ok n) := by
  by_cases h0 : n = 0
  · subst h0
    exact kstrtou_of_number hbits (by decide) (rfl : fixupRadix 0 [0x30, 0] = .ok (8, [0x30, 0])) rfl
      Nat.one_pos hn (.inl ⟨[], rfl⟩)
  · obtain ⟨k, hk, hparse⟩ := parseInteger_printNat (s := []) (c := 0) (by omega : 1 < 10) (by omega)
      (by decide) n
    obtain ⟨d, ds, htext, hd, hlt, -⟩ := printNat_eq_cons (by omega : 1 < 10) h0
    have hd10 : d < 10 := hlt d List.mem_cons_self
    rw [htext] at hparse ⊢
    have hplus : digitChar d ≠ 0x2b :=
      ne_of_isDigit (isDigit_digitChar (by omega : d < 16) (le_refl _)) (by decide)
    exact kstrtou_of_number hbits hplus (fixupRadix_zero_of_ne (digitChar_ne_zero hd (by omega))) hparse hk
      hn (.inl ⟨[], rfl⟩)

theorem skipSpaces_of_not (hc : isSpace c = false) : skipSpaces (c :: s) = .ok (c :: s) := by
  simp [skipSpaces, hc]

theorem isSpace_of_isDigit (h : isDigit 16 c = true) : isSpace c = false := by
  have hall : ∀ n : Fin 256, isDigit 16 (UInt8.ofNat n) = true → isSpace (UInt8.ofNat n) = false := by
    decide +kernel
  have hc := hall ⟨c.toNat, c.toNat_lt⟩
  simp only [UInt8.ofNat_toNat] at hc
  exact hc h

theorem scanHex_of_digits (hc : isDigit 16 c = true) (hfix : fixupRadix 16 (c :: s) = .ok (16, digits))
    (hparse : parseInteger 16 digits 0 0 = .ok (val, n, rest)) (hval : val < 2 ^ 64) :
    scanHex (c :: s) = .ok (some val) := by
  simpa [scanHex, skipSpaces_of_not (isSpace_of_isDigit hc), hc, simpleStrtoull, hfix, hparse]
    using hval

theorem strchr_eq {x : UInt8} (hx : x ≠ 0) (hrest : 0 ∈ s) :
    strchr x s = .ok (decide (x ∈ s.takeWhile (· ≠ 0))) := by
  induction s with
  | nil => cases hrest
  | cons c s ih =>
    unfold strchr
    by_cases h0 : c = 0
    · simp [h0]
    · have hs : 0 ∈ s := (List.mem_cons.mp hrest).resolve_left (Ne.symm h0)
      by_cases hcx : c = x
      · simp [hcx, hx]
      · rw [if_neg h0, if_neg hcx, ih hs, List.takeWhile_cons_of_pos (by simpa using h0)]
        simp [Ne.symm hcx]

end Convert

/-! ## A scan ends at the terminator -/

section Terminated

variable {s : List UInt8}

theorem mem_of_ne_head {c : UInt8} (h : 0 ∈ c :: s) (hc : c ≠ 0) : 0 ∈ s :=
  (List.mem_cons.mp h).resolve_left (Ne.symm hc)

theorem charAt_zero_total (h : 0 ∈ s) : ∃ c, charAt s 0 = .ok c := by
  cases s with
  | nil => cases h
  | cons c s => exact ⟨c, rfl⟩

theorem parseInteger_total (base : Nat) (h : 0 ∈ s) (acc k : Nat) :
    ∃ v n rest, parseInteger base s acc k = .ok (v, n, rest) ∧ 0 ∈ rest := by
  induction s generalizing acc k with
  | nil => cases h
  | cons c s ih =>
    cases hc : isDigit base c with
    | false => exact ⟨acc, k, c :: s, parseInteger_stop hc acc k, h⟩
    | true =>
      unfold isDigit at hc
      cases hd : digitVal c with
      | none => simp [hd] at hc
      | some d =>
        have hc0 : c ≠ 0 := by
          rintro rfl
          cases (by decide : digitVal 0 = none).symm.trans hd
        rw [parseInteger_digit hd (by simpa [hd] using hc)]
        exact ih (mem_of_ne_head h hc0) _ _

theorem ne_zero_of_isX {c : UInt8} (h : isX c = true) : c ≠ 0 := by
  rintro rfl
  exact absurd h (by decide)

theorem fixupRadix_total (base : Nat) (h : 0 ∈ s) : ∃ b d, fixupRadix base s = .ok (b, d) ∧ 0 ∈ d := by
  cases s with
  | nil => cases h
  | cons c0 s0 =>
    by_cases h0 : c0 = 0x30
    · have hs0 : 0 ∈ s0 := mem_of_ne_head h (h0 ▸ by decide)
      cases s0 with
      | nil => cases hs0
      | cons c1 s1 =>
        cases hx : isX c1 with
        | false =>
          by_cases hb : base = 0
          · exact ⟨8, c0 :: c1 :: s1, by simp [fixupRadix, hb, h0, hx], h⟩
          · exact ⟨base, c0 :: c1 :: s1, by simp [fixupRadix, hb, hx], h⟩
        | true =>
          have hs1 : 0 ∈ s1 := mem_of_ne_head hs0 (ne_zero_of_isX hx)
          obtain ⟨c2, hc2⟩ := charAt_zero_total hs1
          by_cases hb : base = 0
          · cases hd : isDigit 16 c2 with
            | true => exact ⟨16, s1, by simp [fixupRadix, hb, h0, hx, hc2, hd], hs1⟩
            | false => exact ⟨8, c0 :: c1 :: s1, by simp [fixupRadix, hb, h0, hx, hc2, hd], h⟩
          · by_cases h16 : base = 16
            · exact ⟨16, s1, by simp [fixupRadix, h16, h0, hx], hs1⟩
            · exact ⟨base, c0 :: c1 :: s1, by simp [fixupRadix, hb, h16], h⟩
    · by_cases hb : base = 0
      · exact ⟨10, c0 :: s0, by simp [fixupRadix, hb, h0], h⟩
      · exact ⟨base, c0 :: s0, by simp [fixupRadix, hb, h0], h⟩

theorem kstrtoull_total (base : Nat) (h : 0 ∈ s) : ∃ r, kstrtoull s base = .ok r := by
  obtain ⟨c, hc⟩ := charAt_zero_total h
  have hdigits : 0 ∈ (if c = 0x2b then s.drop 1 else s) := by
    split_ifs with hplus
    · cases s with
      | nil => cases h
      | cons c' s =>
        cases hc
        exact mem_of_ne_head h (hplus ▸ by decide)
    · exact h
  obtain ⟨b, d, hfix, hd⟩ := fixupRadix_total base hdigits
  obtain ⟨v, n, rest, hparse, hrest⟩ := parseInteger_total b hd 0 0
  simp only [kstrtoull, hc, ok_bind, hfix, hparse]
  by_cases h1 : 2 ^ 64 ≤ v
  · exact ⟨.error (-34), by simp only [if_pos h1, ok_pure]⟩
  by_cases h2 : n = 0
  · exact ⟨.error (-22), by simp only [if_neg h1, if_pos h2, ok_pure]⟩
  obtain ⟨e, he⟩ := charAt_zero_total hrest
  have hlast : 0 ∈ (if e = charNewline then rest.drop 1 else rest) := by
    split_ifs with hnl
    · cases rest with
      | nil => cases hrest
      | cons e' rest =>
        cases he
        exact mem_of_ne_head hrest (hnl ▸ by decide)
    · exact hrest
  obtain ⟨f, hf⟩ := charAt_zero_total hlast
  simp only [if_neg h1, if_neg h2, he, ok_bind, hf, ok_pure]
  split_ifs
  · exact ⟨_, rfl⟩
  · exact ⟨_, rfl⟩

theorem kstrtou_total (bits base : Nat) (h : 0 ∈ s) : ∃ r, kstrtou bits s base = .ok r := by
  obtain ⟨r, hr⟩ := kstrtoull_total base h
  simp only [kstrtou, hr, ok_bind]
  cases r with
  | error e => exact ⟨_, rfl⟩
  | ok v => exact ⟨_, rfl⟩

theorem skipSpaces_total (h : 0 ∈ s) : ∃ r, skipSpaces s = .ok r ∧ 0 ∈ r := by
  induction s with
  | nil => cases h
  | cons c s ih =>
    cases hc : isSpace c with
    | true =>
      have hc0 : c ≠ 0 := by
        rintro rfl
        exact absurd hc (by decide)
      rw [skipSpaces, hc]
      exact ih (mem_of_ne_head h hc0)
    | false => exact ⟨c :: s, skipSpaces_of_not hc, h⟩

theorem simpleStrtoull_total (base : Nat) (h : 0 ∈ s) : ∃ v, simpleStrtoull s base = .ok v := by
  obtain ⟨b, d, hfix, hd⟩ := fixupRadix_total base h
  obtain ⟨v, n, rest, hparse, -⟩ := parseInteger_total b hd 0 0
  exact ⟨v % 2 ^ 64, by simp only [simpleStrtoull, hfix, hparse, ok_bind, ok_pure]⟩

theorem scanHex_total (h : 0 ∈ s) : ∃ r, scanHex s = .ok r := by
  obtain ⟨s', hskip, h'⟩ := skipSpaces_total h
  obtain ⟨c, hc⟩ := charAt_zero_total h'
  obtain ⟨v, hv⟩ := simpleStrtoull_total 16 h'
  simp only [scanHex, hskip, hc, hv, ok_bind, ok_pure]
  split_ifs
  · exact ⟨_, rfl⟩
  · exact ⟨_, rfl⟩

theorem scanInt_total (h : 0 ∈ s) : ∃ r, scanInt s = .ok r := by
  obtain ⟨s', hskip, h'⟩ := skipSpaces_total h
  cases s' with
  | nil => cases h'
  | cons c s' =>
    by_cases hminus : c = charMinus
    · have htail : 0 ∈ s' := mem_of_ne_head h' (hminus ▸ by decide)
      obtain ⟨d, hd⟩ := charAt_zero_total htail
      obtain ⟨v, hv⟩ := simpleStrtoull_total 10 htail
      simp only [scanInt, hskip, charAt_zero, ok_bind, if_pos hminus, charAt_succ, hd, List.drop_one,
        List.tail_cons, hv, ok_pure]
      split_ifs
      · exact ⟨_, rfl⟩
      · exact ⟨_, rfl⟩
    · obtain ⟨v, hv⟩ := simpleStrtoull_total 10 h'
      simp only [scanInt, hskip, charAt_zero, ok_bind, if_neg hminus, hv, ok_pure]
      split_ifs
      · exact ⟨_, rfl⟩
      · exact ⟨_, rfl⟩

theorem scanLiteral_total {fs : List UInt8} (hfs : 0 ∉ fs) (h : 0 ∈ s) :
    scanLiteral fs s = .ok none ∨ ∃ r, scanLiteral fs s = .ok (some r) ∧ 0 ∈ r := by
  induction fs generalizing s with
  | nil => exact .inr ⟨s, rfl, h⟩
  | cons f fs ih =>
    cases s with
    | nil => cases h
    | cons c s =>
      unfold scanLiteral
      by_cases hfc : f = c
      · have hc0 : c ≠ 0 := fun h0 => hfs (hfc ▸ h0 ▸ List.mem_cons_self)
        rw [if_pos hfc]
        exact ih (fun hmem => hfs (List.mem_cons_of_mem _ hmem)) (mem_of_ne_head h hc0)
      · rw [if_neg hfc]
        exact .inl rfl

end Terminated

end Amlogic
