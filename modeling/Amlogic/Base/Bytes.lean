import Mathlib

/-!
# Byte buffers

C code that parses or builds a block of memory does so through little-endian words and through
copies at a byte offset. A block is here a list of bytes. Every access is checked against its
length: a load or store that leaves the block has no result, which is how undefined behaviour is
represented (`Fault.access`).
-/

namespace Amlogic

inductive Fault where
  /-- A load or store leaves the object it addresses. -/
  | access
  /-- A loop has used up the number of rounds it was given. -/
  | fuel
  deriving Repr, DecidableEq

abbrev Bytes (n : Nat) := { l : List UInt8 // l.length = n }

def Bytes.zero (n : Nat) : Bytes n := ⟨List.replicate n 0, by simp⟩

/-! ## Machine integers -/

/-- The value of an expression of type `u32`. -/
def u32 (n : Nat) : Nat := n % 2 ^ 32

def s32 (n : Int) : Int := if n % 2 ^ 32 < 2 ^ 31 then n % 2 ^ 32 else n % 2 ^ 32 - 2 ^ 32

theorem u32_of_lt {n : Nat} (h : n < 2 ^ 32) : u32 n = n := Nat.mod_eq_of_lt h

theorem u32_lt (n : Nat) : u32 n < 2 ^ 32 := Nat.mod_lt _ (by decide)

theorem s32_of_range {n : Int} (h1 : -2 ^ 31 ≤ n) (h2 : n < 2 ^ 31) : s32 n = n := by
  unfold s32
  split <;> omega

theorem s32_lt (n : Int) : s32 n < 2 ^ 31 := by
  unfold s32
  split <;> omega

theorem le_s32 (n : Int) : -2 ^ 31 ≤ s32 n := by
  unfold s32
  split <;> omega

/-! ## Little-endian words -/

def le32 (x : UInt32) : List UInt8 :=
  [UInt8.ofNat (x.toNat % 256), UInt8.ofNat (x.toNat / 256 % 256),
    UInt8.ofNat (x.toNat / 65536 % 256), UInt8.ofNat (x.toNat / 16777216 % 256)]

/-- The 32-bit word at the start of a list of bytes. -/
def getLe32 : List UInt8 → UInt32
  | b0 :: b1 :: b2 :: b3 :: _ =>
    UInt32.ofNat (b0.toNat + 256 * b1.toNat + 65536 * b2.toNat + 16777216 * b3.toNat)
  | _ => 0

@[simp] theorem le32_length (x : UInt32) : (le32 x).length = 4 := rfl

@[simp] theorem getLe32_le32 (x : UInt32) (l : List UInt8) : getLe32 (le32 x ++ l) = x := by
  have hx := x.toNat_lt
  apply UInt32.toNat_inj.mp
  simp only [le32, List.cons_append, List.nil_append, getLe32, UInt8.toNat_ofNat', UInt32.toNat_ofNat']
  omega

def le64 (x : UInt64) : List UInt8 := le32 x.toUInt32 ++ le32 (x >>> 32).toUInt32

def getLe64 (l : List UInt8) : UInt64 :=
  (getLe32 l).toUInt64 + (getLe32 (l.drop 4)).toUInt64 <<< 32

@[simp] theorem getLe64_le64 (x : UInt64) (l : List UInt8) : getLe64 (le64 x ++ l) = x := by
  have hx := x.toNat_lt
  have hd : (le32 x.toUInt32 ++ (le32 (x >>> 32).toUInt32 ++ l)).drop 4
      = le32 (x >>> 32).toUInt32 ++ l := List.drop_left' rfl
  apply UInt64.toNat_inj.mp
  rw [getLe64, le64, List.append_assoc, getLe32_le32, hd, getLe32_le32]
  simp only [UInt64.toNat_add, UInt64.toNat_shiftLeft, UInt32.toNat_toUInt64, UInt64.toNat_toUInt32,
    UInt64.toNat_shiftRight, Nat.shiftRight_eq_div_pow, Nat.shiftLeft_eq]
  simp
  omega

/-! ## Loads and stores -/

variable {α : Type}

/-- The `n` elements of `m` at offset `off`. -/
def load (m : List α) (off n : Nat) : Except Fault (List α) :=
  if off + n ≤ m.length then .ok ((m.drop off).take n) else .error .access

def load32 (m : List UInt8) (off : Nat) : Except Fault UInt32 :=
  return getLe32 (← load m off 4)

/-- `m` with the elements from offset `off` on replaced by `bs`. -/
def patch (m : List α) (off : Nat) (bs : List α) : List α :=
  m.take off ++ bs ++ m.drop (off + bs.length)

def store (m : List α) (off : Nat) (bs : List α) : Except Fault (List α) :=
  if off + bs.length ≤ m.length then .ok (patch m off bs) else .error .access

section Patch

variable {m bs cs : List α} {off : Nat}

theorem patch_length (h : off + bs.length ≤ m.length) : (patch m off bs).length = m.length := by
  simp [patch]; omega

theorem patch_getElem? (h : off + bs.length ≤ m.length) (i : Nat) :
    (patch m off bs)[i]? = if off ≤ i ∧ i < off + bs.length then bs[i - off]? else m[i]? := by
  have h1 : (m.take off).length = off := by simp; omega
  unfold patch
  by_cases hi : i < off
  · rw [List.append_assoc, List.getElem?_append_left (by omega), List.getElem?_take_of_lt hi,
      if_neg (by omega)]
  · rw [List.append_assoc, List.getElem?_append_right (by omega), h1]
    by_cases hj : i < off + bs.length
    · rw [List.getElem?_append_left (by omega), if_pos ⟨by omega, hj⟩]
    · rw [List.getElem?_append_right (by omega), List.getElem?_drop, if_neg (by omega)]
      congr 1; omega

theorem patch_patch_append (m : List α) (off : Nat) (bs cs : List α)
    (h : off + (bs.length + cs.length) ≤ m.length) :
    patch (patch m off bs) (off + bs.length) cs = patch m off (bs ++ cs) := by
  have hl : (m.take off ++ bs).length = off + bs.length := by simp; omega
  unfold patch
  rw [List.take_left' hl, ← List.drop_drop, List.drop_left' hl, List.drop_drop]
  simp [Nat.add_assoc]

theorem patch_patch_inside (m : List α) (off : Nat) (as bs cs ds : List α) (h : off ≤ m.length)
    (hl : cs.length = bs.length) :
    patch (patch m off (as ++ (bs ++ ds))) (off + as.length) cs = patch m off (as ++ (cs ++ ds)) := by
  have ha : (m.take off ++ as).length = off + as.length := by simp; omega
  have hm : patch m off (as ++ (bs ++ ds)) =
      (m.take off ++ as) ++ (bs ++ (ds ++ m.drop (off + (as ++ (bs ++ ds)).length))) := by simp [patch]
  rw [hm, patch, List.take_left' ha, ← List.drop_drop, List.drop_left' ha, List.drop_left' hl.symm]
  simp [patch, hl]

theorem patch_fill_gap (m : List α) (off : Nat) (bs gap cs : List α)
    (h : off + (bs.length + (gap.length + cs.length)) ≤ m.length) :
    patch (patch (patch m off bs) (off + (bs.length + gap.length)) cs) (off + bs.length) gap
      = patch m off (bs ++ (gap ++ cs)) := by
  -- until then the gap holds what stood there before
  generalize hold : (m.drop (off + bs.length)).take gap.length = old
  have hl : old.length = gap.length := by simp [← hold]; omega
  have hsame : patch m off bs = patch m off (bs ++ old) := by
    simp only [patch, List.length_append, hl, ← Nat.add_assoc, List.append_assoc]
    rw [← hold, ← List.drop_drop (i := gap.length), List.take_append_drop]
  rw [hsame, ← hl, ← List.length_append, patch_patch_append _ _ _ _ (by simp; omega), List.append_assoc]
  exact patch_patch_inside _ _ _ _ _ _ (by omega) hl.symm

end Patch

/-! ## What stands at an offset -/

/-- The elements `bs` stand in `m` at offset `off`. -/
def At (m : List α) (off : Nat) (bs : List α) : Prop :=
  off ≤ m.length ∧ bs <+: m.drop off

namespace At

variable {m bs cs : List α} {off : Nat}

theorem le_length (h : At m off bs) : off + bs.length ≤ m.length := by
  have h1 := h.2.length_le
  have h2 := h.1
  rw [List.length_drop] at h1
  omega

theorem left (h : At m off (bs ++ cs)) : At m off bs :=
  ⟨h.1, (List.prefix_append bs cs).trans h.2⟩

theorem right (h : At m off (bs ++ cs)) : At m (off + bs.length) cs := by
  obtain ⟨rest, hrest⟩ := h.2
  have hl := h.le_length
  rw [List.length_append] at hl
  refine ⟨by omega, rest, ?_⟩
  rw [← List.drop_drop, ← hrest, List.append_assoc, List.drop_left]

theorem load (h : At m off bs) : load m off bs.length = .ok bs := by
  unfold Amlogic.load
  rw [if_pos h.le_length, ← List.prefix_iff_eq_take.mp h.2]

theorem load32 {m cs : List UInt8} {x : UInt32} (h : At m off (le32 x ++ cs)) : load32 m off = .ok x := by
  have hl : Amlogic.load m off 4 = .ok (le32 x) := h.left.load
  have hx : getLe32 (le32 x) = x := by simpa using getLe32_le32 x []
  unfold Amlogic.load32
  rw [hl]
  simp [hx]

theorem of_patch (h : off + bs.length ≤ m.length) : At (patch m off bs) off bs := by
  have h1 : (m.take off).length = off := by simp; omega
  refine ⟨by rw [patch_length h]; omega, m.drop (off + bs.length), ?_⟩
  unfold patch
  rw [List.append_assoc, List.drop_left' h1]

theorem patch {off' : Nat} (h : At m off bs) (hr : off' + cs.length ≤ m.length)
    (hd : off' + cs.length ≤ off ∨ off + bs.length ≤ off') : At (patch m off' cs) off bs := by
  have hl := h.le_length
  refine ⟨by rw [patch_length hr]; omega, ?_⟩
  rw [List.prefix_iff_getElem?]
  intro i hi
  rw [List.getElem?_drop, patch_getElem? hr, if_neg (by omega), ← List.getElem?_drop]
  exact List.prefix_iff_getElem?.mp h.2 i hi

end At

/-! ## Successful accesses -/

theorem store_eq_ok {m m' bs : List α} {off : Nat} (h : store m off bs = .ok m') :
    off + bs.length ≤ m.length ∧ m' = patch m off bs := by
  unfold store at h
  split at h
  · rename_i hle; exact ⟨hle, by cases h; rfl⟩
  · cases h

theorem load_eq_ok {m bs : List α} {off n : Nat} (h : load m off n = .ok bs) :
    off + n ≤ m.length ∧ bs = (m.drop off).take n := by
  unfold load at h
  split at h
  · rename_i hle; exact ⟨hle, by cases h; rfl⟩
  · cases h

theorem store_of_le {m bs : List α} {off : Nat} (h : off + bs.length ≤ m.length) :
    store m off bs = .ok (patch m off bs) := if_pos h

theorem load_of_le {m : List α} {off n : Nat} (h : off + n ≤ m.length) :
    load m off n = .ok ((m.drop off).take n) := if_pos h

@[simp] theorem ok_bind {α β : Type} (a : α) (f : α → Except Fault β) :
    (Except.ok a >>= f) = f a := rfl

@[simp] theorem ok_pure {α : Type} (a : α) : (pure a : Except Fault α) = .ok a := rfl

theorem store_store {γ : Type} {m bs cs : List α} {off off' : Nat} (f : List α → Except Fault γ)
    (hoff : off' = off + bs.length) :
    (store m off bs >>= fun m => store m off' cs >>= f) = store m off (bs ++ cs) >>= f := by
  subst hoff
  unfold store
  rw [List.length_append]
  by_cases h : off + (bs.length + cs.length) ≤ m.length
  · have hb : off + bs.length ≤ m.length := by omega
    rw [if_pos hb, ok_bind, if_pos (by rw [patch_length hb]; omega), ok_bind, if_pos h,
      patch_patch_append m off bs cs h, ok_bind]
  · rw [if_neg h]
    by_cases hb : off + bs.length ≤ m.length
    · rw [if_pos hb, ok_bind, if_neg (by rw [patch_length hb]; omega)]
    · rw [if_neg hb]
      rfl

theorem bind_eq_ok {α β : Type} {x : Except Fault α} {f : α → Except Fault β} {b : β}
    (h : x >>= f = .ok b) : ∃ a, x = .ok a ∧ f a = .ok b := by
  cases x with
  | error e => cases h
  | ok a => exact ⟨a, rfl, h⟩

/-! ## Computations that run side by side -/

/-- Two computations that have the same fault, or results related by `R`. -/
inductive Sim {α β : Type} (R : α → β → Prop) : Except Fault α → Except Fault β → Prop
  | error (e : Fault) : Sim R (.error e) (.error e)
  | ok {a : α} {b : β} : R a b → Sim R (.ok a) (.ok b)

section Sim

variable {α β γ δ : Type} {R : α → β → Prop} {S : γ → δ → Prop} {x : Except Fault α} {y : Except Fault β}

theorem Sim.bind {f : α → Except Fault γ}
    {g : β → Except Fault δ} (h : Sim R x y) (hfg : ∀ a b, R a b → Sim S (f a) (g b)) :
    Sim S (x >>= f) (y >>= g) := by
  cases h with
  | error e => exact .error e
  | ok hab => exact hfg _ _ hab

theorem Sim.map_left {f : α → γ} {S : γ → β → Prop}
    (h : Sim R x y) (hf : ∀ a b, R a b → S (f a) b) : Sim S (x >>= fun a => pure (f a)) y := by
  cases h with
  | error e => exact .error e
  | ok hab => exact .ok (hf _ _ hab)

theorem Sim.bind_right {g : β → Except Fault δ}
    {S : α → δ → Prop} (h : Sim R x y) (hg : ∀ a b, R a b → ∃ d, g b = .ok d ∧ S a d) :
    Sim S x (y >>= g) := by
  cases h with
  | error e => exact .error e
  | @ok a b hab =>
    obtain ⟨d, hd, hs⟩ := hg a b hab
    rw [ok_bind, hd]
    exact .ok hs

theorem Sim.map_right {g : β → δ} {S : α → δ → Prop}
    (h : Sim R x y) (hg : ∀ a b, R a b → S a (g b)) : Sim S x (y >>= fun b => pure (g b)) :=
  h.bind_right fun a b hab => ⟨g b, rfl, hg a b hab⟩

theorem Sim.bind_same {f : α → Except Fault γ} {g : α → Except Fault δ}
    (hfg : ∀ a, x = .ok a → Sim S (f a) (g a)) : Sim S (x >>= f) (x >>= g) := by
  cases x with
  | error e => exact .error e
  | ok a => exact hfg a rfl

theorem Sim.ok_of {a : α} (h : Sim R x y) (hx : x = .ok a) :
    ∃ b, y = .ok b ∧ R a b := by
  subst hx
  cases h with
  | ok hab => exact ⟨_, rfl, hab⟩

theorem Sim.ok_of_right {b : β} (h : Sim R x y)
    (hy : y = .ok b) : ∃ a, x = .ok a ∧ R a b := by
  subst hy
  cases h with
  | ok hab => exact ⟨_, rfl, hab⟩

end Sim

end Amlogic
