import Amlogic.Base.Bytes

/-!
# Block devices

A disk is a function from sector numbers to sectors. What a driver does to it is a list of sector
transfers, and a power failure leaves what some initial part of the list has made of it.
-/

namespace Amlogic

/-- The content of a block device. -/
abbrev Disk (σ : Type) := Nat → σ

/-- A sector and the number under which it is stored. -/
abbrev Transfer (σ : Type) := Nat × σ

section Disk

variable {σ : Type}

def Disk.put (d : Disk σ) (t : Transfer σ) : Disk σ := Function.update d t.1 t.2

def Disk.apply (d : Disk σ) (ts : List (Transfer σ)) : Disk σ := ts.foldl Disk.put d

def transfersAt : Nat → List σ → List (Transfer σ)
  | _, [] => []
  | blk, s :: ss => (blk, s) :: transfersAt (blk + 1) ss

def Disk.sectors (d : Disk σ) (blk n : Nat) : List σ := (List.range' blk n).map d

@[simp] theorem Disk.sectors_length (d : Disk σ) (blk n : Nat) : (d.sectors blk n).length = n := by
  simp [Disk.sectors]

theorem Disk.apply_append (d : Disk σ) (ts us : List (Transfer σ)) :
    d.apply (ts ++ us) = (d.apply ts).apply us := List.foldl_append

@[simp] theorem Disk.apply_nil (d : Disk σ) : d.apply [] = d := rfl

@[simp] theorem Disk.apply_singleton (d : Disk σ) (i : Nat) (s : σ) : d.apply [(i, s)] i = s :=
  Function.update_self ..

theorem transfersAt_append (blk : Nat) (ss us : List σ) :
    transfersAt blk (ss ++ us) = transfersAt blk ss ++ transfersAt (blk + ss.length) us := by
  induction ss generalizing blk with
  | nil => rfl
  | cons s ss ih =>
    rw [List.cons_append, transfersAt, ih, transfersAt, List.cons_append, List.length_cons,
      show blk + 1 + ss.length = blk + (ss.length + 1) by omega]

@[simp] theorem transfersAt_length (blk : Nat) (ss : List σ) :
    (transfersAt blk ss).length = ss.length := by
  induction ss generalizing blk with
  | nil => rfl
  | cons s ss ih => rw [transfersAt, List.length_cons, ih, List.length_cons]

theorem transfersAt_take (blk k : Nat) (ss : List σ) :
    (transfersAt blk ss).take k = transfersAt blk (ss.take k) := by
  induction ss generalizing blk k with
  | nil => simp [transfersAt]
  | cons s ss ih =>
    cases k with
    | zero => simp [transfersAt]
    | succ k => rw [transfersAt, List.take_succ_cons, ih, List.take_succ_cons, transfersAt]

theorem mem_transfersAt {blk : Nat} {ss : List σ} {t : Transfer σ} (h : t ∈ transfersAt blk ss) :
    blk ≤ t.1 ∧ t.1 < blk + ss.length := by
  induction ss generalizing blk with
  | nil => cases h
  | cons s ss ih =>
    rw [List.length_cons]
    rcases List.mem_cons.mp h with rfl | h
    · exact ⟨Nat.le_refl _, by omega⟩
    · have := ih h
      omega

theorem Disk.apply_of_ne {d : Disk σ} {ts : List (Transfer σ)} {i : Nat} (h : ∀ t ∈ ts, t.1 ≠ i) :
    d.apply ts i = d i := by
  induction ts generalizing d with
  | nil => rfl
  | cons t ts ih =>
    have ht := h t (List.mem_cons_self ..)
    show (d.put t).apply ts i = d i
    rw [ih fun u hu => h u (List.mem_cons_of_mem _ hu), Disk.put,
      Function.update_of_ne ht.symm]

theorem Disk.sectors_apply_of_disjoint {d : Disk σ} {ts : List (Transfer σ)} {blk n : Nat}
    (h : ∀ t ∈ ts, t.1 < blk ∨ blk + n ≤ t.1) : (d.apply ts).sectors blk n = d.sectors blk n := by
  refine List.map_congr_left fun i hi => Disk.apply_of_ne fun t ht => ?_
  have hi := List.mem_range'_1.mp hi
  have ht := h t ht
  omega

theorem Disk.sectors_succ (d : Disk σ) (blk n : Nat) :
    d.sectors blk (n + 1) = d blk :: d.sectors (blk + 1) n := by
  simp [Disk.sectors, List.range'_succ]

theorem Disk.sectors_add (d : Disk σ) (blk n k : Nat) :
    d.sectors blk (n + k) = d.sectors blk n ++ d.sectors (blk + n) k := by
  simp [Disk.sectors, ← List.range'_append_1]

theorem Disk.sectors_apply_transfersAt (d : Disk σ) {blk n : Nat} {ss : List σ} (h : ss.length ≤ n) :
    (d.apply (transfersAt blk ss)).sectors blk n = ss ++ (d.sectors blk n).drop ss.length := by
  induction ss generalizing d blk n with
  | nil => rfl
  | cons s ss ih =>
    obtain ⟨n, rfl⟩ : ∃ k, n = k + 1 := ⟨n - 1, by rw [List.length_cons] at h; omega⟩
    have hother : ((d.put (blk, s)).apply (transfersAt (blk + 1) ss)) blk = s := by
      rw [Disk.apply_of_ne fun t ht => by have := mem_transfersAt ht; omega, Disk.put,
        Function.update_self]
    have hrest : (d.apply [(blk, s)]).sectors (blk + 1) n = d.sectors (blk + 1) n :=
      Disk.sectors_apply_of_disjoint (by simp)
    show ((d.put (blk, s)).apply (transfersAt (blk + 1) ss)).sectors blk (n + 1) = _
    rw [Disk.sectors_succ, hother, ih _ (Nat.le_of_succ_le_succ h), Disk.sectors_succ,
      List.length_cons, List.drop_succ_cons, List.cons_append, ← hrest]
    rfl

theorem Disk.getElem?_sectors (d : Disk σ) (blk n i : Nat) :
    (d.sectors blk n)[i]? = if i < n then some (d (blk + i)) else none := by
  unfold Disk.sectors
  rw [List.getElem?_map]
  split_ifs with h
  · rw [List.getElem?_range' h, Option.map_some, Nat.one_mul]
  · rw [List.getElem?_eq_none (by simpa using h), Option.map_none]

theorem Disk.apply_transfersAt (d : Disk σ) (blk : Nat) (ss : List σ) (i : Nat) :
    d.apply (transfersAt blk ss) i = if blk ≤ i then (ss[i - blk]?).getD (d i) else d i := by
  by_cases hi : blk ≤ i ∧ i < blk + ss.length
  · have hall : (d.apply (transfersAt blk ss)).sectors blk ss.length = _ :=
      Disk.sectors_apply_transfersAt d (le_refl ss.length)
    have helem := congrArg (fun l : List σ => l[i - blk]?) hall
    simp only [Disk.getElem?_sectors] at helem
    rw [if_pos (by omega), List.getElem?_append_left (by omega), Nat.add_sub_cancel' hi.1] at helem
    rw [if_pos hi.1, ← helem]
    rfl
  · have hother : ∀ t ∈ transfersAt blk ss, t.1 ≠ i := by
      rintro t ht rfl
      exact hi (mem_transfersAt ht)
    rw [Disk.apply_of_ne hother]
    split_ifs with hle
    · rw [List.getElem?_eq_none (by omega)]
      rfl
    · rfl

end Disk

end Amlogic
