import Mathlib

/-!
# Heaps

The live objects of one kind, by their address, and sums over all of them.
-/

namespace Amlogic

/-- The live objects, by address. -/
abbrev Heap (α : Type) := AList fun _ : Nat => α

namespace Heap

section Lookup

variable {α : Type} {h : Heap α} {a b : Nat} {x y : α}

theorem lookup_insert_iff :
    (h.insert a y).lookup b = some x ↔ b = a ∧ x = y ∨ b ≠ a ∧ h.lookup b = some x := by
  by_cases hb : b = a
  · subst hb
    rw [AList.lookup_insert]
    constructor
    · intro hx
      exact .inl ⟨rfl, (Option.some.inj hx).symm⟩
    · rintro (⟨-, rfl⟩ | ⟨hne, -⟩)
      · rfl
      · exact absurd rfl hne
  · rw [AList.lookup_insert_ne hb]
    constructor
    · intro hx
      exact .inr ⟨hb, hx⟩
    · rintro (⟨rfl, -⟩ | ⟨-, hx⟩)
      · exact absurd rfl hb
      · exact hx

theorem lookup_erase_iff : (h.erase a).lookup b = some x ↔ b ≠ a ∧ h.lookup b = some x := by
  by_cases hb : b = a
  · subst hb
    rw [AList.lookup_erase]
    constructor
    · intro hx
      cases hx
    · rintro ⟨hne, -⟩
      exact absurd rfl hne
  · rw [AList.lookup_erase_ne hb]
    exact ⟨fun hx => ⟨hb, hx⟩, fun hx => hx.2⟩

theorem forall_insert {P : Nat → α → Prop} (hnew : P a y) (hold : ∀ {b x}, h.lookup b = some x → P b x)
    (hx : (h.insert a y).lookup b = some x) : P b x := by
  rcases lookup_insert_iff.mp hx with ⟨rfl, rfl⟩ | ⟨-, hx⟩
  · exact hnew
  · exact hold hx

theorem live_insert (hb : ∃ x, h.lookup b = some x) : ∃ x, (h.insert a y).lookup b = some x := by
  obtain ⟨x, hx⟩ := hb
  by_cases hba : b = a
  · exact ⟨y, lookup_insert_iff.mpr (Or.inl ⟨hba, rfl⟩)⟩
  · exact ⟨x, lookup_insert_iff.mpr (Or.inr ⟨hba, hx⟩)⟩

theorem erase_insert (h : Heap α) (a : Nat) (x : α) : (h.insert a x).erase a = h.erase a := by
  refine AList.ext ?_
  exact List.kerase_cons_eq rfl

theorem ne_of_lookup (ha : a ∉ h) (hx : h.lookup b = some x) : b ≠ a := by
  rintro rfl
  rw [AList.lookup_eq_none.mpr ha] at hx
  cases hx

end Lookup

section Total

variable {α M : Type} [AddCommMonoid M] (f : α → M) {h : Heap α} {a : Nat} {x y : α}

def total (h : Heap α) : M := (h.entries.map fun e => f e.2).sum

theorem sum_kerase {l : List (Sigma fun _ : Nat => α)} (hx : l.dlookup a = some x) :
    (l.map fun e => f e.2).sum = f x + ((l.kerase a).map fun e => f e.2).sum := by
  induction l with
  | nil => cases hx
  | cons e l ih =>
    obtain ⟨b, y⟩ := e
    by_cases he : a = b
    · subst he
      rw [List.dlookup_cons_eq] at hx
      obtain rfl := Option.some.inj hx
      rw [List.kerase_cons_eq (show a = (⟨a, y⟩ : Sigma fun _ : Nat => α).1 from rfl), List.map_cons,
        List.sum_cons]
    · rw [List.dlookup_cons_ne _ _ he] at hx
      rw [List.kerase_cons_ne he, List.map_cons, List.sum_cons, List.map_cons, List.sum_cons, ih hx]
      exact add_left_comm _ _ _

theorem total_erase (hx : h.lookup a = some x) : total f h = f x + total f (h.erase a) :=
  sum_kerase f hx

theorem total_insert (h : Heap α) (a : Nat) (y : α) :
    total f (h.insert a y) = f y + total f (h.erase a) := by
  rfl

theorem total_insert_new (ha : a ∉ h) : total f (h.insert a x) = f x + total f h := by
  unfold total
  rw [AList.entries_insert_of_notMem ha]
  rfl

theorem total_replace (hx : h.lookup a = some x) (y : α) :
    total f (h.insert a y) + f x = total f h + f y := by
  rw [total_insert, total_erase f hx]
  abel

theorem total_replace_eq (hx : h.lookup a = some x) (he : f y = f x) :
    total f (h.insert a y) = total f h := by
  rw [total_insert, total_erase f hx, he]

theorem total_eq_zero (hf : ∀ {a x}, h.lookup a = some x → f x = 0) : total f h = 0 := by
  refine List.sum_eq_zero ?_
  intro y hy
  obtain ⟨e, he, rfl⟩ := List.mem_map.mp hy
  exact hf (AList.mem_lookup_iff.mpr he)

end Total

section Multiset

variable {α β : Type} (f : α → Multiset β) {h : Heap α}

theorem mem_total {b : β} : b ∈ total f h ↔ ∃ a x, h.lookup a = some x ∧ b ∈ f x := by
  have hmem : ∀ l : List (Sigma fun _ : Nat => α),
      b ∈ (l.map fun e => f e.2).sum ↔ ∃ e ∈ l, b ∈ f e.2 := by
    intro l
    induction l with
    | nil => simp
    | cons e l ih => simp [ih]
  constructor
  · intro hb
    obtain ⟨e, he, hb⟩ := (hmem _).mp hb
    exact ⟨e.1, e.2, AList.mem_lookup_iff.mpr he, hb⟩
  · rintro ⟨a, x, hx, hb⟩
    exact (hmem _).mpr ⟨⟨a, x⟩, AList.mem_lookup_iff.mp hx, hb⟩

theorem disjoint_of_nodup (hn : (total f h).Nodup) {a a' : Nat} {x x' : α} (hx : h.lookup a = some x)
    (hx' : h.lookup a' = some x') (hne : a' ≠ a) : Disjoint (f x) (f x') := by
  have he : total f h = f x + total f (h.erase a) := total_erase f hx
  rw [he, Multiset.nodup_add] at hn
  refine hn.2.2.mono_right ?_
  have hx'' : (h.erase a).lookup a' = some x' := (AList.lookup_erase_ne hne).trans hx'
  rw [total_erase f hx'']
  exact Multiset.le_add_right _ _

theorem map_total {γ : Type} (g : β → γ) : (total f h).map g = total (fun x => (f x).map g) h := by
  unfold total
  rw [← Multiset.coe_mapAddMonoidHom, map_list_sum, List.map_map]
  rfl

theorem total_le_total {g : α → Multiset β} (hle : ∀ {a x}, h.lookup a = some x → f x ≤ g x) :
    total f h ≤ total g h :=
  List.sum_le_sum fun _ he => hle (AList.mem_lookup_iff.mpr he)

end Multiset

end Heap

end Amlogic
