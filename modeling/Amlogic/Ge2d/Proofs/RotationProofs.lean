import Amlogic.Ge2d.Proofs.QueueRunProofs

/-!
# GE2D: the contexts take turns

The head of the list is moved behind the context that is selected. A context with work comes before the one that was
selected last, and stays before it until it is selected itself.
-/

namespace Amlogic.Ge2d.RotationEvent

variable {queue : List Nat} {x y : Nat} {e : RotationEvent}

/-- `y` is in the list, and `x` is not in front of it. -/
def Ahead (y x : Nat) (queue : List Nat) : Prop := ∃ l₁ l₂, queue = l₁ ++ y :: l₂ ∧ x ∉ l₁

/-- A context stays attached, and it has work when it is looked at. -/
def Spares (y : Nat) : RotationEvent → Prop
  | select hasWork => hasWork y = true
  | create _ => True
  | destroy k => k ≠ y

theorem select_cases (queue : List Nat) (hasWork : Nat → Bool) :
    (select hasWork).selected queue = none ∧ (select hasWork).next queue = queue ∨
    ∃ k l₁ l₂, queue = l₁ ++ k :: l₂ ∧ (select hasWork).selected queue = some k ∧
      (select hasWork).next queue = l₂ ++ l₁ ++ [k] ∧ ∀ j ∈ l₁, hasWork j = false := by
  simp only [selected, next]
  cases hnext : nextWorkQueue queue hasWork with
  | none => exact .inl ⟨rfl, rfl⟩
  | some r =>
    obtain ⟨k, queue'⟩ := r
    obtain ⟨l₁, l₂, hqueue, hr, -, hbefore⟩ := nextWorkQueue_split hnext
    exact .inr ⟨k, l₁, l₂, hqueue, rfl, hr, hbefore⟩

theorem next_nodup (h : queue.Nodup) (e : RotationEvent) : (e.next queue).Nodup := by
  cases e with
  | select hasWork =>
    obtain ⟨-, hnext⟩ | ⟨k, l₁, l₂, rfl, -, hnext, -⟩ := select_cases queue hasWork
    · rwa [hnext]
    · have hperm : (l₂ ++ l₁ ++ [k]).Perm (l₁ ++ k :: l₂) :=
        (List.perm_append_singleton k _).trans ((List.perm_append_comm.cons k).trans List.perm_middle.symm)
      rw [hnext, hperm.nodup_iff]
      exact h
  | create k =>
    simp only [next]
    split_ifs with hk
    · exact h
    · exact (List.perm_append_singleton k queue).nodup_iff.mpr (List.nodup_cons.mpr ⟨hk, h⟩)
  | destroy k => exact h.erase k

theorem ahead_of_selected (h : queue.Nodup) (hx : e.selected queue = some x) (hy : y ∈ e.next queue) (hne : y ≠ x) :
    Ahead y x (e.next queue) := by
  cases e with
  | create k | destroy k => cases hx
  | select hasWork =>
    obtain ⟨hnone, -⟩ | ⟨k, l₁, l₂, rfl, hk, hnext, -⟩ := select_cases queue hasWork
    · cases hnone.symm.trans hx
    · cases hk.symm.trans hx
      rw [hnext] at hy ⊢
      obtain ⟨a, b, hab⟩ := List.append_of_mem ((List.mem_append.mp hy).resolve_right (by simpa using hne))
      refine ⟨a, b ++ [x], by rw [hab, List.append_assoc, List.cons_append], fun hmem => ?_⟩
      have hnot : x ∉ l₁ ++ l₂ := (List.nodup_cons.mp (List.perm_middle.nodup_iff.mp h)).1
      exact hnot (List.perm_append_comm.mem_iff.mp (hab ▸ List.mem_append_left _ hmem))

theorem Ahead.step (h : Ahead y x queue) (hspares : e.Spares y) (hno : e.selected queue ≠ some y) :
    Ahead y x (e.next queue) ∧ e.selected queue ≠ some x := by
  obtain ⟨l₁, l₂, rfl, hx⟩ := h
  cases e with
  | create k =>
    simp only [next]
    split_ifs
    · exact ⟨⟨l₁, l₂, rfl, hx⟩, nofun⟩
    · exact ⟨⟨l₁, l₂ ++ [k], List.append_assoc _ _ _, hx⟩, nofun⟩
  | destroy k =>
    refine ⟨?_, nofun⟩
    by_cases hk : k ∈ l₁
    · exact ⟨l₁.erase k, l₂, List.erase_append_left _ hk, fun hmem => hx (List.mem_of_mem_erase hmem)⟩
    · refine ⟨l₁, l₂.erase k, (List.erase_append_right _ hk).trans ?_, hx⟩
      rw [List.erase_cons_tail (by simpa using Ne.symm hspares)]
  | select hasWork =>
    obtain ⟨hnone, hnext⟩ | ⟨k, l₃, l₄, hsplit, hk, hnext, hbefore⟩ := select_cases (l₁ ++ y :: l₂) hasWork
    · rw [hnone, hnext]
      exact ⟨⟨l₁, l₂, rfl, hx⟩, nofun⟩
    rw [hk] at hno ⊢
    rw [hnext]
    obtain ⟨m, rfl, hm⟩ | ⟨m, rfl, hm⟩ := List.append_eq_append_iff.mp hsplit
    · -- `y` would be among those without work, or the one that is selected
      obtain - | ⟨z, m⟩ := m
      · exact absurd (congrArg some (List.cons.inj hm).1.symm) hno
      · obtain ⟨rfl, -⟩ := List.cons.inj hm
        have hfalse := hbefore y (List.mem_append_right l₁ List.mem_cons_self)
        exact absurd (hfalse.symm.trans hspares) Bool.false_ne_true
    · obtain - | ⟨z, m⟩ := m
      · exact absurd (congrArg some (List.cons.inj hm).1) hno
      · obtain ⟨rfl, rfl⟩ := List.cons.inj hm
        refine ⟨⟨m, l₂ ++ l₃ ++ [k], by simp, fun hmem => hx ?_⟩, fun heq => hx ?_⟩
        · exact List.mem_append_right l₃ (List.mem_cons_of_mem k hmem)
        · exact Option.some.inj heq ▸ List.mem_append_right l₃ List.mem_cons_self

theorem Ahead.run {last : RotationEvent} {es : List RotationEvent} (h : Ahead y x queue) (hne : y ≠ x)
    (hspares : ∀ e ∈ es ++ [last], e.Spares y) (hlast : last.selected (es.foldl next queue) = some x) :
    ∃ v ∈ steps queue es, v.2.selected v.1 = some y := by
  induction es generalizing queue with
  | nil =>
    have hno : last.selected queue ≠ some y := fun hy => hne (Option.some.inj (hy.symm.trans hlast))
    exact absurd hlast (h.step (hspares last List.mem_cons_self) hno).2
  | cons e es ih =>
    by_cases hy : e.selected queue = some y
    · exact ⟨(queue, e), List.mem_cons_self, hy⟩
    · obtain ⟨v, hv, hsel⟩ := ih (h.step (hspares e List.mem_cons_self) hy).1
        (fun e' he' => hspares e' (List.mem_cons_of_mem e he')) hlast
      exact ⟨v, List.mem_cons_of_mem _ hv, hsel⟩

/-- Between two selections of a context every other one that stays attached and has work is selected. -/
theorem other_selected_between (before between : List RotationEvent) {first last : RotationEvent} (hne : y ≠ x)
    (hqueue : before.foldl next [] = queue) (hfirst : first.selected queue = some x)
    (hattached : y ∈ first.next queue) (hspares : ∀ e ∈ between ++ [last], e.Spares y)
    (hlast : last.selected (between.foldl next (first.next queue)) = some x) :
    ∃ v ∈ steps (first.next queue) between, v.2.selected v.1 = some y := by
  have hnodup : queue.Nodup := by
    rw [← hqueue]
    exact List.foldlRecOn before next List.nodup_nil fun q hq e _ => next_nodup hq e
  exact (ahead_of_selected hnodup hfirst hattached hne).run hne hspares hlast

/-- Context 1 is selected between two selections of context 0, while a third one comes and goes. -/
theorem other_selected_between_two : ∃ v ∈ steps [1, 0] [create 2, select fun _ => true, destroy 2],
    v.2.selected v.1 = some 1 := by
  have hspares : ∀ e ∈ [create 2, select fun _ => true, destroy 2] ++ [select fun _ => true], Spares 1 e := by
    simp [Spares]
  have hfirst : (select fun _ => true).selected [0, 1] = some 0 := rfl
  exact other_selected_between [create 0, create 1] _ (by decide) rfl hfirst (by decide) hspares rfl

end Amlogic.Ge2d.RotationEvent
