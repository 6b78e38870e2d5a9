import Amlogic.Ge2d.Lifetime
import Amlogic.Ge2d.Proofs.QueueRunProofs

/-!
# GE2D: no context is used after it has been freed

The worker may hold a context that has been unlinked. While it does, the call that destroys the context has to
wait; it does so if it finds the worker at work, and if the completion it receives is its own.
-/

namespace Amlogic.Ge2d

def Object.owner : Object → Nat
  | .context k | .item k _ => k

/-- The context that the worker has selected and not finished with. -/
def WorkerAt.holds : WorkerAt → Option Nat
  | .found next => next
  | .entered k | .tested k | .running k | .programming k _ | .ran k _ | .cleaning k _ _ | .leaving k
  | .exiting k => some k
  | .waiting | .scanning | .completing _ | .idling _ => none

/-- The context that the worker has selected and that it has not reported as running yet. -/
def WorkerAt.early : WorkerAt → Option Nat
  | .found next => next
  | .entered k | .tested k => some k
  | _ => none

/-- A call looks at the worker when the worker is not between selecting the context and reporting it as running,
and waits for it when no other call waits; a wait does not expire before the worker has finished with the
context. -/
def LifeEvent.Fair (s : Lifetime) : LifeEvent → Prop
  | .destroy k => (s.context k).destroy = .unlinked → s.worker.early ≠ some k ∧
      (s.isCurrent k → ∀ k' < s.created, (s.context k').destroy ≠ .requested)
  | .expire k => s.worker.holds ≠ some k ∧ s.worker ≠ .completing k
  | .create | .submit _ | .work => True

instance LifeEvent.decidableFair (s : Lifetime) : ∀ e : LifeEvent, Decidable (e.Fair s)
  | .destroy _ => inferInstanceAs (Decidable (_ → _))
  | .expire _ => inferInstanceAs (Decidable (_ ∧ _))
  | .create | .submit _ | .work => .isTrue trivial

namespace Lifetime

structure Inv (s : Lifetime) : Prop where
  fresh : ∀ k, s.created ≤ k → s.context k = {}
  linked : ∀ k ∈ s.processQueue,
    k < s.created ∧ (s.context k).destroy = .notCalled ∧ (s.context k).ge2dRequestExit = false
  current : ∀ k, s.worker.holds = some k → s.worker = .found (some k) ∨ s.currentWq = some k
  busy : ∀ k, s.worker.holds = some k → s.worker.early = some k ∨ s.running = true
  held : ∀ k, s.worker.holds = some k → k < s.created
  away : ∀ k, s.worker.holds = some k →
    (s.context k).destroy = .notCalled ∨ (s.context k).destroy = .unlinked ∨ (s.context k).destroy = .requested
  early : ∀ k, (s.context k).destroy = .requested → s.worker.early ≠ some k
  exit : ∀ k, (s.context k).ge2dRequestExit = true → s.worker.holds = some k → (s.context k).destroy = .requested
  single : ∀ k k', (s.context k).destroy = .requested → (s.context k').destroy = .requested → k = k'
  completed : s.processComplete ≠ 0 → ∃ k, (s.context k).destroy = .requested ∧ s.worker.holds ≠ some k
  atMostOne : s.processComplete ≤ 1
  completing : ∀ k, s.worker = .completing k → s.processComplete = 0 ∧ (s.context k).destroy = .requested
  freed : ∀ o ∈ s.freed, (s.context o.owner).destroy = .freeing ∨ (s.context o.owner).destroy = .done

variable {s s' : Lifetime} {k : Nat} {c : LifeContext}

@[simp] theorem setContext_self : (s.setContext k c).context k = c := if_pos rfl

theorem setContext_of_ne {k' : Nat} (h : k' ≠ k) : (s.setContext k c).context k' = s.context k' := if_neg h

theorem uses_held {o : Object} (ho : o ∈ s.uses) :
    o.owner ∈ s.processQueue ∨ s.worker.holds = some o.owner := by
  unfold uses at ho
  cases hw : s.worker with
  | scanning =>
    rw [hw] at ho
    obtain ⟨k, hk, rfl⟩ := List.mem_map.mp ho
    exact .inl hk
  | entered k | exiting k | programming k i | cleaning k i next =>
    rw [hw] at ho
    obtain rfl := List.mem_singleton.mp ho
    exact .inr rfl
  | ran k i =>
    rw [hw] at ho
    rcases List.mem_cons.mp ho with rfl | ho
    · exact .inr rfl
    · obtain rfl := List.mem_singleton.mp ho
      exact .inr rfl
  | running k =>
    rw [hw] at ho
    rcases List.mem_cons.mp ho with rfl | ho
    · exact .inr rfl
    · split_ifs at ho with hlast
      · cases ho
      · obtain ⟨i, -, rfl⟩ := List.mem_map.mp ho
        exact .inr rfl
  | waiting | found next | tested k | leaving k | completing k | idling k =>
    rw [hw] at ho
    cases ho

theorem init_inv : ({} : Lifetime).Inv where
  fresh _ _ := rfl
  linked := nofun
  current := nofun
  busy := nofun
  held := nofun
  away := nofun
  early := nofun
  exit := nofun
  single := nofun
  completed hne := absurd rfl hne
  atMostOne := Nat.zero_le _
  completing := nofun
  freed := nofun

/-! ## Steps of the worker -/

structure SameCalls (s s' : Lifetime) : Prop where
  created : s'.created = s.created
  processQueue : ∀ k, k ∈ s'.processQueue ↔ k ∈ s.processQueue
  fresh : ∀ k, s.created ≤ k → s'.context k = s.context k
  destroy : ∀ k, (s'.context k).destroy = (s.context k).destroy
  requestExit : ∀ k, (s'.context k).ge2dRequestExit = (s.context k).ge2dRequestExit
  freed : s'.freed = s.freed

theorem sameCalls_setContext {worker : WorkerAt} {sem : Nat} (hk : k < s.created) (hd : c.destroy = (s.context k).destroy)
    (hx : c.ge2dRequestExit = (s.context k).ge2dRequestExit) :
    s.SameCalls { s.setContext k c with worker, cmdInSem := sem } := by
  refine ⟨rfl, fun _ => Iff.rfl, ?_, ?_, ?_, rfl⟩
  · intro k' hk'
    exact setContext_of_ne (Nat.ne_of_gt (Nat.lt_of_lt_of_le hk hk'))
  · intro k'
    by_cases hne : k' = k
    · rw [hne, setContext_self, hd]
    · rw [setContext_of_ne hne]
  · intro k'
    by_cases hne : k' = k
    · rw [hne, setContext_self, hx]
    · rw [setContext_of_ne hne]

section

variable (h : s.Inv)
include h

theorem Inv.moveOn (hsame : s.SameCalls s')
    (hholds : ∀ k, s'.worker.holds = some k → s.worker.holds = some k ∨ k ∈ s.processQueue)
    (hearly : ∀ k, s'.worker.early = some k → s.worker.early = some k ∨ k ∈ s.processQueue)
    (hcurrent : ∀ k, s'.worker.holds = some k → s'.worker = .found (some k) ∨ s'.currentWq = some k)
    (hbusy : ∀ k, s'.worker.holds = some k → s'.worker.early = some k ∨ s'.running = true)
    (hcompleting : ∀ k, s'.worker = .completing k →
      s.processComplete = 0 ∧ (s.context k).destroy = .requested)
    (hcomplete : s'.processComplete = s.processComplete) : s'.Inv := by
  -- a call that waits is for no linked context
  have hnot : ∀ k, (s.context k).destroy = .requested → k ∉ s.processQueue := by
    intro k hd hk
    rw [(h.linked k hk).2.1] at hd
    cases hd
  refine ⟨?_, ?_, hcurrent, hbusy, ?_, ?_, ?_, ?_, ?_, ?_, ?_, ?_, ?_⟩
  · intro k hk
    rw [hsame.created] at hk
    rw [hsame.fresh k hk]
    exact h.fresh k hk
  · intro k hk
    rw [hsame.created, hsame.destroy, hsame.requestExit]
    exact h.linked k ((hsame.processQueue k).mp hk)
  · intro k hk
    rw [hsame.created]
    rcases hholds k hk with hold | hlinked
    · exact h.held k hold
    · exact (h.linked k hlinked).1
  · intro k hk
    rw [hsame.destroy]
    rcases hholds k hk with hold | hlinked
    · exact h.away k hold
    · exact .inl (h.linked k hlinked).2.1
  · intro k hd hk
    rw [hsame.destroy] at hd
    rcases hearly k hk with hold | hlinked
    · exact h.early k hd hold
    · exact hnot k hd hlinked
  · intro k hx hk
    rw [hsame.requestExit] at hx
    rw [hsame.destroy]
    rcases hholds k hk with hold | hlinked
    · exact h.exit k hx hold
    · rw [(h.linked k hlinked).2.2] at hx
      cases hx
  · intro k k' hd hd'
    rw [hsame.destroy] at hd hd'
    exact h.single k k' hd hd'
  · intro hne
    rw [hcomplete] at hne
    obtain ⟨k, hd, hk⟩ := h.completed hne
    refine ⟨k, (hsame.destroy k).trans hd, fun hk' => ?_⟩
    rcases hholds k hk' with hold | hlinked
    · exact hk hold
    · exact hnot k hd hlinked
  · rw [hcomplete]
    exact h.atMostOne
  · intro k hk
    rw [hcomplete, hsame.destroy]
    exact hcompleting k hk
  · intro o ho
    rw [hsame.freed] at ho
    rw [hsame.destroy]
    exact h.freed o ho

theorem Inv.goOn (hsame : s.SameCalls s') (hholds : ∀ k, s'.worker.holds = some k → s.worker.holds = some k)
    (hlate : s.worker.early = none) (hlate' : s'.worker.early = none) (hcurrent : s'.currentWq = s.currentWq)
    (hrunning : ∀ k, s'.worker.holds = some k → s'.running = s.running)
    (hcompleting : ∀ k, s'.worker = .completing k → s.processComplete = 0 ∧ (s.context k).destroy = .requested)
    (hcomplete : s'.processComplete = s.processComplete) : s'.Inv := by
  refine h.moveOn hsame (fun k hk => .inl (hholds k hk)) ?_ ?_ ?_ hcompleting hcomplete
  · intro k hk
    rw [hlate'] at hk
    cases hk
  · intro k hk
    rcases h.current k (hholds k hk) with hw | hc
    · rw [hw] at hlate
      cases hlate
    · exact .inr (hcurrent.trans hc)
  · intro k hk
    rcases h.busy k (hholds k hk) with hw | hr
    · rw [hlate] at hw
      cases hw
    · exact .inr ((hrunning k hk).trans hr)

theorem Inv.work (hstep : s.work = some s') : s'.Inv := by
  have hid : ∀ {s' : Lifetime}, s'.created = s.created → s'.processQueue = s.processQueue →
      s'.context = s.context → s'.freed = s.freed → s.SameCalls s' := by
    intro s' h1 h2 h3 h4
    exact ⟨h1, fun k => by rw [h2], fun k _ => by rw [h3], fun k => by rw [h3], fun k => by rw [h3], h4⟩
  unfold Lifetime.work at hstep
  obtain ⟨created, context, processQueue, currentWq, lastWq, running, cmdInSem, processComplete, worker, freed⟩ := s
  cases worker with
  | waiting =>
    dsimp only at hstep
    split_ifs at hstep
    cases hstep
    exact h.moveOn (hid rfl rfl rfl rfl) nofun nofun nofun nofun nofun rfl
  | scanning =>
    dsimp only at hstep
    cases hnext : nextWorkQueue processQueue fun k => !(context k).workQueue.isEmpty with
    | none =>
      rw [hnext] at hstep
      cases hstep
      exact h.moveOn (hid rfl rfl rfl rfl) nofun nofun nofun nofun nofun rfl
    | some r =>
      obtain ⟨k, queue⟩ := r
      rw [hnext] at hstep
      cases hstep
      obtain ⟨hk, -, hqueue⟩ := nextWorkQueue_some hnext
      refine h.moveOn ⟨rfl, hqueue, fun _ _ => rfl, fun _ => rfl, fun _ => rfl, rfl⟩ ?_ ?_ ?_ (fun _ => .inl) nofun rfl
      · rintro k' ⟨⟩
        exact .inr hk
      · rintro k' ⟨⟩
        exact .inr hk
      · rintro k' ⟨⟩
        exact .inl rfl
  | found next =>
    cases next with
    | none =>
      cases hstep
      exact h.moveOn (hid rfl rfl rfl rfl) nofun nofun nofun nofun nofun rfl
    | some k =>
      cases hstep
      exact h.moveOn (hid rfl rfl rfl rfl) (fun _ => .inl) (fun _ => .inl) (fun _ => .inr) (fun _ => .inl) nofun rfl
  | entered k =>
    -- no call waits for a context whose processing has not been reported
    have hx : (context k).ge2dRequestExit = false := by
      by_contra hx
      exact h.early k (h.exit k (by simpa using hx) rfl) rfl
    cases hstep
    rw [hx]
    exact h.moveOn (hid rfl rfl rfl rfl) (fun _ => .inl) (fun _ => .inl)
      (fun k' hk' => .inr ((h.current k' hk').resolve_left nofun)) (fun _ => .inl) nofun rfl
  | tested k =>
    cases hstep
    exact h.moveOn (hid rfl rfl rfl rfl) (fun _ => .inl) nofun
      (fun k' hk' => .inr ((h.current k' hk').resolve_left nofun)) (fun _ _ => .inr rfl) nofun rfl
  | running k =>
    dsimp only at hstep
    split at hstep <;> cases hstep <;>
      exact h.goOn (hid rfl rfl rfl rfl) (fun _ => id) rfl rfl rfl (fun _ _ => rfl) nofun rfl
  | programming k i | leaving k =>
    cases hstep
    exact h.goOn (hid rfl rfl rfl rfl) (fun _ => id) rfl rfl rfl (fun _ _ => rfl) nofun rfl
  | ran k i =>
    cases hstep
    exact h.goOn (sameCalls_setContext (h.held k rfl) rfl rfl) (fun _ => id) rfl rfl rfl (fun _ _ => rfl) nofun rfl
  | cleaning k i next =>
    cases next <;> cases hstep <;>
      exact h.goOn (hid rfl rfl rfl rfl) (fun _ => id) rfl rfl rfl (fun _ _ => rfl) nofun rfl
  | exiting k =>
    dsimp only at hstep
    cases hx : (context k).ge2dRequestExit with
    | false =>
      rw [hx] at hstep
      cases hstep
      exact h.goOn (hid rfl rfl rfl rfl) nofun rfl rfl rfl (fun _ _ => rfl) nofun rfl
    | true =>
      rw [hx] at hstep
      cases hstep
      have hd := h.exit k hx rfl
      refine h.goOn (hid rfl rfl rfl rfl) nofun rfl rfl rfl (fun _ _ => rfl) ?_ rfl
      rintro k' ⟨⟩
      refine ⟨?_, hd⟩
      by_contra hne
      obtain ⟨k', hd', hk'⟩ := h.completed hne
      rw [h.single k' k hd' hd] at hk'
      exact hk' rfl
  | completing k =>
    cases hstep
    obtain ⟨hzero, hd⟩ := h.completing k rfl
    have hidle : Inv ⟨created, context, processQueue, currentWq, lastWq, running, cmdInSem, processComplete,
      .idling k, freed⟩ := h.goOn (hid rfl rfl rfl rfl) nofun rfl rfl rfl (fun _ _ => rfl) nofun rfl
    exact { hidle with completed := fun _ => ⟨k, hd, nofun⟩, atMostOne := Nat.succ_le_succ hzero.le, completing := nofun }
  | idling k =>
    cases hstep
    exact h.goOn (hid rfl rfl rfl rfl) nofun rfl rfl rfl nofun nofun rfl

/-! ## Steps of a call -/

theorem Inv.call {d : Destroy} {queue : List Nat} {work free : List Nat} {exit : Bool} {count : Nat}
    {last : Option Nat} {freed : List Object} (hk : k < s.created)
    (hqueue : ∀ k' ∈ queue, k' ∈ s.processQueue ∧ k' ≠ k)
    (haway : s.worker.holds = some k → d = .unlinked ∨ d = .requested)
    (hexit : exit = true → s.worker.holds = some k → d = .requested)
    (hrequest : d = .requested → s.worker.early ≠ some k ∧ ∀ k', (s.context k').destroy ≠ .requested)
    (hwait : (s.context k).destroy = .requested → d ≠ .requested → count = 0 ∧ s.worker ≠ .completing k)
    (hcount : count ≤ s.processComplete)
    (hfreed : ∀ o ∈ freed, o ∈ s.freed ∧ o.owner ≠ k ∨ o.owner = k ∧ (d = .freeing ∨ d = .done)) :
    ({ s.setContext k ⟨work, free, exit, d⟩ with
      processQueue := queue, processComplete := count, lastWq := last, freed } : Lifetime).Inv := by
  -- a call that has waited does so no longer, and a call begins to wait only when there is none
  have hother : ∀ k', (s.context k').destroy = .requested →
      (k' = k → count = 0 ∧ s.worker ≠ .completing k) ∧ d ≠ .requested := by
    intro k' hd'
    have hd : d ≠ .requested := fun hd => (hrequest hd).2 k' hd'
    exact ⟨fun hk' => hwait (hk' ▸ hd') hd, hd⟩
  have hcontext : ∀ k', k' ≠ k → (s.setContext k ⟨work, free, exit, d⟩).context k' = s.context k' :=
    fun k' hne => setContext_of_ne hne
  have hself : (s.setContext k ⟨work, free, exit, d⟩).context k = ⟨work, free, exit, d⟩ := setContext_self
  refine ⟨?_, ?_, h.current, h.busy, h.held, ?_, ?_, ?_, ?_, ?_, Nat.le_trans hcount h.atMostOne, ?_, ?_⟩
  · intro k' hk'
    exact (hcontext k' (Nat.ne_of_gt (Nat.lt_of_lt_of_le hk hk'))).trans (h.fresh k' hk')
  · intro k' hk'
    obtain ⟨hmem, hne⟩ := hqueue k' hk'
    rw [hcontext k' hne]
    exact h.linked k' hmem
  · intro k' hk'
    by_cases hne : k' = k
    · rw [hne, hself]
      exact .inr (haway (hne ▸ hk'))
    · rw [hcontext k' hne]
      exact h.away k' hk'
  · intro k' hd'
    by_cases hne : k' = k
    · rw [hne, hself] at hd'
      rw [hne]
      exact (hrequest hd').1
    · rw [hcontext k' hne] at hd'
      exact h.early k' hd'
  · intro k' hx hk'
    by_cases hne : k' = k
    · rw [hne, hself] at hx ⊢
      exact hexit hx (hne ▸ hk')
    · rw [hcontext k' hne] at hx ⊢
      exact h.exit k' hx hk'
  · intro k1 k2 h1 h2
    change ((s.setContext k _).context k1).destroy = _ at h1
    change ((s.setContext k _).context k2).destroy = _ at h2
    by_cases hne1 : k1 = k <;> by_cases hne2 : k2 = k
    · rw [hne1, hne2]
    · rw [hne1, hself] at h1
      rw [hcontext k2 hne2] at h2
      exact absurd h1 (hother k2 h2).2
    · rw [hne2, hself] at h2
      rw [hcontext k1 hne1] at h1
      exact absurd h2 (hother k1 h1).2
    · rw [hcontext k1 hne1] at h1
      rw [hcontext k2 hne2] at h2
      exact h.single k1 k2 h1 h2
  · intro hne
    obtain ⟨k', hd', hk'⟩ := h.completed fun hzero => hne (Nat.le_zero.mp (hzero ▸ hcount))
    have hne' : k' ≠ k := fun heq => hne ((hother k' hd').1 heq).1
    exact ⟨k', (congrArg LifeContext.destroy (hcontext k' hne')).trans hd', hk'⟩
  · intro k' hw
    obtain ⟨hzero, hd'⟩ := h.completing k' hw
    have hne' : k' ≠ k := fun heq => ((hother k' hd').1 heq).2 (heq ▸ hw)
    exact ⟨Nat.le_zero.mp (hzero ▸ hcount), (congrArg LifeContext.destroy (hcontext k' hne')).trans hd'⟩
  · intro o ho
    show ((s.setContext k _).context o.owner).destroy = _ ∨ ((s.setContext k _).context o.owner).destroy = _
    rcases hfreed o ho with ⟨hold, hne⟩ | ⟨heq, hd⟩
    · rw [hcontext _ hne]
      exact h.freed o hold
    · rw [heq, hself]
      exact hd

theorem Inv.freed_others (hd : (s.context k).destroy ≠ .freeing ∧ (s.context k).destroy ≠ .done)
    {o : Object} (ho : o ∈ s.freed) : o.owner ≠ k := by
  intro heq
  have hgone := h.freed o ho
  rw [heq] at hgone
  exact hgone.elim hd.1 hd.2

theorem Inv.created_of_called (hd : (s.context k).destroy ≠ .notCalled) : k < s.created := by
  by_contra hk
  rw [h.fresh k (Nat.le_of_not_lt hk)] at hd
  exact hd rfl

theorem Inv.linked_others (hd : (s.context k).destroy ≠ .notCalled) :
    ∀ k' ∈ s.processQueue, k' ∈ s.processQueue ∧ k' ≠ k := by
  intro k' hk'
  refine ⟨hk', ?_⟩
  rintro rfl
  exact hd (h.linked k' hk').2.1

theorem Inv.finished (hd : (s.context k).destroy = .requested) (hcount : s.processComplete ≠ 0) :
    s.worker.holds ≠ some k ∧ s.worker ≠ .completing k := by
  obtain ⟨k', hd', hk'⟩ := h.completed hcount
  rw [h.single k' k hd' hd] at hk'
  exact ⟨hk', fun hw => hcount (h.completing k hw).1⟩

theorem Inv.freeNext (hd : (s.context k).destroy = .freeing) : (s.freeNext k).Inv := by
  have hk := h.created_of_called (k := k) (by rw [hd]; nofun)
  have hlinked := h.linked_others (k := k) (by rw [hd]; nofun)
  have hholds : s.worker.holds ≠ some k := by
    intro hw
    rcases h.away k hw with h' | h' | h' <;> rw [hd] at h' <;> cases h'
  have hcall : ∀ {work free : List Nat} {d : Destroy} {o : Object}, d = .freeing ∨ d = .done → o.owner = k →
      ({ s.setContext k ⟨work, free, (s.context k).ge2dRequestExit, d⟩ with freed := o :: s.freed } : Lifetime).Inv := by
    intro work free d o hd' ho
    refine h.call hk hlinked (fun hw => absurd hw hholds) (fun _ hw => absurd hw hholds) ?_ ?_ (Nat.le_refl _) ?_
    · rintro rfl
      rcases hd' with hd' | hd' <;> cases hd'
    · intro hr
      rw [hd] at hr
      cases hr
    · intro o' ho'
      rcases List.mem_cons.mp ho' with rfl | hold
      · exact .inr ⟨ho, hd'⟩
      · by_cases heq : o'.owner = k
        · exact .inr ⟨heq, hd'⟩
        · exact .inl ⟨hold, heq⟩
  unfold Lifetime.freeNext
  dsimp only
  split
  · exact hcall (.inl hd) rfl
  · exact hcall (.inl hd) rfl
  · exact hcall (.inr rfl) rfl

theorem Inv.leave {d : Destroy} {count : Nat} {last : Option Nat}
    (hat : (s.context k).destroy ∈ [Destroy.unlinked, .requested, .waited]) (hd : d ≠ .requested)
    (hholds : s.worker.holds ≠ some k)
    (hwait : (s.context k).destroy = .requested → count = 0 ∧ s.worker ≠ .completing k)
    (hcount : count ≤ s.processComplete) : ({ s.setContext k { s.context k with destroy := d } with
      processComplete := count, lastWq := last } : Lifetime).Inv := by
  have hcalled : (s.context k).destroy ≠ .notCalled := fun h => by simp [h] at hat
  have hkept : (s.context k).destroy ≠ .freeing ∧ (s.context k).destroy ≠ .done :=
    ⟨fun h => by simp [h] at hat, fun h => by simp [h] at hat⟩
  exact h.call (h.created_of_called hcalled) (h.linked_others hcalled) (fun hw => absurd hw hholds)
    (fun _ hw => absurd hw hholds) (fun h => absurd h hd) (fun hr _ => hwait hr) hcount
    fun o ho => .inl ⟨ho, h.freed_others hkept ho⟩

theorem Inv.destroy (hfair : (s.context k).destroy = .unlinked → s.worker.early ≠ some k ∧
      (s.isCurrent k → ∀ k' < s.created, (s.context k').destroy ≠ .requested))
    (hstep : s.destroy k = some s') : s'.Inv := by
  unfold Lifetime.destroy at hstep
  dsimp only at hstep
  cases hd : (s.context k).destroy with
  | notCalled =>
    rw [hd] at hstep
    dsimp only at hstep
    split_ifs at hstep with hk
    cases hstep
    obtain ⟨hcreated, -, hx⟩ := h.linked k hk
    refine h.call hcreated ?_ (fun _ => .inl rfl) ?_ nofun ?_ (Nat.le_refl _) ?_
    · intro k' hk'
      obtain ⟨hmem, hne⟩ := List.mem_filter.mp hk'
      exact ⟨hmem, of_decide_eq_true hne⟩
    · intro hx'
      rw [hx] at hx'
      cases hx'
    · intro hr
      rw [hd] at hr
      cases hr
    · intro o ho
      exact .inl ⟨ho, h.freed_others (by rw [hd]; exact ⟨nofun, nofun⟩) ho⟩
  | unlinked =>
    rw [hd] at hstep
    obtain ⟨hearly, hnone⟩ := hfair hd
    dsimp only at hstep
    split_ifs at hstep with hcurrent
    · cases hstep
      refine h.call (h.created_of_called (by rw [hd]; nofun)) (h.linked_others (by rw [hd]; nofun))
        (fun _ => .inr rfl) (fun _ _ => rfl) ?_ (fun _ hne => absurd rfl hne) (Nat.le_refl _)
        fun o ho => .inl ⟨ho, h.freed_others (by rw [hd]; exact ⟨nofun, nofun⟩) ho⟩
      intro _
      refine ⟨hearly, fun k' hd' => ?_⟩
      exact hnone hcurrent k' (h.created_of_called (by rw [hd']; nofun)) hd'
    · cases hstep
      -- had the worker been at the context, it would have been found there
      have hholds : s.worker.holds ≠ some k := by
        intro hw
        refine hcurrent ⟨(h.current k hw).resolve_left fun hf => hearly ?_, (h.busy k hw).resolve_left hearly⟩
        rw [hf]
        rfl
      exact h.leave (by rw [hd]; decide) nofun hholds (fun hr => by rw [hd] at hr; cases hr) (Nat.le_refl _)
  | requested =>
    rw [hd] at hstep
    dsimp only at hstep
    split_ifs at hstep with hzero
    cases hstep
    obtain ⟨hholds, hcompleting⟩ := h.finished hd hzero
    exact h.leave (by rw [hd]; decide) nofun hholds (fun _ => ⟨Nat.sub_eq_zero_of_le h.atMostOne, hcompleting⟩)
      (Nat.sub_le _ _)
  | waited =>
    rw [hd] at hstep
    cases hstep
    have hholds : s.worker.holds ≠ some k := by
      intro hw
      rcases h.away k hw with h' | h' | h' <;> rw [hd] at h' <;> cases h'
    exact h.leave (by rw [hd]; decide) nofun hholds (fun hr => by rw [hd] at hr; cases hr) (Nat.le_refl _)
  | freeing =>
    rw [hd] at hstep
    cases hstep
    exact h.freeNext hd
  | done =>
    rw [hd] at hstep
    cases hstep

/-! ## Runs -/

theorem Inv.create : ({ s.setContext s.created {} with
    created := s.created + 1, processQueue := s.processQueue ++ [s.created] } : Lifetime).Inv := by
  -- the context is as it was: nobody has used its number
  have hcontext : (s.setContext s.created {}).context = s.context := by
    funext k
    by_cases hk : k = s.created
    · rw [hk, setContext_self, h.fresh _ (Nat.le_refl _)]
    · exact setContext_of_ne hk
  have hstate : s.setContext s.created {} = s := congrArg (fun context => { s with context }) hcontext
  rw [hstate]
  refine { h with fresh := ?_, linked := ?_, held := ?_ }
  · intro k hk
    exact h.fresh k (Nat.le_of_succ_le hk)
  · intro k hk
    rcases List.mem_append.mp hk with hk | hk
    · obtain ⟨hlt, hrest⟩ := h.linked k hk
      exact ⟨Nat.lt_succ_of_lt hlt, hrest⟩
    · obtain rfl := List.mem_singleton.mp hk
      rw [h.fresh _ (Nat.le_refl _)]
      exact ⟨Nat.lt_succ_self _, rfl, rfl⟩
  · intro k hk
    exact Nat.lt_succ_of_lt (h.held k hk)

theorem Inv.submit (hk : k < s.created) {work free : List Nat} {sem : Nat} :
    ({ s.setContext k { s.context k with workQueue := work, freeQueue := free } with cmdInSem := sem } : Lifetime).Inv := by
  exact h.moveOn (sameCalls_setContext hk rfl rfl) (fun _ => .inl) (fun _ => .inl) h.current h.busy h.completing rfl

theorem Inv.step {e : LifeEvent} (hfair : e.Fair s) (hstep : e.Step s s') : s'.Inv := by
  unfold LifeEvent.Step at hstep
  cases e with
  | create =>
    cases hstep
    exact h.create
  | submit k =>
    unfold LifeEvent.next at hstep
    dsimp only at hstep
    by_cases hk : k < s.created
    · rw [if_pos hk] at hstep
      split at hstep
      · cases hstep
      · cases hstep
        exact h.submit hk
    · rw [if_neg hk] at hstep
      cases hstep
  | work => exact h.work hstep
  | destroy k => exact h.destroy hfair hstep
  | expire k =>
    unfold LifeEvent.next Lifetime.expire at hstep
    dsimp only at hstep
    split_ifs at hstep with hd
    cases hstep
    obtain ⟨hd, hzero⟩ := hd
    exact h.leave (by rw [hd]; decide) nofun hfair.1 (fun _ => ⟨hzero, hfair.2⟩) (Nat.le_refl _)

end

end Lifetime

/-- In a run of fair steps the worker uses nothing that has been freed. -/
theorem worker_uses_nothing_freed {s : Lifetime} (hrun : Runs LifeEvent.Step LifeEvent.Fair {} s) :
    ∀ o ∈ s.uses, o ∉ s.freed := by
  have hinv : s.Inv := Runs.keeps (fun h hfair hstep => Lifetime.Inv.step h hfair hstep) hrun Lifetime.init_inv
  intro o ho hfreed
  have hgone := hinv.freed o hfreed
  rcases Lifetime.uses_held ho with hlinked | hholds
  · rw [(hinv.linked _ hlinked).2.1] at hgone
    rcases hgone with hgone | hgone <;> cases hgone
  · rcases hinv.away _ hholds with hd | hd | hd <;> rw [hd] at hgone <;> rcases hgone with hgone | hgone <;>
      cases hgone

/-- A context is destroyed while the worker is at its item; the worker goes on with the next context. -/
theorem worker_uses_nothing_freed_waiting : ∃ s : Lifetime, Runs LifeEvent.Step LifeEvent.Fair {} s ∧
    Object.context 0 ∈ s.freed ∧ Object.context 1 ∈ s.uses ∧ ∀ o ∈ s.uses, o ∉ s.freed := by
  have hplay : (([.create, .create, .submit 0] ++ List.replicate 6 .work ++ [.destroy 0, .destroy 0] ++
      List.replicate 6 .work ++ List.replicate 35 (.destroy 0) ++ [.submit 1, .work] : List LifeEvent).foldlM
      (guarded LifeEvent.Fair LifeEvent.next) {}).any
      (fun s => decide (Object.context 0 ∈ s.freed ∧ Object.context 1 ∈ s.uses)) = true := by
    decide +kernel
  obtain ⟨s, hrun, hs⟩ : ∃ s, Runs LifeEvent.Step LifeEvent.Fair {} s ∧ _ := Runs.of_guarded hplay id
  obtain ⟨hfreed, huses⟩ := of_decide_eq_true hs
  exact ⟨s, hrun, hfreed, huses, worker_uses_nothing_freed hrun⟩

/-- A context is destroyed right after the worker has selected it: the call does not find the worker at it and frees
it. -/
theorem worker_uses_freed : ¬ ∀ s : Lifetime, Runs LifeEvent.Step (fun _ _ => True) {} s →
    ∀ o ∈ s.uses, o ∉ s.freed := by
  intro hall
  have hplay : (([.create, .submit 0, .work, .work] ++ List.replicate 35 (.destroy 0) ++ [.work] :
      List LifeEvent).foldlM LifeEvent.next {}).any
      (fun s => decide (Object.context 0 ∈ s.uses ∧ Object.context 0 ∈ s.freed)) = true := by
    decide +kernel
  have hnext : ∀ {s s' : Lifetime} {e : LifeEvent}, e.next s = some s' → True ∧ e.Step s s' :=
    fun h => ⟨trivial, h⟩
  obtain ⟨s, hrun, hs⟩ := Runs.of_play hplay hnext
  obtain ⟨huses, hfreed⟩ := of_decide_eq_true hs
  exact hall s hrun _ huses hfreed

end Amlogic.Ge2d
