import Amlogic.Ge2d.Proofs.QueueProofs

/-!
# GE2D queues over whole runs

The invariants of all contexts together, and that no queued command is forgotten: when the worker sleeps and the
semaphore is down, a submitter that has queued something is still to raise it.
-/

namespace Amlogic.Ge2d

open QueueContext QueueSystem

open QueueContext (Settled)

/-! ## Selecting a context -/

variable {queue contexts : List Nat} {hasWork : Nat → Bool} {worker : WorkerState}

theorem nextWorkQueue_split {queue' : List Nat} {k : Nat} (hnext : nextWorkQueue queue hasWork = some (k, queue')) :
    ∃ l₁ l₂, queue = l₁ ++ k :: l₂ ∧ queue' = l₂ ++ l₁ ++ [k] ∧ hasWork k = true ∧ ∀ j ∈ l₁, hasWork j = false := by
  unfold nextWorkQueue at hnext
  cases hf : queue.find? hasWork with
  | none => rw [hf] at hnext; cases hnext
  | some j =>
    rw [hf] at hnext
    cases hnext
    obtain ⟨hwork, l₁, l₂, rfl, hbefore⟩ := List.find?_eq_some_iff_append.mp hf
    have hne : ∀ i ∈ l₁, decide (i ≠ k) = true := by
      intro i hi
      refine decide_eq_true fun heq => ?_
      simpa [heq, hwork] using hbefore i hi
    refine ⟨l₁, l₂, rfl, ?_, hwork, fun i hi => by simpa using hbefore i hi⟩
    rw [List.dropWhile_append_of_pos hne, List.takeWhile_append_of_pos hne]
    simp

theorem nextWorkQueue_some {queue' : List Nat} {k : Nat} (hnext : nextWorkQueue queue hasWork = some (k, queue')) :
    k ∈ queue ∧ hasWork k = true ∧ ∀ k', k' ∈ queue' ↔ k' ∈ queue := by
  obtain ⟨l₁, l₂, rfl, rfl, hwork, -⟩ := nextWorkQueue_split hnext
  refine ⟨List.mem_append_right l₁ List.mem_cons_self, hwork, fun k' => ?_⟩
  simp only [List.mem_append, List.mem_cons, List.not_mem_nil, or_false]
  tauto

theorem nextWorkQueue_none (hnext : nextWorkQueue queue hasWork = none)
    {k : Nat} (hk : k ∈ queue) : hasWork k = false := by
  unfold nextWorkQueue at hnext
  cases hf : queue.find? hasWork with
  | some j => rw [hf] at hnext; cases hnext
  | none => exact Bool.eq_false_iff.mpr (List.find?_eq_none.mp hf k hk)

/-! ## The property -/

def Submitter.takes : Submitter → Option Nat
  | .itemTaken _ i | .cmdCopied _ i | .cmdCleared _ i | .configCopied _ i | .flagCleared _ i => some i
  | _ => none

def QueueSystem.phaseAt (s : QueueSystem) (k : Nat) : Option Phase :=
  match s.worker with
  | .processing k' phase => if k' = k then some phase else none
  | _ => none

/-- A submission starts when no other is under way in its context, and takes no item that is being cleaned up. -/
def QueueEvent.Fair (s : QueueSystem) : QueueEvent → Prop
  | .prepare k _ _ => ∀ th, ¬ ((s.context k).submitter th).Busy
  | .submit k th => ∀ o, (s.context k).submitter th = .spaceFound o →
      ∀ i, (s.context k).freeQueue.head? = some i → Settled (s.phaseAt k) i
  | .work => True

namespace QueueSystem

structure Inv (s : QueueSystem) : Prop where
  contexts : ∀ k, (s.context k).Inv (s.phaseAt k)
  absent : ∀ k, k ∉ s.processQueue →
    (s.context k).workQueue = [] ∧ ∀ th, ¬ ((s.context k).submitter th).Busy
  awake : ∀ k, (s.context k).workQueue ≠ [] → s.worker = .asleep → s.cmdInSem = 0 →
    ∃ k th i, (s.context k).submitter th = .queued i

variable {s s' : QueueSystem} {k th : Nat} {c : QueueContext}

@[simp] theorem setContext_self : (s.setContext k c).context k = c := if_pos rfl

theorem setContext_of_ne {k' : Nat} (h : k' ≠ k) : (s.setContext k c).context k' = s.context k' := if_neg h

theorem phaseAt_processing (phase : Phase) (h : s.worker = .processing k phase) : s.phaseAt k = some phase := by
  unfold phaseAt
  rw [h]
  exact if_pos rfl

theorem phaseAt_of_ne {k' : Nat} {phase : Phase} (h : s.worker = .processing k phase) (hne : k' ≠ k) :
    s.phaseAt k' = none := by
  unfold phaseAt
  rw [h]
  exact if_neg (Ne.symm hne)

theorem init_inv (contexts : List Nat) : (init contexts).Inv := by
  refine ⟨?_, ?_, ?_⟩
  · intro k
    refine ⟨rfl, ?_, rfl, ?_, fun _ => trivial, trivial⟩
    · exact (List.append_nil _).symm ▸ List.Perm.refl _
    · intro th th' hb
      exact absurd hb id
  · intro k _
    exact ⟨rfl, fun _ => id⟩
  · intro k hk
    exact absurd rfl hk

/-! ## Steps of submitters -/

theorem Inv.setContext (h : s.Inv) (hc : c.Inv (s.phaseAt k))
    (habsent : k ∉ s.processQueue → c.workQueue = [] ∧ ∀ th, ¬ (c.submitter th).Busy)
    (hawake : c.workQueue ≠ [] → (s.context k).workQueue ≠ [] ∨ ∃ th i, c.submitter th = .queued i)
    (hqueued : ∀ th i, (s.context k).submitter th = .queued i → ∃ th' j, c.submitter th' = .queued j) :
    (s.setContext k c).Inv := by
  refine ⟨?_, ?_, ?_⟩
  · intro k'
    by_cases hk : k' = k
    · rw [hk, setContext_self]
      exact hc
    · rw [setContext_of_ne hk]
      exact h.contexts k'
  · intro k' hk'
    by_cases hk : k' = k
    · rw [hk, setContext_self]
      exact habsent (hk ▸ hk')
    · rw [setContext_of_ne hk]
      exact h.absent k' hk'
  · intro k' hwork hasleep hsem
    -- a submitter that is to raise the semaphore is still there, or is the one of this step
    have hkeep : (∃ k th i, (s.context k).submitter th = .queued i) →
        ∃ k' th i, ((s.setContext k c).context k').submitter th = .queued i := by
      rintro ⟨k1, th, i, hi⟩
      by_cases hk : k1 = k
      · subst hk
        obtain ⟨th', j, hj⟩ := hqueued th i hi
        exact ⟨k1, th', j, by rw [setContext_self]; exact hj⟩
      · exact ⟨k1, th, i, by rw [setContext_of_ne hk]; exact hi⟩
    by_cases hk : k' = k
    · rw [hk, setContext_self] at hwork
      rcases hawake hwork with hold | ⟨th, i, hi⟩
      · exact hkeep (h.awake k hold hasleep hsem)
      · exact ⟨k, th, i, by rw [setContext_self]; exact hi⟩
    · rw [setContext_of_ne hk] at hwork
      exact hkeep (h.awake k' hwork hasleep hsem)

theorem Inv.prepare (h : s.Inv) {o : Order} (halone : ∀ th, ¬ ((s.context k).submitter th).Busy)
    (hidle : (s.context k).submitter th = .idle) (hk : k ∈ s.processQueue) :
    (s.setContext k
      ({ s.context k with cmd := o.1, config := o.2 }.setSubmitter th (.prepared o))).Inv := by
  refine h.setContext ((h.contexts k).prepare halone o) (fun hno => absurd hk hno) .inl ?_
  intro th' i hi
  have hne : th' ≠ th := by
    rintro rfl
    rw [hidle] at hi
    cases hi
  exact ⟨th', i, (setSubmitter_of_ne _ hne).trans hi⟩

theorem submit_queued (hstep : (s.context k).submit th = some c) :
    (∀ th' i, (s.context k).submitter th' = .queued i → c.submitter th' = .queued i) ∧
      (c.workQueue = (s.context k).workQueue ∨ ∃ i, c.submitter th = .queued i) ∧
      (((s.context k).submitter th).Busy ∨
        (c.workQueue = (s.context k).workQueue ∧ ∀ th', (c.submitter th').Busy →
          ((s.context k).submitter th').Busy)) := by
  have hno : ∀ i, (s.context k).submitter th ≠ .queued i := by
    intro i hi
    rw [submit, hi] at hstep
    cases hstep
  have hother : ∀ (c' : QueueContext) (x : Submitter), c'.submitter = (s.context k).submitter →
      ∀ th' i, (s.context k).submitter th' = .queued i → (c'.setSubmitter th x).submitter th' = .queued i := by
    intro c' x hc' th' i hi
    have hne : th' ≠ th := by
      rintro rfl
      exact hno i hi
    rw [setSubmitter_of_ne _ hne, hc']
    exact hi
  unfold submit at hstep
  cases hsub : (s.context k).submitter th with
  | idle | queued i => rw [hsub] at hstep; cases hstep
  | waiting i =>
    rw [hsub] at hstep
    dsimp only at hstep
    split_ifs at hstep
    cases hstep
    refine ⟨hother _ _ rfl, .inl rfl, .inr ⟨rfl, ?_⟩⟩
    intro th' hb
    by_cases hne : th' = th
    · rw [hne, setSubmitter_self] at hb
      exact absurd hb id
    · rwa [setSubmitter_of_ne _ hne] at hb
  | spaceFound o =>
    rw [hsub] at hstep
    dsimp only at hstep
    split at hstep <;> cases hstep <;> exact ⟨hother _ _ rfl, .inl rfl, .inl trivial⟩
  | prepared o | itemTaken o i | cmdCopied o i | cmdCleared o i | configCopied o i =>
    rw [hsub] at hstep
    cases hstep
    exact ⟨hother _ _ rfl, .inl rfl, .inl trivial⟩
  | flagCleared o i =>
    rw [hsub] at hstep
    cases hstep
    exact ⟨hother _ _ rfl, .inr ⟨i, setSubmitter_self _⟩, .inl trivial⟩

theorem Inv.submit (h : s.Inv) (hfair : ∀ o, (s.context k).submitter th = .spaceFound o →
      ∀ i, (s.context k).freeQueue.head? = some i → Settled (s.phaseAt k) i)
    (hstep : (s.context k).submit th = some c) : (s.setContext k c).Inv := by
  obtain ⟨hqueued, hwork, hbusy⟩ := submit_queued hstep
  refine h.setContext ((h.contexts k).submit hfair hstep) ?_ ?_ ?_
  · intro hk
    obtain ⟨hempty, hnone⟩ := h.absent k hk
    rcases hbusy with hb | ⟨hsame, hb⟩
    · exact absurd hb (hnone th)
    · exact ⟨hsame.trans hempty, fun th' hb' => hnone th' (hb th' hb')⟩
  · intro hne
    rcases hwork with hsame | ⟨i, hi⟩
    · exact .inl (hsame ▸ hne)
    · exact .inr ⟨th, i, hi⟩
  · intro th' i hi
    exact ⟨th', i, hqueued th' i hi⟩

/-! ## Steps of the worker -/

theorem Inv.workIn (h : s.Inv) {phase' : Option Phase} {lastWq : Option Nat}
    (hc : c.Inv phase') (hphase : ∀ k', k' ≠ k → s.phaseAt k' = none)
    (hworker : ∀ k', ({ s.setContext k c with worker, lastWq } : QueueSystem).phaseAt k' =
      if k' = k then phase' else none)
    (hwork : (s.context k).workQueue = [] → c.workQueue = []) (hsub : c.submitter = (s.context k).submitter)
    (hawake : worker ≠ .asleep) : ({ s.setContext k c with worker, lastWq } : QueueSystem).Inv := by
  refine ⟨?_, ?_, fun _ _ hasleep => absurd hasleep hawake⟩
  · intro k'
    rw [hworker k']
    show ((s.setContext k c).context k').Inv _
    by_cases hk : k' = k
    · rw [hk, setContext_self, if_pos rfl]
      exact hc
    · rw [setContext_of_ne hk, if_neg hk, ← hphase k' hk]
      exact h.contexts k'
  · intro k' hk'
    obtain ⟨hempty, hnone⟩ := h.absent k' hk'
    show ((s.setContext k c).context k').workQueue = [] ∧ ∀ th, ¬ (((s.setContext k c).context k').submitter th).Busy
    by_cases hk : k' = k
    · subst hk
      rw [setContext_self, hsub]
      exact ⟨hwork hempty, hnone⟩
    · rw [setContext_of_ne hk]
      exact ⟨hempty, hnone⟩

theorem Inv.workOut (h : s.Inv) {sem : Nat} (hbefore : ∀ k, s.phaseAt k = none)
    (hafter : ∀ k, ({ s with worker, cmdInSem := sem, processQueue := queue } : QueueSystem).phaseAt k = none)
    (hqueue : ∀ k, k ∈ queue ↔ k ∈ s.processQueue) (hasleep : worker = .asleep → ∀ k, (s.context k).workQueue = []) :
    ({ s with worker, cmdInSem := sem, processQueue := queue } : QueueSystem).Inv := by
  refine ⟨?_, ?_, ?_⟩
  · intro k
    rw [hafter k, ← hbefore k]
    exact h.contexts k
  · intro k hk
    exact h.absent k fun hmem => hk ((hqueue k).mpr hmem)
  · intro k hne heq _
    exact absurd (hasleep heq k) hne

theorem getNextWorkQueue_none (h : s.Inv) (hnext : s.getNextWorkQueue = none) (k : Nat) :
    (s.context k).workQueue = [] := by
  by_cases hk : k ∈ s.processQueue
  · simpa using nextWorkQueue_none hnext hk
  · exact (h.absent k hk).1

inductive WorkerMove (s : QueueSystem) : QueueSystem → Prop where
  | wakeUp (hw : s.worker = .asleep) (hsem : s.cmdInSem ≠ 0) :
      WorkerMove s { s with worker := .scanning, cmdInSem := s.cmdInSem - 1 }
  | sleep (hw : s.worker = .scanning) (hnext : s.getNextWorkQueue = none) :
      WorkerMove s { s with worker := .asleep }
  | select (k : Nat) (queue : List Nat) (hw : s.worker = .scanning)
      (hnext : s.getNextWorkQueue = some (k, queue)) :
      WorkerMove s { s with worker := .selected k, processQueue := queue }
  | pass (k : Nat) (hw : s.worker = .selected k) (hempty : (s.context k).workQueue = []) :
      WorkerMove s { s with worker := .scanning }
  | start (k : Nat) (phase : Phase) (c : QueueContext) (hw : s.worker = .selected k)
      (hstart : (s.context k).start (s.lastWq = some k) = some (phase, c)) :
      WorkerMove s { s.setContext k c with worker := .processing k phase }
  | run (k i : Nat) (hw : s.worker = .processing k (.running i)) :
      WorkerMove s { s.setContext k ((s.context k).run i) with worker := .processing k (.ran i) }
  | finish (k i : Nat) (hw : s.worker = .processing k (.ran i)) :
      WorkerMove s { s.setContext k ((s.context k).finish i).2 with
        worker := .processing k (.cleaning i ((s.context k).nextWork i)) }
  | next (k i j : Nat) (hw : s.worker = .processing k (.cleaning i (some j))) :
      WorkerMove s { s.setContext k ((s.context k).clean i) with worker := .processing k (.running j) }
  | leave (k i : Nat) (hw : s.worker = .processing k (.cleaning i none)) :
      WorkerMove s { s.setContext k ((s.context k).clean i) with worker := .scanning, lastWq := some k }

theorem workerMove_of_step (hstep : s.workerStep = some s') : WorkerMove s s' := by
  unfold workerStep at hstep
  cases hw : s.worker with
  | asleep =>
    rw [hw] at hstep
    dsimp only at hstep
    split_ifs at hstep with hsem
    cases hstep
    exact .wakeUp hw hsem
  | scanning =>
    rw [hw] at hstep
    cases hnext : s.getNextWorkQueue with
    | none =>
      rw [hnext] at hstep
      cases hstep
      exact .sleep hw hnext
    | some r =>
      rw [hnext] at hstep
      cases hstep
      exact .select r.1 r.2 hw hnext
  | selected k =>
    rw [hw] at hstep
    dsimp only at hstep
    cases hstart : (s.context k).start (s.lastWq = some k) with
    | none =>
      rw [hstart] at hstep
      cases hstep
      refine .pass k hw ?_
      unfold start at hstart
      split at hstart
      · assumption
      · cases hstart
    | some r =>
      rw [hstart] at hstep
      cases hstep
      exact .start k r.1 r.2 hw hstart
  | processing k phase =>
    rw [hw] at hstep
    cases phase with
    | running i => cases hstep; exact .run k i hw
    | ran i => cases hstep; exact .finish k i hw
    | cleaning i next =>
      cases next with
      | some j => cases hstep; exact .next k i j hw
      | none => cases hstep; exact .leave k i hw

theorem start_same {same : Bool} {phase : Phase} {c' : QueueContext} (hstart : c.start same = some (phase, c')) :
    (∃ i, phase = .running i ∧ c.workQueue.head? = some i) ∧ c.SameQueues c' := by
  unfold start at hstart
  split at hstart
  · cases hstart
  · rename_i i rest hwork
    cases hstart
    refine ⟨⟨i, rfl, by rw [hwork]; rfl⟩, ?_⟩
    split_ifs <;> exact ⟨rfl, rfl, rfl, rfl, rfl, rfl⟩

theorem Inv.work (h : s.Inv) (hmove : WorkerMove s s') : s'.Inv := by
  have hphase : ∀ (k k' : Nat) (p : Phase) (s1 : QueueSystem), s1.worker = .processing k p →
      s1.phaseAt k' = if k' = k then some p else none := by
    intro k k' p s1 hw
    by_cases hk : k' = k
    · rw [if_pos hk, hk]
      exact phaseAt_processing p hw
    · rw [if_neg hk]
      exact phaseAt_of_ne hw hk
  have hin : ∀ k p, s.worker = .processing k p → (s.context k).Inv (some p) := by
    intro k p hw
    have hinv := h.contexts k
    rwa [phaseAt_processing p hw] at hinv
  cases hmove with
  | wakeUp hw | pass k hw =>
    exact h.workOut (fun k => by simp [phaseAt, hw]) (fun k => rfl) (fun k => Iff.rfl) nofun
  | sleep hw hnext =>
    exact h.workOut (fun k => by simp [phaseAt, hw]) (fun k => rfl) (fun k => Iff.rfl)
      fun _ => getNextWorkQueue_none h hnext
  | select k queue hw hnext =>
    exact h.workOut (fun k => by simp [phaseAt, hw]) (fun k => rfl) (nextWorkQueue_some hnext).2.2
      nofun
  | start k phase c hw hstart =>
    have hnone : ∀ k, s.phaseAt k = none := fun k => by simp [phaseAt, hw]
    have hinv := h.contexts k
    rw [hnone k] at hinv
    have hsame := (start_same hstart).2
    exact h.workIn (hinv.start hstart) (fun k' _ => hnone k') (fun k' => hphase k k' phase _ rfl)
      (fun hempty => hsame.workQueue.trans hempty) hsame.submitter nofun
  | run k i hw =>
    exact h.workIn (hin k _ hw).run (fun k' hne => phaseAt_of_ne hw hne) (fun k' => hphase k k' _ _ rfl) id rfl
      nofun
  | finish k i hw =>
    refine h.workIn (hin k _ hw).finish (fun k' hne => phaseAt_of_ne hw hne) (fun k' => hphase k k' _ _ rfl) ?_ rfl
      nofun
    intro hempty
    show (s.context k).workQueue.erase i = []
    rw [hempty]
    rfl
  | next k i j hw =>
    exact h.workIn (hin k _ hw).clean (fun k' hne => phaseAt_of_ne hw hne) (fun k' => hphase k k' _ _ rfl) id rfl
      nofun
  | leave k i hw =>
    refine h.workIn (hin k _ hw).clean (fun k' hne => phaseAt_of_ne hw hne) ?_ id rfl nofun
    intro k'
    split_ifs <;> rfl

/-! ## The worker comes to an end -/

def work : Nat → QueueSystem → QueueSystem
  | 0, s => s
  | n + 1, s =>
    match s.workerStep with
    | none => s
    | some s' => work n s'

def rank (s : QueueSystem) : Nat :=
  match s.worker with
  | .asleep => 0
  | .scanning => 5
  | .selected k => if (s.context k).workQueue = [] then 6 else 4
  | .processing _ (.running _) => 3
  | .processing _ (.ran _) => 2
  | .processing _ (.cleaning _ _) => 6

def measure (contexts : List Nat) (s : QueueSystem) : Nat :=
  10 * (contexts.map fun k => (s.context k).workQueue.length).sum + 10 * s.cmdInSem + s.rank

theorem WorkerMove.keeps (hmove : WorkerMove s s') (k' : Nat) :
    (s'.context k').submitter = (s.context k').submitter ∧ (s'.context k').accepted = (s.context k').accepted ∧
      (s'.context k').workQueue.Sublist (s.context k').workQueue := by
  have hset : ∀ {k : Nat} {c : QueueContext}, c.submitter = (s.context k).submitter →
      c.accepted = (s.context k).accepted → c.workQueue.Sublist (s.context k).workQueue →
      ((s.setContext k c).context k').submitter = (s.context k').submitter ∧
        ((s.setContext k c).context k').accepted = (s.context k').accepted ∧
        ((s.setContext k c).context k').workQueue.Sublist (s.context k').workQueue := by
    intro k c hsub hacc hwork
    by_cases hk : k' = k
    · subst hk
      rw [setContext_self]
      exact ⟨hsub, hacc, hwork⟩
    · rw [setContext_of_ne hk]
      exact ⟨rfl, rfl, List.Sublist.refl _⟩
  cases hmove with
  | wakeUp | sleep | select | pass => exact ⟨rfl, rfl, List.Sublist.refl _⟩
  | start k phase c hw hstart =>
    have hsame := (start_same hstart).2
    exact hset hsame.submitter hsame.accepted (by rw [hsame.workQueue])
  | run | next | leave => exact hset rfl rfl (List.Sublist.refl _)
  | finish => exact hset rfl rfl List.erase_sublist

theorem workSum_le (hmove : WorkerMove s s') (contexts : List Nat) :
    (contexts.map fun k => (s'.context k).workQueue.length).sum ≤
      (contexts.map fun k => (s.context k).workQueue.length).sum :=
  List.sum_le_sum fun k _ => (hmove.keeps k).2.2.length_le

theorem measure_lt (h : s.Inv) (hcover : ∀ k, (s.context k).workQueue ≠ [] → k ∈ contexts)
    (hmove : WorkerMove s s') : s'.measure contexts < s.measure contexts := by
  have hle := workSum_le hmove contexts
  unfold measure
  cases hmove with
  | wakeUp hw hsem =>
    have hr : s.rank = 0 := by simp [rank, hw]
    show _ + 10 * (s.cmdInSem - 1) + 5 < _
    omega
  | sleep hw =>
    have hr : s.rank = 5 := by simp [rank, hw]
    show _ + 10 * s.cmdInSem + 0 < _
    omega
  | select k queue hw hnext =>
    have hr : s.rank = 5 := by simp [rank, hw]
    have hwork : (s.context k).workQueue ≠ [] := by
      simpa using (nextWorkQueue_some hnext).2.1
    have hr' : ({ s with worker := .selected k, processQueue := queue } : QueueSystem).rank = 4 := if_neg hwork
    rw [hr, hr']
    show _ + 10 * s.cmdInSem + 4 < _
    omega
  | pass k hw hempty =>
    have hr : s.rank = 6 := by simp [rank, hw, hempty]
    show _ + 10 * s.cmdInSem + 5 < _
    omega
  | start k phase c hw hstart =>
    obtain ⟨⟨i, rfl, hi⟩, -⟩ := start_same hstart
    have hwork : (s.context k).workQueue ≠ [] := by
      intro hempty
      rw [hempty] at hi
      cases hi
    have hr : s.rank = 4 := by simp [rank, hw, hwork]
    show _ + 10 * s.cmdInSem + 3 < _
    omega
  | run k i hw =>
    have hr : s.rank = 3 := by simp [rank, hw]
    show _ + 10 * s.cmdInSem + 2 < _
    omega
  | finish k i hw =>
    have hr : s.rank = 2 := by simp [rank, hw]
    -- the item was the head of the work queue
    have hi : i ∈ (s.context k).workQueue := by
      have hinv := h.contexts k
      rw [phaseAt_processing _ hw] at hinv
      exact List.mem_of_mem_head? hinv.workerAt
    have hlt : (contexts.map fun k' =>
        ((s.setContext k ((s.context k).finish i).2).context k').workQueue.length).sum <
        (contexts.map fun k' => (s.context k').workQueue.length).sum := by
      refine List.sum_lt_sum _ _ (fun k' _ => ((WorkerMove.finish k i hw).keeps k').2.2.length_le) ?_
      refine ⟨k, hcover k (List.ne_nil_of_mem hi), ?_⟩
      rw [setContext_self]
      show ((s.context k).workQueue.erase i).length < _
      rw [List.length_erase_of_mem hi]
      exact Nat.sub_lt (List.length_pos_of_mem hi) Nat.one_pos
    show 10 * (contexts.map fun k' =>
        ((s.setContext k ((s.context k).finish i).2).context k').workQueue.length).sum + 10 * s.cmdInSem + 6 < _
    omega
  | next k i j hw =>
    have hr : s.rank = 6 := by simp [rank, hw]
    show _ + 10 * s.cmdInSem + 3 < _
    omega
  | leave k i hw =>
    have hr : s.rank = 6 := by simp [rank, hw]
    show _ + 10 * s.cmdInSem + 5 < _
    omega

theorem Inv.rest (h : s.Inv) (hstop : s.workerStep = none)
    (hraised : ∀ k th i, (s.context k).submitter th ≠ .queued i) (k : Nat) :
    (s.context k).executed.map plain = (s.context k).accepted.map plain := by
  have hw : s.worker = .asleep ∧ s.cmdInSem = 0 := by
    unfold workerStep at hstop
    split at hstop
    · rename_i hw
      split_ifs at hstop with hsem
      exact ⟨hw, hsem⟩
    · split at hstop <;> cases hstop
    · split at hstop <;> cases hstop
    · cases hstop
    · cases hstop
    · split at hstop <;> cases hstop
  have hempty : (s.context k).workQueue = [] := by
    by_contra hne
    obtain ⟨k', th, i, hi⟩ := h.awake k hne hw.1 hw.2
    exact hraised k' th i hi
  have hlog := (h.contexts k).log
  have hnone : s.phaseAt k = none := by simp [phaseAt, hw.1]
  rw [hnone] at hlog
  rw [hlog]
  show _ = _ ++ ((s.context k).workQueue).map _
  rw [hempty, List.map_nil, List.append_nil]

theorem Inv.drained (h : s.Inv) (hcover : ∀ k, (s.context k).workQueue ≠ [] → k ∈ contexts)
    (hraised : ∀ k th i, (s.context k).submitter th ≠ .queued i) :
    ∃ n, ∀ k, ((s.work n).context k).executed.map plain = (s.context k).accepted.map plain := by
  induction hm : s.measure contexts using Nat.strong_induction_on generalizing s with
  | _ m ih =>
    cases hstep : s.workerStep with
    | none => exact ⟨0, h.rest hstep hraised⟩
    | some s' =>
      have hmove := workerMove_of_step hstep
      have hlt : s'.measure contexts < m := hm ▸ measure_lt h hcover hmove
      have hcover' : ∀ k, (s'.context k).workQueue ≠ [] → k ∈ contexts := by
        intro k hne
        refine hcover k fun hempty => hne ?_
        have hsub := (hmove.keeps k).2.2
        rw [hempty] at hsub
        exact List.sublist_nil.mp hsub
      have hraised' : ∀ k th i, (s'.context k).submitter th ≠ .queued i := by
        intro k th i
        rw [(hmove.keeps k).1]
        exact hraised k th i
      obtain ⟨n, hn⟩ := ih _ hlt (h.work hmove) hcover' hraised' rfl
      refine ⟨n + 1, fun k => ?_⟩
      have hwork : s.work (n + 1) = s'.work n := by
        rw [QueueSystem.work, hstep]
      rw [hwork, hn k, (hmove.keeps k).2.1]

theorem Inv.step (h : s.Inv) {e : QueueEvent} (hfair : e.Fair s) (hstep : QueueEvent.Step s e s') : s'.Inv := by
  unfold QueueEvent.Step at hstep
  cases e with
  | prepare k th o =>
    unfold QueueEvent.next at hstep
    dsimp only at hstep
    cases hsub : (s.context k).submitter th with
    | idle =>
      rw [hsub] at hstep
      dsimp only at hstep
      split_ifs at hstep with hk
      cases hstep
      exact h.prepare hfair hsub hk
    | _ => rw [hsub] at hstep; cases hstep
  | submit k th =>
    unfold QueueEvent.next at hstep
    dsimp only at hstep
    cases hsub : (s.context k).submitter th with
    | queued i =>
      rw [hsub] at hstep
      cases hstep
      -- the semaphore is raised, and the submitter waits for its command
      refine ⟨?_, ?_, ?_⟩
      · intro k'
        show ((s.setContext k _).context k').Inv (s.phaseAt k')
        by_cases hk : k' = k
        · rw [hk, setContext_self]
          exact (h.contexts k).setSubmitter id
        · rw [setContext_of_ne hk]
          exact h.contexts k'
      · intro k' hk'
        show ((s.setContext k _).context k').workQueue = [] ∧ ∀ th, ¬ (((s.setContext k _).context k').submitter th).Busy
        obtain ⟨hempty, hnone⟩ := h.absent k' hk'
        by_cases hk : k' = k
        · subst hk
          rw [setContext_self]
          refine ⟨hempty, ?_⟩
          intro th'
          by_cases hne : th' = th
          · rw [hne, setSubmitter_self]
            exact id
          · rw [setSubmitter_of_ne _ hne]
            exact hnone th'
        · rw [setContext_of_ne hk]
          exact ⟨hempty, hnone⟩
      · intro k' _ _ hsem
        have hsem' : (if s.cmdInSem = 0 then 1 else s.cmdInSem) = 0 := hsem
        split_ifs at hsem' with h0
        exact absurd hsem' h0
    | _ =>
      rw [hsub] at hstep
      obtain ⟨c, hc, rfl⟩ := Option.map_eq_some_iff.mp hstep
      exact h.submit hfair hc
  | work => exact h.work (workerMove_of_step hstep)

/-! ## Whole runs -/

theorem contexts_cover (h : s.Inv) (k : Nat) (hne : (s.context k).workQueue ≠ []) : k ∈ s.processQueue := by
  by_contra hk
  exact hne (h.absent k hk).1

structure Sound (s : QueueSystem) : Prop where
  /-- What has been queued is what has been run and what is pending, in this order and with these contents. -/
  log : ∀ k, (s.context k).accepted.map plain = (s.context k).executed.map plain ++
    ((s.context k).pending (s.phaseAt k)).map fun i => plain ((s.context k).order i)
  /-- When every submitter has raised the semaphore for what it has queued, the worker runs all of it. -/
  drained : (∀ k th i, (s.context k).submitter th ≠ .queued i) →
    ∃ n, ∀ k, ((s.work n).context k).executed.map plain = (s.context k).accepted.map plain
  items : ∀ k, ((s.context k).freeQueue ++ (s.context k).workQueue).Perm (List.range maxGe2dCmd)
  tame : ∀ k, (s.context k).wild = false
  /-- An item that a submitter fills is not being cleaned up. -/
  settled : ∀ k th i, ((s.context k).submitter th).takes = some i → Settled (s.phaseAt k) i

theorem Inv.sound (h : s.Inv) : s.Sound := by
  refine ⟨fun k => (h.contexts k).log, h.drained (contexts_cover h), fun k => (h.contexts k).items,
    fun k => (h.contexts k).tame, ?_⟩
  intro k th i htakes
  have hholds := (h.contexts k).holds th
  cases hsub : (s.context k).submitter th with
  | itemTaken o j | cmdCopied o j | cmdCleared o j => rw [hsub] at htakes hholds; cases htakes; exact hholds.2.2.2
  | configCopied o j | flagCleared o j => rw [hsub] at htakes hholds; cases htakes; exact hholds.2.2
  | idle | prepared o | spaceFound o | queued j | waiting j => rw [hsub] at htakes; cases htakes

end QueueSystem

def QueueEvent.nextAsleep (s : QueueSystem) : QueueEvent → Option QueueSystem
  | .prepare _ _ _ => none
  | .submit k th =>
    match s.worker with
    | .asleep => QueueEvent.next s (.submit k th)
    | _ => none
  | .work => QueueEvent.next s .work

theorem nextAsleep_fair {s s' : QueueSystem} {e : QueueEvent} (hnext : e.nextAsleep s = some s') :
    e.Fair s ∧ e.Step s s' := by
  cases e with
  | prepare k th o => cases hnext
  | submit k th =>
    unfold QueueEvent.nextAsleep at hnext
    dsimp only at hnext
    cases hw : s.worker with
    | asleep =>
      rw [hw] at hnext
      refine ⟨fun o _ i _ next h => ?_, hnext⟩
      have hnone : s.phaseAt k = none := by simp [phaseAt, hw]
      rw [hnone] at h
      cases h
    | _ => rw [hw] at hnext; cases hnext
  | work => exact ⟨trivial, hnext⟩

/-- In a run of fair steps every queued command is run once, in order and unchanged. -/
theorem queue_runs_soundly (contexts : List Nat) {s : QueueSystem}
    (hrun : Runs QueueEvent.Step QueueEvent.Fair (init contexts) s) : s.Sound := by
  have hinv : s.Inv := Runs.keeps (fun h hfair hstep => QueueSystem.Inv.step h hfair hstep) hrun
    (init_inv contexts)
  exact hinv.sound

/-- One context, one submitter, one command that is queued, run and cleaned up. -/
theorem queue_runs_soundly_once : ∃ s : QueueSystem,
    Runs QueueEvent.Step QueueEvent.Fair (init [0]) s ∧ (s.context 0).executed.length = 1 ∧
      s.Sound := by
  have hfirst : Runs QueueEvent.Step QueueEvent.Fair (init [0])
      ((init [0]).setContext 0 (setSubmitter {} 0 (.prepared ({}, {})))) :=
    .snoc (e := .prepare 0 0 ({}, {})) .nil (fun _ => id) rfl
  have hplay : ((List.replicate 8 (.submit 0 0) ++ List.replicate 7 .work : List QueueEvent).foldlM QueueEvent.nextAsleep
      ((init [0]).setContext 0 (setSubmitter {} 0 (.prepared ({}, {}))))).any
      (fun s => decide ((s.context 0).executed.length = 1)) = true := by
    decide +kernel
  obtain ⟨s, hrun, hs⟩ := Runs.of_play hplay nextAsleep_fair
  exact ⟨s, hfirst.trans hrun, of_decide_eq_true hs, queue_runs_soundly [0] (hfirst.trans hrun)⟩

/-- Two submitters of one context find the same free item: two commands are accepted, and one of them is left. -/
theorem queue_loses_command : ¬ ∀ (contexts : List Nat) (s : QueueSystem),
    Runs QueueEvent.Step (fun _ _ => True) (init contexts) s → s.Sound := by
  intro hall
  have hplay : (([.prepare 0 0 ({}, {}), .submit 0 0, .submit 0 0, .prepare 0 1 ({}, {}), .submit 0 1, .submit 0 1] ++
      List.replicate 5 (.submit 0 0) ++ List.replicate 5 (.submit 0 1) : List QueueEvent).foldlM QueueEvent.next
      (init [0])).any (fun s => decide ((s.context 0).accepted.length = 2 ∧
        (s.context 0).executed.length = 0 ∧ (s.context 0).workQueue.length = 1)) = true := by
    decide +kernel
  have hnext : ∀ {s s' : QueueSystem} {e : QueueEvent}, e.next s = some s' → True ∧ e.Step s s' :=
    fun h => ⟨trivial, h⟩
  obtain ⟨s, hrun, hs⟩ := Runs.of_play hplay hnext
  obtain ⟨hacc, hexe, hwork⟩ := of_decide_eq_true hs
  have hlog := congrArg List.length ((hall [0] s hrun).log 0)
  have hpending : ((s.context 0).pending (s.phaseAt 0)).length ≤ (s.context 0).workQueue.length := by
    unfold pending
    split
    · exact (List.tail_sublist _).length_le
    · exact Nat.le_refl _
  simp only [List.length_map, List.length_append] at hlog
  omega

/-- When the worker sleeps on the semaphore, nothing is queued, or a submitter is about to raise it. -/
theorem no_wakeup_lost (contexts : List Nat) {s : QueueSystem}
    (hrun : Runs QueueEvent.Step QueueEvent.Fair (init contexts) s) (hasleep : s.worker = .asleep)
    (hsem : s.cmdInSem = 0) :
    (∀ k, (s.context k).workQueue = []) ∨ ∃ k th i, (s.context k).submitter th = .queued i := by
  have hinv : s.Inv := Runs.keeps (fun h hfair hstep => QueueSystem.Inv.step h hfair hstep) hrun
    (init_inv contexts)
  by_cases hwork : ∀ k, (s.context k).workQueue = []
  · exact Or.inl hwork
  · obtain ⟨k, hk⟩ := not_forall.mp hwork
    exact Or.inr (hinv.awake k hk hasleep hsem)

/-- A command is queued while the worker sleeps. -/
theorem no_wakeup_lost_queued : ∃ s : QueueSystem, Runs QueueEvent.Step QueueEvent.Fair (init [0]) s ∧
    (s.context 0).workQueue = [0] ∧ ∃ k th i, (s.context k).submitter th = .queued i := by
  have h : Runs QueueEvent.Step QueueEvent.Fair (init [0]) _ := .snoc (e := .work) .nil trivial rfl
  have h := h.snoc (e := QueueEvent.work) trivial rfl
  have h := h.snoc (e := QueueEvent.prepare 0 0 ({}, {})) (fun _ => id) rfl
  have h := h.snoc (e := QueueEvent.submit 0 0) (fun _ => nofun) rfl
  have h := h.snoc (e := QueueEvent.submit 0 0) (fun _ _ _ _ _ => nofun) rfl
  have h := h.snoc (e := QueueEvent.submit 0 0) (fun _ => nofun) rfl
  have h := h.snoc (e := QueueEvent.submit 0 0) (fun _ => nofun) rfl
  have h := h.snoc (e := QueueEvent.submit 0 0) (fun _ => nofun) rfl
  have h := h.snoc (e := QueueEvent.submit 0 0) (fun _ => nofun) rfl
  have h := h.snoc (e := QueueEvent.submit 0 0) (fun _ => nofun) rfl
  exact ⟨_, h, rfl, (no_wakeup_lost [0] h rfl rfl).resolve_left fun hnone => List.cons_ne_nil 0 [] (hnone 0)⟩

end Amlogic.Ge2d
