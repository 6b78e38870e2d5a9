import Amlogic.Ge2d.Queue

/-!
# Commands are run once, in order and unchanged

As long as the submissions to a context do not overlap, and no item is taken while the worker still cleans it
up, the first free item belongs to the one submitter that has taken it, and the items of the work queue belong
to the worker. So what is queued is what was submitted, and it stays so until it is run. All of this is an
invariant of one context and the phase the worker is in there.
-/

namespace Amlogic.Ge2d

/-- An order without the flags that tell which registers to program. -/
def plain (o : Order) : Order := (o.1, { o.2 with updateFlag := 0 })

namespace QueueContext

def order (c : QueueContext) (i : Nat) : Order := ((c.item i).cmd, (c.item i).config)

def pending (c : QueueContext) : Option Phase → List Nat
  | some (.ran _) => c.workQueue.tail
  | _ => c.workQueue

def Settled (phase : Option Phase) (i : Nat) : Prop := ∀ next, phase ≠ some (.cleaning i next)

def Holds (c : QueueContext) (phase : Option Phase) : Submitter → Prop
  | .idle | .queued _ | .waiting _ => True
  | .prepared o => c.cmd = o.1 ∧ c.config = o.2
  | .spaceFound o => c.cmd = o.1 ∧ c.config = o.2 ∧ c.freeQueue ≠ []
  | .itemTaken o i => c.cmd = o.1 ∧ c.config = o.2 ∧ c.freeQueue.head? = some i ∧ Settled phase i
  | .cmdCopied o i | .cmdCleared o i =>
    (c.item i).cmd = o.1 ∧ c.config = o.2 ∧ c.freeQueue.head? = some i ∧ Settled phase i
  | .configCopied o i | .flagCleared o i => c.order i = o ∧ c.freeQueue.head? = some i ∧ Settled phase i

def WorkerAt (c : QueueContext) : Option Phase → Prop
  | none => True
  | some (.running i) | some (.ran i) => c.workQueue.head? = some i
  | some (.cleaning i next) => i ∈ c.freeQueue ∧ ∀ j, next = some j → c.workQueue.head? = some j

/-- The invariant of a context in which the worker is in a phase, or is not at all. -/
structure Inv (c : QueueContext) (phase : Option Phase) : Prop where
  tame : c.wild = false
  items : (c.freeQueue ++ c.workQueue).Perm (List.range maxGe2dCmd)
  log : c.accepted.map plain = c.executed.map plain ++ (c.pending phase).map fun i => plain (c.order i)
  single : ∀ th th', (c.submitter th).Busy → (c.submitter th').Busy → th = th'
  holds : ∀ th, c.Holds phase (c.submitter th)
  workerAt : c.WorkerAt phase

structure SameQueues (c c' : QueueContext) : Prop where
  submitter : c'.submitter = c.submitter
  freeQueue : c'.freeQueue = c.freeQueue
  workQueue : c'.workQueue = c.workQueue
  wild : c'.wild = c.wild
  accepted : c'.accepted = c.accepted
  executed : c'.executed = c.executed

variable {c c' : QueueContext} {phase : Option Phase} {th i : Nat}

theorem holds_of_not_busy {x : Submitter} (h : ¬ x.Busy) : c.Holds phase x := by
  cases x <;> first | trivial | exact absurd trivial h

@[simp] theorem setSubmitter_self (x : Submitter) : (c.setSubmitter th x).submitter th = x := if_pos rfl

theorem setSubmitter_of_ne {th' : Nat} (x : Submitter) (h : th' ≠ th) :
    (c.setSubmitter th x).submitter th' = c.submitter th' := if_neg h

@[simp] theorem setItem_self (x : QueueItem) : (c.setItem i x).item i = x := if_pos rfl

theorem setItem_of_ne {j : Nat} (x : QueueItem) (h : j ≠ i) : (c.setItem i x).item j = c.item j := if_neg h

theorem order_setItem_of_ne {j : Nat} (x : QueueItem) (h : j ≠ i) : (c.setItem i x).order j = c.order j := by
  unfold order
  rw [setItem_of_ne x h]

namespace Inv

theorem nodup (h : c.Inv phase) : (c.freeQueue ++ c.workQueue).Nodup :=
  h.items.nodup_iff.mpr List.nodup_range

theorem notMem_work (h : c.Inv phase) (hi : i ∈ c.freeQueue) : i ∉ c.workQueue := fun hw =>
  (List.nodup_append.mp h.nodup).2.2 i hi i hw rfl

theorem of_one (th : Nat) (hothers : ∀ th', th' ≠ th → ¬ (c'.submitter th').Busy)
    (hself : c'.Holds phase (c'.submitter th)) (htame : c'.wild = false)
    (hitems : (c'.freeQueue ++ c'.workQueue).Perm (List.range maxGe2dCmd)) (hlog : c'.accepted.map plain =
      c'.executed.map plain ++ (c'.pending phase).map fun i => plain (c'.order i)) (hworker : c'.WorkerAt phase) :
    c'.Inv phase := by
  refine ⟨htame, hitems, hlog, ?_, ?_, hworker⟩
  · intro th1 th2 h1 h2
    by_contra hne
    rcases Decidable.em (th1 = th) with rfl | hth
    · exact hothers th2 (Ne.symm hne) h2
    · exact hothers th1 hth h1
  · intro th'
    by_cases hth : th' = th
    · rw [hth]
      exact hself
    · exact holds_of_not_busy (hothers th' hth)

theorem others (h : c.Inv phase) (hbusy : (c.submitter th).Busy) :
    ∀ th', th' ≠ th → ¬ (c.submitter th').Busy := fun th' hne hbusy' => hne (h.single th' th hbusy' hbusy)

theorem setSubmitter (h : c.Inv phase) {x : Submitter} (hx : ¬ x.Busy) : (c.setSubmitter th x).Inv phase := by
  have hbusy : ∀ th', ((c.setSubmitter th x).submitter th').Busy → (c.submitter th').Busy := by
    intro th' hb
    by_cases hth : th' = th
    · rw [hth, setSubmitter_self] at hb
      exact absurd hb hx
    · rwa [setSubmitter_of_ne x hth] at hb
  refine ⟨h.tame, h.items, h.log, fun th1 th2 h1 h2 => h.single th1 th2 (hbusy th1 h1) (hbusy th2 h2), ?_,
    h.workerAt⟩
  intro th'
  by_cases hth : th' = th
  · rw [hth, setSubmitter_self]
    exact holds_of_not_busy hx
  · rw [setSubmitter_of_ne x hth]
    exact h.holds th'

theorem pending_subset {j : Nat} (hj : j ∈ c.pending phase) : j ∈ c.workQueue := by
  unfold pending at hj
  split at hj
  · exact List.mem_of_mem_tail hj
  · exact hj

theorem advance (h : c.Inv phase) (hbusy : (c.submitter th).Busy) (hsame : SameQueues c c')
    (horder : ∀ j ∈ c.workQueue, c'.order j = c.order j) {x : Submitter} (hx : c'.Holds phase x) :
    (c'.setSubmitter th x).Inv phase := by
  refine of_one th ?_ ?_ (hsame.wild.trans h.tame) ?_ ?_ ?_
  · intro th' hne
    rw [setSubmitter_of_ne x hne, hsame.submitter]
    exact h.others hbusy th' hne
  · rw [setSubmitter_self]
    exact hx
  · show (c'.freeQueue ++ c'.workQueue).Perm _
    rw [hsame.freeQueue, hsame.workQueue]
    exact h.items
  · show c'.accepted.map plain = c'.executed.map plain ++ (c'.pending phase).map fun i => plain (c'.order i)
    have hpending : c'.pending phase = c.pending phase := by
      unfold pending
      rw [hsame.workQueue]
    rw [hsame.accepted, hsame.executed, hpending, h.log]
    congr 1
    refine List.map_congr_left ?_
    intro j hj
    rw [horder j (pending_subset hj)]
  · have hworker := h.workerAt
    show c'.WorkerAt phase
    unfold WorkerAt at hworker ⊢
    rw [hsame.freeQueue, hsame.workQueue]
    exact hworker

/-! ## Steps of submitters -/

theorem head_notMem (h : c.Inv phase) (hi : c.freeQueue.head? = some i) : i ∉ c.workQueue :=
  h.notMem_work (List.mem_of_mem_head? hi)

theorem fill (h : c.Inv phase) (hbusy : (c.submitter th).Busy) (hi : c.freeQueue.head? = some i) (x : QueueItem)
    {y : Submitter} (hy : (c.setItem i x).Holds phase y) : ((c.setItem i x).setSubmitter th y).Inv phase := by
  have hsame : SameQueues c (c.setItem i x) := ⟨rfl, rfl, rfl, rfl, rfl, rfl⟩
  refine h.advance hbusy hsame ?_ hy
  intro j hj
  refine order_setItem_of_ne x ?_
  rintro rfl
  exact h.head_notMem hi hj

theorem head?_append_of_eq_some {l : List Nat} {k : Nat} (hk : l.head? = some k) (m : List Nat) :
    (l ++ m).head? = some k := by
  cases l with
  | nil => cases hk
  | cons a l => exact hk

theorem workerAt_append (h : c.WorkerAt phase) (hwork : c'.workQueue = c.workQueue ++ [i])
    (hfree : ∀ j next, phase = some (.cleaning j next) → j ∈ c.freeQueue → j ∈ c'.freeQueue) : c'.WorkerAt phase := by
  unfold WorkerAt at h ⊢
  rw [hwork]
  match phase with
  | none => trivial
  | some (.running j) | some (.ran j) => exact head?_append_of_eq_some h _
  | some (.cleaning j next) => exact ⟨hfree j next rfl h.1, fun k hk => head?_append_of_eq_some (h.2 k hk) _⟩

theorem pending_append (h : c.WorkerAt phase) (hwork : c'.workQueue = c.workQueue ++ [i]) :
    c'.pending phase = c.pending phase ++ [i] := by
  unfold pending
  rw [hwork]
  unfold WorkerAt at h
  match phase with
  | some (.ran j) =>
    cases hw : c.workQueue with
    | nil => rw [hw] at h; cases h
    | cons a w => rfl
  | none | some (.running j) | some (.cleaning j next) => rfl

theorem queue (h : c.Inv phase) {o : Order} (hsub : c.submitter th = .flagCleared o i) :
    ({ (c.moveToWork i).setSubmitter th (.queued i) with accepted := c.accepted ++ [o] } :
      QueueContext).Inv phase := by
  have hholds := h.holds th
  rw [hsub] at hholds
  obtain ⟨horder, hhead, hsettled⟩ := hholds
  have hbusy : (c.submitter th).Busy := by
    rw [hsub]
    trivial
  have herase : c.workQueue.erase i = c.workQueue := List.erase_of_not_mem (h.head_notMem hhead)
  have hwork : c.workQueue.erase i ++ [i] = c.workQueue ++ [i] := by rw [herase]
  refine of_one th ?_ ?_ h.tame ?_ ?_ ?_
  · intro th' hne
    rw [setSubmitter_of_ne _ hne]
    exact h.others hbusy th' hne
  · rw [setSubmitter_self]
    trivial
  · show (c.freeQueue.erase i ++ (c.workQueue.erase i ++ [i])).Perm _
    refine List.Perm.trans ?_ h.items
    rw [hwork, ← List.append_assoc]
    refine (List.perm_append_comm).trans ?_
    exact (List.perm_cons_erase (List.mem_of_mem_head? hhead)).symm.append_right _
  · rw [pending_append h.workerAt hwork, List.map_append, h.log, List.map_append, List.append_assoc, ← horder]
    rfl
  · refine workerAt_append h.workerAt hwork ?_
    rintro j next rfl hj
    have hne : j ≠ i := by
      rintro rfl
      exact hsettled next rfl
    exact (List.mem_erase_of_ne hne).mpr hj

theorem submit (h : c.Inv phase)
    (hpick : ∀ o, c.submitter th = .spaceFound o → ∀ j, c.freeQueue.head? = some j → Settled phase j)
    (hstep : c.submit th = some c') : c'.Inv phase := by
  have hholds := h.holds th
  unfold QueueContext.submit at hstep
  cases hsub : c.submitter th with
  | idle | queued i => rw [hsub] at hstep; cases hstep
  | waiting i =>
    rw [hsub] at hstep
    dsimp only at hstep
    split_ifs at hstep
    cases hstep
    exact h.setSubmitter id
  | prepared o =>
    rw [hsub] at hstep hholds
    cases hstep
    by_cases hempty : c.freeQueue = []
    · rw [if_pos hempty]
      exact h.setSubmitter id
    · rw [if_neg hempty]
      exact h.advance (by rw [hsub]; trivial) ⟨rfl, rfl, rfl, rfl, rfl, rfl⟩ (fun _ _ => rfl)
        ⟨hholds.1, hholds.2, hempty⟩
  | spaceFound o =>
    rw [hsub] at hstep hholds
    obtain ⟨hcmd, hconfig, hne⟩ := hholds
    cases hfree : c.freeQueue with
    | nil => exact absurd hfree hne
    | cons i rest =>
      rw [hfree] at hstep
      cases hstep
      have hhead : c.freeQueue.head? = some i := by rw [hfree]; rfl
      exact h.advance (by rw [hsub]; trivial) ⟨rfl, rfl, rfl, rfl, rfl, rfl⟩ (fun _ _ => rfl)
        ⟨hcmd, hconfig, hhead, hpick o hsub i hhead⟩
  | itemTaken o i =>
    rw [hsub] at hstep hholds
    cases hstep
    obtain ⟨hcmd, hconfig, hhead, hsettled⟩ := hholds
    refine h.fill (by rw [hsub]; trivial) hhead _ ⟨?_, hconfig, hhead, hsettled⟩
    rw [setItem_self]
    exact hcmd
  | cmdCopied o i =>
    rw [hsub] at hstep hholds
    cases hstep
    have hsame : SameQueues c { c with cmd := {} } := ⟨rfl, rfl, rfl, rfl, rfl, rfl⟩
    exact h.advance (by rw [hsub]; trivial) hsame (fun _ _ => rfl) hholds
  | cmdCleared o i =>
    rw [hsub] at hstep hholds
    cases hstep
    obtain ⟨hcmd, hconfig, hhead, hsettled⟩ := hholds
    refine h.fill (by rw [hsub]; trivial) hhead _ ⟨?_, hhead, hsettled⟩
    unfold order
    rw [setItem_self]
    exact Prod.ext hcmd hconfig
  | configCopied o i =>
    rw [hsub] at hstep hholds
    cases hstep
    have hsame : SameQueues c { c with config := { c.config with updateFlag := 0 } } :=
      ⟨rfl, rfl, rfl, rfl, rfl, rfl⟩
    exact h.advance (by rw [hsub]; trivial) hsame (fun _ _ => rfl) hholds
  | flagCleared o i =>
    rw [hsub] at hstep
    cases hstep
    exact h.queue hsub

theorem prepare (h : c.Inv phase) (halone : ∀ th', ¬ (c.submitter th').Busy) (o : Order) :
    ({ c with cmd := o.1, config := o.2 }.setSubmitter th (.prepared o)).Inv phase := by
  refine of_one th ?_ ?_ h.tame h.items h.log h.workerAt
  · intro th' hne
    rw [setSubmitter_of_ne _ hne]
    exact halone th'
  · rw [setSubmitter_self]
    exact ⟨rfl, rfl⟩

/-! ## Steps of the worker -/

theorem holds_of_worker {phase' : Option Phase} {x : Submitter} (h : c.Holds phase x) (hcmd : c'.cmd = c.cmd)
    (hconfig : c'.config = c.config) (hfree : ∃ l, c'.freeQueue = c.freeQueue ++ l)
    (hitem : ∀ j, c.freeQueue.head? = some j → Settled phase j → c'.item j = c.item j ∧ Settled phase' j) :
    c'.Holds phase' x := by
  obtain ⟨l, hl⟩ := hfree
  have hhead : ∀ j, c.freeQueue.head? = some j → c'.freeQueue.head? = some j := by
    intro j hj
    rw [hl]
    exact head?_append_of_eq_some hj l
  cases x with
  | idle | queued i | waiting i => trivial
  | prepared o => exact ⟨hcmd.trans h.1, hconfig.trans h.2⟩
  | spaceFound o =>
    refine ⟨hcmd.trans h.1, hconfig.trans h.2.1, ?_⟩
    rw [hl]
    exact List.append_ne_nil_of_left_ne_nil h.2.2 l
  | itemTaken o j =>
    obtain ⟨h1, h2, h3, h4⟩ := h
    exact ⟨hcmd.trans h1, hconfig.trans h2, hhead j h3, (hitem j h3 h4).2⟩
  | cmdCopied o j | cmdCleared o j =>
    obtain ⟨h1, h2, h3, h4⟩ := h
    obtain ⟨hj, hset⟩ := hitem j h3 h4
    exact ⟨by rw [hj]; exact h1, hconfig.trans h2, hhead j h3, hset⟩
  | configCopied o j | flagCleared o j =>
    obtain ⟨h1, h2, h3⟩ := h
    obtain ⟨hj, hset⟩ := hitem j h2 h3
    exact ⟨by unfold order; rw [hj]; exact h1, hhead j h2, hset⟩

theorem settled_cleaning {j next} (h : j ≠ i) : Settled (some (.cleaning i next)) j := by
  rintro next' heq
  cases heq
  exact h rfl

theorem map_order_congr {l : List Nat} (h : ∀ j ∈ l, plain (c'.order j) = plain (c.order j)) :
    (l.map fun j => plain (c'.order j)) = l.map fun j => plain (c.order j) := List.map_congr_left h

theorem work_eq_cons (hi : c.workQueue.head? = some i) : ∃ w, c.workQueue = i :: w := by
  cases hw : c.workQueue with
  | nil => rw [hw] at hi; cases hi
  | cons j w => rw [hw] at hi; cases hi; exact ⟨w, rfl⟩

theorem notMem_tail (h : c.Inv phase) {w : List Nat} (hw : c.workQueue = i :: w) : i ∉ w := by
  have hnodup := (List.nodup_append.mp h.nodup).2.1
  rw [hw] at hnodup
  exact (List.nodup_cons.mp hnodup).1

theorem notMem_free (h : c.Inv phase) (hi : i ∈ c.workQueue) : i ∉ c.freeQueue := fun hf => h.notMem_work hf hi

theorem start (h : c.Inv none) {same : Bool} {p : Phase} (hstart : c.start same = some (p, c')) :
    c'.Inv (some p) := by
  unfold QueueContext.start at hstart
  cases hw : c.workQueue with
  | nil => rw [hw] at hstart; cases hstart
  | cons i w =>
    rw [hw] at hstart
    cases hstart
    have hhead : c.workQueue.head? = some i := by rw [hw]; rfl
    have hi : i ∉ c.freeQueue := h.notMem_free (by rw [hw]; exact List.mem_cons_self)
    cases same with
    | true =>
      refine ⟨h.tame, h.items, h.log, h.single, ?_, hhead⟩
      intro th
      exact holds_of_worker (h.holds th) rfl rfl ⟨[], (List.append_nil _).symm⟩
        fun j _ _ => ⟨rfl, nofun⟩
    | false =>
      refine ⟨h.tame, h.items, ?_, h.single, ?_, hhead⟩
      · refine h.log.trans (congrArg (c.executed.map plain ++ ·) (map_order_congr ?_))
        intro j _
        by_cases hj : j = i
        · subst hj
          simp [plain, order]
        · rw [if_neg Bool.false_ne_true, order_setItem_of_ne _ hj]
      · intro th
        refine holds_of_worker (h.holds th) rfl rfl ⟨[], (List.append_nil _).symm⟩ ?_
        intro j hj _
        refine ⟨setItem_of_ne _ ?_, nofun⟩
        rintro rfl
        exact hi (List.mem_of_mem_head? hj)

theorem run (h : c.Inv (some (.running i))) : (c.run i).Inv (some (.ran i)) := by
  obtain ⟨w, hw⟩ := work_eq_cons h.workerAt
  have hi : i ∉ c.freeQueue := h.notMem_free (by rw [hw]; exact List.mem_cons_self)
  refine ⟨h.tame, h.items, ?_, h.single, ?_, h.workerAt⟩
  · have hpending : (c.run i).pending (some (.ran i)) = w := by
      show c.workQueue.tail = w
      rw [hw]
      rfl
    have hbefore : c.pending (some (.running i)) = i :: w := hw
    have htail : (w.map fun j => plain ((c.run i).order j)) = w.map fun j => plain (c.order j) := by
      refine map_order_congr ?_
      intro j hj
      have hne : j ≠ i := fun heq => h.notMem_tail hw (heq ▸ hj)
      exact congrArg plain (order_setItem_of_ne _ hne)
    have hlog := h.log
    rw [hbefore, List.map_cons] at hlog
    rw [hpending, htail]
    show c.accepted.map plain = (c.executed ++ [c.order i]).map plain ++ _
    rw [hlog, List.map_append, List.append_assoc]
    rfl
  · intro th
    refine holds_of_worker (h.holds th) rfl rfl ⟨[], (List.append_nil _).symm⟩ ?_
    intro j hj _
    refine ⟨setItem_of_ne _ ?_, nofun⟩
    rintro rfl
    exact hi (List.mem_of_mem_head? hj)

theorem finish (h : c.Inv (some (.ran i))) : (c.finish i).2.Inv (some (c.finish i).1) := by
  obtain ⟨w, hw⟩ := work_eq_cons h.workerAt
  have hi : i ∉ c.freeQueue := h.notMem_free (by rw [hw]; exact List.mem_cons_self)
  have hwork : (c.finish i).2.workQueue = w := by
    show c.workQueue.erase i = w
    rw [hw, List.erase_cons_head]
  have hfree : (c.finish i).2.freeQueue = c.freeQueue ++ [i] := by
    show c.freeQueue.erase i ++ [i] = _
    rw [List.erase_of_not_mem hi]
  have hnext : c.nextWork i = w.head? := by
    unfold nextWork
    rw [hw, List.dropWhile_cons_of_neg (by simp)]
    rfl
  refine ⟨h.tame, ?_, ?_, h.single, ?_, ?_⟩
  · rw [hfree, hwork]
    refine List.Perm.trans ?_ h.items
    rw [hw, List.append_assoc]
    exact List.Perm.refl _
  · have hpending : (c.finish i).2.pending (some (c.finish i).1) = w := hwork
    have hbefore : c.pending (some (.ran i)) = w := by
      show c.workQueue.tail = w
      rw [hw]
      rfl
    rw [hpending]
    refine (h.log.trans ?_)
    rw [hbefore]
    refine congrArg (c.executed.map plain ++ ·) (map_order_congr ?_).symm
    intro j hj
    have hne : j ≠ i := fun heq => h.notMem_tail hw (heq ▸ hj)
    exact congrArg plain (order_setItem_of_ne _ hne)
  · intro th
    refine holds_of_worker (h.holds th) rfl rfl ⟨[i], hfree⟩ ?_
    intro j hj _
    have hne : j ≠ i := by
      rintro rfl
      exact hi (List.mem_of_mem_head? hj)
    exact ⟨setItem_of_ne _ hne, settled_cleaning hne⟩
  · refine ⟨?_, ?_⟩
    · exact List.mem_append_right _ List.mem_cons_self
    · intro j hj
      rw [hwork, ← hnext]
      exact hj

theorem clean {next : Option Nat} (h : c.Inv (some (.cleaning i next))) :
    (c.clean i).Inv (next.map Phase.running) := by
  obtain ⟨hi, hnext⟩ := h.workerAt
  have hsettled : ∀ j, Settled (next.map Phase.running) j := by
    intro j
    cases next <;> nofun
  refine ⟨h.tame, h.items, ?_, h.single, ?_, ?_⟩
  · have hpending : (c.clean i).pending (next.map Phase.running) = c.workQueue := by
      cases next <;> rfl
    rw [hpending]
    refine h.log.trans (congrArg (c.executed.map plain ++ ·) (map_order_congr ?_).symm)
    intro j hj
    have hne : j ≠ i := by
      rintro rfl
      exact h.notMem_work hi hj
    exact congrArg plain (order_setItem_of_ne _ hne)
  · intro th
    refine holds_of_worker (h.holds th) rfl rfl ⟨[], (List.append_nil _).symm⟩ ?_
    intro j _ hj
    refine ⟨setItem_of_ne _ ?_, hsettled j⟩
    rintro rfl
    exact hj next rfl
  · cases next with
    | none => trivial
    | some j => exact hnext j rfl

end Inv

end QueueContext

end Amlogic.Ge2d
