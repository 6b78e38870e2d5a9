import Amlogic.Display.Vsync

/-!
# Proofs: the vblank worker

What one step does to the flags and to the thread, and from it what holds in every interleaving. How far
the thread is from its next callback, and from the end of its loop, is counted in its own steps.
-/

namespace Amlogic.Display

/-- Steps of an enabled worker before its next callback. -/
def WorkPlace.toCall : WorkPlace → Nat
  | .asleep _ => 3
  | .check => 2
  | .vblank => 1
  | .callback | .left => 0

/-- Steps of a worker that no longer runs. -/
def WorkPlace.toExit : WorkPlace → Nat
  | .vblank => 3
  | .callback | .asleep _ => 2
  | .check => 1
  | .left => 0

namespace DrmVsyncWorker

variable {s t t' : DrmVsyncWorker} {e : VsyncEvent}

/-- What a step does to the thread: one of another thread at most notifies it. -/
theorem Step.thread (h : Step t e t') :
    (t'.turns = t.turns ∧ t'.calls = t.calls ∧ t'.waits = t.waits ∧
      (t'.thread = t.thread ∨ ∃ b, t.thread = .asleep b ∧ t'.thread = .asleep true)) ∨
    (∃ reply, e = .work reply) ∧ t'.turns = t.turns + 1 ∧
      (t.thread = .check ∧ t'.thread = t.waitSignalAndCheckRuning ∧ t'.calls = t.calls ∧ t'.waits = t.waits ∨
      (∃ b, t.thread = .asleep b) ∧ t'.thread = .check ∧ t'.calls = t.calls ∧ t'.waits = t.waits ∨
      t.thread = .vblank ∧ t'.thread = .callback ∧ t'.calls = t.calls ∧ t'.waits = t.waits + 1 ∨
      t.thread = .callback ∧ t'.thread = .check ∧ t'.waits = t.waits ∧
        t'.calls.length = t.calls.length + t.mCallBack.toNat) := by
  cases e with
  | work reply =>
    obtain ⟨w, hw, rfl⟩ := Option.map_eq_some_iff.mp h
    unfold work at hw
    split at hw <;> rename_i hp <;> cases hw <;> refine .inr ⟨⟨reply, rfl⟩, rfl, ?_⟩
    · exact .inl ⟨hp, rfl, rfl, rfl⟩
    · exact .inr (.inl ⟨⟨_, hp⟩, rfl, rfl, rfl⟩)
    · exact .inr (.inr (.inl ⟨hp, rfl, rfl, rfl⟩))
    · refine .inr (.inr (.inr ⟨hp, rfl, rfl, ?_⟩))
      cases hc : t.mCallBack <;> simp
  | notify =>
    simp only [Step, next] at h
    split_ifs at h
    cases h
    refine .inl ⟨rfl, rfl, rfl, ?_⟩
    cases hp : t.thread with
    | asleep b => exact .inr ⟨b, rfl, rfl⟩
    | _ => exact .inl rfl
  | _ => exact .inl (by grind [Step, next])

theorem Step.flags (h : Step t e t') : (Wanted t e → t.mEnable = true → t'.mEnable = true) ∧
    (Wanted t e → t.mRunning = true → t'.mRunning = true) ∧ (t.mCallBack = true → t'.mCallBack = true) ∧
    (Disabled t e → t.mEnable = false → t'.mEnable = false) ∧
    (t.inited = true ∧ t.mRunning = false → t'.inited = true ∧ t'.mRunning = false) := by
  cases e with
  | work reply =>
    obtain ⟨w, hw, rfl⟩ := Option.map_eq_some_iff.mp h
    unfold work at hw
    split at hw <;> cases hw <;> simp
  | _ => grind [Step, next, Wanted, Disabled]

structure Inv (t : DrmVsyncWorker) : Prop where
  running : t.mRunning = (t.inited && !t.destroyed)
  inited : t.destroyed = true → t.inited = true
  asleep : t.thread = .asleep false → t.mEnable = false ∧ t.mRunning = true ∨ 0 < t.notifying

theorem Inv.step (h : Inv t) (hstep : Step t e t') : Inv t' := by
  obtain ⟨hr, hi, ha⟩ := h
  cases e with
  | work reply =>
    obtain ⟨w, hw, rfl⟩ := Option.map_eq_some_iff.mp hstep
    unfold work at hw
    split at hw <;> cases hw
    · refine ⟨hr, hi, fun hsleep => .inl ?_⟩
      simp only [waitSignalAndCheckRuning] at hsleep
      split_ifs at hsleep with hc
      simpa using hc
    all_goals exact ⟨hr, hi, nofun⟩
  | notify =>
    simp only [Step, next] at hstep
    split_ifs at hstep
    cases hstep
    refine ⟨hr, hi, fun hsleep => ?_⟩
    -- a thread that has been notified is not asleep without a notification
    cases hp : t.thread <;> simp [hp, WorkPlace.notify] at hsleep
  | _ => constructor <;> grind [Step, next]

/-- A worker that was enabled in `s` and is wanted since then: after its first step the thread does not
sleep, and every third step is a callback. -/
structure On (s t : DrmVsyncWorker) : Prop where
  enable : t.mEnable = true
  running : t.mRunning = true
  place : t.thread ≠ .left
  awake : s.turns ≤ t.turns ∧ (s.turns < t.turns → ∀ b, t.thread ≠ .asleep b)
  calls : s.mCallBack = true → t.mCallBack = true ∧
    t.turns + t.thread.toCall + 3 * s.calls.length ≤ s.turns + 3 * t.calls.length + 3

theorem On.step (h : On s t) (hw : Wanted t e) (hstep : Step t e t') : On s t' := by
  obtain ⟨henable, hrunning, hcallBack, -, -⟩ := hstep.flags
  obtain ⟨hon, hr, hp, ha, hc⟩ := h
  have hgo : t.waitSignalAndCheckRuning = .vblank := by simp [waitSignalAndCheckRuning, hon, hr]
  have hth := hstep.thread
  constructor
  · exact henable hw hon
  · exact hrunning hw hr
  all_goals grind [WorkPlace.toCall]

/-- A disabled worker makes at most the callback that its thread is on the way to. -/
def Late (n : Nat) (t : DrmVsyncWorker) : Prop :=
  t.mEnable = false ∧ t.calls.length + (if t.thread = .vblank ∨ t.thread = .callback then 1 else 0) ≤ n

theorem Late.step {n : Nat} (h : Late n t) (hd : Disabled t e) (hstep : Step t e t') : Late n t' := by
  refine ⟨hstep.flags.2.2.2.1 hd h.1, ?_⟩
  have hgo : t.waitSignalAndCheckRuning ≠ .vblank ∧ t.waitSignalAndCheckRuning ≠ .callback := by
    simp only [waitSignalAndCheckRuning, h.1]
    cases t.mRunning <;> simp
  have hone := Bool.toNat_le t.mCallBack
  have hth := hstep.thread
  grind [Late]

/-- A destroyed worker: the waits and the steps that its thread still makes. -/
structure Exits (s t : DrmVsyncWorker) : Prop where
  flags : t.inited = true ∧ t.mRunning = false
  waits : t.waits + (if t.thread = .vblank then 1 else 0) ≤ s.waits + 1
  turns : t.turns + t.thread.toExit ≤ s.turns + 3

theorem Exits.step (h : Exits s t) (hstep : Step t e t') : Exits s t' := by
  obtain ⟨hflags, hw, hn⟩ := h
  have hgo : t.waitSignalAndCheckRuning = .left := by simp [waitSignalAndCheckRuning, hflags.2]
  have hth := hstep.thread
  refine ⟨hstep.flags.2.2.2.2 hflags, ?_, ?_⟩ <;> grind [WorkPlace.toExit]

theorem inv_of_run {allowed : DrmVsyncWorker → VsyncEvent → Prop} (hrun : Runs Step allowed started s) : Inv s :=
  hrun.keeps (fun h _ hstep => h.step hstep) ⟨rfl, nofun, nofun⟩

theorem on_of_run (hrun : Runs Step Wanted s t) (hon : s.mEnable = true) (hr : s.mRunning = true)
    (hp : s.thread ≠ .left) : On s t := by
  refine hrun.keeps (fun h hw hstep => h.step hw hstep) ⟨hon, hr, hp, ⟨le_rfl, fun hlt => absurd hlt (lt_irrefl _)⟩, ?_⟩
  refine fun hcb => ⟨hcb, ?_⟩
  have hle : s.thread.toCall ≤ 3 := by cases s.thread <;> simp [WorkPlace.toCall]
  omega

/-- When the thread takes its first section after `Init` has stored `mRunning`, it stays in its loop until
the destructor starts, and while vsync is enabled it makes a callback in every three steps; it is never
asleep then without a notification on its way. A first section before the store ends the loop. -/
theorem worker_stays (hrun : Runs Step Prompt started s) :
    (s.thread = .left → s.destroyed = true) ∧
    (s.inited = true → s.destroyed = false → s.mEnable = true → (s.thread = .asleep false → 0 < s.notifying) ∧
      (s.mCallBack = true → ∀ s', Runs Step Wanted s s' →
        s'.turns + 3 * s.calls.length ≤ s.turns + 3 * s'.calls.length + 3)) ∧
    ∀ e s', Step s e s' → ¬Prompt s e → s'.thread = .left ∧ s'.destroyed = false := by
  have hinv := inv_of_run hrun
  have hleft : s.thread = .left → s.destroyed = true := by
    intro hout
    have hstop : s.inited = true ∧ s.mRunning = false := by
      refine hrun.keeps (P := fun t => t.thread = .left → t.inited = true ∧ t.mRunning = false) ?_ nofun hout
      intro t e t' hl hok hstep hout
      apply hstep.flags.2.2.2.2
      rcases hstep.thread with ⟨-, -, -, he | ⟨b, -, he⟩⟩ | ⟨⟨reply, rfl⟩, -, h⟩
      · exact hl (he ▸ hout)
      · simp [he] at hout
      · rcases h with ⟨hp, he, -⟩ | ⟨-, he, -⟩ | ⟨-, he, -⟩ | ⟨-, he, -⟩ <;> rw [he] at hout
        · refine ⟨hok hp, ?_⟩
          unfold waitSignalAndCheckRuning at hout
          split_ifs at hout with h1 h2
          exact Bool.eq_false_iff.mpr h2
        all_goals cases hout
    have hr := hinv.running
    rw [hstop.1, hstop.2] at hr
    simpa using hr
  refine ⟨hleft, fun hin hlive hon => ?_, fun e s' hstep hno => ?_⟩
  · have hr : s.mRunning = true := by rw [hinv.running, hin, hlive]; rfl
    refine ⟨fun ha => (hinv.asleep ha).resolve_left fun h => by simp [hon] at h, fun hcb s' hrun' => ?_⟩
    have hout : s.thread ≠ .left := fun hp => by simp [hleft hp] at hlive
    have := ((on_of_run hrun' hon hr hout).calls hcb).2
    omega
  · cases e with
    | work reply =>
      obtain ⟨hp, hin⟩ := Classical.not_imp.mp hno
      obtain ⟨w, hw, rfl⟩ := Option.map_eq_some_iff.mp hstep
      simp only [work, hp] at hw
      cases hw
      have hr : s.mRunning = false := by rw [hinv.running, Bool.eq_false_iff.mpr hin]; rfl
      exact ⟨by simp [waitSignalAndCheckRuning, hr], Bool.eq_false_iff.mpr fun hd => hin (hinv.inited hd)⟩
    | _ => exact absurd trivial hno

theorem worker_stays_called : ∃ s, Runs Step Prompt started s ∧ s.mEnable = true ∧ s.calls = [(7, 8)] ∧
    (s.thread = .left → s.destroyed = true) := by
  have hinit : Runs Step Prompt started _ := .snoc (e := .setRunning) .nil trivial rfl
  have hon := (hinit.snoc (e := VsyncEvent.enableVsync true) trivial rfl).snoc
    (e := VsyncEvent.reqesterVBlankCb true) trivial rfl
  have hrun := ((hon.snoc (e := VsyncEvent.work none) (fun _ => rfl) rfl).snoc
    (e := VsyncEvent.work (some (7, 8))) nofun rfl).snoc (e := VsyncEvent.work none) nofun rfl
  exact ⟨_, hrun, rfl, rfl, (worker_stays hrun).1⟩

/-- The thread may test `mRunning` before `Init` stores it: no enable reaches it any more. -/
theorem worker_leaves : ∃ s, Runs Step (fun _ _ => True) started s ∧ s.thread = .left ∧ s.destroyed = false ∧
    s.inited = true ∧ s.mEnable = true :=
  ⟨_, ((Runs.nil.snoc (e := .work none) trivial rfl).snoc (e := .setRunning) trivial rfl).snoc
    (e := .enableVsync true) trivial rfl, rfl, rfl, rfl, rfl⟩

/-- After `EnableVsync(false)` there is at most one callback until vsync is enabled; an enable during the
thread's sleep is notified, and the thread does not go back to sleep; after the destructor's section the
thread waits for at most one vertical blank and leaves after at most three steps, never asleep without a
notification on its way. -/
theorem vsync_ends (hrun : Runs Step (fun _ _ => True) started s) :
    (∀ s₁ s₂, Step s (.enableVsync false) s₁ → Runs Step Disabled s₁ s₂ →
      s₂.calls.length ≤ s.calls.length + 1) ∧
    (∀ b, s.thread = .asleep b → s.mEnable = true → s.mRunning = true → (b = false → 0 < s.notifying) ∧
      ∀ s', Runs Step Wanted s s' → s.turns < s'.turns → ∀ b', s'.thread ≠ .asleep b') ∧
    ∀ s₁ s₂, Step s .destroy s₁ → Runs Step (fun _ _ => True) s₁ s₂ → s₂.waits ≤ s.waits + 1 ∧
      (s₂.thread = .left ∧ s₂.turns ≤ s.turns + 3 ∨
        s₂.turns < s.turns + 3 ∧ (s₂.thread = .asleep false → 0 < s₂.notifying)) := by
  have hinv := inv_of_run hrun
  refine ⟨fun s₁ s₂ hoff hrun' => ?_, fun b hb hon hr => ⟨?_, fun s' hrun' => ?_⟩, fun s₁ s₂ hd hrun' => ?_⟩
  · cases hoff
    have hlate : Late (s.calls.length + 1) s₂ := by
      refine hrun'.keeps (fun h hd hstep => h.step hd hstep) ⟨rfl, ?_⟩
      split_ifs
      · exact le_rfl
      · exact Nat.le_succ _
    exact Nat.le_of_add_right_le hlate.2
  · rintro rfl
    exact (hinv.asleep hb).resolve_left fun h => by simp [hon] at h
  · exact (on_of_run hrun' hon hr (by simp [hb])).awake.2
  · have hinv₂ := hrun'.keeps (fun h _ hstep => h.step hstep) (hinv.step hd)
    have hends : Exits s s₂ := by
      simp only [Step, next] at hd
      split_ifs at hd with hin
      cases hd
      refine hrun'.keeps (fun h _ hstep => h.step hstep) ⟨⟨(Bool.and_eq_true_iff.mp hin).1, rfl⟩, ?_, ?_⟩
      · dsimp only
        split_ifs
        · exact le_rfl
        · exact Nat.le_succ _
      · cases hp : s.thread <;> simp [WorkPlace.toExit]
    obtain ⟨hflags, hw, hn⟩ := hends
    refine ⟨Nat.le_of_add_right_le hw, ?_⟩
    by_cases hout : s₂.thread = .left
    · exact .inl ⟨hout, Nat.le_of_add_right_le hn⟩
    · refine .inr ⟨?_, fun ha => (hinv₂.asleep ha).resolve_left fun h => by simp [hflags.2] at h⟩
      have hpos : 0 < s₂.thread.toExit := by cases hp : s₂.thread <;> simp_all [WorkPlace.toExit]
      omega

theorem vsync_ends_asleep : ∃ s, Runs Step (fun _ _ => True) started s ∧ s.thread = .asleep false ∧
    s.mEnable = true ∧ 0 < s.notifying := by
  have hinit : Runs Step (fun _ _ => True) started _ := .snoc (e := .setRunning) .nil trivial rfl
  have hrun := (hinit.snoc (e := VsyncEvent.work none) trivial rfl).snoc (e := VsyncEvent.enableVsync true)
    trivial rfl
  exact ⟨_, hrun, rfl, rfl, ((vsync_ends hrun).2.1 false rfl rfl rfl).1 rfl⟩

end DrmVsyncWorker

end Amlogic.Display
