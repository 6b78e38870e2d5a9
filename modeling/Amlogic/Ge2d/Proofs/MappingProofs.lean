import Amlogic.Ge2d.Mapping
import Amlogic.Ge2d.Proofs.GenProofs

/-!
# GE2D: every mapping is given back once

A successful configuration notes new records, each of them once. They belong to the configuration until a command
takes them, then to the command until it has been run.
-/

namespace Amlogic.Ge2d

open MemState

/-! ## A configuration notes new records -/

theorem finishMem_dmaCfg (m : ConfigParaExMemtype) (src src2 dst : Port) (c : Ctx) :
    (finishMem m src src2 dst c).config.dmaCfg = c.config.dmaCfg := by
  unfold finishMem
  rw [(setDetails_writes _ _ _ _ _ _ _ _).dmaCfg, (genPorts_writes _ _ _ _ _).dmaCfg]

/-- The records in use are new since `lo`, each of them is noted once, and those that have been mapped are among
them. -/
structure MemState.Built (lo : Nat) (s : MemState) : Prop where
  le : lo ≤ s.next
  new : ∀ t i, (s.config.dmaCfg t i).dmaUsed = true → ∃ r, (s.config.dmaCfg t i).dmaCfg = some r ∧ lo ≤ r ∧ r < s.next
  once : ∀ t i t' i', (s.config.dmaCfg t i).dmaUsed = true → (s.config.dmaCfg t' i').dmaUsed = true →
    (s.config.dmaCfg t i).dmaCfg = (s.config.dmaCfg t' i').dmaCfg → t = t' ∧ i = i'
  mapped : ∀ r ∈ s.mapped, ∃ t i, (s.config.dmaCfg t i).dmaUsed = true ∧ (s.config.dmaCfg t i).dmaCfg = some r

structure MemState.Extends (t : DataType) (s s' : MemState) : Prop where
  le : s.next ≤ s'.next
  others : ∀ t', t' ≠ t → s'.config.dmaCfg t' = s.config.dmaCfg t'

namespace MemState

variable {lo : Nat} {s s' : MemState} {t : DataType} {i : Plane}

theorem Built.congr (h : s.Built lo) (hdma : s'.config.dmaCfg = s.config.dmaCfg) (hnext : s'.next = s.next)
    (hmapped : s'.mapped = s.mapped) : s'.Built lo := by
  obtain ⟨hle, hnew, honce, hmap⟩ := h
  constructor
  · rwa [hnext]
  · rwa [hdma, hnext]
  · rwa [hdma]
  · rwa [hdma, hmapped]

def noted (s : MemState) (t : DataType) (i : Plane) : MemState := (s.markUsed t i).newRecord t i

theorem noted_self : (s.noted t i).config.dmaCfg t i = ⟨true, some s.next⟩ := if_pos ⟨rfl, rfl⟩

theorem noted_of_ne {t' : DataType} {i' : Plane} (hne : ¬ (t' = t ∧ i' = i)) :
    (s.noted t i).config.dmaCfg t' i' = s.config.dmaCfg t' i' := by
  show (if t' = t ∧ i' = i then _ else if t' = t ∧ i' = i then _ else s.config.dmaCfg t' i') = _
  rw [if_neg hne, if_neg hne]

theorem Built.noted (h : s.Built lo) (hfree : (s.config.dmaCfg t i).dmaUsed = false) : (s.noted t i).Built lo := by
  -- an entry of old is not this one
  have hold : ∀ t' i', (s.config.dmaCfg t' i').dmaUsed = true → ¬ (t' = t ∧ i' = i) := by
    rintro t' i' hused ⟨rfl, rfl⟩
    rw [hfree] at hused
    cases hused
  refine ⟨Nat.le_succ_of_le h.le, ?_, ?_, ?_⟩
  · intro t' i' hused
    by_cases heq : t' = t ∧ i' = i
    · obtain ⟨rfl, rfl⟩ := heq
      rw [noted_self]
      exact ⟨s.next, rfl, h.le, Nat.lt_succ_self _⟩
    · rw [noted_of_ne heq] at hused ⊢
      obtain ⟨r, hr, hlo, hlt⟩ := h.new t' i' hused
      exact ⟨r, hr, hlo, Nat.lt_succ_of_lt hlt⟩
  · -- the number of the new record is not the number of another
    have hnew : ∀ t' i', (s.config.dmaCfg t' i').dmaUsed = true → (s.config.dmaCfg t' i').dmaCfg ≠ some s.next := by
      intro t' i' hused heq
      obtain ⟨r, hr, -, hlt⟩ := h.new t' i' hused
      rw [hr] at heq
      exact Nat.ne_of_lt hlt (Option.some.inj heq)
    intro t1 i1 t2 i2 h1 h2 heq
    by_cases hc1 : t1 = t ∧ i1 = i <;> by_cases hc2 : t2 = t ∧ i2 = i
    · exact ⟨hc1.1.trans hc2.1.symm, hc1.2.trans hc2.2.symm⟩
    · rw [noted_of_ne hc2] at h2 heq
      rw [hc1.1, hc1.2, noted_self] at heq
      exact absurd heq.symm (hnew _ _ h2)
    · rw [noted_of_ne hc1] at h1 heq
      rw [hc2.1, hc2.2, noted_self] at heq
      exact absurd heq (hnew _ _ h1)
    · rw [noted_of_ne hc1] at h1 heq
      rw [noted_of_ne hc2] at h2 heq
      exact h.once _ _ _ _ h1 h2 heq
  · intro r hr
    obtain ⟨t', i', hused, hrec⟩ := h.mapped r hr
    refine ⟨t', i', ?_⟩
    rw [noted_of_ne (hold t' i' hused)]
    exact ⟨hused, hrec⟩

theorem Built.noteMapped (h : (s.noted t i).Built lo) : (s.noted t i).noteMapped.Built lo := by
  refine ⟨h.le, h.new, h.once, ?_⟩
  intro r hr
  rcases List.mem_append.mp hr with hr | hr
  · exact h.mapped r hr
  · refine ⟨t, i, ?_⟩
    rw [List.mem_singleton.mp hr]
    show ((s.noted t i).config.dmaCfg t i).dmaUsed = true ∧ ((s.noted t i).config.dmaCfg t i).dmaCfg = some s.next
    rw [noted_self]
    exact ⟨rfl, rfl⟩

theorem Extends.refl : s.Extends t s := ⟨Nat.le_refl _, fun _ _ => rfl⟩

theorem Extends.trans {s'' : MemState} (h : s.Extends t s') (h' : s'.Extends t s'') : s.Extends t s'' :=
  ⟨Nat.le_trans h.le h'.le, fun t' hne => (h'.others t' hne).trans (h.others t' hne)⟩

theorem extends_noted : s.Extends t (s.noted t i) := by
  refine ⟨Nat.le_succ _, fun t' hne => ?_⟩
  funext i'
  exact noted_of_ne fun heq => hne heq.1

theorem extends_noteMapped : s.Extends t s.noteMapped := ⟨Nat.le_refl _, fun _ _ => rfl⟩

theorem extends_setCanvas {plane : PlanePara} {format : Word} : s.Extends t (s.setCanvas t i plane format) :=
  ⟨Nat.le_refl _, fun _ _ => rfl⟩

theorem Built.setCanvas (h : s.Built lo) {plane : PlanePara} {format : Word} :
    (s.setCanvas t i plane format).Built lo := h.congr rfl rfl rfl

end MemState

section Setup

variable {lo : Nat} {s s' : MemState} {t : DataType} {env : MemEnv} {port : Option Port}

def MemState.Unused (s : MemState) (t : DataType) : Prop := ∀ i, (s.config.dmaCfg t i).dmaUsed = false

variable {planes : Plane → PlanePara} {tmp : SrcDstPara} {m : ConfigParaExMemtype}

theorem buildConfigExIonLoop_built (format : Word) (l : List Plane) {ok : Bool} (h : s.Built lo) :
    (buildConfigExIonLoop env t format l planes ok s).1.Built lo ∧
      s.Extends t (buildConfigExIonLoop env t format l planes ok s).1 := by
  induction l generalizing planes ok s with
  | nil => exact ⟨h, .refl⟩
  | cons i l ih =>
    unfold buildConfigExIonLoop
    split_ifs
    · split
      · exact ⟨h, .refl⟩
      · obtain ⟨hbuilt, hext⟩ := ih h.setCanvas
        exact ⟨hbuilt, extends_setCanvas.trans hext⟩
    · obtain ⟨hbuilt, hext⟩ := ih h.setCanvas
      exact ⟨hbuilt, extends_setCanvas.trans hext⟩
    · exact ih h

section

variable (halloc : ∀ t i, env.alloc t i = true)
include halloc

theorem buildConfigExDmaLoop_built (format : Word) {l : List Plane}
    (hl : l.Nodup) {ok : Bool} (h : s.Built lo) (hfree : ∀ i ∈ l, (s.config.dmaCfg t i).dmaUsed = false) :
    (buildConfigExDmaLoop env t format l planes ok s).1.Built lo ∧
      s.Extends t (buildConfigExDmaLoop env t format l planes ok s).1 := by
  induction l generalizing planes ok s with
  | nil => exact ⟨h, .refl⟩
  | cons i l ih =>
    obtain ⟨hi, hl⟩ := List.nodup_cons.mp hl
    have hrest : ∀ j ∈ l, (s.config.dmaCfg t j).dmaUsed = false := fun j hj => hfree j (List.mem_cons_of_mem i hj)
    unfold buildConfigExDmaLoop
    split_ifs with hfd hno haddr
    · rw [halloc t i] at hno
      cases hno
    · have hnoted := h.noted (hfree i List.mem_cons_self)
      split
      · exact ⟨hnoted, extends_noted⟩
      · -- the planes that follow are still not in use
        have hfree' : ∀ j ∈ l, ((s.noted t i).config.dmaCfg t j).dmaUsed = false := by
          intro j hj
          have hne : ¬ (t = t ∧ j = i) := by
            rintro ⟨-, rfl⟩
            exact hi hj
          rw [noted_of_ne hne]
          exact hrest j hj
        obtain ⟨hbuilt, hext⟩ := ih hl hnoted.noteMapped.setCanvas hfree'
        have hnext : s.Extends t (s.noted t i) := extends_noted
        exact ⟨hbuilt, (hnext.trans extends_noteMapped).trans (extends_setCanvas.trans hext)⟩
    · obtain ⟨hbuilt, hext⟩ := ih hl h.setCanvas hrest
      exact ⟨hbuilt, extends_setCanvas.trans hext⟩
    · exact ih hl h hrest

theorem setupAllocMem_built {canvasStatus : Bool} {allocType : Word} {para : ParaEx} (h : s.Built lo) (hfree : s.Unused t)
    (hrun : setupAllocMem canvasStatus env t allocType planes para s = .ok (s', port)) :
    s'.Built lo ∧ s.Extends t s' := by
  unfold setupAllocMem at hrun
  split_ifs at hrun with hstatus hion hdma hion hdma
  · cases hrun
    exact ⟨h, .refl⟩
  · unfold buildGe2dAddrConfigDma at hrun
    have hno : ¬ (!env.alloc t 0) = true := by
      rw [halloc t 0]
      nofun
    split_ifs at hrun with hfd
    · have hnoted := h.noted (hfree 0)
      split at hrun
      · cases hrun
        exact ⟨hnoted, extends_noted⟩
      · cases hrun
        exact ⟨hnoted.noteMapped, extends_noted.trans extends_noteMapped⟩
    · cases hrun
      exact ⟨h, .refl⟩
  · cases hrun
    exact ⟨h, .refl⟩
  · cases hrun
    exact buildConfigExIonLoop_built para.format _ h
  · cases hrun
    exact buildConfigExDmaLoop_built halloc para.format (List.nodup_finRange 4) h fun i _ => hfree i
  · cases hrun
    exact ⟨h, .refl⟩

theorem setupPortMem_built {canvasStatus : Bool} (h : s.Built lo) (hfree : s.Unused t)
    (hrun : setupPortMem canvasStatus tmp env t m s = .ok (s', port)) : s'.Built lo ∧ s.Extends t s' := by
  unfold setupPortMem at hrun
  dsimp only at hrun
  split_ifs at hrun
  · cases hrun
    exact ⟨h, .refl⟩
  · cases hrun
    exact ⟨h, .refl⟩
  · exact setupAllocMem_built halloc h hfree hrun
  · cases hrun
    exact ⟨h, .refl⟩

theorem ge2dContextConfigExMem_built {canvasStatus : Bool} {c c' : Ctx} {next next' : Nat} {mapped : List Nat}
    {ok : Bool} (hrun : ge2dContextConfigExMem canvasStatus tmp env m c next = .ok ((c', next', mapped), ok)) :
    MemState.Built next ⟨c'.config, next', mapped⟩ := by
  have hstart : MemState.Built next ⟨resetDmaUsed c.config, next, []⟩ :=
    ⟨Nat.le_refl _, nofun, nofun, nofun⟩
  unfold ge2dContextConfigExMem at hrun
  obtain ⟨⟨s1, p1⟩, h1, hrun⟩ := bind_eq_ok hrun
  obtain ⟨hb1, he1⟩ := setupPortMem_built halloc hstart (fun _ => rfl) h1
  cases p1 with
  | none => cases hrun; exact hb1
  | some src =>
    obtain ⟨⟨s2, p2⟩, h2, hrun⟩ := bind_eq_ok hrun
    have hfree2 : s1.Unused .src2 := by
      intro i
      rw [he1.others .src2 nofun]
      rfl
    obtain ⟨hb2, he2⟩ := setupPortMem_built halloc hb1 hfree2 h2
    cases p2 with
    | none => cases hrun; exact hb2
    | some src2 =>
      obtain ⟨⟨s3, p3⟩, h3, hrun⟩ := bind_eq_ok hrun
      have hfree3 : s2.Unused .dst := by
        intro i
        rw [he2.others .dst nofun, he1.others .dst nofun]
        rfl
      obtain ⟨hb3, -⟩ := setupPortMem_built halloc hb2 hfree3 h3
      cases p3 with
      | none => cases hrun; exact hb3
      | some dst =>
        simp only [pure, Except.pure, Except.ok.injEq, Prod.mk.injEq] at hrun
        obtain ⟨⟨rfl, rfl, rfl⟩, rfl⟩ := hrun
        have hdma := finishMem_dmaCfg m src src2 dst { c with config := s3.config }
        exact hb3.congr hdma rfl rfl

end

end Setup

/-! ## The records of a configuration -/

theorem mem_dmaPlaces (t : DataType) (i : Plane) : (t, i) ∈ dmaPlaces := by
  cases t <;> revert i <;> decide

theorem mem_usedRecords {cfg : Config} {r : Nat} :
    r ∈ usedRecords cfg ↔ ∃ t i, (cfg.dmaCfg t i).dmaUsed = true ∧ (cfg.dmaCfg t i).dmaCfg = some r := by
  unfold usedRecords
  rw [List.mem_filterMap]
  constructor
  · rintro ⟨⟨t, i⟩, -, h⟩
    dsimp only at h
    split_ifs at h with hused
    exact ⟨t, i, hused, h⟩
  · rintro ⟨t, i, hused, hrec⟩
    exact ⟨(t, i), mem_dmaPlaces t i, (if_pos hused).trans hrec⟩

theorem MemState.Built.usedRecords_nodup {lo : Nat} {s : MemState} (h : s.Built lo) : (usedRecords s.config).Nodup := by
  refine List.Nodup.filterMap ?_ (by decide)
  rintro ⟨t, i⟩ ⟨t', i'⟩ r hr hr'
  dsimp only at hr hr'
  rw [Option.mem_def] at hr hr'
  split_ifs at hr with hused
  split_ifs at hr' with hused'
  obtain ⟨rfl, rfl⟩ := h.once t i t' i' hused hused' (hr.trans hr'.symm)
  rfl

theorem MemState.Built.usedRecords_bound {lo : Nat} {s : MemState} (h : s.Built lo) {r : Nat}
    (hr : r ∈ usedRecords s.config) : lo ≤ r ∧ r < s.next := by
  obtain ⟨t, i, hused, hrec⟩ := mem_usedRecords.mp hr
  obtain ⟨r', hrec', hlo, hlt⟩ := h.new t i hused
  rw [hrec] at hrec'
  cases hrec'
  exact ⟨hlo, hlt⟩

/-! ## Runs -/

namespace MapContext

def held (s : MapContext) : List Nat := if s.last = .config true then usedRecords s.ctx.config else []

/-- All records that have an owner or had one: released, with a command, and with the configuration. -/
def owned (s : MapContext) : List Nat := s.released ++ s.queue.flatMap usedRecords ++ s.held

structure Sound (s : MapContext) : Prop where
  once : s.released.Nodup
  /-- No record is released before a command that uses it has been run. -/
  pending : ∀ cfg ∈ s.queue, ∀ r ∈ usedRecords cfg, r ∉ s.released
  mapped : s.ranUnmapped = false
  /-- A record that has not been released belongs to a command or to the configuration. -/
  kept : ∀ r ∈ s.kept, r ∈ s.released ∨ (∃ cfg ∈ s.queue, r ∈ usedRecords cfg) ∨
    s.destroyed = false ∧ r ∈ usedRecords s.ctx.config
  complete : s.destroyed = true → ∀ r ∈ s.kept, r ∈ s.released

structure Inv (s : MapContext) : Prop where
  bound : ∀ r ∈ s.owned, r < s.next
  nodup : s.owned.Nodup
  kept : ∀ r ∈ s.kept, r ∈ s.owned
  mapped : s.ranUnmapped = false
  gone : s.destroyed = true → s.queue = [] ∧ s.held = []

end MapContext

/-- A configuration is made, and a context is destroyed, when a command has taken the records of the configuration
before; a command is made right after a successful configuration, or without records; memory for the records is
there. -/
def MapEvent.Fair (s : MapContext) : MapEvent → Prop
  | .config _ env _ => (∀ t i, env.alloc t i = true) ∧ s.held = []
  | .command => s.last = .config true ∨ usedRecords s.ctx.config = []
  | .run => True
  | .destroy => s.queue.flatMap usedRecords = [] ∧ s.held = []

instance MapEvent.decidableFair (s : MapContext) : ∀ e : MapEvent, Decidable (e.Fair s)
  | .config _ env _ =>
    decidable_of_iff (((∀ i, env.alloc .src i = true) ∧ (∀ i, env.alloc .src2 i = true) ∧
        ∀ i, env.alloc .dst i = true) ∧ s.held = [])
      ⟨fun ⟨⟨h₁, h₂, h₃⟩, h⟩ => ⟨fun t => match t with | .src => h₁ | .src2 => h₂ | .dst => h₃, h⟩,
        fun ⟨h, h'⟩ => ⟨⟨h .src, h .src2, h .dst⟩, h'⟩⟩
  | .command => inferInstanceAs (Decidable (_ ∨ _))
  | .run => .isTrue trivial
  | .destroy => inferInstanceAs (Decidable (_ ∧ _))

namespace MapContext

variable {canvasStatus : Bool} {s s' : MapContext}

theorem Inv.sound (h : s.Inv) : s.Sound := by
  obtain ⟨hparts, -, -⟩ := List.nodup_append'.mp h.nodup
  obtain ⟨hreleased, -, hdisjoint⟩ := List.nodup_append'.mp hparts
  have hkept : ∀ r ∈ s.kept, r ∈ s.released ∨ (∃ cfg ∈ s.queue, r ∈ usedRecords cfg) ∨ r ∈ s.held := by
    intro r hr
    have howned := h.kept r hr
    unfold owned at howned
    rw [List.mem_append, List.mem_append, List.mem_flatMap, or_assoc] at howned
    exact howned
  refine ⟨hreleased, ?_, h.mapped, ?_, ?_⟩
  · intro cfg hcfg r hr hrel
    exact hdisjoint hrel (List.mem_flatMap.mpr ⟨cfg, hcfg, hr⟩)
  · intro r hr
    rcases hkept r hr with hrel | hqueue | hheld
    · exact .inl hrel
    · exact .inr (.inl hqueue)
    · refine .inr (.inr ⟨?_, ?_⟩)
      · by_contra hd
        rw [(h.gone (by simpa using hd)).2] at hheld
        exact List.not_mem_nil hheld
      · unfold held at hheld
        split_ifs at hheld
        · exact hheld
        · cases hheld
  · intro hd r hr
    obtain ⟨hqueue, hheld⟩ := h.gone hd
    rcases hkept r hr with hrel | ⟨cfg, hcfg, -⟩ | hr'
    · exact hrel
    · rw [hqueue] at hcfg
      cases hcfg
    · rw [hheld] at hr'
      cases hr'

theorem init_inv : ({} : MapContext).Inv :=
  ⟨nofun, List.nodup_nil, nofun, rfl, nofun⟩

theorem Inv.of_owned (h : s.Inv) (howned : s'.owned = s.owned) (hnext : s'.next = s.next) (hkept : s'.kept = s.kept)
    (hmapped : s'.ranUnmapped = false) (hgone : s'.destroyed = true → s'.queue = [] ∧ s'.held = []) : s'.Inv := by
  constructor
  · rw [howned, hnext]
    exact h.bound
  · rw [howned]
    exact h.nodup
  · rw [howned, hkept]
    exact h.kept
  · exact hmapped
  · exact hgone

theorem Inv.config (h : s.Inv) {env : MemEnv} (hfair : (∀ t i, env.alloc t i = true) ∧ s.held = [])
    (hstep : MapEvent.next canvasStatus s (.config tmp env m) = some s') : s'.Inv := by
  unfold MapEvent.next at hstep
  dsimp only at hstep
  by_cases hd : s.destroyed = true
  · rw [if_pos hd] at hstep
    cases hstep
  rw [if_neg hd] at hstep
  cases hrun : ge2dContextConfigExMem canvasStatus tmp env m s.ctx s.next with
  | error e => rw [hrun] at hstep; cases hstep
  | ok r =>
    obtain ⟨⟨ctx, next, mapped⟩, ok⟩ := r
    rw [hrun] at hstep
    cases hstep
    have hbuilt := ge2dContextConfigExMem_built hfair.1 hrun
    have howned : s.owned = s.released ++ s.queue.flatMap usedRecords := by
      unfold owned
      rw [hfair.2, List.append_nil]
    have hbound : ∀ r ∈ s.released ++ s.queue.flatMap usedRecords, r < s.next := by
      rw [← howned]
      exact h.bound
    cases ok with
    | false =>
      have howned' : ({ s with ctx, next, last := .config false, kept := s.kept } : MapContext).owned = s.owned := by
        rw [howned]
        exact List.append_nil _
      exact ⟨fun r hr => Nat.lt_of_lt_of_le (h.bound r (howned' ▸ hr)) hbuilt.le, howned'.symm ▸ h.nodup,
        fun r hr => howned'.symm ▸ h.kept r hr, h.mapped, fun hd' => absurd hd' hd⟩
    | true =>
      refine ⟨?_, ?_, ?_, h.mapped, fun hd' => absurd hd' hd⟩
      · intro r hr
        rcases List.mem_append.mp hr with hold | hnew
        · exact Nat.lt_of_lt_of_le (hbound r hold) hbuilt.le
        · exact (hbuilt.usedRecords_bound hnew).2
      · refine List.nodup_append'.mpr ⟨howned ▸ h.nodup, hbuilt.usedRecords_nodup, ?_⟩
        intro r hold hnew
        exact Nat.not_lt.mpr (hbuilt.usedRecords_bound hnew).1 (hbound r hold)
      · intro r hr
        rcases List.mem_append.mp hr with hold | hnew
        · exact List.mem_append.mpr (.inl (howned ▸ h.kept r hold))
        · exact List.mem_append.mpr (.inr (mem_usedRecords.mpr (hbuilt.mapped r hnew)))

theorem Inv.step (h : s.Inv) {e : MapEvent} (hfair : e.Fair s) (hstep : MapEvent.Step canvasStatus s e s') : s'.Inv := by
  unfold MapEvent.Step MapEvent.next at hstep
  cases e with
  | config tmp env m => exact h.config hfair hstep
  | command =>
    dsimp only at hstep
    split_ifs at hstep with hd hfull
    · cases hstep
      exact h
    · cases hstep
      refine h.of_owned ?_ rfl rfl h.mapped fun hd' => absurd hd' hd
      have hheld : s.held = usedRecords s.ctx.config := by
        unfold held
        rcases hfair with hlast | hnone
        · exact if_pos hlast
        · rw [hnone, ite_self]
      show s.released ++ (s.queue ++ [s.ctx.config]).flatMap usedRecords ++ [] = s.owned
      unfold owned
      rw [hheld, List.append_nil, List.flatMap_append, List.flatMap_singleton, List.append_assoc]
  | run =>
    dsimp only at hstep
    cases hq : s.queue with
    | nil => rw [hq] at hstep; cases hstep
    | cons cfg rest =>
      rw [hq] at hstep
      cases hstep
      -- the records of the command have not been released
      have hmapped : ((usedRecords cfg).any fun r => decide (r ∈ s.released)) = false := by
        rw [List.any_eq_false]
        intro r hr hrel
        exact h.sound.pending cfg (by rw [hq]; exact List.mem_cons_self) r hr (of_decide_eq_true hrel)
      refine h.of_owned ?_ rfl rfl ?_ ?_
      · show s.released ++ usedRecords cfg ++ rest.flatMap usedRecords ++ s.held = s.owned
        unfold owned
        rw [hq, List.flatMap_cons, List.append_assoc s.released]
      · rw [h.mapped, hmapped]
        rfl
      · intro hd
        have hempty := (h.gone hd).1
        rw [hq] at hempty
        cases hempty
  | destroy =>
    obtain ⟨hqueue, hheld⟩ := hfair
    dsimp only at hstep
    split_ifs at hstep
    cases hstep
    refine h.of_owned ?_ rfl rfl h.mapped fun _ => ⟨rfl, hheld⟩
    show s.released ++ [] ++ s.held = s.owned
    unfold owned
    rw [hqueue]

end MapContext

/-- In a run of fair steps every mapping is given back once, after its command has been run. -/
theorem mappings_released_once {canvasStatus : Bool} {s : MapContext}
    (hrun : Runs (MapEvent.Step canvasStatus) MapEvent.Fair {} s) : s.Sound := by
  have hinv : s.Inv := Runs.keeps (fun h hfair hstep => MapContext.Inv.step h hfair hstep) hrun MapContext.init_inv
  exact hinv.sound

def dmabufConfig : MapEvent :=
  .config {} { alloc := fun _ _ => true, phys := fun _ _ => some 0x1000, ion := fun _ _ => none }
    { ge2dConfigEx := {
        para := fun t => if t = .src then { memType := canvasAlloc } else { memType := 3 }
        planes := fun t i => if t = .src ∧ i = 0 then { w := 8, h := 8, sharedFd := 5 } else {} }
      memAllocType := fun _ => amlGe2dMemDmabuf }

/-- A dma-buf is mapped, used by one command and given back. -/
theorem mappings_released_once_dmabuf : ∃ s : MapContext,
    Runs (MapEvent.Step false) MapEvent.Fair {} s ∧ s.kept = [0] ∧ s.destroyed = true ∧ s.Sound := by
  have hplay : ([dmabufConfig, .command, .run, .destroy].foldlM (guarded MapEvent.Fair (MapEvent.next false))
      {}).any (fun s => decide (s.kept = [0] ∧ s.destroyed = true)) = true := by
    decide +kernel
  obtain ⟨s, hrun, hs⟩ : ∃ s, Runs (MapEvent.Step false) MapEvent.Fair {} s ∧ _ := Runs.of_guarded hplay id
  obtain ⟨hkept, hdestroyed⟩ := of_decide_eq_true hs
  exact ⟨s, hrun, hkept, hdestroyed, mappings_released_once hrun⟩

/-- Two commands after one configuration: the second is run with a mapping that the first has given back. Or a context
is destroyed after a configuration without a command: the mapping is never given back. -/
theorem mappings_not_released_once :
    (¬ ∀ s : MapContext, Runs (MapEvent.Step false) (fun _ _ => True) {} s → s.released.Nodup ∧ s.ranUnmapped = false) ∧
    ¬ ∀ s : MapContext, Runs (MapEvent.Step false) (fun _ _ => True) {} s → s.destroyed = true →
      ∀ r ∈ s.kept, r ∈ s.released := by
  have hnext : ∀ {s s' : MapContext} {e : MapEvent}, e.next false s = some s' → True ∧ e.Step false s s' :=
    fun h => ⟨trivial, h⟩
  constructor
  · intro hall
    have hplay : ([dmabufConfig, .command, .command, .run, .run].foldlM (MapEvent.next false) {}).any
        (fun s => s.ranUnmapped) = true := by
      decide +kernel
    obtain ⟨s, hrun, hs⟩ := Runs.of_play hplay hnext
    rw [(hall s hrun).2] at hs
    cases hs
  · intro hall
    have hplay : ([dmabufConfig, .destroy].foldlM (MapEvent.next false) {}).any
        (fun s => decide (s.destroyed = true ∧ 0 ∈ s.kept ∧ 0 ∉ s.released)) = true := by
      decide +kernel
    obtain ⟨s, hrun, hs⟩ := Runs.of_play hplay hnext
    obtain ⟨hd, hkept, hno⟩ := of_decide_eq_true hs
    exact hno (hall s hrun hd 0 hkept)

end Amlogic.Ge2d
