import Amlogic.CodecMm.System
import Amlogic.CodecMm.Proofs.MonitorProofs

/-!
# The two managers

Each manager is in order with respect to the other one: they have no page frame and no scatter in common.
Every operation keeps them in order, and `OpStep` says what it does to the view of each manager.
-/

namespace Amlogic.CodecMm

open View

/-! ## Both managers -/

def Mgt.ones (m : Mgt) : Multiset Nat := held m - Heap.total Slot.tokens m.slots

def Mgt.frames (m : Mgt) : Multiset Nat := usedFrames m.slots m.ones

def Mgt.lag (m : Mgt) : Int := m.cacheCnt - m.cachedPages

def SysInv {ω : Type} (E : Externals ω) (s : System ω) : Prop :=
  ∀ b, Inv E (s.mgt !b).frames (s.mgt !b).view.live 0 0 (s.mgt b).lag ⟨s.world, s.mgt b⟩

section Managers

variable {ω α : Type} {E : Externals ω} {F : Multiset Nat} {G : Set Nat} {c : Int} {w w' : ω} {m m' : Mgt}
  {s : System ω} {b : Bool} {mms : Nat}

variable {T : Multiset Nat} {a : Int} {t : Local ω} {x : Prog (Local ω) α}

theorem Inv.lag_eq (h : Inv E F G T a c t) : t.mgt.lag = c := by
  have hcached := h.cached
  unfold Mgt.lag
  omega

theorem Inv.ledger (h : Inv E F G 0 0 c ⟨w, m⟩) :
    held m = Heap.total Slot.tokens m.slots + m.ones ∧ (∀ t ∈ m.ones, OnePage t) ∧
      (F + m.frames).Nodup ∧ ∀ f ∈ F + m.frames, .frame f ∈ E.inUse w := by
  obtain ⟨ones, hL, hones, hnodup, huse⟩ := h.pool.ledger.tokens
  have hheld : held m = Heap.total Slot.tokens m.slots + ones := (zero_add (held m)).symm.trans hL
  have heq : m.ones = ones := by
    unfold Mgt.ones
    rw [hheld, add_tsub_cancel_left]
  unfold Mgt.frames
  rw [heq]
  exact ⟨hheld, hones, hnodup, huse⟩

theorem Inv.swap (h : Inv E m.frames m.view.live 0 0 c ⟨w', m'⟩) {c2 : Int}
    (h2 : Inv E F G 0 0 c2 ⟨w, m⟩) : Inv E m'.frames m'.view.live 0 0 c2 ⟨w', m⟩ := by
  obtain ⟨-, -, hnodup, huse⟩ := h.ledger
  obtain ⟨hheld, hones, -, -⟩ := h2.ledger
  have hscatters := h.pool.ledger.scatters
  rw [add_comm] at hnodup huse
  have hview := h2.view
  refine ⟨⟨h2.pool.hash, ⟨⟨m.ones, ?_, hones, hnodup, huse⟩, h2.pool.ledger.total, ?_⟩⟩, h2.scatter,
    h2.alloced, h2.cached, ⟨?_, hview.cache_live, hview.cache_ne, hview.cache_list, hview.list_live,
      hview.list_nodup, hview.map_live, hview.map_once⟩⟩
  · exact (zero_add _).trans hheld
  · rw [Set.union_comm]
    exact hscatters
  · exact fun hx hx' => h.view.others hx' hx

theorem SysInv.other (h : SysInv E s) :
    Inv E (s.mgt b).frames (s.mgt b).view.live 0 0 (s.mgt !b).lag ⟨s.world, s.mgt !b⟩ := by
  have hother := h !b
  rw [Bool.not_not] at hother
  exact hother

theorem SysInv.onMgt {R : α → Mgt → Prop} (h : SysInv E s) (b : Bool) (hx : Meets x ⟨s.world, s.mgt b⟩ fun r t =>
      (∃ c, Inv E (s.mgt !b).frames (s.mgt !b).view.live 0 0 c t) ∧ R r t.mgt) :
    Meets (onMgt b x) s fun r s' => SysInv E s' ∧ s'.mgt (!b) = s.mgt (!b) ∧ R r (s'.mgt b) := by
  refine (Meets.zoom (s := s) hx).mono ?_
  rintro r s' ⟨t, rfl, ⟨c, hinv⟩, hR⟩
  obtain ⟨w', m'⟩ := t
  have hself : Function.update s.mgt b m' b = m' := Function.update_self ..
  have hother : Function.update s.mgt b m' (!b) = s.mgt !b :=
    Function.update_of_ne (Bool.not_ne_self b) ..
  refine ⟨fun b' => ?_, hother, ?_⟩
  · rcases Bool.eq_or_eq_not b' b with rfl | rfl
    · show Inv E (Function.update s.mgt b' m' !b').frames (Function.update s.mgt b' m' !b').view.live 0 0
        (Function.update s.mgt b' m' b').lag ⟨w', Function.update s.mgt b' m' b'⟩
      rw [hself, hother, hinv.lag_eq]
      exact hinv
    · show Inv E (Function.update s.mgt b m' !!b).frames (Function.update s.mgt b m' !!b).view.live 0 0
        (Function.update s.mgt b m' !b).lag ⟨w', Function.update s.mgt b m' !b⟩
      rw [Bool.not_not, hself, hother]
      exact hinv.swap h.other
  · show R r (Function.update s.mgt b m' b)
    rw [hself]
    exact hR

theorem SysInv.notMem_other (h : SysInv E s) (hlive : mms ∈ (s.mgt b).view.live) :
    mms ∉ (s.mgt !b).view.live :=
  (h b).view.others hlive

/-! ## Users -/

theorem SysInv.onUsers {x : Prog (Local ω) Int} {f : View → View} {R : View → Int → Prop} (h : SysInv E s)
    (hx : ∀ {F G c} {t : Local ω}, Inv E F G 0 0 c t → Meets x t fun r t' => Inv E F G 0 0 c t' ∧
      t'.mgt.view = f t.mgt.view ∧ R t.mgt.view r) (hR : ∀ {v r}, R v r → 0 ≤ r → mms ∈ v.live) (hf : ∀ v : View, mms ∉ v.live → f v = v) :
    Meets (do
      let ret ← CodecMm.onMgt false x
      if ret < 0 then CodecMm.onMgt true x else return ret) s fun _ s' => SysInv E s' ∧
        ∀ b, (s'.mgt b).view = f (s.mgt b).view ∧ (s'.mgt b).lag = (s.mgt b).lag := by
  have hrule : ∀ {s : System ω}, SysInv E s → ∀ b, Meets (CodecMm.onMgt b x) s fun r s' =>
      SysInv E s' ∧ s'.mgt (!b) = s.mgt (!b) ∧ ((s'.mgt b).view = f (s.mgt b).view ∧
        (s'.mgt b).lag = (s.mgt b).lag ∧ (0 ≤ r → mms ∈ (s.mgt b).view.live)) := by
    intro s h b
    refine h.onMgt (R := fun r m' => m'.view = f (s.mgt b).view ∧ m'.lag = (s.mgt b).lag ∧
      (0 ≤ r → mms ∈ (s.mgt b).view.live)) b ((hx (h b)).mono ?_)
    rintro r t ⟨ht, hv, hr⟩
    exact ⟨⟨_, ht⟩, hv, ht.lag_eq, hR hr⟩
  refine (hrule h false).bind ?_
  rintro r s1 ⟨h1, hother, hv1, hlag1, hr⟩
  have hother : s1.mgt true = s.mgt true := hother
  split_ifs with hneg
  · refine (hrule h1 true).mono ?_
    rintro - s2 ⟨h2, hother2, hv2, hlag2, -⟩
    have hother2 : s2.mgt false = s1.mgt false := hother2
    rw [hother] at hv2 hlag2
    refine ⟨h2, fun b => ?_⟩
    cases b with
    | false => exact hother2 ▸ ⟨hv1, hlag1⟩
    | true => exact ⟨hv2, hlag2⟩
  · -- the first manager knows the scatter, so the second one does not
    have hnot : mms ∉ (s.mgt true).view.live := h.notMem_other (hr (not_lt.mp hneg))
    refine ⟨h1, fun b => ?_⟩
    cases b with
    | false => exact ⟨hv1, hlag1⟩
    | true =>
      rw [hother]
      exact ⟨(hf _ hnot).symm, rfl⟩

theorem codecMmScatterIncUserIn_ok (h : SysInv E s) (mms : Nat) (cnt : Int) :
    Meets (codecMmScatterIncUserIn E mms cnt) s fun _ s' => SysInv E s' ∧
      ∀ b, (s'.mgt b).view = (s.mgt b).view.inc mms cnt ∧ (s'.mgt b).lag = (s.mgt b).lag :=
  h.onUsers (codecMmScatterIncUserIn1_ok · mms cnt) UserResult.live fun _ => inc_of_notMem cnt

theorem codecMmScatterDecUserIn_ok (h : SysInv E s) (mms : Nat) (delayFreeMs cnt : Int) :
    Meets (codecMmScatterDecUserIn E mms delayFreeMs cnt) s fun _ s' => SysInv E s' ∧
      ∀ b, (s'.mgt b).view = (s.mgt b).view.dec mms cnt ∧ (s'.mgt b).lag = (s.mgt b).lag :=
  h.onUsers (codecMmScatterDecUserIn1_ok · mms delayFreeMs cnt) UserResult.live fun _ => dec_of_notMem cnt

/-! ## Giving up the caches -/

theorem freeOnNouser_view (h : Inv E F G T a c t) (hlive : mms ∈ t.mgt.view.live) (hnc : ¬t.mgt.view.IsCache mms) :
    Meets (codecMmScatterFreeOnNouser E mms) t fun _ t' => Inv E F G T a c t' ∧
      t'.mgt.view = t.mgt.view.freeOnNouser mms := by
  obtain ⟨sc, hl⟩ := mem_live_iff.mp hlive
  refine (codecMmScatterFreeOnNouser_ok h hl hnc).mono ?_
  rintro - t' ⟨h', hkeep, hfree⟩
  refine ⟨h', ?_⟩
  unfold freeOnNouser
  rw [view_users_of_lookup hl]
  by_cases hpos : 0 < sc.userCnt
  · exact (hkeep hpos).trans (if_pos hpos).symm
  · exact (hfree (not_lt.mp hpos)).trans (if_neg hpos).symm

theorem dropCache_ok (h : SysInv E s) (b : Bool) {cache : Option Nat} (hcache : ∀ mms, cache = some mms →
      mms ∈ (s.mgt b).view.live ∧ ¬(s.mgt b).view.IsCache mms) :
    Meets (dropCache E b cache) s fun _ s' => SysInv E s' ∧
      ((s'.mgt b).view = (s.mgt b).view.dropCache cache ∧ (s'.mgt b).lag = (s.mgt b).lag) ∧
      (s'.mgt !b).view = (s.mgt !b).view ∧ (s'.mgt !b).lag = (s.mgt !b).lag := by
  cases cache with
  | none => exact ⟨h, ⟨rfl, rfl⟩, rfl, rfl⟩
  | some mms =>
    obtain ⟨hlive, hnc⟩ := hcache mms rfl
    refine (codecMmScatterDecUserIn_ok h mms 0 1000).bind ?_
    rintro - s1 ⟨h1, heffect⟩
    obtain ⟨hv1, hlag1⟩ := heffect b
    obtain ⟨hov1, holag1⟩ := heffect !b
    rw [dec_of_notMem 1000 (h.notMem_other hlive)] at hov1
    have hlive1 : mms ∈ (s1.mgt b).view.live := by
      rw [hv1]
      exact (mem_live_dec 1000).mpr hlive
    have hnc1 : ¬(s1.mgt b).view.IsCache mms := by
      rw [hv1]
      exact fun hc => hnc ((isCache_dec 1000).mp hc)
    refine (h1.onMgt (R := fun _ m' => m'.view = (s1.mgt b).view.freeOnNouser mms ∧
      m'.lag = (s1.mgt b).lag) b ((freeOnNouser_view (h1 b) hlive1 hnc1).mono ?_)).bind ?_
    · rintro - t ⟨ht, hv⟩
      exact ⟨⟨_, ht⟩, hv, ht.lag_eq⟩
    · rintro - s2 ⟨h2, hother, hv2, hlag2⟩
      refine ⟨h2, ⟨hv2.trans (by rw [hv1]; rfl), hlag2.trans hlag1⟩, ?_⟩
      rw [hother]
      exact ⟨hov1, holag1⟩

theorem dropCaches_ok (h : SysInv E s) (b : Bool) :
    Meets (dropCaches E b) s fun _ s' => SysInv E s' ∧
      ((s'.mgt b).view = (s.mgt b).view ∧ (s'.mgt b).lag = (s.mgt b).lag ∨
        (s.mgt b).delayFreeOn ≤ 0 ∧ (s'.mgt b).view = (s.mgt b).view.dropCaches ∧ (s'.mgt b).lag = 0) ∧
      (s'.mgt !b).view = (s.mgt !b).view ∧ (s'.mgt !b).lag = (s.mgt !b).lag := by
  unfold dropCaches
  rw [meets_get_bind]
  by_cases hoff : (s.mgt b).delayFreeOn ≤ 0 ∧ (s.mgt b).cacheSc0 ≠ none
  swap
  · rw [if_neg hoff]
    exact ⟨h, Or.inl ⟨rfl, rfl⟩, rfl, rfl⟩
  rw [if_pos hoff]
  have hnow := h.onMgt (x := onPool (ext E.jiffies)) (R := fun _ m' => m' = s.mgt b) b
    ⟨⟨_, (h b).world (E.jiffies_keeps _)⟩, rfl⟩
  refine hnow.bind ?_
  rintro now s1 ⟨h1, hother1, hm1⟩
  by_cases htime : now > (s.mgt b).delayFreeTimeoutJiffies64
  swap
  · rw [if_neg htime]
    refine ⟨h1, Or.inl ?_, ?_⟩
    · rw [hm1]
      exact ⟨rfl, rfl⟩
    · rw [hother1]
      exact ⟨rfl, rfl⟩
  rw [if_pos htime]
  -- no scatter is a cache any more, and the count of cached pages agrees
  have hnone : ({ (s1.mgt b).view with cache0 := none, cache1 := none } : View).Ok _ :=
    (h1 b).view.forget nofun
  have hforget := h1.onMgt
    (x := modifyMgt fun m => { m with cacheSc0 := none, cacheSc1 := none, cachedPages := 0 })
    (R := fun _ m' => m' = { s.mgt b with cacheSc0 := none, cacheSc1 := none, cachedPages := 0 }) b
    ⟨⟨_, (h1 b).recache _ rfl rfl hnone⟩, by rw [hm1]⟩
  refine hforget.bind ?_
  rintro - s2 ⟨h2, hother2, hm2⟩
  have hv2 : (s2.mgt b).view = { (s.mgt b).view with cache0 := none, cache1 := none } := by
    rw [hm2]
    rfl
  have hlag2 : (s2.mgt b).lag = 0 := by
    rw [hm2]
    rfl
  have hother : s2.mgt (!b) = s.mgt (!b) := hother2.trans hother1
  refine (dropCache_ok h2 b fun mms hmms => ⟨?_, ?_⟩).bind ?_
  · rw [hv2]
    exact (h b).view.cache_live (Or.inl hmms)
  · rw [hv2]
    exact not_isCache rfl rfl
  rintro - s3 ⟨h3, ⟨hv3, hlag3⟩, hov3, holag3⟩
  refine (dropCache_ok h3 b fun mms hmms => ⟨?_, ?_⟩).mono ?_
  · rw [hv3, hv2]
    exact mem_live_dropCache ((h b).view.cache_live (Or.inr hmms)) fun h0 =>
      (h b).view.cache_ne mms ⟨h0, hmms⟩
  · rw [hv3, hv2]
    obtain ⟨h0, h1⟩ := caches_dropCache
      { (s.mgt b).view with cache0 := none, cache1 := none } (s.mgt b).cacheSc0
    exact not_isCache h0 h1
  rintro - s4 ⟨h4, ⟨hv4, hlag4⟩, hov4, holag4⟩
  refine ⟨h4, Or.inr ⟨hoff.1, ?_, hlag4.trans (hlag3.trans hlag2)⟩, ?_⟩
  · rw [hv4, hv3, hv2]
    rfl
  · rw [hov4, hov3, holag4, holag3, hother]
    exact ⟨rfl, rfl⟩

theorem freeCachesLoop_ok (fuel : Nat) (h : SysInv E s) (b : Bool) :
    Meets (freeCachesLoop E b fuel) s fun _ s' => SysInv E s' ∧
      (Relation.ReflTransGen (fun v v' => v' = shiftCaches v) (s.mgt b).view (s'.mgt b).view ∧
        (s'.mgt b).lag = 0) ∧
      (s'.mgt !b).view = (s.mgt !b).view ∧ (s'.mgt !b).lag = (s.mgt !b).lag := by
  induction fuel generalizing s with
  | zero => exact meets_fuel
  | succ fuel ih =>
    rw [freeCachesLoop, meets_get_bind]
    have hview := (h b).view
    have hshift := h.onMgt
      (x := modifyMgt fun m => { m with
        delayFreeOn := 0, cacheSc0 := m.cacheSc1, cacheSc1 := none, cachedPages := 0 })
      (R := fun _ m' => m' = { s.mgt b with
        delayFreeOn := 0, cacheSc0 := (s.mgt b).cacheSc1, cacheSc1 := none, cachedPages := 0 }) b
      ⟨⟨_, (h b).recache _ rfl rfl (hview.forget fun _ => id)⟩, rfl⟩
    refine hshift.bind ?_
    rintro - s1 ⟨h1, hother1, hm1⟩
    have hv1 : (s1.mgt b).view =
        { (s.mgt b).view with cache0 := (s.mgt b).cacheSc1, cache1 := none } := by
      rw [hm1]
      rfl
    refine (dropCache_ok h1 b fun mms hmms => ⟨?_, ?_⟩).bind ?_
    · rw [hv1]
      exact hview.cache_live (Or.inl hmms)
    · rw [hv1]
      rintro (hx | hx)
      · exact hview.cache_ne mms ⟨hmms, hx⟩
      · cases hx
    rintro - s2 ⟨h2, ⟨hv2, hlag2⟩, hov2, holag2⟩
    rw [hother1] at hov2 holag2
    have hv : (s2.mgt b).view = (s.mgt b).view.shiftCaches := by
      rw [hv2, hv1]
      rfl
    have hcache : (s2.mgt b).cacheSc0 = (s.mgt b).cacheSc1 := by
      show (s2.mgt b).view.cache0 = _
      rw [hv2, (caches_dropCache _ _).1, hv1]
    rw [meets_get_bind]
    by_cases hmore : (s2.mgt b).cacheSc0 ≠ none
    · rw [if_pos hmore]
      refine (ih h2).mono ?_
      rintro - s3 ⟨h3, ⟨hrun, hlag3⟩, hov3, holag3⟩
      exact ⟨h3, ⟨.head hv hrun, hlag3⟩, hov3.trans hov2, holag3.trans holag2⟩
    · rw [if_neg hmore]
      have hnone : (s.mgt b).cacheSc1 = none := hcache.symm.trans (not_not.mp hmore)
      refine ⟨h2, ⟨.single hv, hlag2.trans ?_⟩, hov2, holag2⟩
      rw [hm1, hnone]
      rfl

theorem codecMmScatterFreeAllIgnorecacheIn_ok (h : SysInv E s) (b : Bool) (flags : Nat) :
    Meets (codecMmScatterFreeAllIgnorecacheIn E b flags) s fun _ s' => SysInv E s' ∧
      (∃ v, Relation.ReflTransGen (fun v v' => v' = shiftCaches v) (s.mgt b).view v ∧
        Relation.ReflTransGen ClearStep v (s'.mgt b).view ∧ (s'.mgt b).lag = 0) ∧
      (s'.mgt !b).view = (s.mgt !b).view ∧ (s'.mgt !b).lag = (s.mgt !b).lag := by
  refine (freeCachesLoop_ok 3 h b).bind ?_
  rintro - s1 ⟨h1, ⟨hshift, hlag1⟩, hov1, holag1⟩
  have hclear : Meets (if flags ≥ 1 then onMgt b (clearLoop E (flags = 2) 1001) else pure ()) s1
      fun _ s' => SysInv E s' ∧ s'.mgt (!b) = s1.mgt (!b) ∧
        (Relation.ReflTransGen ClearStep (s1.mgt b).view (s'.mgt b).view ∧
          (s'.mgt b).lag = (s1.mgt b).lag) := by
    split_ifs
    · refine h1.onMgt (R := fun _ m' => Relation.ReflTransGen ClearStep (s1.mgt b).view m'.view ∧
        m'.lag = (s1.mgt b).lag) b ((clearLoop_ok 1001 (h1 b) _).mono ?_)
      rintro - t ⟨ht, hrun⟩
      exact ⟨⟨_, ht⟩, hrun, ht.lag_eq⟩
    · exact ⟨h1, rfl, .refl, rfl⟩
  refine hclear.bind ?_
  rintro - s2 ⟨h2, hother2, hrun, hlag2⟩
  have hslots := h2.onMgt (R := fun _ m' => m'.view = (s2.mgt b).view ∧ m'.lag = (s2.mgt b).lag) b
    (x := onPool (codecMmFreeAllFreeSlotsIn E)) <| (InvAt.freeSlots ⟨h2 b, rfl⟩).mono fun _ t ht =>
      ⟨⟨_, ht.1⟩, ht.2, ht.1.lag_eq⟩
  refine hslots.bind ?_
  rintro - s3 ⟨h3, hother3, hv3, hlag3⟩
  refine ⟨h3, ⟨_, hshift, hv3 ▸ hrun, hlag3.trans (hlag2.trans hlag1)⟩, ?_⟩
  rw [hother3, hother2]
  exact ⟨hov1, holag1⟩

/-! ## Operations -/

/-- What an operation may do to a manager, `m` before it: the view and the lag afterwards. `G` are the
scatters of the other manager. -/
inductive OpStep (G : Set Nat) (b : Bool) (m : Mgt) : Op → View → Int → Prop
  | same (op : Op) : OpStep G b m op m.view m.lag
  | alloc (maxPage pageNum : Int) {v : View} (hstep : AllocStep G m.view v)
      (hold : ∀ x ∈ m.scatterList, m.Reusable maxPage x → v.list = m.view.list) :
      OpStep G b m (.alloc b maxPage pageNum) v m.lag
  | incForKeeper (smgt : Bool) (mms : Nat) :
      OpStep G b m (.incForKeeper smgt mms) (m.view.inc mms 100) m.lag
  | decKeeperUser (smgt : Bool) (mms : Nat) (delayMs : Int) :
      OpStep G b m (.decKeeperUser smgt mms delayMs) (m.view.dec mms 100) m.lag
  | decOwnerUser (smgt : Bool) (mms : Nat) (delayMs : Int) :
      OpStep G b m (.decOwnerUser smgt mms delayMs) (m.view.dec mms 1000) m.lag
  | create {v : View} {c : Int} (hstep : CreateStep G m.delayFreeOn m.view v)
      (hlag : m.KeepsSecond → c = m.lag) : OpStep G b m (.arrange b) v c
  | drop (hoff : m.delayFreeOn ≤ 0) : OpStep G b m (.arrange b) m.view.dropCaches 0
  | clear (force : Bool) {v : View} (hstep : ClearStep m.view v) : OpStep G b m (.clear b force) v m.lag
  | freeAll (flags : Nat) {v v' : View} (hflags : flags &&& (if b then 2 else 1) ≠ 0)
      (hshift : Relation.ReflTransGen (fun v v' => v' = shiftCaches v) m.view v)
      (hclear : Relation.ReflTransGen ClearStep v v') : OpStep G b m (.freeAllIgnorecache flags) v' 0

def StepTo (E : Externals ω) (op : Op) (s s' : System ω) : Prop :=
  SysInv E s' ∧ ∀ b, OpStep (s.mgt !b).view.live b (s.mgt b) op (s'.mgt b).view (s'.mgt b).lag

theorem OpStep.of_eq {op : Op} {v : View} {c : Int} (hv : v = m.view) (hc : c = m.lag) :
    OpStep G b m op v c := by
  subst hv hc
  exact .same op

theorem meets_void {x : Prog (System ω) α} {P : System ω → Prop} (h : Meets x s fun _ s' => P s') :
    Meets (void x) s fun _ s' => P s' :=
  h.bind fun _ _ hP => hP

theorem stepTo_of_one {s' : System ω} {op : Op} (h' : SysInv E s')
    (hself : OpStep (s.mgt !b).view.live b (s.mgt b) op (s'.mgt b).view (s'.mgt b).lag)
    (hview : (s'.mgt !b).view = (s.mgt !b).view) (hlag : (s'.mgt !b).lag = (s.mgt !b).lag) : StepTo E op s s' := by
  refine ⟨h', fun b' => ?_⟩
  rcases Bool.eq_or_eq_not b' b with rfl | rfl
  · exact hself
  · exact .of_eq hview hlag

theorem SysInv.step {op : Op} (h : SysInv E s) (b : Bool) (hx : Meets x ⟨s.world, s.mgt b⟩ fun _ t =>
      ∃ c, Inv E (s.mgt !b).frames (s.mgt !b).view.live 0 0 c t ∧
        OpStep (s.mgt !b).view.live b (s.mgt b) op t.mgt.view c) :
    Meets (CodecMm.onMgt b x) s fun _ s' => StepTo E op s s' := by
  refine (h.onMgt (R := fun _ m' => OpStep (s.mgt !b).view.live b (s.mgt b) op m'.view m'.lag) b
    (hx.mono ?_)).mono ?_
  · rintro - t ⟨c, ht, hstep⟩
    exact ⟨⟨c, ht⟩, ht.lag_eq ▸ hstep⟩
  · rintro - s' ⟨h', hother, hstep⟩
    exact stepTo_of_one h' hstep (by rw [hother]) (by rw [hother])

theorem SysInv.keep {op : Op} (h : SysInv E s) (b : Bool) (hx : Meets x ⟨s.world, s.mgt b⟩ fun _ t =>
      Inv E (s.mgt !b).frames (s.mgt !b).view.live 0 0 (s.mgt b).lag t ∧ t.mgt.view = (s.mgt b).view) :
    Meets (CodecMm.onMgt b x) s fun _ s' => StepTo E op s s' :=
  h.step b (hx.mono fun _ _ ht => ⟨_, ht.1, .of_eq ht.2 rfl⟩)

theorem freeTailPagesIn_view (h : Inv E F G T a c t)
    (hmem : mms ∈ t.mgt.scatterList) (id : Int) (fastMode freeMode : Nat) :
    Meets (codecMmScatterFreeTailPagesIn E mms id fastMode freeMode) t fun _ t' =>
      Inv E F G T a c t' ∧ t'.mgt.view = t.mgt.view := by
  obtain ⟨sc, hl⟩ := mem_live_iff.mp (h.view.list_live hmem)
  obtain ⟨toks, hsc⟩ := h.scatter hl
  refine (codecMmScatterFreeTailPagesIn_ok h hl hsc id fastMode freeMode
    fun _ hc => h.view.cache_list hc hmem).mono ?_
  rintro - t' ⟨h', htouch, -⟩
  exact ⟨h', htouch.view⟩

theorem arrange_ok (h : SysInv E s) (b : Bool) :
    Meets (codecMmScatterScatterArrange E b) s fun _ s' => StepTo E (.arrange b) s s' := by
  refine (h.onMgt (R := fun _ m' => CreateStep (s.mgt !b).view.live (s.mgt b).delayFreeOn (s.mgt b).view
    m'.view ∧ m'.delayFreeOn = (s.mgt b).delayFreeOn ∧ ((s.mgt b).KeepsSecond → m'.lag = (s.mgt b).lag))
    b ((createCaches_ok (h b)).mono ?_)).bind ?_
  · rintro - t ⟨⟨c', ht, hc⟩, hdelay, hstep⟩
    exact ⟨⟨c', ht⟩, hstep, hdelay, fun hkeep => ht.lag_eq.trans (hc hkeep)⟩
  rintro - s1 ⟨h1, hother1, hcreate, hdelay, hlag1⟩
  refine (dropCaches_ok h1 b).bind ?_
  rintro - s2 ⟨h2, hdrop, hov2, holag2⟩
  rw [hother1] at hov2 holag2
  refine (h2.onMgt (R := fun _ m' => m'.view = (s2.mgt b).view ∧ m'.lag = (s2.mgt b).lag) b
    ((arrangeList_ok (h2 b)).mono fun _ t ht => ⟨⟨_, ht.1⟩, ht.2, ht.1.lag_eq⟩)).mono ?_
  rintro - s3 ⟨h3, hother3, hv3, hlag3⟩
  refine stepTo_of_one h3 ?_ (by rw [hother3, hov2]) (by rw [hother3, holag2])
  rw [hv3, hlag3]
  rcases hdrop with ⟨hv2, hlag2⟩ | ⟨hoff, hv2, hlag2⟩
  · rw [hv2, hlag2]
    exact .create hcreate hlag1
  · -- caches are created while freeing is delayed, and given up when it is not
    have hsame : (s1.mgt b).view = (s.mgt b).view := by
      rw [hdelay] at hoff
      generalize (s1.mgt b).view = v1 at hcreate
      cases hcreate with
      | none => rfl
      | create v1 v2 hon => exact absurd hon (not_lt.mpr hoff)
    rw [hv2, hlag2, hsame]
    exact .drop (hdelay ▸ hoff)

theorem freeAllIgnorecache_ok (h : SysInv E s) (flags : Nat) :
    Meets (codecMmScatterFreeAllIgnorecache E flags) s fun _ s' =>
      StepTo E (.freeAllIgnorecache flags) s s' := by
  have hone : ∀ {s : System ω}, SysInv E s → ∀ b n,
      Meets (if flags &&& (if b then 2 else 1) ≠ 0 then codecMmScatterFreeAllIgnorecacheIn E b n
        else pure 0) s fun _ s' => SysInv E s' ∧
        (∀ G m, m.view = (s.mgt b).view → m.lag = (s.mgt b).lag →
          OpStep G b m (.freeAllIgnorecache flags) (s'.mgt b).view (s'.mgt b).lag) ∧
        (s'.mgt !b).view = (s.mgt !b).view ∧ (s'.mgt !b).lag = (s.mgt !b).lag := by
    intro s h b n
    by_cases hflags : flags &&& (if b then 2 else 1) ≠ 0
    · rw [if_pos hflags]
      refine (codecMmScatterFreeAllIgnorecacheIn_ok h b n).mono ?_
      rintro - s' ⟨h', ⟨v, hshift, hclear, hlag⟩, hov, holag⟩
      refine ⟨h', fun G m hv _ => ?_, hov, holag⟩
      rw [hlag]
      exact .freeAll flags hflags (hv ▸ hshift) hclear
    · rw [if_neg hflags]
      exact ⟨h, fun G m hv hlag => .of_eq hv.symm hlag.symm, rfl, rfl⟩
  refine (hone h false 2).bind ?_
  rintro - s1 ⟨h1, hfalse, hov1, holag1⟩
  refine (hone h1 true 1).bind ?_
  rintro - s2 ⟨h2, htrue, hov2, holag2⟩
  have hov2 : (s2.mgt false).view = (s1.mgt false).view := hov2
  have holag2 : (s2.mgt false).lag = (s1.mgt false).lag := holag2
  refine ⟨h2, fun b => ?_⟩
  cases b with
  | false =>
    rw [hov2, holag2]
    exact hfalse _ _ rfl rfl
  | true => exact htrue _ _ hov1.symm holag1.symm

/-- Every operation keeps the managers in order, and does what `OpStep` says. -/
theorem Op.exec_ok (h : SysInv E s) (op : Op) (hallow : op.Allowed s) :
    Meets (op.exec E) s fun _ s' => StepTo E op s s' := by
  have husers : ∀ {f : View → View}, (∀ b, OpStep (s.mgt !b).view.live b (s.mgt b) op (f (s.mgt b).view)
      (s.mgt b).lag) → ∀ {x : Prog (System ω) Int}, Meets x s (fun _ s' => SysInv E s' ∧
        ∀ b, (s'.mgt b).view = f (s.mgt b).view ∧ (s'.mgt b).lag = (s.mgt b).lag) →
      Meets (void x) s fun _ s' => StepTo E op s s' := by
    intro f hstep x hx
    refine meets_void (hx.mono ?_)
    rintro - s' ⟨h', heffect⟩
    refine ⟨h', fun b => ?_⟩
    rw [(heffect b).1, (heffect b).2]
    exact hstep b
  cases op with
  | alloc smgt maxPage pageNum =>
    exact meets_void (h.step smgt ((codecMmScatterAlloc_ok (h smgt) maxPage pageNum).mono
      fun _ t ht => ⟨_, ht.1, .alloc maxPage pageNum ht.2.1 ht.2.2⟩))
  | wantPages smgt mms want =>
    exact meets_void (h.keep smgt (codecMmScatterAllocWantPagesIn_ok (h smgt)
      ((h smgt).view.list_live (hallow (smgt, mms) rfl)) want))
  | freeTailPages smgt mms startId =>
    exact meets_void (h.keep smgt (freeTailPagesIn_view (h smgt) (hallow (smgt, mms) rfl) startId 0 0))
  | freeTailPagesFast smgt mms startFreeId =>
    have hmem := hallow (smgt, mms) rfl
    obtain ⟨sc, hl⟩ := mem_live_iff.mp ((h smgt).view.list_live hmem)
    refine meets_void (h.keep smgt ?_)
    unfold codecMmScatterFreeTailPagesFast
    rw [meets_scatterOf_bind hl]
    split_ifs
    · exact freeTailPagesIn_view (h smgt) hmem startFreeId 2 0
    · exact ⟨h smgt, rfl⟩
  | freeUnusedPages smgt mms =>
    exact meets_void (h.keep smgt (freeTailPagesIn_view (h smgt) (hallow (smgt, mms) rfl) 0 0 1))
  | lessPages smgt mms nums =>
    exact meets_void (h.keep smgt (freeTailPagesIn_view (h smgt) (hallow (smgt, mms) rfl) nums 0 2))
  | freeAllPages smgt mms =>
    exact meets_void (h.keep smgt (freeTailPagesIn_view (h smgt) (hallow (smgt, mms) rfl) 0 0 0))
  | incForKeeper smgt mms =>
    exact husers (f := fun v => v.inc mms 100) (fun b => .incForKeeper smgt mms)
      (codecMmScatterIncUserIn_ok h mms 100)
  | decKeeperUser smgt mms delayMs =>
    exact husers (f := fun v => v.dec mms 100) (fun b => .decKeeperUser smgt mms delayMs)
      (codecMmScatterDecUserIn_ok h mms delayMs 100)
  | decOwnerUser smgt mms delayMs =>
    exact husers (f := fun v => v.dec mms 1000) (fun b => .decOwnerUser smgt mms delayMs)
      (codecMmScatterDecUserIn_ok h mms delayMs 1000)
  | delayFreeSwith smgt on delayMs waitSizeM =>
    exact meets_void (h.keep smgt (codecMmScatterMgtDelayFreeSwith_ok ⟨h smgt, rfl⟩ on delayMs waitSizeM))
  | setConfig g => exact ⟨h, fun b => .same _⟩
  | updateConfig smgt =>
    exact h.keep smgt (x := modifyMgt fun m => m.updateConfig s.config) <| by
      have hs := h smgt
      exact ⟨⟨⟨hs.pool.hash, hs.pool.ledger⟩, hs.scatter, hs.alloced, hs.cached, hs.view⟩, rfl⟩
  | arrange smgt => exact arrange_ok h smgt
  | clear smgt force =>
    exact meets_void (h.step smgt ((codecMmScatterScatterClear_ok (h smgt) force).mono
      fun _ t ht => ⟨_, ht.1, .clear force ht.2⟩))
  | cacheManage smgt => exact h.keep smgt (codecMmScatterCacheManage_ok ⟨h smgt, rfl⟩)
  | freeAllFreeSlots smgt => exact meets_void (h.keep smgt (InvAt.freeSlots ⟨h smgt, rfl⟩))
  | freeAllIgnorecache flags => exact meets_void (freeAllIgnorecache_ok h flags)

/-! ## Runs -/

theorem System.init_inv (w : ω) (lessMemory : Bool) : SysInv E (System.init w lessMemory) := by
  intro b
  have hlive : ∀ {tvp : Bool} {n x : Nat}, x ∉ (Mgt.init tvp n).view.live := fun hx => hx rfl
  have hmap : ∀ {x : Nat}, some x ∉ List.replicate maxScList (none : Option Nat) := fun hx =>
    absurd (List.eq_of_mem_replicate hx) nofun
  refine ⟨⟨?_, ⟨0, rfl, nofun, ?_, ?_⟩, rfl, ?_⟩, nofun, rfl, rfl, ?_⟩
  · exact ⟨nofun, nofun, nofun, fun sid id => ⟨nofun, nofun⟩, fun sid => List.nodup_nil, nofun, nofun,
      List.nodup_nil⟩
  · exact Multiset.nodup_zero
  · exact nofun
  · rintro x (hx | hx)
    · exact absurd hx hlive
    · exact absurd hx hlive
  · exact ⟨fun hx => absurd hx hlive, fun hx => absurd hx (not_isCache rfl rfl),
      fun x hx => absurd hx.1 nofun, fun hx => absurd hx (not_isCache rfl rfl), nofun,
      List.nodup_nil, fun hx => absurd hx hmap, fun x => (List.count_eq_zero.mpr hmap).le.trans zero_le_one⟩

theorem Run.inv {ok : System ω → Op → Prop} {s0 : System ω} {P : System ω → Prop} (hrun : Run E ok s0 s)
    (h0 : SysInv E s0) (hP0 : P s0)
    (hstep : ∀ s s' op, SysInv E s → P s → op.Allowed s → ok s op → StepTo E op s s' → P s') : SysInv E s ∧ P s := by
  induction hrun with
  | init => exact ⟨h0, hP0⟩
  | step hrun op hallow hok hexec ih =>
    have hto := (Op.exec_ok ih.1 op hallow).of_ok hexec
    exact ⟨hto.1, hstep _ _ op ih.1 ih.2 hallow hok hto⟩

end Managers

end Amlogic.CodecMm
