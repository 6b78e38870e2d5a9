import Amlogic.CodecMm.Proofs.ManagerProofs

/-!
# The monitor

The passes of the monitor over one manager: the cache is filled and emptied, cache scatters are created,
and scatters without users are freed.
-/

namespace Amlogic.CodecMm

section Code

variable {ω : Type} {E : Externals ω} {F T : Multiset Nat} {G : Set Nat} {a c : Int}
  {s : Local ω} {mms : Nat}

/-! ## Filling and emptying the cache -/

section

variable {v : View} (h : InvAt E F G T a c v s)
include h

theorem InvAt.settings {m' : Mgt} (hpool : m'.toSlotPool = s.mgt.toSlotPool)
    (hheap : m'.scatters = s.mgt.scatters) (hcached : m'.cachedPages = s.mgt.cachedPages)
    (hview : m'.view = s.mgt.view) : InvAt E F G T a c v { s with mgt := m' } :=
  ⟨h.1.relist hpool hheap hcached (congrArg View.cache0 hview) (congrArg View.cache1 hview) (hview ▸ h.1.view),
    hview.trans h.2⟩

theorem InvAt.now : InvAt E F G T a c v { s with world := (E.jiffies s.world).2 } :=
  ⟨h.1.world (E.jiffies_keeps _), h.2⟩

theorem InvAt.switchDelay (on : Bool) (timeout : Nat) :
    InvAt E F G T a c v { s with mgt := s.mgt.switchDelay on timeout } := by
  unfold Mgt.switchDelay
  split_ifs <;> exact h.settings rfl rfl rfl rfl

theorem codecMmScatterMgtDelayFreeSwith_ok (on : Bool) (delayMs waitSizeM : Int) :
    Meets (codecMmScatterMgtDelayFreeSwith E on delayMs waitSizeM) s fun _ => InvAt E F G T a c v := by
  unfold codecMmScatterMgtDelayFreeSwith
  rw [meets_onPool_ext_bind, meets_modifyMgt_bind]
  have h1 := h.now.switchDelay on ((E.jiffies s.world).1 + delayMs * E.hz / 1000).toNat
  split_ifs
  · exact h1.now.settings rfl rfl rfl rfl
  · exact h1

theorem stopForceCache_ok : Meets (stopForceCache E) s fun _ => InvAt E F G T a c v :=
  h.now.settings rfl rfl rfl rfl

theorem growCache_ok : Meets (growCache E) s fun _ => InvAt E F G T a c v := by
  refine (codecMmGetNextCacheScatter_ok h.1 none 0).bind ?_
  rintro r s1 ⟨hs1, hr⟩
  subst s1
  cases r with
  | none => exact h
  | some mms =>
    have hlive := h.1.view.cache_live (hr mms rfl)
    obtain ⟨sc, hl⟩ := mem_live_iff.mp hlive
    dsimp only
    rw [meets_scatterOf_bind hl, meets_get_bind]
    split_ifs
    · refine (codecMmScatterAllocWantPagesIn_ok h.1 hlive _).bind fun ret s1 h1 => ?_
      rw [h.2] at h1
      rw [meets_get_bind]
      split_ifs
      · exact stopForceCache_ok h1
      · exact h1
    · exact h

theorem shrinkCache_ok : Meets (shrinkCache E) s fun _ => InvAt E F G T a c v := by
  refine (codecMmGetNextCacheScatter_ok h.1 none 0).bind ?_
  rintro r s1 ⟨hs1, hr⟩
  subst s1
  cases r with
  | none => exact h
  | some mms =>
    obtain ⟨sc, hl⟩ := mem_live_iff.mp (h.1.view.cache_live (hr mms rfl))
    obtain ⟨toks, hsc⟩ := h.1.scatter hl
    refine (codecMmScatterFreeTailPagesIn_ok h.1 hl hsc 256 0 2 (by omega)).bind ?_
    rintro - s1 ⟨h1, ht1, -⟩
    exact ⟨h1, ht1.view.trans h.2⟩

theorem InvAt.freeSlots : Meets (CodecMm.onPool (codecMmFreeAllFreeSlotsIn E)) s fun _ => InvAt E F G T a c v := by
  refine (Meets.zoom (s := s) (codecMmFreeAllFreeSlotsIn_ok h.1.pool)).mono ?_
  rintro r s' ⟨t, rfl, hpool, halloc⟩
  refine ⟨h.1.withPool hpool ?_, h.2⟩
  rw [halloc]
  exact h.1.alloced

theorem codecMmScatterCacheManage_ok : Meets (codecMmScatterCacheManage E) s fun _ => InvAt E F G T a c v := by
  unfold codecMmScatterCacheManage
  rw [meets_get_bind]
  by_cases hon : s.mgt.delayFreeOn > 0 ∧ s.mgt.keepSizePage > 0
  · rw [if_pos hon]
    split_ifs
    · exact stopForceCache_ok h
    · exact h
    · exact growCache_ok h
    · rw [meets_onPool_ext_bind]
      split_ifs
      · refine (shrinkCache_ok h.now).bind fun _ s1 h1 => ?_
        exact h1.freeSlots.bind fun _ s2 h2 => h2
      · exact h.now
    · exact h
  · rw [if_neg hon]
    by_cases hoff : s.mgt.delayFreeOn ≤ 0
    · rw [if_pos hoff, meets_onPool_ext_bind]
      split_ifs
      · exact h.now.freeSlots.bind fun _ s1 h1 => h1
      · exact h.now
    · rw [if_neg hoff]
      exact h

end

section

variable (h : Inv E F G T a c s)
include h

/-! ## Creating the cache scatters -/

theorem Inv.offList (mms : Nat) :
    Inv E F G T a c { s with mgt := { s.mgt with scatterList := s.mgt.scatterList.erase mms } } :=
  h.relist rfl rfl rfl rfl rfl ⟨h.view.others, h.view.cache_live, h.view.cache_ne,
    fun hx hin => h.view.cache_list hx (List.mem_of_mem_erase hin),
    fun hx => h.view.list_live (List.mem_of_mem_erase hx), h.view.list_nodup.erase mms, h.view.map_live,
    h.view.map_once⟩

inductive NewCache (G : Set Nat) (put : View → Nat → View) (v : View) : View → Prop
  | none : NewCache G put v v
  | some (mms : Nat) (hG : mms ∉ G) (hlive : mms ∉ v.live) : NewCache G put v (put (v.newOff mms) mms)

theorem newCache_rule {put : Mgt → Option Nat → Mgt} {Q : Unit → Local ω → Prop}
    (hnone : ∀ s', Inv E F G T a c s' → s'.mgt.delayFreeOn = s.mgt.delayFreeOn →
      s'.mgt.view = s.mgt.view → Q () s') (hsome : ∀ mms s', mms ∉ G → mms ∉ s.mgt.view.live → Inv E F G T a c s' →
      s'.mgt.delayFreeOn = s.mgt.delayFreeOn → s'.mgt.view = s.mgt.view.newOff mms →
      (∃ sc, s'.mgt.scatters.lookup mms = some sc ∧ sc.Holds []) →
      Q () { s' with mgt := put s'.mgt (some mms) }) : Meets (newCache E put) s Q := by
  refine (codecMmScatterAllocNew_ok h 16384).bind ?_
  rintro r s1 ⟨h1, hd, hn, hs⟩
  cases r with
  | none => exact hnone s1 h1 hd (hn rfl)
  | some mms =>
    obtain ⟨hG, hlive, hv1, hsc⟩ := hs mms rfl
    have herase : (s.mgt.scatterList ++ [mms]).erase mms = s.mgt.scatterList := by
      have hnot : mms ∉ s.mgt.scatterList := fun hin => hlive (h.view.list_live hin)
      rw [List.erase_append_right _ hnot, List.erase_cons_head, List.append_nil]
    have hlist : s1.mgt.scatterList = s.mgt.scatterList ++ [mms] := congrArg View.list hv1
    have hview : ({ s1.mgt with scatterList := s1.mgt.scatterList.erase mms } : Mgt).view =
        s.mgt.view.newOff mms := by
      show ({ s1.mgt.view with list := s1.mgt.scatterList.erase mms } : View) = _
      rw [hv1, hlist, herase]
      rfl
    exact hsome mms { s1 with mgt := { s1.mgt with scatterList := s1.mgt.scatterList.erase mms } }
      hG hlive (h1.offList mms) hd hview hsc

theorem Inv.recache (m' : Mgt) (hpool : m'.toSlotPool = s.mgt.toSlotPool) (hheap : m'.scatters = s.mgt.scatters)
    (hview : m'.view.Ok G) : Inv E F G T a (m'.cacheCnt - m'.cachedPages) { s with mgt := m' } := by
  have hlive : m'.view.live = s.mgt.view.live := by
    unfold View.live Mgt.view
    rw [hheap]
  have hheld : held m' = held s.mgt := by
    unfold held
    rw [hheap]
  refine ⟨?_, ?_, ?_, by show m'.cachedPages + _ = m'.cacheCnt; omega, hview⟩
  · rw [hpool, hheld, hlive]
    exact h.pool
  · rw [hheap]
    exact h.scatter
  · rw [hpool, hheld]
    exact h.alloced

end

def setCache0 (v : View) (mms : Nat) : View := { v with cache0 := some mms }

def setCache1 (v : View) (mms : Nat) : View := { v with cache1 := some mms }

theorem cachePages_of_holds {m : Mgt} {sc : Scatter} (hl : m.scatters.lookup mms = some sc)
    (hsc : sc.Holds []) : m.cachePages (some mms) = 0 := by
  rw [cachePages_some hl, hsc.cnt]
  rfl

theorem View.Ok.setCache0 {v : View} (h : (v.newOff mms).Ok G) (hv : v.Ok G) (hlive : mms ∉ v.live) :
    (CodecMm.setCache0 (v.newOff mms) mms).Ok G := by
  have hmem : mms ∈ (v.newOff mms).live := mem_live_new.mpr (Or.inr rfl)
  refine ⟨h.others, ?_, ?_, ?_, h.list_live, h.list_nodup, h.map_live, h.map_once⟩
  · rintro x (hx | hx)
    · exact Option.some.inj hx ▸ hmem
    · exact h.cache_live (Or.inr hx)
  · rintro x ⟨hx0, hx1⟩
    cases hx0
    exact hlive (hv.cache_live (Or.inr hx1))
  · rintro x (hx | hx) hin
    · cases hx
      exact hlive (hv.list_live hin)
    · exact h.cache_list (Or.inr hx) hin

theorem View.Ok.swap {v : View} (h : v.Ok G) : ({ v with cache0 := v.cache1, cache1 := v.cache0 } : View).Ok G :=
  ⟨h.others, fun hx => h.cache_live hx.symm, fun x hx => h.cache_ne x hx.symm,
    fun hx => h.cache_list hx.symm, h.list_live, h.list_nodup, h.map_live, h.map_once⟩

theorem View.Ok.setCache1 {v : View} (h : (v.newOff mms).Ok G) (hv : v.Ok G) (hlive : mms ∉ v.live) :
    (CodecMm.setCache1 (v.newOff mms) mms).Ok G :=
  (View.Ok.setCache0 (v := { v with cache0 := v.cache1, cache1 := v.cache0 }) h.swap hv.swap hlive).swap

section

variable (h : Inv E F G T a c s)
include h

theorem newCache0_ok (h0 : s.mgt.cacheSc0 = none) :
    Meets (newCache E fun m mms => { m with cacheSc0 := mms }) s fun _ s' => Inv E F G T a c s' ∧
      s'.mgt.delayFreeOn = s.mgt.delayFreeOn ∧ NewCache G setCache0 s.mgt.view s'.mgt.view := by
  refine newCache_rule h (fun s' h' hd hv => ⟨h', hd, hv ▸ .none⟩) ?_
  rintro mms s' hG hlive h' hd hv ⟨sc, hl, hsc⟩
  have hview : ({ s'.mgt with cacheSc0 := some mms } : Mgt).view =
      setCache0 (s.mgt.view.newOff mms) mms := by
    rw [← hv]
    rfl
  refine ⟨?_, hd, hview ▸ .some mms hG hlive⟩
  have hok : ({ s'.mgt with cacheSc0 := some mms } : Mgt).view.Ok G := by
    rw [hview]
    exact View.Ok.setCache0 (hv ▸ h'.view) h.view hlive
  have hinv := h'.recache { s'.mgt with cacheSc0 := some mms } rfl rfl hok
  -- the new cache is empty
  have hnone : s'.mgt.cacheSc0 = none := (congrArg View.cache0 hv).trans h0
  have hcnt : ({ s'.mgt with cacheSc0 := some mms } : Mgt).cacheCnt = s'.mgt.cacheCnt := by
    unfold Mgt.cacheCnt
    rw [hnone]
    show s'.mgt.cachePages (some mms) + s'.mgt.cachePages s'.mgt.cacheSc1 = _
    rw [cachePages_of_holds hl hsc]
    rfl
  have hc : ({ s'.mgt with cacheSc0 := some mms } : Mgt).cacheCnt - s'.mgt.cachedPages = c := by
    have hcached := h'.cached
    omega
  exact hc ▸ hinv

theorem newCache1_ok :
    Meets (newCache E fun m mms => { m with cacheSc1 := mms }) s fun _ s' =>
      (∃ c', Inv E F G T a c' s' ∧ (s.mgt.cacheSc1 = none → c' = c)) ∧
        s'.mgt.delayFreeOn = s.mgt.delayFreeOn ∧ NewCache G setCache1 s.mgt.view s'.mgt.view := by
  refine newCache_rule h (fun s' h' hd hv => ⟨⟨c, h', fun _ => rfl⟩, hd, hv ▸ .none⟩) ?_
  rintro mms s' hG hlive h' hd hv ⟨sc, hl, hsc⟩
  have hview : ({ s'.mgt with cacheSc1 := some mms } : Mgt).view =
      setCache1 (s.mgt.view.newOff mms) mms := by
    rw [← hv]
    rfl
  refine ⟨⟨_, h'.recache { s'.mgt with cacheSc1 := some mms } rfl rfl ?_, fun h1 => ?_⟩,
    hd, hview ▸ .some mms hG hlive⟩
  · rw [hview]
    exact View.Ok.setCache1 (hv ▸ h'.view) h.view hlive
  · have hnone : s'.mgt.cacheSc1 = none := (congrArg View.cache1 hv).trans h1
    have hcnt : ({ s'.mgt with cacheSc1 := some mms } : Mgt).cacheCnt = s'.mgt.cacheCnt := by
      unfold Mgt.cacheCnt
      rw [hnone]
      show s'.mgt.cachePages s'.mgt.cacheSc0 + s'.mgt.cachePages (some mms) = _
      rw [cachePages_of_holds hl hsc]
      rfl
    have hcached := h'.cached
    rw [hcnt]
    show s'.mgt.cacheCnt - s'.mgt.cachedPages = c
    omega

/-- What `codec_mm_scatter_scatter_arrange` does first: while freeing is delayed, it creates both caches if
there is no first one. A second cache that is there already is forgotten. -/
inductive CreateStep (G : Set Nat) (delay : Int) (v : View) : View → Prop
  | none : CreateStep G delay v v
  | create (v1 v2 : View) (hon : delay > 0) (h0 : v.cache0 = none)
      (hfirst : NewCache G setCache0 v v1) (hsecond : NewCache G setCache1 v1 v2) :
      CreateStep G delay v v2

def Mgt.KeepsSecond (m : Mgt) : Prop := m.delayFreeOn > 0 → m.cacheSc0 = none → m.cacheSc1 = none

theorem createCaches_ok :
    Meets (createCaches E) s fun _ s' =>
      (∃ c', Inv E F G T a c' s' ∧ (s.mgt.KeepsSecond → c' = c)) ∧
        s'.mgt.delayFreeOn = s.mgt.delayFreeOn ∧ CreateStep G s.mgt.delayFreeOn s.mgt.view s'.mgt.view := by
  unfold createCaches
  rw [meets_get_bind]
  dsimp only
  split_ifs with hcreate
  · refine (newCache0_ok h hcreate.2).bind ?_
    rintro - s1 ⟨h1, hd1, hn1⟩
    refine (newCache1_ok h1).mono ?_
    rintro - s2 ⟨⟨c', h2, hc⟩, hd2, hn2⟩
    have hcache1 : s1.mgt.view.cache1 = s.mgt.view.cache1 := by
      generalize s1.mgt.view = v1 at hn1
      cases hn1 <;> rfl
    exact ⟨⟨c', h2, fun hkeep => hc (hcache1.trans (hkeep hcreate.1 hcreate.2))⟩, hd2.trans hd1,
      .create _ _ hcreate.1 hcreate.2 hn1 hn2⟩
  · exact ⟨⟨c, h, fun _ => rfl⟩, rfl, .none⟩

/-! ## The order of the list -/

theorem anyExpired_ok {list : List Nat} (hlive : ∀ x ∈ list, x ∈ s.mgt.view.live) :
    Meets (anyExpired E list) s fun _ s' => Inv E F G T a c s' ∧ s'.mgt = s.mgt := by
  induction list generalizing s with
  | nil => exact ⟨h, rfl⟩
  | cons x list ih =>
    obtain ⟨sc, hl⟩ := mem_live_iff.mp (hlive x (List.mem_cons_self ..))
    have hfirst : Meets (expired E x) s fun _ s' => Inv E F G T a c s' ∧ s'.mgt = s.mgt := by
      unfold expired
      rw [meets_scatterOf_bind hl]
      exact h.now rfl _
    refine hfirst.bind ?_
    rintro first s1 ⟨h1, hm1⟩
    refine (ih h1 fun y hy => hm1 ▸ hlive y (List.mem_cons_of_mem _ hy)).bind ?_
    rintro others s2 ⟨h2, hm2⟩
    exact ⟨h2, hm2.trans hm1⟩

theorem arrangeList_ok :
    Meets (arrangeList E) s fun _ s' => Inv E F G T a c s' ∧ s'.mgt.view = s.mgt.view := by
  unfold arrangeList
  rw [meets_get_bind]
  refine (anyExpired_ok h fun x hx => h.view.list_live hx).bind ?_
  rintro found s1 ⟨h1, hm1⟩
  cases hlast : s.mgt.scatterList.getLast? with
  | none => exact ⟨h1, congrArg Mgt.view hm1⟩
  | some mms =>
    have hsame : s1.mgt.scatterList.erase mms ++ [mms] = s1.mgt.scatterList := by
      obtain ⟨front, hfront⟩ := List.getLast?_eq_some_iff.mp hlast
      have hnodup : s1.mgt.scatterList.Nodup := h1.view.list_nodup
      rw [hm1, hfront] at hnodup ⊢
      have hnot : mms ∉ front := fun hin =>
        (List.nodup_append.mp hnodup).2.2 mms hin mms (List.mem_singleton_self mms) rfl
      rw [List.erase_append_right _ hnot, List.erase_cons_head, List.append_nil]
    have hmgt : (if found then { s1.mgt with scatterList := s1.mgt.scatterList.erase mms ++ [mms] }
        else s1.mgt : Mgt) = s1.mgt := by
      rw [hsame]
      exact ite_self _
    have hgoal : ∀ m', m' = s1.mgt → Inv E F G T a c { s1 with mgt := m' } ∧ m'.view = s.mgt.view := by
      rintro m' rfl
      exact ⟨h1, congrArg Mgt.view hm1⟩
    exact hgoal _ hmgt

end

/-! ## Freeing scatters without users -/

theorem clearScan_ok {list : List Nat} {toFree : Option (Nat × Nat)} {P : Nat → Prop} (cnt : Nat)
    (hlive : ∀ x ∈ list, x ∈ s.mgt.view.live)
    (hP : ∀ x ∈ list, s.mgt.view.users x = some 0 → P x) (hfree : ∀ p, toFree = some p → P p.1) :
    Meets (clearScan list toFree cnt) s fun r s' => s' = s ∧ (∀ p, r.toFree = some p → P p.1) ∧
      ∀ mms, r.lessPage = some mms → mms ∈ list := by
  induction list generalizing toFree cnt with
  | nil => exact ⟨rfl, hfree, nofun⟩
  | cons x list ih =>
    obtain ⟨sc, hl⟩ := mem_live_iff.mp (hlive x (List.mem_cons_self ..))
    rw [clearScan, meets_scatterOf_bind hl]
    have hfree' : ∀ first : Bool, ∀ p,
        (if sc.userCnt = 0 ∧ first then some (x, sc.tofreeJiffies) else toFree) = some p → P p.1 := by
      intro first p hp
      split_ifs at hp with hzero
      · cases hp
        exact hP x (List.mem_cons_self ..) ((view_users_of_lookup hl).trans (by rw [hzero.1]))
      · exact hfree p hp
    by_cases hless : sc.pageUsed < sc.pageCnt
    · rw [if_pos hless]
      refine ⟨rfl, hfree' _, fun mms hm => ?_⟩
      cases hm
      exact List.mem_cons_self ..
    · rw [if_neg hless]
      refine (ih _ (fun y hy => hlive y (List.mem_cons_of_mem _ hy))
        (fun y hy => hP y (List.mem_cons_of_mem _ hy)) (hfree' _)).mono ?_
      rintro r s' ⟨hs, hr, hm⟩
      exact ⟨hs, hr, fun mms hmem => List.mem_cons_of_mem _ (hm mms hmem)⟩

/-- What the clean-up of scatters without users does: nothing, or one of them is freed. -/
inductive ClearStep (v : View) : View → Prop
  | none : ClearStep v v
  | free (mms : Nat) (hmem : mms ∈ v.list) (huser : v.users mms = some 0) : ClearStep v (v.free mms)

theorem markFree_ok (h : Inv E F G T a c s) (huser : s.mgt.view.users mms = some 0) :
    Meets (markFree mms) s fun r s' => Inv E F G T a c s' ∧ r = some mms ∧
      s'.mgt.view = s.mgt.view.mark mms := by
  obtain ⟨sc, hl, hzero⟩ := Option.map_eq_some_iff.mp huser
  unfold markFree
  rw [meets_scatterOf_bind hl, if_neg (by rw [hzero]; decide), meets_modifyMgt_bind]
  obtain ⟨h1, hv1⟩ := h.setUser hl { sc with userCnt := sc.userCnt - 100000 } fun _ hsc => hsc.withUser _ _ _
  have hview : ({ s.mgt.setScatter mms { sc with userCnt := sc.userCnt - 100000 } with
      scatterList := s.mgt.scatterList.erase mms } : Mgt).view = s.mgt.view.mark mms := by
    show ({ (s.mgt.setScatter mms { sc with userCnt := sc.userCnt - 100000 }).view with
      list := s.mgt.scatterList.erase mms } : View) = _
    rw [hv1]
    rw [hzero]
    rfl
  exact ⟨h1.offList mms, rfl, hview⟩

theorem chooseFree_ok {scan : ClearScan} (h : Inv E F G T a c s) (force : Bool)
    (hscan : ∀ p, scan.toFree = some p → s.mgt.view.users p.1 = some 0) :
    Meets (chooseFree E scan force) s fun r s' => Inv E F G T a c s' ∧
      (r = none → s'.mgt.view = s.mgt.view) ∧
      ∀ mms, r = some mms → (∃ p, scan.toFree = some p ∧ p.1 = mms) ∧
        s'.mgt.view = s.mgt.view.mark mms := by
  unfold chooseFree
  rw [meets_get_bind]
  cases hp : scan.toFree with
  | none => exact ⟨h, fun _ => rfl, nofun⟩
  | some p =>
    obtain ⟨mms, time⟩ := p
    have huser : s.mgt.view.users mms = some 0 := hscan _ hp
    refine (h.now rfl _).bind ?_
    rintro expired s1 ⟨h1, hm1⟩
    split_ifs
    · refine (markFree_ok h1 (hm1 ▸ huser)).mono ?_
      rintro r s2 ⟨h2, rfl, hv2⟩
      refine ⟨h2, fun hn => absurd hn (Option.some_ne_none mms), fun mms' hm => ?_⟩
      cases hm
      exact ⟨⟨_, rfl, rfl⟩, hm1 ▸ hv2⟩
    · exact ⟨h1, fun _ => congrArg Mgt.view hm1, nofun⟩

theorem View.mark_free {v : View} (h : v.Ok G) (mms : Nat) : (v.mark mms).free mms = v.free mms := by
  have herase : (v.list.erase mms).erase mms = v.list.erase mms :=
    List.erase_of_not_mem h.list_nodup.not_mem_erase
  show View.mk (Function.update (Function.update v.users mms (some (-100000))) mms none)
    ((v.list.erase mms).erase mms) _ _ _ = _
  rw [Function.update_idem, herase]
  rfl

theorem codecMmScatterScatterClear_ok (h : Inv E F G T a c s) (force : Bool) :
    Meets (codecMmScatterScatterClear E force) s fun _ s' => Inv E F G T a c s' ∧
      ClearStep s.mgt.view s'.mgt.view := by
  unfold codecMmScatterScatterClear
  rw [meets_get_bind]
  refine (clearScan_ok 0 (fun x hx => h.view.list_live hx)
    (P := fun x => x ∈ s.mgt.scatterList ∧ s.mgt.view.users x = some 0) (fun x hx hu => ⟨hx, hu⟩)
    (fun p hp => by cases hp)).bind ?_
  rintro scan s1 ⟨hs1, hscan, hless⟩
  subst s1
  refine (chooseFree_ok h force fun p hp => (hscan p hp).2).bind ?_
  rintro toFree s1 ⟨h1, hnone, hsome⟩
  refine Meets.bind (Q := fun _ s' => Inv E F G T a c s' ∧ ClearStep s.mgt.view s'.mgt.view ∧
    ∀ x ∈ s.mgt.scatterList, toFree ≠ some x → x ∈ s'.mgt.view.live) ?_ ?_
  · cases toFree with
    | none =>
      refine ⟨h1, hnone rfl ▸ .none, fun x hx _ => ?_⟩
      rw [hnone rfl]
      exact h.view.list_live hx
    | some mms =>
      obtain ⟨⟨p, hp, rfl⟩, hv1⟩ := hsome mms rfl
      obtain ⟨hmem, huser⟩ := hscan p hp
      have huser1 : s1.mgt.view.users p.1 = some (-100000) := by
        rw [hv1]
        exact Function.update_self ..
      obtain ⟨sc, hl, hcnt⟩ := Option.map_eq_some_iff.mp huser1
      have hnc : ¬s1.mgt.view.IsCache p.1 := by
        rw [hv1]
        exact fun hc => h.view.cache_list hc hmem
      refine (codecMmScatterFreeOnNouser_ok h1 hl hnc).mono ?_
      rintro - s2 ⟨h2, -, hv2⟩
      have hview : s2.mgt.view = s.mgt.view.free p.1 := by
        rw [hv2 (by rw [hcnt]; decide), hv1, View.mark_free h.view]
      refine ⟨h2, hview ▸ .free p.1 hmem huser, fun x hx hne => ?_⟩
      rw [hview]
      exact View.mem_live_free.mpr ⟨h.view.list_live hx, fun he => hne (congrArg some he.symm)⟩
  rintro - s2 ⟨h2, hstep, hlive⟩
  refine Meets.bind (Q := fun _ s' => Inv E F G T a c s' ∧ s'.mgt.view = s2.mgt.view) ?_ ?_
  · cases hm : scan.lessPage with
    | none => exact ⟨h2, rfl⟩
    | some mms =>
      dsimp only
      split_ifs with hne
      · obtain ⟨sc, hl⟩ := mem_live_iff.mp (hlive mms (hless mms hm) hne)
        obtain ⟨toks, hsc⟩ := h2.scatter hl
        refine (codecMmScatterFreeTailPagesIn_ok h2 hl hsc 0 0 1 (by omega)).mono ?_
        rintro - s3 ⟨h3, ht3, -⟩
        exact ⟨h3, ht3.view⟩
      · exact ⟨h2, rfl⟩
  rintro - s3 ⟨h3, hv3⟩
  exact ⟨h3, hv3 ▸ hstep⟩

theorem clearLoop_ok (retries : Nat) (h : Inv E F G T a c s) (force : Bool) :
    Meets (clearLoop E force retries) s fun _ s' => Inv E F G T a c s' ∧
      Relation.ReflTransGen ClearStep s.mgt.view s'.mgt.view := by
  induction retries generalizing s with
  | zero => exact ⟨h, .refl⟩
  | succ retries ih =>
    refine (codecMmScatterScatterClear_ok h force).bind ?_
    rintro - s1 ⟨h1, hstep⟩
    rw [meets_get_bind]
    split_ifs
    · refine (ih h1).mono ?_
      rintro - s2 ⟨h2, hrun⟩
      exact ⟨h2, .head hstep hrun⟩
    · exact ⟨h1, .single hstep⟩

end Code

end Amlogic.CodecMm
