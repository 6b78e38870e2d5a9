import Amlogic.CodecMm.Proofs.PageProofs
import Amlogic.CodecMm.Proofs.ViewProofs

/-!
# Code on one manager

Every function keeps the state of its manager in order, and its effect on the view is stated.
-/

namespace Amlogic.CodecMm

open Scatter Function View Heap

section Code

variable {ω : Type} {E : Externals ω} {F T : Multiset Nat} {G : Set Nat} {a c : Int}
  {s : Local ω} {mms : Nat} {sc sc' : Scatter} {toks : List Nat} {m : Mgt}

def InvAt (E : Externals ω) (F : Multiset Nat) (G : Set Nat) (T : Multiset Nat) (a c : Int) (v : View) (s : Local ω) :
    Prop :=
  Inv E F G T a c s ∧ s.mgt.view = v

theorem Inv.now {α : Type} {x : Prog (Local ω) α} {y z : α} (h : Inv E F G T a c s)
    (hx : x s = .ok (y, { s with world := (E.jiffies s.world).2 })) (p : Prop) [Decidable p] :
    Meets (if p then x else pure z) s fun _ s' => Inv E F G T a c s' ∧ s'.mgt = s.mgt := by
  split_ifs
  · rw [Meets, hx]
    exact ⟨h.world (E.jiffies_keeps _), rfl⟩
  · exact ⟨h, rfl⟩

theorem Scatter.Holds.withUser (hsc : sc.Holds toks) (n used : Int) (time : Nat) :
    ({ sc with userCnt := n, pageUsed := used, tofreeJiffies := time } : Scatter).Holds toks :=
  ⟨hsc.list, hsc.room, hsc.cnt, hsc.tail⟩

/-! ## Scatters come and go -/

theorem Inv.notMem_of_fresh (h : Inv E F G T a c s) (hfresh : .scatter mms ∉ E.inUse s.world) :
    mms ∉ G ∧ mms ∉ s.mgt.view.live :=
  ⟨fun hg => hfresh (h.pool.ledger.scatters mms (Or.inl hg)),
    fun hl => hfresh (h.pool.ledger.scatters mms (Or.inr hl))⟩

theorem cacheCnt_congr {m' : Mgt} (h0 : m'.cacheSc0 = m.cacheSc0) (h1 : m'.cacheSc1 = m.cacheSc1)
    (h : ∀ x, m.view.IsCache x → m'.scatters.lookup x = m.scatters.lookup x) : m'.cacheCnt = m.cacheCnt := by
  have hp0 : m'.cachePages m.cacheSc0 = m.cachePages m.cacheSc0 :=
    cachePages_congr fun x hx => h x (Or.inl hx)
  have hp1 : m'.cachePages m.cacheSc1 = m.cachePages m.cacheSc1 :=
    cachePages_congr fun x hx => h x (Or.inr hx)
  unfold Mgt.cacheCnt
  rw [h0, h1, hp0, hp1]

section

variable (h : Inv E F G T a c s)
include h

theorem Inv.rescatter {w : ω} {m' : Mgt} (huse : ∀ x ∈ G ∪ m'.view.live, .scatter x ∈ E.inUse w)
    (hframes : ∀ f, .frame f ∈ E.inUse s.world → .frame f ∈ E.inUse w) (hpool : m'.toSlotPool = s.mgt.toSlotPool)
    (hheld : held m' = held s.mgt) (hscatter : ∀ {x sc}, m'.scatters.lookup x = some sc → ∃ toks, sc.Holds toks)
    (hcached : m'.cachedPages = s.mgt.cachedPages) (h0 : m'.cacheSc0 = s.mgt.cacheSc0)
    (h1 : m'.cacheSc1 = s.mgt.cacheSc1)
    (hcache : ∀ x, s.mgt.view.IsCache x → m'.scatters.lookup x = s.mgt.scatters.lookup x) (hview : m'.view.Ok G) :
    Inv E F G T a c ⟨w, m'⟩ := by
  have hledger := h.pool.ledger
  obtain ⟨ones, hL, hones, hnodup, hin⟩ := hledger.tokens
  refine ⟨?_, hscatter, ?_, ?_, hview⟩
  · rw [hpool, hheld]
    exact ⟨h.pool.hash, ⟨⟨ones, hL, hones, hnodup, fun f hf => hframes f (hin f hf)⟩, hledger.total, huse⟩⟩
  · rw [hpool, hheld]
    exact h.alloced
  · rw [hcached, cacheCnt_congr h0 h1 hcache]
    exact h.cached

theorem Inv.born {w : ω} {m' : Mgt} (hfresh : .scatter mms ∉ E.inUse s.world)
    (hkeep : E.inUse s.world ⊆ E.inUse w) (htaken : .scatter mms ∈ E.inUse w) (hsc : sc.Holds [])
    (hpool : m'.toSlotPool = s.mgt.toSlotPool) (hheap : m'.scatters = s.mgt.scatters.insert mms sc)
    (hcached : m'.cachedPages = s.mgt.cachedPages) (h0 : m'.cacheSc0 = s.mgt.cacheSc0)
    (h1 : m'.cacheSc1 = s.mgt.cacheSc1) (hview : m'.view.Ok G) : Inv E F G T a c ⟨w, m'⟩ := by
  obtain ⟨-, hnl⟩ := h.notMem_of_fresh hfresh
  have hnew : mms ∉ s.mgt.scatters := fun hin =>
    hnl (mem_live_iff.mpr (Option.isSome_iff_exists.mp (AList.lookup_isSome.mpr hin)))
  have hlive : ∀ x ∈ m'.view.live, x = mms ∨ x ∈ s.mgt.view.live := by
    intro x hx
    obtain ⟨scx, hlx⟩ := mem_live_iff.mp hx
    rw [hheap] at hlx
    rcases lookup_insert_iff.mp hlx with ⟨rfl, -⟩ | ⟨-, hlx⟩
    · exact .inl rfl
    · exact .inr (mem_live_iff.mpr ⟨scx, hlx⟩)
  refine h.rescatter ?_ (fun f hf => hkeep hf) hpool ?_ ?_ hcached h0 h1 ?_ hview
  · rintro x (hx | hx)
    · exact hkeep (h.pool.ledger.scatters x (Or.inl hx))
    · rcases hlive x hx with rfl | hx
      · exact htaken
      · exact hkeep (h.pool.ledger.scatters x (Or.inr hx))
  · show total tokens m'.scatters = _
    rw [hheap, total_insert_new _ hnew, hsc.tokens]
    exact Multiset.zero_add _
  · intro x scx hlx
    rw [hheap] at hlx
    rcases lookup_insert_iff.mp hlx with ⟨-, rfl⟩ | ⟨-, hlx⟩
    · exact ⟨[], hsc⟩
    · exact h.scatter hlx
  · intro x hx
    rw [hheap]
    refine AList.lookup_insert_ne ?_
    rintro rfl
    exact hnl (h.view.cache_live hx)

theorem Inv.kill {w : ω} (hl : s.mgt.scatters.lookup mms = some sc)
    (hsc : sc.Holds []) (hnl : mms ∉ s.mgt.scatterList) (hnm : some mms ∉ s.mgt.scmap)
    (hnc : ¬s.mgt.view.IsCache mms) (hfree : E.inUse s.world \ {.scatter mms} ⊆ E.inUse w) :
    Inv E F G T a c ⟨w, { s.mgt with scatters := s.mgt.scatters.erase mms }⟩ ∧
      ({ s.mgt with scatters := s.mgt.scatters.erase mms } : Mgt).view =
        { s.mgt.view with users := update s.mgt.view.users mms none } := by
  have hview : ({ s.mgt with scatters := s.mgt.scatters.erase mms } : Mgt).view =
      { s.mgt.view with users := update s.mgt.view.users mms none } := by
    have husers : (fun x => ((s.mgt.scatters.erase mms).lookup x).map userCnt) =
        update (fun x => (s.mgt.scatters.lookup x).map userCnt) mms none := by
      funext x
      by_cases hx : x = mms
      · subst hx
        rw [AList.lookup_erase, update_self]
        rfl
      · rw [AList.lookup_erase_ne hx, update_of_ne hx]
    show View.mk (fun x => ((s.mgt.scatters.erase mms).lookup x).map userCnt) _ _ _ _ = _
    rw [husers]
    rfl
  refine ⟨?_, hview⟩
  have hne : ∀ x, x ∈ G ∪ ({ s.mgt with scatters := s.mgt.scatters.erase mms } : Mgt).view.live →
      x ∈ G ∪ s.mgt.view.live ∧ x ≠ mms := by
    rintro x (hx | hx)
    · refine ⟨Or.inl hx, ?_⟩
      rintro rfl
      exact h.view.others (mem_live_iff.mpr ⟨sc, hl⟩) hx
    · obtain ⟨scx, hlx⟩ := mem_live_iff.mp hx
      obtain ⟨hne, hlx⟩ := lookup_erase_iff.mp hlx
      exact ⟨Or.inr (mem_live_iff.mpr ⟨scx, hlx⟩), hne⟩
  refine h.rescatter ?_ ?_ rfl ?_ ?_ rfl rfl rfl ?_ (hview ▸ h.view.kill hnl hnm hnc)
  · intro x hx
    obtain ⟨hx, hne⟩ := hne x hx
    exact hfree ⟨h.pool.ledger.scatters x hx, fun he => hne (by cases he; rfl)⟩
  · exact fun f hf => hfree ⟨hf, nofun⟩
  · show total tokens (s.mgt.scatters.erase mms) = total tokens s.mgt.scatters
    rw [total_erase tokens hl, hsc.tokens]
    exact (Multiset.zero_add _).symm
  · intro x scx hlx
    exact h.scatter (lookup_erase_iff.mp hlx).2
  · intro x hx
    refine AList.lookup_erase_ne ?_
    rintro rfl
    exact hnc hx

theorem Inv.relist {m' : Mgt} (hpool : m'.toSlotPool = s.mgt.toSlotPool) (hheap : m'.scatters = s.mgt.scatters)
    (hcached : m'.cachedPages = s.mgt.cachedPages) (h0 : m'.cacheSc0 = s.mgt.cacheSc0)
    (h1 : m'.cacheSc1 = s.mgt.cacheSc1) (hview : m'.view.Ok G) : Inv E F G T a c { s with mgt := m' } := by
  have hlive : m'.view.live = s.mgt.view.live := by
    unfold live Mgt.view
    rw [hheap]
  refine h.rescatter ?_ (fun _ hf => hf) hpool ?_ ?_ hcached h0 h1 ?_ hview
  · rw [hlive]
    exact h.pool.ledger.scatters
  · unfold held
    rw [hheap]
  · rw [hheap]
    exact h.scatter
  · rw [hheap]
    exact fun _ _ => rfl

theorem Inv.setUser (hl : s.mgt.scatters.lookup mms = some sc) (sc' : Scatter)
    (hsc' : ∀ toks, sc.Holds toks → sc'.Holds toks) :
    Inv E F G T a c { s with mgt := s.mgt.setScatter mms sc' } ∧
      (s.mgt.setScatter mms sc').view = s.mgt.view.setUser mms sc'.userCnt := by
  obtain ⟨toks, hsc⟩ := h.scatter hl
  have hview : (s.mgt.setScatter mms sc').view = s.mgt.view.setUser mms sc'.userCnt := by
    show View.mk (fun x => ((s.mgt.scatters.insert mms sc').lookup x).map userCnt) _ _ _ _ = _
    rw [view_users_insert]
    rfl
  have hlive := mem_live_iff.mpr ⟨sc, hl⟩
  have hcnt := h.cacheCnt_insert hl sc'
  rw [hsc.cnt, (hsc' toks hsc).cnt, sub_self, ite_self, Int.add_zero] at hcnt
  have hheld : held (s.mgt.setScatter mms sc') = held s.mgt :=
    total_replace_eq tokens hl (by rw [hsc.tokens, (hsc' toks hsc).tokens])
  refine ⟨⟨?_, ?_, ?_, ?_, ?_⟩, hview⟩
  · have hset : (s.mgt.setScatter mms sc').view.live = s.mgt.view.live := by
      ext x
      rw [hview, mem_live_setUser hlive]
    rw [hheld, hset]
    exact h.pool
  · intro x scx hx
    rcases lookup_insert_iff.mp hx with ⟨-, rfl⟩ | ⟨-, hx⟩
    · exact ⟨toks, hsc' toks hsc⟩
    · exact h.scatter hx
  · rw [hheld]
    exact h.alloced
  · exact h.cached.trans hcnt.symm
  · rw [hview]
    exact h.view.setUser hlive _

/-! ## Allocation -/

theorem codecMmScatterAllocWantPagesIn_ok (hlive : mms ∈ s.mgt.view.live) (wantPages : Int) :
    Meets (codecMmScatterAllocWantPagesIn E mms wantPages) s fun _ => InvAt E F G T a c s.mgt.view := by
  obtain ⟨sc, hl⟩ := mem_live_iff.mp hlive
  obtain ⟨toks, hsc⟩ := h.scatter hl
  unfold codecMmScatterAllocWantPagesIn
  rw [meets_scatterOf_bind hl]
  by_cases hmax : wantPages > sc.pageMaxCnt
  · rw [if_pos hmax]
    exact ⟨h, rfl⟩
  rw [if_neg hmax, meets_modifyMgt_bind, meets_get_bind]
  obtain ⟨h1, ht1⟩ := h.setUsed hl hsc wantPages
  have hsc1 : ({ sc with pageUsed := wantPages } : Scatter).Holds toks := hsc.withUser _ _ _
  by_cases hmore : wantPages > sc.pageCnt
  swap
  · rw [if_neg hmore]
    exact ⟨h1, ht1.view⟩
  rw [if_pos hmore]
  refine (codecMmPageAllocAllLocked_ok h1 _ _).bind ?_
  rintro pages s2 ⟨h2, hlen, ht2⟩
  by_cases hnil : pages.isEmpty
  · rw [if_pos hnil]
    rw [List.isEmpty_iff.mp hnil, Multiset.coe_nil, zero_add] at h2
    exact ⟨h2, ht2.view.trans ht1.view⟩
  rw [if_neg hnil]
  -- the scatter itself is as before: pages for a cache scatter do not come from the cache
  have hl2 : s2.mgt.scatters.lookup mms = some { sc with pageUsed := wantPages } := by
    refine (ht2.others mms ?_).trans (AList.lookup_insert _)
    rintro ⟨hno, hc⟩
    rw [isCacheSc_iff.mpr hc] at hno
    cases hno
  have hcnt := hsc.cnt
  have htail := hsc.tail
  have hroom : toks.length + pages.length ≤ sc.pageMaxCnt := by omega
  have hidx : sc.pageTail + 1 = (toks.length : Int) := by omega
  rw [meets_scatterOf_bind hl2]
  dsimp only
  rw [hidx, meets_bind_of_ok (hsc1.storeTail hroom), meets_modifyMgt_bind]
  have hsc3 := @Scatter.Holds.grow { sc with pageUsed := wantPages } toks pages hroom
    (sc.pageCnt + pages.length) (sc.pageTail + pages.length) (by omega) (by omega)
  refine ⟨h2.put hl2 hsc1 hsc3 rfl h2.pool ?_ h2.alloced ?_,
    Eq.trans (view_put hl2 ?_) (ht2.view.trans ht1.view)⟩
  · rw [← Multiset.coe_add]
    abel
  · have hcached := h2.cached
    rw [List.length_append]
    push_cast
    split_ifs <;> omega
  · rfl

end

theorem setScatter_setScatter (m : Mgt) (mms : Nat) (x y : Scatter) :
    (m.setScatter mms x).setScatter mms y = m.setScatter mms y := by
  unfold Mgt.setScatter
  rw [AList.insert_insert]

theorem codecMmScatterAllocNew_ok (h : Inv E F G T a c s) (maxPage : Int) :
    Meets (codecMmScatterAllocNew E maxPage 0) s fun r s' => Inv E F G T a c s' ∧
      s'.mgt.delayFreeOn = s.mgt.delayFreeOn ∧ (r = none → s'.mgt.view = s.mgt.view) ∧
      ∀ mms, r = some mms → mms ∉ G ∧ mms ∉ s.mgt.view.live ∧ s'.mgt.view = s.mgt.view.new mms ∧
        ∃ sc, s'.mgt.scatters.lookup mms = some sc ∧ sc.Holds [] := by
  unfold codecMmScatterAllocNew
  by_cases hneg : maxPage < 0
  · rw [if_pos hneg]
    exact ⟨h, rfl, fun _ => rfl, nofun⟩
  rw [if_neg hneg]
  have hg := E.scAlloc_grants s.world
  rw [meets_onPool_ext_bind]
  cases hr : (E.scAlloc s.world).1 with
  | none => exact ⟨h.world hg.keeps, rfl, fun _ => rfl, nofun⟩
  | some mms =>
    have hfresh : .scatter mms ∉ E.inUse s.world := hg.fresh mms hr _ rfl
    have htaken : .scatter mms ∈ E.inUse (E.scAlloc s.world).2 := hg.taken mms hr rfl
    obtain ⟨hnG, hnl⟩ := h.notMem_of_fresh hfresh
    dsimp only
    rw [if_neg hneg, meets_modifyMgt_bind, meets_get_bind]
    rw [if_neg (lt_irrefl 0), meets_pure_bind, if_neg fun hand => lt_irrefl _ hand.1,
      meets_scatterOf_bind (AList.lookup_insert _)]
    have hstore : ∀ s' : Local ω, storePages (empty maxPage.toNat).pagesList 0 [] s' =
        .ok ((empty maxPage.toNat).pagesList, s') := fun _ => rfl
    rw [meets_bind_of_ok (hstore _), meets_modifyMgt_bind, meets_pure, setScatter_setScatter]
    have hview : ∀ sc : Scatter, sc.userCnt = 1000 →
        ((s.mgt.setScatter mms sc).register mms).view = s.mgt.view.new mms := by
      intro sc huser
      show mk (fun x => ((s.mgt.scatters.insert mms sc).lookup x).map userCnt) _ _ _ _ = _
      rw [view_users_insert, huser]
      rfl
    refine ⟨h.born hfresh hg.keeps htaken ⟨rfl, Nat.zero_le _, rfl, rfl⟩ rfl rfl rfl rfl rfl ?_,
      rfl, fun hn => absurd hn (Option.some_ne_none mms), fun mms' hm => ?_⟩
    · rw [hview _ rfl]
      exact h.view.new hnl hnG
    · cases hm
      exact ⟨hnG, hnl, hview _ rfl, _, AList.lookup_insert _, rfl, Nat.zero_le _, rfl, rfl⟩

def Mgt.Reusable (m : Mgt) (maxPage : Int) (mms : Nat) : Prop :=
  ∃ sc, m.scatters.lookup mms = some sc ∧ sc.pageMaxCnt ≥ maxPage ∧ sc.userCnt = 0

theorem findFree_ok {list : List Nat} (maxPage : Int) (hlive : ∀ x ∈ list, x ∈ s.mgt.view.live) :
    Meets (findFree maxPage list) s fun r s' => s' = s ∧
      (r = none → ∀ x ∈ list, ¬s.mgt.Reusable maxPage x) ∧
      ∀ mms, r = some mms → mms ∈ list ∧ s.mgt.Reusable maxPage mms := by
  induction list with
  | nil => exact ⟨rfl, nofun, nofun⟩
  | cons x list ih =>
    obtain ⟨sc, hl⟩ := mem_live_iff.mp (hlive x (List.mem_cons_self ..))
    rw [findFree, meets_scatterOf_bind hl]
    split_ifs with hfit
    · refine ⟨rfl, fun hn => absurd hn (Option.some_ne_none x), fun mms hm => ?_⟩
      cases hm
      exact ⟨List.mem_cons_self .., sc, hl, hfit⟩
    · refine (ih fun y hy => hlive y (List.mem_cons_of_mem _ hy)).mono ?_
      rintro r s' ⟨hs, hnone, hr⟩
      refine ⟨hs, fun hn y hy => ?_, fun mms hm => ⟨List.mem_cons_of_mem _ (hr mms hm).1, (hr mms hm).2⟩⟩
      rcases List.mem_cons.mp hy with rfl | hy
      · rintro ⟨sc', hl', hfit'⟩
        obtain rfl := Option.some.inj (hl'.symm.trans hl)
        exact hfit hfit'
      · exact hnone hn y hy

/-- What `codec_mm_scatter_alloc` does to the view: nothing, or a scatter without users gets an owner, or
a new scatter enters. A new scatter that cannot have enough pages has no owner. -/
inductive AllocStep (G : Set Nat) (v : View) : View → Prop
  | none : AllocStep G v v
  | reuse (mms : Nat) (hmem : mms ∈ v.list) (huser : v.users mms = some 0) :
      AllocStep G v (v.setUser mms 1000)
  | fresh (mms : Nat) (hG : mms ∉ G) (hlive : mms ∉ v.live) : AllocStep G v (v.new mms)
  | unused (mms : Nat) (hG : mms ∉ G) (hlive : mms ∉ v.live) :
      AllocStep G v ((v.new mms).setUser mms 0)

section

variable (h : Inv E F G T a c s)
include h

theorem alloc_wantPages (huser : s.mgt.view.users mms = some 1000) (pageNum : Int) :
    Meets (do
      let ret ← codecMmScatterAllocWantPagesIn E mms pageNum
      if ret < 0 then
        let sc ← scatterOf mms
        modifyMgt fun m => m.setScatter mms { sc with userCnt := sc.userCnt - 1000 }
        return none
      else return some mms) s fun _ s' => Inv E F G T a c s' ∧
        (s'.mgt.view = s.mgt.view ∨ s'.mgt.view = s.mgt.view.setUser mms 0) := by
  have hlive : mms ∈ s.mgt.view.live := by
    show s.mgt.view.users mms ≠ none
    rw [huser]
    exact nofun
  refine (codecMmScatterAllocWantPagesIn_ok h hlive pageNum).bind ?_
  rintro ret s1 ⟨h1, hv1⟩
  split_ifs
  · rw [← hv1] at huser
    obtain ⟨sc, hl, hcnt⟩ := Option.map_eq_some_iff.mp huser
    rw [meets_scatterOf_bind hl]
    obtain ⟨h2, hv2⟩ := h1.setUser hl { sc with userCnt := sc.userCnt - 1000 } fun _ hsc => hsc.withUser _ _ _
    refine ⟨h2, Or.inr (hv2.trans ?_)⟩
    rw [hv1, hcnt]
    rfl
  · exact ⟨h1, Or.inl hv1⟩

theorem codecMmScatterAlloc_ok (maxPage pageNum : Int) :
    Meets (codecMmScatterAlloc E maxPage pageNum) s fun _ s' => Inv E F G T a c s' ∧
      AllocStep G s.mgt.view s'.mgt.view ∧
      ∀ x ∈ s.mgt.scatterList, s.mgt.Reusable maxPage x → s'.mgt.view.list = s.mgt.view.list := by
  unfold codecMmScatterAlloc
  rw [meets_get_bind]
  refine (findFree_ok maxPage fun x hx => h.view.list_live (List.mem_reverse.mp hx)).bind ?_
  rintro found s1 ⟨hs1, hnot, hfound⟩
  subst s1
  cases found with
  | some mms =>
    obtain ⟨hmem, sc, hl, -, huser⟩ := hfound mms rfl
    have hzero : s.mgt.view.users mms = some 0 := (view_users_of_lookup hl).trans (by rw [huser])
    obtain ⟨h1, hv1⟩ := h.setUser hl { sc with userCnt := sc.userCnt + 1000, pageUsed := sc.pageCnt }
      fun _ hsc => hsc.withUser _ _ _
    refine Meets.bind (Q := fun r s' => r = some mms ∧ Inv E F G T a c s' ∧
      s'.mgt.view = s.mgt.view.setUser mms 1000) ?_ ?_
    · rw [meets_scatterOf_bind hl]
      refine ⟨rfl, h1, hv1.trans ?_⟩
      rw [huser]
      rfl
    · rintro _ s1 ⟨rfl, h1, hv1⟩
      have huser1 : s1.mgt.view.users mms = some 1000 := by
        rw [hv1]
        exact update_self ..
      refine (alloc_wantPages h1 huser1 pageNum).mono ?_
      rintro - s2 ⟨h2, hv2⟩
      refine ⟨h2, ?_⟩
      rcases hv2 with hv2 | hv2
      · rw [hv2, hv1]
        exact ⟨.reuse mms (List.mem_reverse.mp hmem) hzero, fun _ _ _ => rfl⟩
      · -- the user count is back at zero
        have hback : (s.mgt.view.setUser mms 1000).setUser mms 0 = s.mgt.view := by
          unfold setUser
          rw [update_idem, update_eq_self_iff.mpr hzero.symm]
        rw [hv2, hv1, hback]
        exact ⟨.none, fun _ _ _ => rfl⟩
  | none =>
    have hnot : ∀ x ∈ s.mgt.scatterList, ¬s.mgt.Reusable maxPage x := fun x hx =>
      hnot rfl x (List.mem_reverse.mpr hx)
    refine (codecMmScatterAllocNew_ok h maxPage).bind ?_
    rintro r s1 ⟨h1, -, hnone, hsome⟩
    cases r with
    | none =>
      refine ⟨h1, ?_, fun x hx hre => absurd hre (hnot x hx)⟩
      rw [hnone rfl]
      exact .none
    | some mms =>
      obtain ⟨hG, hlive, hv1, -⟩ := hsome mms rfl
      have huser1 : s1.mgt.view.users mms = some 1000 := by
        rw [hv1]
        exact update_self ..
      refine (alloc_wantPages h1 huser1 pageNum).mono ?_
      rintro - s2 ⟨h2, hv2⟩
      refine ⟨h2, ?_, fun x hx hre => absurd hre (hnot x hx)⟩
      rcases hv2 with hv2 | hv2
      · rw [hv2, hv1]
        exact .fresh mms hG hlive
      · rw [hv2, hv1]
        exact .unused mms hG hlive

/-! ## Release -/

section

variable (hl : s.mgt.scatters.lookup mms = some sc)
include hl

theorem freePages_ok (ret : Int) :
    Meets (if sc.pageCnt > 0 then codecMmScatterFreeTailPagesIn E mms 0 0 0 else pure ret) s fun _ s' =>
      Inv E F G T a c s' ∧ s'.mgt.view = s.mgt.view ∧
        ∃ sc', s'.mgt.scatters.lookup mms = some sc' ∧ sc'.Holds [] := by
  obtain ⟨toks, hsc⟩ := h.scatter hl
  split_ifs with hpos
  · refine (codecMmScatterFreeTailPagesIn_all h hl hsc hpos).mono ?_
    rintro - s2 ⟨h2, ht2, hsc2⟩
    exact ⟨h2, ht2.view, hsc2⟩
  · have hnil : toks = [] := List.length_eq_zero_iff.mp (by rw [← hsc.cnt]; omega)
    exact ⟨h, rfl, sc, hl, hnil ▸ hsc⟩

theorem Inv.erase (hsc : sc.Holds [])
    (hnl : mms ∉ s.mgt.scatterList) (hnm : some mms ∉ s.mgt.scmap) (hnc : ¬s.mgt.view.IsCache mms) (cnt : Nat) :
    Inv E F G T a c ⟨E.scFree mms s.world, { s.mgt.raiseTryAlloc cnt with
        scatters := (s.mgt.raiseTryAlloc cnt).scatters.erase mms }⟩ ∧
      ({ s.mgt.raiseTryAlloc cnt with scatters := (s.mgt.raiseTryAlloc cnt).scatters.erase mms } : Mgt).view =
        { s.mgt.view with users := update s.mgt.view.users mms none } := by
  have h1 : Inv E F G T a c { s with mgt := s.mgt.raiseTryAlloc cnt } ∧
      (s.mgt.raiseTryAlloc cnt).view = s.mgt.view ∧
      (s.mgt.raiseTryAlloc cnt).scatters = s.mgt.scatters := by
    unfold Mgt.raiseTryAlloc
    split
    · exact ⟨⟨⟨h.pool.hash, h.pool.ledger⟩, h.scatter, h.alloced, h.cached, h.view⟩, rfl, rfl⟩
    · exact ⟨h, rfl, rfl⟩
  generalize s.mgt.raiseTryAlloc cnt = m1 at h1 ⊢
  obtain ⟨h1, hv1, hs1⟩ := h1
  have hlist : m1.scatterList = s.mgt.scatterList := congrArg list hv1
  have hmap : m1.scmap = s.mgt.scmap := congrArg scmap hv1
  rw [← hs1] at hl
  rw [← hlist] at hnl
  rw [← hmap] at hnm
  obtain ⟨h2, hv2⟩ := h1.kill hl hsc hnl hnm (hv1 ▸ hnc) (E.scFree_frees mms s.world)
  exact ⟨h2, hv2.trans (by rw [hv1])⟩

theorem codecMmScatterFreeOnNouser_ok (hnc : ¬s.mgt.view.IsCache mms) :
    Meets (codecMmScatterFreeOnNouser E mms) s fun _ s' => Inv E F G T a c s' ∧
      (0 < sc.userCnt → s'.mgt.view = s.mgt.view) ∧
      (sc.userCnt ≤ 0 → s'.mgt.view = s.mgt.view.free mms) := by
  unfold codecMmScatterFreeOnNouser codecMmScatterFreeOnNouserExt
  rw [meets_scatterOf_bind hl]
  by_cases huser : sc.userCnt > 0
  · rw [if_pos huser]
    exact ⟨h, fun _ => rfl, fun hle => absurd huser (not_lt.mpr hle)⟩
  rw [if_neg huser, meets_modifyMgt_bind]
  have h1 : Inv E F G T a c { s with mgt := { s.mgt with
      scatterList := s.mgt.scatterList.erase mms
      scattersCnt := s.mgt.scattersCnt - 1
      scmap := scatterMapDel s.mgt.scmap mms } } :=
    h.relist rfl rfl rfl rfl rfl (h.view.unlist mms)
  refine (freePages_ok h1 hl sc.userCnt).bind ?_
  rintro - s2 ⟨h2, hv2, sc2, hl2, hsc2⟩
  have hlist : s2.mgt.scatterList = s.mgt.scatterList.erase mms := congrArg list hv2
  have hmap : s2.mgt.scmap = scatterMapDel s.mgt.scmap mms := congrArg scmap hv2
  have hnl : mms ∉ s2.mgt.scatterList := by
    rw [hlist]
    exact h.view.list_nodup.not_mem_erase
  have hnm : some mms ∉ s2.mgt.scmap := by
    rw [hmap]
    exact notMem_scatterMapDel (h.view.map_once mms)
  have hnc2 : ¬s2.mgt.view.IsCache mms := by
    rw [hv2]
    exact hnc
  obtain ⟨h3, hv3⟩ := h2.erase hl2 hsc2 hnl hnm hnc2 sc.pageCnt
  refine ⟨h3, fun hpos => absurd hpos huser, fun _ => hv3.trans ?_⟩
  rw [hv2]
  rfl

end

end

/-! ## Users -/

def UserResult (v : View) (mms : Nat) (least : Int) (ret : Int → Int) (miss r : Int) : Prop :=
  some mms ∉ v.scmap ∧ r = -1 ∨ some mms ∈ v.scmap ∧ ∃ n, v.users mms = some n ∧ r = if least ≤ n then ret n else miss

theorem UserResult.live {v : View} {mms : Nat} {least miss r : Int} {ret : Int → Int}
    (h : UserResult v mms least ret miss r) (hr : 0 ≤ r) : mms ∈ v.live := by
  obtain ⟨-, rfl⟩ | ⟨-, n, hn, -⟩ := h
  · cases hr
  · exact mem_live_of_users hn

theorem userIn1_ok (h : Inv E F G T a c s) (mms : Nat) (least miss : Int) (f ret : Int → Int)
    {time : Scatter → Prog (Local ω) Nat}
    (htime : ∀ sc, Meets (time sc) s fun _ s' => Inv E F G T a c s' ∧ s'.mgt = s.mgt) :
    Meets (do
      if !(← get).mgt.scatterValid mms then return -1
      else
        let sc ← scatterOf mms
        if sc.userCnt ≥ least then
          let now ← time sc
          modifyMgt fun m => m.setScatter mms { sc with userCnt := f sc.userCnt, tofreeJiffies := now }
          return ret sc.userCnt
        else return miss) s fun r s' => Inv E F G T a c s' ∧ s'.mgt.view = s.mgt.view.adjust mms least f ∧
      UserResult s.mgt.view mms least ret miss r := by
  rw [meets_get_bind]
  by_cases hvalid : some mms ∈ s.mgt.scmap
  swap
  · rw [if_pos (by simpa [Mgt.scatterValid] using hvalid)]
    exact ⟨h, (adjust_of_invalid hvalid).symm, .inl ⟨hvalid, rfl⟩⟩
  rw [if_neg (by simpa [Mgt.scatterValid] using hvalid)]
  obtain ⟨sc, hl⟩ := mem_live_iff.mp (h.view.map_live hvalid)
  have hn := view_users_of_lookup hl
  rw [meets_scatterOf_bind hl, adjust_of_users hn hvalid]
  by_cases hleast : sc.userCnt ≥ least
  swap
  · rw [if_neg hleast, if_neg hleast]
    exact ⟨h, rfl, .inr ⟨hvalid, _, hn, (if_neg hleast).symm⟩⟩
  rw [if_pos hleast, if_pos hleast]
  refine (htime sc).bind ?_
  rintro now s1 ⟨h1, hm⟩
  obtain ⟨h2, hv2⟩ := h1.setUser (hm ▸ hl) { sc with userCnt := f sc.userCnt, tofreeJiffies := now }
    fun _ hsc => hsc.withUser _ _ _
  exact ⟨h2, hv2.trans (by rw [hm]), .inr ⟨hvalid, _, hn, (if_pos hleast).symm⟩⟩

theorem codecMmScatterIncUserIn1_ok (h : Inv E F G T a c s) (mms : Nat) (cnt : Int) :
    Meets (codecMmScatterIncUserIn1 E mms cnt) s fun r s' => Inv E F G T a c s' ∧
      s'.mgt.view = s.mgt.view.inc mms cnt ∧
      UserResult s.mgt.view mms 0 (fun n => if n + cnt ≤ 0 then n + cnt else 0) (-1) r := by
  rw [inc_eq]
  refine userIn1_ok h mms 0 (-1) (· + cnt) (fun n => if n + cnt ≤ 0 then n + cnt else 0) ?_
  exact fun sc => h.now rfl _

theorem codecMmScatterDecUserIn1_ok (h : Inv E F G T a c s) (mms : Nat) (delayFreeMs cnt : Int) :
    Meets (codecMmScatterDecUserIn1 E mms delayFreeMs cnt) s fun r s' => Inv E F G T a c s' ∧
      s'.mgt.view = s.mgt.view.dec mms cnt ∧ UserResult s.mgt.view mms 1 (fun _ => 0) 0 r := by
  rw [dec_eq]
  refine userIn1_ok h mms 1 0 (· - cnt) (fun _ => 0) ?_
  exact fun sc => h.now rfl _

end Code

end Amlogic.CodecMm
