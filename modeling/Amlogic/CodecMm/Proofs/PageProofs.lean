import Amlogic.CodecMm.Proofs.ScatterProofs

/-!
# Pages of scatters

Allocating pages for a scatter and freeing its last pages.
-/

namespace Amlogic.CodecMm

open Multiset

section Code

variable {ω : Type} {E : Externals ω} {F T L : Multiset Nat} {G : Set Nat} {a c : Int}
  {s : Local ω} {mms : Nat} {sc : Scatter} {xs ys toks : List Nat}

/-! ## Allocation -/

theorem Inv.fromPool {x : Prog (PoolSt ω) (List Nat)} {num : Nat} (h : Inv E F G T a c s)
    (hx : ∀ {G L} {s : PoolSt ω}, PoolOk E F G L s → Meets x s fun pages s' =>
      PoolOk E F G (pages + L) s' ∧ pages.length ≤ num ∧
        s'.pool.allocedPageNum = s.pool.allocedPageNum + pages.length) :
    Meets (CodecMm.onPool x) s fun pages s' => Inv E F G (pages + T) a c s' ∧ pages.length ≤ num ∧
      Touches (fun _ => False) s.mgt s'.mgt := by
  refine (Meets.zoom (s := s) (hx h.pool)).mono ?_
  rintro pages s' ⟨t, rfl, hpool, hlen, halloc⟩
  rw [← add_assoc] at hpool
  refine ⟨h.withPool hpool ?_, hlen, rfl, fun _ _ => rfl⟩
  have hcard := h.alloced
  rw [card_add] at hcard
  rw [halloc, card_add, card_add, coe_card]
  push_cast at hcard ⊢
  omega

theorem allocAllLoop_ok (fuel : Nat) (h : Inv E F G T a c s) (fromScatter fromSlot : Bool) (num : Nat) :
    Meets (allocAllLoop E fuel fromScatter fromSlot num) s fun pages s' =>
      Inv E F G (pages + T) a c s' ∧ pages.length ≤ num ∧
        Touches (fun x => fromScatter ∧ s.mgt.view.IsCache x) s.mgt s'.mgt := by
  induction fuel generalizing s T fromScatter fromSlot num with
  | zero => exact meets_fuel
  | succ fuel ih =>
    have nil_ok : Inv E F G (([] : List Nat) + T) a c s := by
      rw [coe_nil, zero_add]
      exact h
    -- the pages of one round, followed by those of the next ones
    have next : ∀ {pages : List Nat} {s1 : Local ω} (b1 b2 : Bool), Inv E F G (pages + T) a c s1 →
        pages.length ≤ num → Touches (fun x => fromScatter ∧ s.mgt.view.IsCache x) s.mgt s1.mgt →
        (b1 → fromScatter) →
        Meets (allocAllLoop E fuel b1 b2 (num - pages.length) >>= fun rest => pure (pages ++ rest)) s1
          fun pages s' => Inv E F G (pages + T) a c s' ∧ pages.length ≤ num ∧
            Touches (fun x => fromScatter ∧ s.mgt.view.IsCache x) s.mgt s'.mgt := by
      intro pages s1 b1 b2 h1 hlen ht hb
      refine (ih h1 b1 b2 (num - pages.length)).bind ?_
      rintro rest s2 ⟨h2, hrest, ht2⟩
      refine ⟨?_, ?_, ht.trans (ht2.mono fun x hx => ⟨hb hx.1, ht.view ▸ hx.2⟩)⟩
      · rw [← coe_add, add_right_comm, add_comm _ (rest : Multiset Nat)]
        exact h2
      · rw [List.length_append]
        omega
    rw [allocAllLoop, meets_get_bind]
    by_cases hzero : num = 0
    · rw [if_pos hzero]
      exact ⟨nil_ok, Nat.zero_le _, Touches.refl ..⟩
    rw [if_neg hzero]
    by_cases hscatter : fromScatter = true
    · rw [if_pos hscatter]
      refine (codecMmPageAllocFromCacheScatter_ok h num).bind ?_
      rintro pages s1 ⟨h1, hlen, ht⟩
      exact next _ _ h1 hlen (ht.mono fun x hx => ⟨hscatter, hx⟩) fun _ => hscatter
    rw [if_neg hscatter]
    by_cases hslot : fromSlot = true
    · rw [if_pos hslot]
      refine (h.fromPool fun hp => codecMmPageAllocFromSlot_ok hp num).bind ?_
      rintro pages s1 ⟨h1, hlen, ht⟩
      exact next _ _ h1 hlen (ht.mono fun x hx => hx.elim) nofun
    split_ifs
    · refine (h.fromPool fun hp => codecMmPageAllocFromOnePages_ok hp num).bind ?_
      rintro pages s1 ⟨h1, hlen, ht⟩
      split_ifs with hnil
      · obtain rfl := List.isEmpty_iff.mp hnil
        exact ⟨h1, Nat.zero_le _, ht.mono fun x hx => hx.elim⟩
      · exact next _ _ h1 hlen (ht.mono fun x hx => hx.elim) nofun
    · exact ⟨nil_ok, Nat.zero_le _, Touches.refl ..⟩

/-- `codec_mm_page_alloc_all_locked` takes pages for a scatter from all sources; pages for a cache
scatter do not come from the cache. -/
theorem codecMmPageAllocAllLocked_ok (h : Inv E F G T a c s) (num : Nat) (iscache : Bool) :
    Meets (codecMmPageAllocAllLocked E num iscache) s fun pages s' =>
      Inv E F G (pages + T) a c s' ∧ pages.length ≤ num ∧
        Touches (fun x => (!iscache) = true ∧ s.mgt.view.IsCache x) s.mgt s'.mgt :=
  allocAllLoop_ok _ h _ _ num

/-! ## Freeing one page -/

theorem codecMmScatterFreePageIdLocked_ok {t : Nat} (h : Inv E F G T a c s) (hl : s.mgt.scatters.lookup mms = some sc)
    (hsc : sc.Holds (xs ++ [t])) (hL : T + held s.mgt = t ::ₘ L) :
    Meets (codecMmScatterFreePageIdLocked E mms xs.length) s fun _ s' => ∃ w p,
      s' = ⟨w, s.mgt.put p mms { sc with pageCnt := xs.length, pageTail := xs.length - 1 }
        s.mgt.cachedPages⟩ ∧ PoolOk E F (G ∪ s.mgt.view.live) L ⟨w, p⟩ ∧
      p.allocedPageNum = s.mgt.allocedPageNum := by
  have hpool := h.pool
  rw [hL] at hpool
  have hcnt := hsc.cnt
  have htail := hsc.tail
  rw [List.length_append, List.length_singleton] at hcnt htail
  have hpage : sc.pagesList[xs.length]? = some t := by
    rw [hsc.list, List.append_assoc, List.getElem?_append_right le_rfl, Nat.sub_self]
    rfl
  have hcnt' : sc.pageCnt - 1 = xs.length := by omega
  have htail' : sc.pageTail - 1 = (xs.length : Int) - 1 := by omega
  unfold codecMmScatterFreePageIdLocked
  rw [meets_scatterOf_bind hl, if_neg (by omega), Int.toNat_natCast, hpage]
  dsimp only
  by_cases hone : pageSid t = onePageSid
  · have hvalid : ValidSid (pageSid t) := Or.inr hone
    rw [if_neg (not_not_intro hvalid), if_pos hone, hcnt', if_pos (by omega), htail']
    have hledger := hpool.ledger.removeOne hpool.hash hone
    have hframe : frame t ::ₘ F = (Area.mk (pageAddr t) 1).frames + F := by
      have haddr : pageAddr t / pageSize = frame t := by
        rw [pageAddr_eq_frame]
        exact Nat.mul_div_cancel _ (by decide)
      show _ = {pageAddr t / pageSize + 0} + F
      rw [haddr, Nat.add_zero, singleton_add]
    rw [hframe] at hledger
    refine ⟨E.freePage (pageAddr t) s.world, { s.mgt.toSlotPool with
      onePageCnt := s.mgt.onePageCnt - 1, totalPageNum := s.mgt.totalPageNum - 1 }, rfl,
      ⟨hpool.hash, ?_⟩, rfl⟩
    rw [sub_sub_sub_cancel_right]
    exact hledger.release (E.freePage_frees _ _)
  · have hvalid : ValidSid (pageSid t) := by
      rcases hpool.ledger.slot_of_mem hpool.hash (mem_cons_self t L) with ht | ht
      · exact .inr ht.sid
      · obtain ⟨id, slot, b, hls, -, -, hs⟩ := ht
        exact .inl (hs ▸ (hpool.hash.slot hls).sid ▸ slotToSid_lt _)
    rw [if_neg (not_not_intro hvalid), if_neg hone]
    refine (Meets.zoom (s := s) (codecMmPageFreeToSlot_ok hpool hone)).bind ?_
    rintro ret s' ⟨p, rfl, rfl, hp, halloc⟩
    rw [if_pos rfl, hcnt', htail']
    exact ⟨p.world, p.pool, rfl, hp, halloc⟩

/-! ## Freeing the last pages -/

def cacheShare (m : Mgt) (mms n : Nat) : Int := if m.isCacheSc mms then n else 0

theorem put_setScatter (m : Mgt) (p : SlotPool) (mms : Nat) (x y : Scatter) (cached : Int) :
    (m.put p mms x cached).setScatter mms y = m.put p mms y cached := by
  unfold Mgt.put Mgt.setScatter
  rw [AList.insert_insert]

section

variable (h : Inv E F G T a c s)
include h

section

variable (hl : s.mgt.scatters.lookup mms = some sc)
include hl

theorem freePagesLoop_round {t : Nat} {R : Prog (Local ω) Unit} {Q : Unit → Local ω → Prop} (hsc : sc.Holds (xs ++ [t]))
    (hrest : ∀ s' sc', Inv E F G T (a - 1) (c - cacheShare s.mgt mms 1) s' →
      Touches (· = mms) s.mgt s'.mgt → s'.mgt.scatters.lookup mms = some sc' → sc'.Holds xs →
      Meets R s' Q) :
    Meets (do
      let _ ← codecMmScatterFreePageIdLocked E mms xs.length
      let sc ← scatterOf mms
      let list ← storePages sc.pagesList xs.length [0]
      modifyMgt fun m => m.setScatter mms { sc with pagesList := list }
      R) s Q := by
  obtain ⟨L, hL⟩ : ∃ L, T + held s.mgt = t ::ₘ L := by
    refine exists_cons_of_mem (mem_add.mpr (Or.inr ?_))
    refine (Heap.mem_total _).mpr ⟨mms, sc, hl, ?_⟩
    rw [hsc.tokens, mem_coe]
    exact List.mem_append_right _ (List.mem_singleton_self t)
  refine (codecMmScatterFreePageIdLocked_ok h hl hsc hL).bind ?_
  rintro - s1 ⟨w, p, rfl, hpool, halloc⟩
  rw [meets_scatterOf_bind (AList.lookup_insert _)]
  refine (meets_bind_of_ok hsc.clearTail).mpr ?_
  rw [meets_modifyMgt_bind, put_setScatter]
  have hsc' := hsc.shrink xs.length (xs.length - 1) rfl rfl
  refine hrest _ _ (h.put hl hsc hsc' rfl hpool ?_ ?_ ?_) (touches_put hl rfl) (AList.lookup_insert _) hsc'
  · rw [hL, ← coe_add, coe_singleton, ← singleton_add]
    abel
  · have hcard := h.alloced
    rw [hL, card_cons] at hcard
    push_cast at hcard
    omega
  · have hcached := h.cached
    unfold cacheShare
    rw [List.length_append, List.length_singleton]
    push_cast
    split_ifs <;> omega

theorem freePagesLoop_ok (hsc : sc.Holds (xs ++ ys)) :
    Meets (freePagesLoop E mms xs.length ys.length) s fun _ s' =>
      Inv E F G T (a - ys.length) (c - cacheShare s.mgt mms ys.length) s' ∧
      Touches (· = mms) s.mgt s'.mgt ∧ ∃ sc', s'.mgt.scatters.lookup mms = some sc' ∧ sc'.Holds xs := by
  induction ys using List.reverseRecOn generalizing s sc a c with
  | nil =>
    rw [List.append_nil] at hsc
    have hc : cacheShare s.mgt mms 0 = 0 := ite_self _
    refine ⟨?_, Touches.refl .., sc, hl, hsc⟩
    show Inv E F G T (a - (0 : Nat)) (c - cacheShare s.mgt mms 0) s
    rw [hc, Nat.cast_zero, sub_zero, sub_zero]
    exact h
  | append_singleton ys t ih =>
    rw [← List.append_assoc] at hsc
    have hidx : (xs.length : Int) + ys.length = (xs ++ ys).length := by
      rw [List.length_append]
      push_cast
      rfl
    rw [List.length_append, List.length_singleton, freePagesLoop, hidx]
    refine freePagesLoop_round h hl hsc ?_
    intro s1 sc1 h1 ht1 hl1 hsc1
    refine (ih h1 hl1 hsc1).mono ?_
    rintro - s2 ⟨h2, ht2, hsc2⟩
    have hshare : cacheShare s1.mgt mms ys.length = cacheShare s.mgt mms ys.length := by
      unfold cacheShare
      rw [isCacheSc_of_view ht1.view]
    have ha : a - 1 - (ys.length : Int) = a - (ys.length + 1 : Nat) := by omega
    have hc : c - cacheShare s.mgt mms 1 - cacheShare s.mgt mms ys.length =
        c - cacheShare s.mgt mms (ys.length + 1) := by
      unfold cacheShare
      split_ifs <;> omega
    rw [hshare, ha, hc] at h2
    exact ⟨h2, ht1.trans ht2, hsc2⟩

theorem codecMmScatterFreePagesInLocked_ok (hsc : sc.Holds (xs ++ ys)) :
    Meets (codecMmScatterFreePagesInLocked E mms xs.length) s fun _ s' => Inv E F G T a c s' ∧
      Touches (· = mms) s.mgt s'.mgt ∧ ∃ sc', s'.mgt.scatters.lookup mms = some sc' ∧ sc'.Holds xs := by
  have hnum : (sc.pageTail - xs.length + 1).toNat = ys.length := by
    have htail := hsc.tail
    rw [List.length_append] at htail
    omega
  unfold codecMmScatterFreePagesInLocked
  rw [meets_scatterOf_bind hl, hnum]
  refine (freePagesLoop_ok h hl hsc).bind ?_
  rintro - s1 ⟨h1, ht1, hsc1⟩
  have hcache : s1.mgt.isCacheSc mms = s.mgt.isCacheSc mms := isCacheSc_of_view ht1.view
  have halloc := h1.alloced
  have hcached := h1.cached
  refine ⟨⟨⟨h1.pool.hash, h1.pool.ledger⟩, h1.scatter, ?_, ?_, h1.view⟩,
    ⟨ht1.view, ht1.others⟩, hsc1⟩
  · show s1.mgt.allocedPageNum - ys.length + a = (T + held s1.mgt).card
    omega
  · show (if s1.mgt.isCacheSc mms then s1.mgt.cachedPages - ys.length else s1.mgt.cachedPages) + c =
      s1.mgt.cacheCnt
    unfold cacheShare at hcached
    rw [hcache]
    split_ifs at hcached ⊢ <;> omega

theorem codecMmPageFreeToCacheScatter_ok
    (hsc : sc.Holds toks) (hused : 0 ≤ sc.pageUsed) (hnot : ¬s.mgt.view.IsCache mms) :
    Meets (codecMmPageFreeToCacheScatter mms) s fun _ s' => Inv E F G T a c s' ∧
      Touches (fun x => x = mms ∨ s.mgt.view.IsCache x) s.mgt s'.mgt ∧
      ∃ sc' xs ys, s'.mgt.scatters.lookup mms = some sc' ∧ toks = xs ++ ys ∧ sc'.Holds xs ∧
        sc'.pageUsed = sc.pageUsed ∧ min sc.pageUsed sc.pageCnt ≤ xs.length := by
  refine (codecMmGetNextCacheScatter_ok h none 0).bind ?_
  rintro dst s1 ⟨hs1, hdst⟩
  subst s1
  exact codecMmPagesFreeToScatter_ok h hl hsc hused hnot hdst

theorem Inv.setUsed (hsc : sc.Holds toks) (used : Int) :
    Inv E F G T a c { s with mgt := s.mgt.setScatter mms { sc with pageUsed := used } } ∧
      Touches (· = mms) s.mgt (s.mgt.setScatter mms { sc with pageUsed := used }) := by
  have hsc' : ({ sc with pageUsed := used } : Scatter).Holds toks :=
    ⟨hsc.list, hsc.room, hsc.cnt, hsc.tail⟩
  refine ⟨h.put hl hsc hsc' rfl h.pool rfl h.alloced ?_, touches_put hl rfl⟩
  rw [sub_self, ite_self, h.cached, Int.add_zero]

def TailFreed (E : Externals ω) (F : Multiset Nat) (G : Set Nat) (T : Multiset Nat) (a c : Int)
    (s : Local ω) (mms : Nat) (toks : List Nat) (s' : Local ω) : Prop :=
  Inv E F G T a c s' ∧ Touches (fun x => x = mms ∨ s.mgt.view.IsCache x) s.mgt s'.mgt ∧
    ∃ sc' xs ys, s'.mgt.scatters.lookup mms = some sc' ∧ toks = xs ++ ys ∧ sc'.Holds xs

/-- `codec_mm_scatter_free_tail_pages_in` keeps the first pages of a scatter. The other pages are freed,
or moved to a cache scatter. -/
theorem codecMmScatterFreeTailPagesIn_ok (hsc : sc.Holds toks) (id : Int)
    (fastMode freeMode : Nat) (hfast : fastMode = 2 ∨ fastMode = 3 → ¬s.mgt.view.IsCache mms) :
    Meets (codecMmScatterFreeTailPagesIn E mms id fastMode freeMode) s fun _ s' =>
      TailFreed E F G T a c s mms toks s' := by
  unfold codecMmScatterFreeTailPagesIn
  rw [meets_scatterOf_bind hl]
  generalize (if freeMode = 2 then if id > 0 then if id ≥ sc.pageCnt then 0 else sc.pageCnt - id else -1
    else if freeMode = 1 then sc.pageUsed else id : Int) = start
  by_cases hrange : start < 0 ∨ start ≥ sc.pageCnt ∨ sc.pageTail < 0
  · rw [if_pos hrange]
    exact ⟨h, Touches.refl .., sc, toks, [], hl, (List.append_nil _).symm, hsc⟩
  rw [if_neg hrange, meets_modifyMgt_bind]
  obtain ⟨h1, ht1⟩ := h.setUsed hl hsc start
  have hl1 : (s.mgt.setScatter mms { sc with pageUsed := start }).scatters.lookup mms =
      some { sc with pageUsed := start } := AList.lookup_insert _
  have hsc1 : ({ sc with pageUsed := start } : Scatter).Holds toks :=
    ⟨hsc.list, hsc.room, hsc.cnt, hsc.tail⟩
  have ht1' := ht1.mono (Q := fun x => x = mms ∨ s.mgt.view.IsCache x) fun x hx => .inl hx
  have hcnt := hsc.cnt
  -- freeing what is behind `start`, from any state on the way
  have slow : ∀ {s' : Local ω} {sc' : Scatter} {xs ys : List Nat}, Inv E F G T a c s' →
      Touches (fun x => x = mms ∨ s.mgt.view.IsCache x) s.mgt s'.mgt →
      s'.mgt.scatters.lookup mms = some sc' → toks = xs ++ ys → sc'.Holds xs → start ≤ xs.length →
      Meets (codecMmScatterFreePagesInLocked E mms start) s' fun _ s'' =>
        TailFreed E F G T a c s mms toks s'' := by
    intro s' sc' xs ys h' ht' hl' htoks hsc' hle
    obtain ⟨n, rfl⟩ : ∃ n : Nat, start = n := ⟨start.toNat, by omega⟩
    have hn : (xs.take n).length = n := by
      rw [List.length_take]
      omega
    rw [← List.take_append_drop n xs] at hsc'
    have hfree := codecMmScatterFreePagesInLocked_ok h' hl' hsc'
    rw [hn] at hfree
    refine hfree.mono ?_
    rintro - s'' ⟨h'', ht'', sc'', hl'', hsc''⟩
    refine ⟨h'', ht'.trans (ht''.mono fun x hx => .inl hx), sc'', xs.take n, xs.drop n ++ ys, hl'', ?_,
      hsc''⟩
    rw [htoks, ← List.append_assoc, List.take_append_drop]
  have hall : Meets (codecMmScatterFreePagesInLocked E mms start)
      { s with mgt := s.mgt.setScatter mms { sc with pageUsed := start } } fun _ s'' =>
        TailFreed E F G T a c s mms toks s'' :=
    slow h1 ht1' hl1 (List.append_nil _).symm hsc1 (by omega)
  by_cases hone : fastMode = 1
  · rw [if_pos hone]
    exact ⟨h1, ht1', _, toks, [], hl1, (List.append_nil _).symm, hsc1⟩
  rw [if_neg hone]
  by_cases hmode : fastMode = 2 ∨ fastMode = 3
  swap
  · rw [if_neg hmode]
    exact hall
  rw [if_pos hmode]
  refine (codecMmPageFreeToCacheScatter_ok h1 hl1 hsc1 (by show 0 ≤ start; omega)
    (ht1.view ▸ hfast hmode)).bind ?_
  rintro - s2 ⟨h2, ht2, sc2, xs, ys, hl2, rfl, hsc2, hused, hle⟩
  have ht2' := ht1'.trans (ht1.view ▸ ht2)
  rw [meets_scatterOf_bind hl2]
  split_ifs
  · exact ⟨h2, ht2', sc2, xs, ys, hl2, rfl, hsc2⟩
  · refine slow h2 ht2' hl2 rfl hsc2 ?_
    have hle' : min start sc.pageCnt ≤ xs.length := hle
    omega

theorem codecMmScatterFreeTailPagesIn_all (hsc : sc.Holds toks) (hpos : sc.pageCnt > 0) :
    Meets (codecMmScatterFreeTailPagesIn E mms 0 0 0) s fun _ s' => Inv E F G T a c s' ∧
      Touches (· = mms) s.mgt s'.mgt ∧ ∃ sc', s'.mgt.scatters.lookup mms = some sc' ∧ sc'.Holds [] := by
  have hcnt := hsc.cnt
  have htail := hsc.tail
  unfold codecMmScatterFreeTailPagesIn
  rw [meets_scatterOf_bind hl]
  rw [if_neg (show ¬0 = 2 by decide), if_neg (show ¬0 = 1 by decide), if_neg (by omega),
    meets_modifyMgt_bind, if_neg (show ¬0 = 1 by decide), if_neg (show ¬(0 = 2 ∨ 0 = 3) by decide)]
  obtain ⟨h1, ht1⟩ := h.setUsed hl hsc 0
  have hsc1 : ({ sc with pageUsed := 0 } : Scatter).Holds ([] ++ toks) :=
    ⟨hsc.list, hsc.room, hsc.cnt, hsc.tail⟩
  refine (codecMmScatterFreePagesInLocked_ok h1 (AList.lookup_insert _) hsc1).mono ?_
  rintro - s2 ⟨h2, ht2, hsc2⟩
  exact ⟨h2, ht1.trans ht2, hsc2⟩

end

end

end Code

end Amlogic.CodecMm
