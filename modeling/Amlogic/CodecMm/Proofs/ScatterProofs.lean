import Amlogic.CodecMm.Proofs.SlotCodeProofs
import Amlogic.CodecMm.View

/-!
# Scatters and the page cache

The pages that are out are in the scatters, or on their way: `T` are the tokens that a function has
taken out of one place and not yet put into another. `Inv` is the state of a manager in the middle of
an operation, `a` and `c` tell how far the counters are behind.
-/

namespace Amlogic.CodecMm

open Scatter

variable {m' : Mgt} {p : SlotPool} {cached : Int}

/-! ## One scatter -/

structure Scatter.Holds (sc : Scatter) (toks : List Nat) : Prop where
  list : sc.pagesList = toks ++ List.replicate (sc.pageMaxCnt - toks.length) 0
  room : toks.length ≤ sc.pageMaxCnt
  cnt : sc.pageCnt = toks.length
  tail : sc.pageTail = toks.length - 1

section OneScatter

variable {ω : Type} {sc : Scatter} {xs ys toks : List Nat} {s : Local ω}

theorem Scatter.Holds.tokens (h : sc.Holds toks) : sc.tokens = toks := by
  unfold Scatter.tokens
  rw [h.list, h.cnt, List.take_left]

theorem loadPages_run {list : List Nat} {i n : Nat} (h : i + n ≤ list.length) :
    loadPages list (i : Int) n s = .ok ((list.drop i).take n, s) := by
  unfold loadPages
  show (load list i n >>= fun r => .ok (r, s)) = _
  rw [load_of_le h]
  rfl

theorem storePages_run {list bs : List Nat} {i : Nat} (h : i + bs.length ≤ list.length) :
    storePages list (i : Int) bs s = .ok (patch list i bs, s) := by
  unfold storePages
  show (store list i bs >>= fun r => .ok (r, s)) = _
  rw [store_of_le h]
  rfl

theorem patch_middle {zs : List Nat} (h : zs.length = ys.length) (rest : List Nat) :
    patch (xs ++ (ys ++ rest)) xs.length zs = xs ++ (zs ++ rest) := by
  unfold patch
  rw [List.take_left, h, ← List.drop_drop, List.drop_left, List.drop_left, List.append_assoc]

theorem Scatter.Holds.loadTail (h : sc.Holds (xs ++ ys)) :
    loadPages sc.pagesList (xs.length : Int) ys.length s = .ok (ys, s) := by
  have hlen : xs.length + ys.length ≤ sc.pagesList.length := by
    rw [h.list, List.length_append, List.length_append]
    omega
  rw [loadPages_run hlen, h.list, List.append_assoc, List.drop_left, List.take_left]

theorem Scatter.Holds.clearTail (h : sc.Holds (xs ++ ys)) :
    storePages sc.pagesList (xs.length : Int) (List.replicate ys.length 0) s =
      .ok (xs ++ List.replicate (sc.pageMaxCnt - xs.length) 0, s) := by
  have hroom := h.room
  rw [List.length_append] at hroom
  have hlen : xs.length + (List.replicate ys.length 0).length ≤ sc.pagesList.length := by
    rw [h.list, List.length_append, List.length_append, List.length_replicate]
    omega
  have hzeros : List.replicate (sc.pageMaxCnt - xs.length) 0 =
      List.replicate ys.length 0 ++ List.replicate (sc.pageMaxCnt - (xs ++ ys).length) 0 := by
    rw [List.replicate_append_replicate, List.length_append]
    congr 1
    omega
  rw [storePages_run hlen, h.list, List.append_assoc, patch_middle (List.length_replicate ..), hzeros]

theorem Scatter.Holds.storeTail (h : sc.Holds xs) (hroom : xs.length + ys.length ≤ sc.pageMaxCnt) :
    storePages sc.pagesList (xs.length : Int) ys s =
      .ok (xs ++ ys ++ List.replicate (sc.pageMaxCnt - (xs ++ ys).length) 0, s) := by
  have hlen : xs.length + ys.length ≤ sc.pagesList.length := by
    rw [h.list, List.length_append, List.length_replicate]
    omega
  have hzeros : List.replicate (sc.pageMaxCnt - xs.length) 0 =
      List.replicate ys.length 0 ++ List.replicate (sc.pageMaxCnt - (xs ++ ys).length) 0 := by
    rw [List.replicate_append_replicate, List.length_append]
    congr 1
    omega
  rw [storePages_run hlen, h.list, hzeros, patch_middle (List.length_replicate ..).symm,
    List.append_assoc]

theorem Scatter.Holds.shrink (h : sc.Holds (xs ++ ys)) (cnt : Nat) (tail : Int)
    (hcnt : cnt = xs.length) (htail : tail = xs.length - 1) :
    ({ sc with
      pagesList := xs ++ List.replicate (sc.pageMaxCnt - xs.length) 0
      pageCnt := cnt, pageTail := tail } : Scatter).Holds xs := by
  have hroom := h.room
  rw [List.length_append] at hroom
  exact ⟨rfl, Nat.le_of_add_right_le hroom, hcnt, htail⟩

theorem Scatter.Holds.grow (hroom : xs.length + ys.length ≤ sc.pageMaxCnt) (cnt : Nat) (tail : Int)
    (hcnt : cnt = xs.length + ys.length) (htail : tail = xs.length + ys.length - 1) :
    ({ sc with
      pagesList := xs ++ ys ++ List.replicate (sc.pageMaxCnt - (xs ++ ys).length) 0
      pageCnt := cnt, pageTail := tail } : Scatter).Holds (xs ++ ys) := by
  refine ⟨rfl, ?_, ?_, ?_⟩
  · rw [List.length_append]
    exact hroom
  · rw [List.length_append]
    exact hcnt
  · rw [List.length_append]
    push_cast
    exact htail

end OneScatter

/-! ## One manager -/

/-- The state of a manager in the middle of an operation. -/
structure Inv {ω : Type} (E : Externals ω) (F : Multiset Nat) (G : Set Nat) (T : Multiset Nat)
    (a c : Int) (s : Local ω) : Prop where
  pool : PoolOk E F (G ∪ s.mgt.view.live) (T + held s.mgt) ⟨s.world, s.mgt.toSlotPool⟩
  scatter : ∀ {mms sc}, s.mgt.scatters.lookup mms = some sc → ∃ toks, sc.Holds toks
  alloced : s.mgt.allocedPageNum + a = (T + held s.mgt).card
  cached : s.mgt.cachedPages + c = s.mgt.cacheCnt
  view : s.mgt.view.Ok G

section Manager

variable {ω : Type} {E : Externals ω} {F T T' L : Multiset Nat} {G : Set Nat} {a a' c c' : Int}
  {s : Local ω} {mms : Nat} {sc sc' : Scatter} {xs ys toks toks' : List Nat} {m : Mgt}

theorem view_users_of_lookup (hl : m.scatters.lookup mms = some sc) :
    m.view.users mms = some sc.userCnt := by
  show (m.scatters.lookup mms).map userCnt = _
  rw [hl]
  rfl

theorem mem_live_iff : mms ∈ m.view.live ↔ ∃ sc, m.scatters.lookup mms = some sc := by
  show (m.scatters.lookup mms).map userCnt ≠ none ↔ _
  cases m.scatters.lookup mms <;> simp

theorem view_users_insert (h : Heap Scatter) (mms : Nat) (sc : Scatter) :
    (fun x => ((h.insert mms sc).lookup x).map userCnt) =
      Function.update (fun x => (h.lookup x).map userCnt) mms (some sc.userCnt) := by
  funext x
  by_cases hx : x = mms
  · subst hx
    rw [AList.lookup_insert, Function.update_self]
    rfl
  · rw [AList.lookup_insert_ne hx, Function.update_of_ne hx]

theorem view_users_same {h : Heap Scatter} (hl : h.lookup mms = some sc) (huser : sc'.userCnt = sc.userCnt) :
    (fun x => ((h.insert mms sc').lookup x).map userCnt) =
      fun x => (h.lookup x).map userCnt := by
  rw [view_users_insert, huser]
  refine Function.update_eq_self_iff.mpr ?_
  rw [hl]
  rfl

theorem cachePages_some (hl : m.scatters.lookup mms = some sc) : m.cachePages (some mms) = sc.pageCnt := by
  simp [Mgt.cachePages, hl]

theorem cachePages_congr {cache : Option Nat} (h : ∀ x, cache = some x → m'.scatters.lookup x = m.scatters.lookup x) :
    m'.cachePages cache = m.cachePages cache := by
  cases cache with
  | none => rfl
  | some x => simp only [Mgt.cachePages, Option.bind_some, h x rfl]

theorem cachePages_insert {cache : Option Nat} (hl : m.scatters.lookup mms = some sc) :
    (m.setScatter mms sc').cachePages cache =
      m.cachePages cache + if cache = some mms then (sc'.pageCnt : Int) - sc.pageCnt else 0 := by
  by_cases hx : cache = some mms
  · subst hx
    rw [cachePages_some (AList.lookup_insert ..), cachePages_some hl, if_pos rfl]
    omega
  · rw [if_neg hx, Int.add_zero]
    exact cachePages_congr fun x hc => AList.lookup_insert_ne fun he => hx (he ▸ hc)

theorem Inv.cacheCnt_insert (h : Inv E F G T a c s) (hl : s.mgt.scatters.lookup mms = some sc) (sc' : Scatter) :
    (s.mgt.setScatter mms sc').cacheCnt =
      s.mgt.cacheCnt + if s.mgt.isCacheSc mms then (sc'.pageCnt : Int) - sc.pageCnt else 0 := by
  have hne := h.view.cache_ne mms
  unfold Mgt.cacheCnt
  show Mgt.cachePages _ s.mgt.cacheSc0 + Mgt.cachePages _ s.mgt.cacheSc1 = _
  rw [cachePages_insert hl, cachePages_insert hl]
  unfold Mgt.isCacheSc
  by_cases h0 : s.mgt.cacheSc0 = some mms
  · have h1 : s.mgt.cacheSc1 ≠ some mms := fun h1 => hne ⟨h0, h1⟩
    rw [if_pos h0, if_neg h1, if_pos (by simp [h0])]
    omega
  · by_cases h1 : s.mgt.cacheSc1 = some mms
    · rw [if_neg h0, if_pos h1, if_pos (by simp [h1])]
      omega
    · rw [if_neg h0, if_neg h1, if_neg (by simp [h0, h1])]
      omega

def Mgt.put (m : Mgt) (p : SlotPool) (mms : Nat) (sc : Scatter) (cached : Int) : Mgt :=
  { m with toSlotPool := p, scatters := m.scatters.insert mms sc, cachedPages := cached }

theorem view_put (hl : m.scatters.lookup mms = some sc)
    (huser : sc'.userCnt = sc.userCnt) : (m.put p mms sc' cached).view = m.view := by
  show View.mk (fun x => ((m.scatters.insert mms sc').lookup x).map userCnt) _ _ _ _ = _
  rw [view_users_same hl huser]
  rfl

theorem held_put (hl : m.scatters.lookup mms = some sc) (hsc : sc.Holds toks) (hsc' : sc'.Holds toks') :
    held (m.put p mms sc' cached) + toks = held m + toks' := by
  rw [← hsc.tokens, ← hsc'.tokens]
  exact Heap.total_replace tokens hl sc'

theorem Inv.put {w : ω} (h : Inv E F G T a c s) (hl : s.mgt.scatters.lookup mms = some sc) (hsc : sc.Holds toks)
    (hsc' : sc'.Holds toks') (huser : sc'.userCnt = sc.userCnt) (hpool : PoolOk E F (G ∪ s.mgt.view.live) L ⟨w, p⟩)
    (hL : L + toks = T' + held s.mgt + toks') (halloc : p.allocedPageNum + a' = L.card)
    (hcached : cached + c' = s.mgt.cacheCnt +
      if s.mgt.isCacheSc mms then (toks'.length : Int) - toks.length else 0) :
    Inv E F G T' a' c' ⟨w, s.mgt.put p mms sc' cached⟩ := by
  have hview : (s.mgt.put p mms sc' cached).view = s.mgt.view := view_put hl huser
  have hL' : L = T' + held (s.mgt.put p mms sc' cached) := by
    refine add_right_cancel (b := (toks : Multiset Nat)) ?_
    rw [hL, add_assoc, add_assoc, held_put hl hsc hsc']
  refine ⟨?_, ?_, ?_, ?_, ?_⟩
  · rw [← hL', hview]
    exact hpool
  · intro x scx hx
    rcases Heap.lookup_insert_iff.mp hx with ⟨-, rfl⟩ | ⟨-, hx⟩
    · exact ⟨toks', hsc'⟩
    · exact h.scatter hx
  · rw [← hL']
    exact halloc
  · have hcnt := h.cacheCnt_insert hl sc'
    rw [hsc.cnt, hsc'.cnt] at hcnt
    exact hcached.trans hcnt.symm
  · rw [hview]
    exact h.view

theorem Inv.withPool {w : ω} (h : Inv E F G T a c s)
    (hpool : PoolOk E F (G ∪ s.mgt.view.live) (T' + held s.mgt) ⟨w, p⟩)
    (halloc : p.allocedPageNum + a' = (T' + held s.mgt).card) :
    Inv E F G T' a' c ⟨w, { s.mgt with toSlotPool := p }⟩ :=
  ⟨hpool, h.scatter, halloc, h.cached, h.view⟩

/-- The scatters outside `P` are untouched, and the others have the same users. -/
structure Touches (P : Nat → Prop) (m m' : Mgt) : Prop where
  view : m'.view = m.view
  others : ∀ x, ¬P x → m'.scatters.lookup x = m.scatters.lookup x

theorem Touches.refl (P : Nat → Prop) (m : Mgt) : Touches P m m := ⟨rfl, fun _ _ => rfl⟩

theorem Touches.trans {P : Nat → Prop} {m'' : Mgt} (h : Touches P m m') (h' : Touches P m' m'') :
    Touches P m m'' :=
  ⟨h'.view.trans h.view, fun x hx => (h'.others x hx).trans (h.others x hx)⟩

theorem Touches.mono {P Q : Nat → Prop} (h : Touches P m m') (hPQ : ∀ x, P x → Q x) :
    Touches Q m m' :=
  ⟨h.view, fun x hx => h.others x fun hp => hx (hPQ x hp)⟩

theorem touches_put (hl : m.scatters.lookup mms = some sc)
    (huser : sc'.userCnt = sc.userCnt) : Touches (· = mms) m (m.put p mms sc' cached) :=
  ⟨view_put hl huser, fun _ hx => AList.lookup_insert_ne hx⟩

/-! ## Rules for the code -/

theorem scatterOf_run (hl : s.mgt.scatters.lookup mms = some sc) : scatterOf mms s = .ok (sc, s) := by
  simp only [scatterOf, run_get_bind, hl]
  rfl

theorem meets_scatterOf_bind {α : Type} {f : Scatter → Prog (Local ω) α} {Q : α → Local ω → Prop}
    (hl : s.mgt.scatters.lookup mms = some sc) : Meets (scatterOf mms >>= f) s Q ↔ Meets (f sc) s Q :=
  meets_bind_of_ok (scatterOf_run hl)

theorem meets_modifyMgt_bind {α : Type} {g : Mgt → Mgt} {f : Unit → Prog (Local ω) α}
    {Q : α → Local ω → Prop} : Meets (modifyMgt g >>= f) s Q ↔
      Meets (f ()) { s with mgt := g s.mgt } Q := Iff.rfl

theorem meets_onPool_ext_bind {α β : Type} {g : ω → β × ω} {f : β → Prog (Local ω) α}
    {Q : α → Local ω → Prop} : Meets (CodecMm.onPool (ext g) >>= f) s Q ↔
      Meets (f (g s.world).1) { s with world := (g s.world).2 } Q := Iff.rfl

theorem Inv.world {w : ω} (h : Inv E F G T a c s) (hw : E.inUse s.world ⊆ E.inUse w) :
    Inv E F G T a c { s with world := w } :=
  ⟨h.pool.world hw, h.scatter, h.alloced, h.cached, h.view⟩

/-! ## The page cache -/

theorem codecMmGetNextCacheScatter_ok (h : Inv E F G T a c s) (cur : Option Nat) (flags : Nat) :
    Meets (codecMmGetNextCacheScatter cur flags) s fun r s' => s' = s ∧
      ∀ mms, r = some mms → s.mgt.view.IsCache mms := by
  unfold codecMmGetNextCacheScatter
  rw [meets_get_bind]
  dsimp only
  cases cur with
  | some x =>
    refine ⟨rfl, fun mms hm => ?_⟩
    split_ifs at hm
    · exact .inr hm
    · exact .inl hm
  | none =>
    cases h0 : s.mgt.cacheSc0 with
    | none => exact ⟨rfl, fun mms hm => .inr hm⟩
    | some mms0 =>
      have hc0 : s.mgt.view.IsCache mms0 := Or.inl h0
      cases h1 : s.mgt.cacheSc1 with
      | none =>
        refine ⟨rfl, fun mms hm => ?_⟩
        cases hm
        exact hc0
      | some mms1 =>
        have hc1 : s.mgt.view.IsCache mms1 := Or.inr h1
        obtain ⟨sc0, hl0⟩ := mem_live_iff.mp (h.view.cache_live hc0)
        obtain ⟨sc1, hl1⟩ := mem_live_iff.mp (h.view.cache_live hc1)
        have one : ∀ x, s.mgt.view.IsCache x → ∀ mms, some x = some mms → s.mgt.view.IsCache mms :=
          fun x hx mms hm => Option.some.inj hm ▸ hx
        rw [meets_scatterOf_bind hl0, meets_scatterOf_bind hl1]
        split_ifs
        · exact ⟨rfl, one mms0 hc0⟩
        · exact ⟨rfl, one mms1 hc1⟩
        · exact ⟨rfl, one mms1 hc1⟩
        · exact ⟨rfl, one mms0 hc0⟩

theorem isCacheSc_iff : m.isCacheSc mms = true ↔ m.view.IsCache mms := decide_eq_true_iff

theorem isCacheSc_of_view (hv : m'.view = m.view) : m'.isCacheSc mms = m.isCacheSc mms := by
  rw [Bool.eq_iff_iff, isCacheSc_iff, isCacheSc_iff, hv]

theorem codecMmPageAllocFromFreeScatter_ok (h : Inv E F G T a c s) {src : Option Nat}
    (hsrc : ∀ mms, src = some mms → s.mgt.view.IsCache mms) (num : Nat) :
    Meets (codecMmPageAllocFromFreeScatter src num) s fun pages s' =>
      Inv E F G (pages + T) a c s' ∧ pages.length ≤ num ∧
        Touches s.mgt.view.IsCache s.mgt s'.mgt := by
  have nil_ok : Inv E F G (([] : List Nat) + T) a c s := by
    rw [Multiset.coe_nil, zero_add]
    exact h
  unfold codecMmPageAllocFromFreeScatter
  cases src with
  | none => exact ⟨nil_ok, Nat.zero_le _, Touches.refl ..⟩
  | some mms =>
    have hc := hsrc mms rfl
    obtain ⟨sc, hl⟩ := mem_live_iff.mp (h.view.cache_live hc)
    obtain ⟨toks, hsc⟩ := h.scatter hl
    rw [meets_scatterOf_bind hl]
    dsimp only
    by_cases hpos : min sc.pageCnt num > 0
    swap
    · rw [if_neg hpos]
      exact ⟨nil_ok, Nat.zero_le _, Touches.refl ..⟩
    rw [if_pos hpos]
    -- the last pages `ys` leave, `xs` stay
    obtain ⟨xs, ys, rfl, hys⟩ : ∃ xs ys, toks = xs ++ ys ∧ ys.length = min sc.pageCnt num :=
      ⟨_, _, (List.take_append_drop (toks.length - min sc.pageCnt num) toks).symm, by
        rw [List.length_drop, ← hsc.cnt]; omega⟩
    have hcnt := hsc.cnt
    have htail := hsc.tail
    rw [List.length_append] at hcnt htail
    have hidx : sc.pageTail - (min sc.pageCnt num : Nat) + 1 = xs.length := by omega
    rw [← hys] at hidx ⊢
    rw [hidx, meets_bind_of_ok hsc.loadTail, meets_bind_of_ok hsc.clearTail, meets_modifyMgt_bind]
    have hsc' := hsc.shrink (sc.pageCnt - ys.length) (sc.pageTail - ys.length) (by omega) (by omega)
    refine ⟨h.put hl hsc hsc' rfl h.pool ?_ h.alloced ?_, by omega,
      Touches.mono (touches_put hl ?_) fun x hx => hx ▸ hc⟩
    · rw [← Multiset.coe_add]
      abel
    · rw [if_pos (isCacheSc_iff.mpr hc), List.length_append, ← h.cached]
      push_cast
      omega
    · rfl

theorem codecMmPageAllocFromCacheScatter_ok (h : Inv E F G T a c s) (num : Nat) :
    Meets (codecMmPageAllocFromCacheScatter num) s fun pages s' =>
      Inv E F G (pages + T) a c s' ∧ pages.length ≤ num ∧
        Touches s.mgt.view.IsCache s.mgt s'.mgt := by
  refine (codecMmGetNextCacheScatter_ok h none 1).bind ?_
  rintro src s0 ⟨hs0, hsrc⟩
  subst s0
  refine (codecMmPageAllocFromFreeScatter_ok h hsrc num).bind ?_
  rintro pages s1 ⟨h1, hlen, hv1⟩
  split_ifs with hmore
  swap
  · exact ⟨h1, hlen, hv1⟩
  refine (codecMmGetNextCacheScatter_ok h1 src 1).bind ?_
  rintro src' s2 ⟨hs2, hsrc'⟩
  subst s2
  refine (codecMmPageAllocFromFreeScatter_ok h1 hsrc' _).bind ?_
  rintro pages' s2 ⟨h2, hlen', hv2⟩
  refine ⟨?_, ?_, hv1.trans (hv1.view ▸ hv2)⟩
  · rw [← Multiset.coe_add, add_right_comm, add_comm _ (pages' : Multiset Nat)]
    exact h2
  · rw [List.length_append]
    omega

theorem Inv.move {src : Nat} {dsc dsc' : Scatter} {dtoks : List Nat} (h : Inv E F G T a c s)
    (hl : s.mgt.scatters.lookup src = some sc) (hsc : sc.Holds (xs ++ ys)) (hsc' : sc'.Holds xs)
    (huser : sc'.userCnt = sc.userCnt) (hsrc : ¬s.mgt.view.IsCache src) (hld : s.mgt.scatters.lookup mms = some dsc)
    (hdsc : dsc.Holds dtoks) (hdsc' : dsc'.Holds (dtoks ++ ys)) (hduser : dsc'.userCnt = dsc.userCnt)
    (hdst : s.mgt.view.IsCache mms) :
    Inv E F G T a c ⟨s.world, { (s.mgt.setScatter src sc').setScatter mms dsc' with
        cachedPages := s.mgt.cachedPages + ys.length }⟩ ∧
      Touches (fun x => x = src ∨ s.mgt.view.IsCache x) s.mgt
        { (s.mgt.setScatter src sc').setScatter mms dsc' with
          cachedPages := s.mgt.cachedPages + ys.length } ∧
      ((s.mgt.setScatter src sc').setScatter mms dsc').scatters.lookup src = some sc' := by
  have hne : src ≠ mms := fun he => hsrc (he ▸ hdst)
  have h1 : Inv E F G (ys + T) a c ⟨s.world, s.mgt.setScatter src sc'⟩ :=
    h.put hl hsc hsc' huser h.pool (by rw [← Multiset.coe_add]; abel) h.alloced
      (by rw [if_neg fun hcs => hsrc (isCacheSc_iff.mp hcs), h.cached, Int.add_zero])
  have hld1 : (s.mgt.setScatter src sc').scatters.lookup mms = some dsc :=
    (AList.lookup_insert_ne hne.symm).trans hld
  have hv1 : (s.mgt.setScatter src sc').view = s.mgt.view := view_put hl huser
  refine ⟨?_, ?_, ?_⟩
  · refine h1.put hld1 hdsc hdsc' hduser h1.pool (by rw [← Multiset.coe_add]; abel) h1.alloced ?_
    have hcache : (s.mgt.setScatter src sc').isCacheSc mms = true := isCacheSc_iff.mpr (hv1 ▸ hdst)
    rw [if_pos hcache, List.length_append, ← h1.cached]
    show s.mgt.cachedPages + ys.length + c = s.mgt.cachedPages + c + _
    push_cast
    omega
  · exact ((touches_put hl huser).mono fun x hx => .inl hx).trans
      ((touches_put hld1 hduser).mono fun x hx => .inr (hx ▸ hdst))
  · exact (AList.lookup_insert_ne hne).trans (AList.lookup_insert _)

theorem codecMmPagesFreeToScatter_ok {src : Nat} {dst : Option Nat} (h : Inv E F G T a c s)
    (hl : s.mgt.scatters.lookup src = some sc) (hsc : sc.Holds toks) (hused : 0 ≤ sc.pageUsed)
    (hsrc : ¬s.mgt.view.IsCache src) (hdst : ∀ mms, dst = some mms → s.mgt.view.IsCache mms) :
    Meets (codecMmPagesFreeToScatter src dst) s fun _ s' => Inv E F G T a c s' ∧
      Touches (fun x => x = src ∨ s.mgt.view.IsCache x) s.mgt s'.mgt ∧ ∃ sc' xs ys, s'.mgt.scatters.lookup src = some sc' ∧
        toks = xs ++ ys ∧ sc'.Holds xs ∧ sc'.pageUsed = sc.pageUsed ∧
        min sc.pageUsed sc.pageCnt ≤ xs.length := by
  have same : Inv E F G T a c s ∧ Touches (fun x => x = src ∨ s.mgt.view.IsCache x) s.mgt s.mgt ∧
      ∃ sc' xs ys, s.mgt.scatters.lookup src = some sc' ∧ toks = xs ++ ys ∧ sc'.Holds xs ∧
        sc'.pageUsed = sc.pageUsed ∧ min sc.pageUsed sc.pageCnt ≤ xs.length := by
    refine ⟨h, Touches.refl .., sc, toks, [], hl, (List.append_nil _).symm, hsc, rfl, ?_⟩
    rw [hsc.cnt]
    exact min_le_right _ _
  unfold codecMmPagesFreeToScatter
  rw [meets_scatterOf_bind hl]
  split_ifs with hnone
  · exact same
  cases dst with
  | none => exact same
  | some mms =>
    have hc := hdst mms rfl
    have hne : src ≠ mms := fun he => hsrc (he ▸ hc)
    obtain ⟨dsc, hld⟩ := mem_live_iff.mp (h.view.cache_live hc)
    obtain ⟨dtoks, hdsc⟩ := h.scatter hld
    have hdroom := hdsc.room
    have hdcnt := hdsc.cnt
    have hdtail := hdsc.tail
    dsimp only
    rw [if_neg hne, meets_scatterOf_bind hld]
    obtain ⟨n, hn⟩ : ∃ n : Nat, min (sc.pageCnt - sc.pageUsed) (dsc.pageMaxCnt - dsc.pageCnt : Int) = n :=
      ⟨_, (Int.toNat_of_nonneg (by omega)).symm⟩
    have hnle : n ≤ toks.length := by
      have := hsc.cnt
      omega
    -- the last `n` pages `ys` move, `xs` stay
    obtain ⟨xs, ys, rfl, hys⟩ : ∃ xs ys, toks = xs ++ ys ∧ ys.length = n :=
      ⟨_, _, (List.take_append_drop (toks.length - n) toks).symm, by rw [List.length_drop]; omega⟩
    have hcnt := hsc.cnt
    have htail := hsc.tail
    rw [List.length_append] at hcnt htail
    have hleft : (sc.pageCnt : Int) - ys.length = xs.length := by omega
    have hdidx : dsc.pageTail + 1 = (dtoks.length : Int) := by omega
    have hroom : dtoks.length + ys.length ≤ dsc.pageMaxCnt := by omega
    rw [hn, ← hys, hleft, Int.toNat_natCast]
    have hmove : (if (ys.length : Int) > 0 then do
          let pages ← loadPages sc.pagesList xs.length ys.length
          let dstList ← storePages dsc.pagesList (dsc.pageTail + 1) pages
          let srcList ← storePages sc.pagesList xs.length (List.replicate ys.length 0)
          return (dstList, srcList)
        else pure (dsc.pagesList, sc.pagesList) : Prog (Local ω) (List Nat × List Nat)) s =
        .ok ((dtoks ++ ys ++ List.replicate (dsc.pageMaxCnt - (dtoks ++ ys).length) 0,
          xs ++ List.replicate (sc.pageMaxCnt - xs.length) 0), s) := by
      by_cases hpos : (ys.length : Int) > 0
      · rw [if_pos hpos, hdidx]
        show (loadPages _ _ _ s >>= fun p => _) = _
        rw [hsc.loadTail, ok_bind]
        show (storePages _ _ _ s >>= fun p => _) = _
        rw [hdsc.storeTail hroom, ok_bind]
        show (storePages _ _ _ s >>= fun p => _) = _
        rw [hsc.clearTail]
        rfl
      · obtain rfl : ys = [] := List.length_eq_zero_iff.mp (by omega)
        rw [if_neg hpos, hsc.list, hdsc.list, List.append_nil, List.append_nil]
        rfl
    rw [meets_bind_of_ok hmove, meets_modifyMgt_bind]
    have hsc' := hsc.shrink xs.length (sc.pageTail - ys.length) rfl (by omega)
    have hdsc' := Scatter.Holds.grow hroom (dsc.pageCnt + (ys.length : Int)).toNat
      (dsc.pageTail + ys.length) (by omega) (by omega)
    obtain ⟨h1, hview, hl1⟩ := h.move hl hsc hsc' rfl hsrc hld hdsc hdsc' rfl hc
    refine ⟨h1, hview, _, xs, ys, hl1, rfl, hsc', rfl, ?_⟩
    omega

end Manager

end Amlogic.CodecMm
