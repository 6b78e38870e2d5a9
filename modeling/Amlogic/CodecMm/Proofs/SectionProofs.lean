import Amlogic.CodecMm.Protocol
import Amlogic.CodecMm.Proofs.SystemProofs

/-!
# Sections

The sections of a call, run one after the other, are the call. Each section keeps its manager in order, and
`Sec.Effect` says what it does to the view.
-/

namespace Amlogic.CodecMm

/-! ## Calls without interleaving -/

section Sequential

variable {ω : Type} (E : Externals ω)

theorem modifyMgt_run (g : Mgt → Mgt) (s : Local ω) :
    modifyMgt g s = .ok ((), { s with mgt := g s.mgt }) := rfl

theorem codecMmScatterAllocNew_eq (maxPage : Int) :
    codecMmScatterAllocNew E maxPage 0 = (do
      match ← newScatter E maxPage with
      | none => return none
      | some mms =>
        setUserCnt mms fun _ => 1000
        registerNew mms
        return some mms) := by
  funext s
  unfold codecMmScatterAllocNew newScatter
  by_cases hneg : maxPage < 0
  · rw [if_pos hneg, if_pos hneg]
    rfl
  rw [if_neg hneg, if_neg hneg]
  have hext : CodecMm.onPool (ext E.scAlloc) s =
    .ok ((E.scAlloc s.world).1, { s with world := (E.scAlloc s.world).2 }) := rfl
  rw [run_bind_of_ok hext, bind_assoc, run_bind_of_ok hext]
  cases (E.scAlloc s.world).1 with
  | none => rfl
  | some mms =>
    dsimp only
    rw [if_neg hneg, run_bind_of_ok (modifyMgt_run _ _), bind_assoc, run_bind_of_ok (modifyMgt_run _ _)]
    have hget : ∀ t : Local ω, (get : Prog (Local ω) (Local ω)) t = .ok (t, t) := fun _ => rfl
    have hlookup : ∀ (w : ω) (m : Mgt) (sc : Scatter), scatterOf mms ⟨w, m.setScatter mms sc⟩ =
        .ok (sc, ⟨w, m.setScatter mms sc⟩) := fun w m sc => scatterOf_run (AList.lookup_insert _)
    have hstore : ∀ t : Local ω, storePages (Scatter.empty maxPage.toNat).pagesList 0 [] t =
        .ok ((Scatter.empty maxPage.toNat).pagesList, t) := fun _ => rfl
    rw [run_bind_of_ok (hget _)]
    rw [if_neg (lt_irrefl 0), pure_bind, if_neg fun hand => lt_irrefl _ hand.1,
      run_bind_of_ok (hlookup _ _ _), run_bind_of_ok (hstore _), run_bind_of_ok (modifyMgt_run _ _), pure_bind]
    unfold setUserCnt registerNew
    dsimp only
    rw [bind_assoc, run_bind_of_ok (hlookup _ _ _), run_bind_of_ok (modifyMgt_run _ _), bind_assoc]
    rw [setScatter_setScatter, setScatter_setScatter, run_bind_of_ok (hlookup _ _ _),
      run_bind_of_ok (modifyMgt_run _ _)]
    dsimp only
    rw [setScatter_setScatter]
    rfl

theorem codecMmScatterAlloc_eq (maxPage pageNum : Int) :
    codecMmScatterAlloc E maxPage pageNum = (do
      let found ← allocFind maxPage
      let mms ← (match found with
        | some mms => return some mms
        | none => codecMmScatterAllocNew E maxPage 0)
      match mms with
      | none => return none
      | some mms =>
        let ret ← codecMmScatterAllocWantPagesIn E mms pageNum
        if ret < 0 then
          setUserCnt mms fun n => n - 1000
          return none
        else return some mms) := by
  unfold codecMmScatterAlloc allocFind setUserCnt
  simp only [bind_assoc]
  refine bind_congr fun s => bind_congr fun found => ?_
  cases found with
  | none => rfl
  | some mms => simp only [bind_assoc, pure_bind]

theorem codecMmScatterFreeOnNouser_eq {s : Local ω} {mms : Nat} {sc : Scatter}
    (hl : s.mgt.scatters.lookup mms = some sc) :
    void (codecMmScatterFreeOnNouser E mms) s = (do
      match ← unlistNouser mms with
      | none => return ()
      | some cnt => freeRest E mms cnt : Prog (Local ω) Unit) s := by
  unfold void codecMmScatterFreeOnNouser codecMmScatterFreeOnNouserExt unlistNouser freeRest
  rw [bind_assoc, run_bind_of_ok (scatterOf_run hl), bind_assoc, run_bind_of_ok (scatterOf_run hl)]
  by_cases huser : sc.userCnt > 0
  · rw [if_pos huser, if_pos huser]
    rfl
  rw [if_neg huser, if_neg huser]
  simp only [bind_assoc, pure_bind]
  have hget : ∀ (l : List Nat) (n : Int) (p : List (Option Nat)),
      scatterOf mms ⟨s.world, { s.mgt with scatterList := l, scattersCnt := n, scmap := p }⟩ =
        .ok (sc, ⟨s.world, { s.mgt with scatterList := l, scattersCnt := n, scmap := p }⟩) := fun _ _ _ =>
    scatterOf_run hl
  rw [run_bind_of_ok (modifyMgt_run _ _), run_bind_of_ok (modifyMgt_run _ _), run_bind_of_ok (hget _ _ _)]
  by_cases hpages : sc.pageCnt > 0
  · rw [if_pos hpages, if_pos hpages]
    rfl
  · rw [if_neg hpages, if_neg hpages]
    rfl

theorem codecMmScatterScatterClear_eq (force : Bool) :
    codecMmScatterScatterClear E force = (do
      let (toFree, less) ← clearPick E force
      let _ ← (match toFree with
        | some mms => codecMmScatterFreeOnNouser E mms
        | none => return 0)
      let _ ← (match less with
        | some mms => if toFree ≠ some mms then codecMmScatterFreeUnusedPages E mms else pure 0
        | none => return 0)
      return toFree.isSome || less.isSome : Prog (Local ω) Bool) := by
  unfold codecMmScatterScatterClear clearPick
  simp only [bind_assoc, pure_bind] <;> rfl

end Sequential

/-! ## Effects -/

section SectionOk

variable {ω : Type} {E : Externals ω} {F : Multiset Nat} {G : Set Nat} {c : Int} {t : Local ω} {mms : Nat}

section

variable (h : Inv E F G 0 0 c t)
include h

theorem allocFind_ok (maxPage : Int) :
    Meets (allocFind maxPage) t fun r t' => Inv E F G 0 0 c t' ∧
      (Sec.find maxPage).Effect G t.mgt.view t'.mgt.view r := by
  unfold allocFind
  rw [meets_get_bind]
  refine (findFree_ok maxPage fun x hx => h.view.list_live (List.mem_reverse.mp hx)).bind ?_
  rintro found t1 ⟨ht1, -, hfound⟩
  subst t1
  cases found with
  | none => exact ⟨h, Or.inl ⟨rfl, rfl⟩⟩
  | some mms =>
    obtain ⟨hmem, sc, hl, -, huser⟩ := hfound mms rfl
    have hzero : t.mgt.view.users mms = some 0 := (view_users_of_lookup hl).trans (by rw [huser])
    obtain ⟨h1, hv1⟩ := h.setUser hl { sc with userCnt := sc.userCnt + 1000, pageUsed := sc.pageCnt }
      fun toks hsc => ⟨hsc.list, hsc.room, hsc.cnt, hsc.tail⟩
    rw [meets_scatterOf_bind hl]
    refine ⟨h1, Or.inr ⟨mms, rfl, List.mem_reverse.mp hmem, hzero, hv1.trans ?_⟩⟩
    rw [huser]
    rfl

theorem newScatter_ok (maxPage : Int) :
    Meets (newScatter E maxPage) t fun r t' => Inv E F G 0 0 c t' ∧
      (Sec.create maxPage).Effect G t.mgt.view t'.mgt.view r := by
  unfold newScatter
  by_cases hneg : maxPage < 0
  · rw [if_pos hneg]
    exact ⟨h, Or.inl ⟨rfl, rfl⟩⟩
  rw [if_neg hneg]
  have hg := E.scAlloc_grants t.world
  rw [meets_onPool_ext_bind]
  cases hr : (E.scAlloc t.world).1 with
  | none => exact ⟨h.world hg.keeps, Or.inl ⟨rfl, rfl⟩⟩
  | some mms =>
    have hfresh : .scatter mms ∉ E.inUse t.world := hg.fresh mms hr _ rfl
    have htaken : .scatter mms ∈ E.inUse (E.scAlloc t.world).2 := hg.taken mms hr rfl
    obtain ⟨hnG, hnl⟩ := h.notMem_of_fresh hfresh
    have hview : (t.mgt.setScatter mms (Scatter.empty maxPage.toNat)).view = t.mgt.view.setUser mms 0 := by
      show View.mk (fun x => ((t.mgt.scatters.insert mms _).lookup x).map Scatter.userCnt) _ _ _ _ = _
      rw [view_users_insert]
      rfl
    refine ⟨h.born hfresh hg.keeps htaken ⟨rfl, Nat.zero_le _, rfl, rfl⟩ rfl rfl rfl rfl rfl ?_,
      Or.inr ⟨mms, rfl, hnG, hnl, hview⟩⟩
    rw [hview]
    exact h.view.born hnl hnG

theorem setUserCnt_ok (hlive : mms ∈ t.mgt.view.live) (f : Int → Int) :
    Meets (setUserCnt mms f) t fun _ t' => Inv E F G 0 0 c t' ∧
      ∃ n, t.mgt.view.users mms = some n ∧ t'.mgt.view = t.mgt.view.setUser mms (f n) := by
  obtain ⟨sc, hl⟩ := mem_live_iff.mp hlive
  unfold setUserCnt
  rw [meets_scatterOf_bind hl]
  obtain ⟨h1, hv1⟩ := h.setUser hl { sc with userCnt := f sc.userCnt } fun toks hsc =>
    ⟨hsc.list, hsc.room, hsc.cnt, hsc.tail⟩
  exact ⟨h1, sc.userCnt, view_users_of_lookup hl, hv1⟩

end

theorem View.Ok.putCache {v : View} (h : v.Ok G) (second : Bool) (hmem : mms ∈ v.list) :
    (v.putCache second mms).Ok G := by
  have hlive := h.list_live hmem
  have hne : ∀ {x}, v.IsCache x → x ≠ mms := by
    rintro x hx rfl
    exact h.cache_list hx hmem
  have hsub : ∀ {x}, x ∈ v.list.erase mms → x ∈ v.list ∧ x ≠ mms := fun hx =>
    (h.list_nodup.mem_erase_iff.mp hx).symm
  -- a cache is the new one, or the one in the other place
  have hcache : ∀ {x}, (v.putCache second mms).IsCache x → x = mms ∨ v.IsCache x := by
    intro x hx
    cases second with
    | false => exact hx.elim (fun h0 => .inl (Option.some.inj h0).symm) fun h1 => .inr (Or.inr h1)
    | true => exact hx.elim (fun h0 => .inr (Or.inl h0)) fun h1 => .inl (Option.some.inj h1).symm
  have hlist : (v.putCache second mms).list = v.list.erase mms := by cases second <;> rfl
  have husers : (v.putCache second mms).users = v.users := by cases second <;> rfl
  have hmap : (v.putCache second mms).scmap = v.scmap := by cases second <;> rfl
  have hlv : (v.putCache second mms).live = v.live := by
    unfold View.live
    rw [husers]
  refine ⟨?_, ?_, ?_, ?_, ?_, ?_, ?_, ?_⟩
  · rw [hlv]
    exact h.others
  · rw [hlv]
    rintro x hx
    rcases hcache hx with rfl | hx
    · exact hlive
    · exact h.cache_live hx
  · cases second with
    | false => exact fun x hx => hne (Or.inr hx.2) (Option.some.inj hx.1).symm
    | true => exact fun x hx => hne (Or.inl hx.1) (Option.some.inj hx.2).symm
  · rw [hlist]
    intro x hx hin
    obtain ⟨hin, hxm⟩ := hsub hin
    rcases hcache hx with rfl | hx
    · exact hxm rfl
    · exact h.cache_list hx hin
  · rw [hlist, hlv]
    exact fun hx => h.list_live (hsub hx).1
  · rw [hlist]
    exact h.list_nodup.erase mms
  · rw [hmap, hlv]
    exact h.map_live
  · rw [hmap]
    exact h.map_once

section

variable (h : Inv E F G 0 0 c t)
include h

theorem clearPick_ok (force : Bool) :
    Meets (clearPick E force) t fun r t' => Inv E F G 0 0 c t' ∧
      (Sec.clear force).Effect G t.mgt.view t'.mgt.view r := by
  unfold clearPick
  rw [meets_get_bind]
  refine (clearScan_ok 0 (fun x hx => h.view.list_live hx)
    (P := fun x => x ∈ t.mgt.scatterList ∧ t.mgt.view.users x = some 0) (fun x hx hu => ⟨hx, hu⟩)
    (fun p hp => by cases hp)).bind ?_
  rintro scan t1 ⟨ht1, hscan, hless⟩
  subst t1
  refine (chooseFree_ok h force fun p hp => (hscan p hp).2).bind ?_
  rintro toFree t1 ⟨h1, hnone, hsome⟩
  refine ⟨h1, hless, ?_⟩
  cases toFree with
  | none => exact .inl ⟨rfl, hnone rfl⟩
  | some mms =>
    obtain ⟨⟨p, hp, rfl⟩, hv1⟩ := hsome mms rfl
    exact .inr ⟨p.1, rfl, (hscan p hp).1, (hscan p hp).2, hv1⟩

end

/-- Every section keeps its manager in order. -/
theorem Sec.code_ok {α : Type} (sec : Sec α) (h : Inv E F G 0 0 c t) (hpre : sec.Pre t.mgt.view) :
    Meets (sec.code E) t fun r t' => (∃ c', Inv E F G 0 0 c' t') ∧
      sec.Effect G t.mgt.view t'.mgt.view r := by
  have hlift : ∀ {β : Type} {x : Prog (Local ω) β} {Q : β → Local ω → Prop},
      Meets x t (fun r t' => Inv E F G 0 0 c t' ∧ Q r t') →
      Meets x t fun r t' => (∃ c', Inv E F G 0 0 c' t') ∧ Q r t' := fun hx =>
    hx.mono fun _ _ ht => ⟨⟨c, ht.1⟩, ht.2⟩
  cases sec with
  | inc mms =>
    refine hlift ((codecMmScatterIncUserIn1_ok h mms 100).mono ?_)
    rintro r t' ⟨h', hview, hresult⟩
    refine ⟨h', ?_⟩
    rw [hview, View.inc_eq]
    obtain ⟨hmap, rfl⟩ | ⟨hmap, n, hn, rfl⟩ := hresult
    · exact .inl ⟨by decide, View.adjust_of_invalid hmap⟩
    rw [View.adjust_of_users hn hmap]
    by_cases hpos : 0 ≤ n
    · have hsum : ¬n + 100 ≤ 0 := by omega
      simp only [if_pos hpos, if_neg hsum]
      exact .inr ⟨le_refl 0, n, hn, hmap, hpos, rfl⟩
    · rw [if_neg hpos, if_neg hpos]
      exact .inl ⟨by decide, rfl⟩
  | dec mms share delayMs =>
    refine hlift ((codecMmScatterDecUserIn1_ok h mms delayMs share.weight).mono ?_)
    rintro r t' ⟨h', hview, ⟨hmap, rfl⟩ | ⟨hmap, n, hn, rfl⟩⟩
    · rw [View.dec_eq, View.adjust_of_invalid hmap] at hview
      exact ⟨h', .inl ⟨by decide, hmap, hview⟩⟩
    · exact ⟨h', .inr ⟨(ite_self 0).ge, hmap, hview⟩⟩
  | find maxPage => exact hlift (allocFind_ok h maxPage)
  | create maxPage => exact hlift (newScatter_ok h maxPage)
  | own mms =>
    refine hlift ((setUserCnt_ok h hpre fun _ => 1000).mono ?_)
    rintro - t' ⟨h', n, -, hv⟩
    exact ⟨h', hv⟩
  | register mms =>
    obtain ⟨hlive, hnl, hnm, hnc⟩ := hpre
    refine hlift (x := registerNew mms) ?_
    obtain ⟨sc, hl⟩ := mem_live_iff.mp hlive
    obtain ⟨toks, hsc⟩ := h.scatter hl
    unfold registerNew
    rw [meets_scatterOf_bind hl]
    obtain ⟨h1, ht1⟩ := h.setUsed hl hsc sc.pageCnt
    have hview : ((t.mgt.setScatter mms { sc with pageUsed := sc.pageCnt }).register mms).view =
        t.mgt.view.enlist mms := by
      show ({ (t.mgt.setScatter mms { sc with pageUsed := sc.pageCnt }).view with
        list := t.mgt.scatterList ++ [mms], scmap := scatterMapAdd t.mgt.scmap mms } : View) = _
      rw [ht1.view]
      rfl
    refine ⟨h1.relist rfl rfl rfl rfl rfl ?_, hview⟩
    rw [hview]
    exact h.view.enlist hlive hnl hnm hnc
  | want mms pageNum => exact hlift (codecMmScatterAllocWantPagesIn_ok h hpre pageNum)
  | giveBack mms => exact hlift (setUserCnt_ok h hpre fun n => n - 1000)
  | needCaches => exact ⟨⟨c, h⟩, rfl⟩
  | enterCache second mms =>
    have hok := h.view.putCache second hpre
    cases second with
    | false | true => exact ⟨⟨_, h.recache _ rfl rfl hok⟩, rfl, rfl⟩
  | dropsCaches =>
    refine hlift (x := cachesDue E) ?_
    unfold cachesDue
    rw [meets_get_bind]
    dsimp only
    split_ifs
    · exact ⟨h.world (E.jiffies_keeps _), rfl⟩
    · exact ⟨h, rfl⟩
  | takeCaches => exact ⟨⟨_, h.recache _ rfl rfl (h.view.forget nofun)⟩, rfl, rfl⟩
  | shiftCache => exact ⟨⟨_, h.recache _ rfl rfl (h.view.forget fun _ => id)⟩, rfl, rfl⟩
  | clear force => exact hlift (clearPick_ok h force)
  | unlist mms =>
    refine hlift (x := unlistNouser mms) ?_
    obtain ⟨sc, hl⟩ := mem_live_iff.mp hpre
    unfold unlistNouser
    rw [meets_scatterOf_bind hl]
    split_ifs with huser
    · exact ⟨h, sc.userCnt, view_users_of_lookup hl, Or.inl ⟨rfl, huser, rfl⟩⟩
    · refine ⟨h.relist rfl rfl rfl rfl rfl (h.view.unlist mms), sc.userCnt, view_users_of_lookup hl,
        Or.inr ⟨Option.some_ne_none _, not_lt.mp huser, rfl⟩⟩
  | free mms cnt =>
    obtain ⟨hlive, hnl, hnm, hnc⟩ := hpre
    refine hlift (x := freeRest E mms cnt) ?_
    obtain ⟨sc, hl⟩ := mem_live_iff.mp hlive
    unfold freeRest
    rw [meets_scatterOf_bind hl]
    refine (freePages_ok h hl 0).bind ?_
    rintro - t1 ⟨h1, hv1, sc1, hl1, hsc1⟩
    have hlist : t1.mgt.scatterList = t.mgt.scatterList := congrArg View.list hv1
    have hmap : t1.mgt.scmap = t.mgt.scmap := congrArg View.scmap hv1
    obtain ⟨h2, hv2⟩ := h1.erase hl1 hsc1 (by rw [hlist]; exact hnl) (by rw [hmap]; exact hnm)
      (by rw [hv1]; exact hnc) cnt
    exact ⟨h2, hv2.trans (by rw [hv1]; rfl)⟩
  | less mms =>
    obtain ⟨sc, hl⟩ := mem_live_iff.mp hpre
    obtain ⟨toks, hsc⟩ := h.scatter hl
    refine hlift ((codecMmScatterFreeTailPagesIn_ok h hl hsc 0 0 1 (by omega)).mono ?_)
    rintro - t1 ⟨h1, ht1, -⟩
    exact ⟨h1, ht1.view⟩
  | manage => exact hlift (codecMmScatterCacheManage_ok ⟨h, rfl⟩)
  | switch on delayMs waitSizeM => exact hlift (codecMmScatterMgtDelayFreeSwith_ok ⟨h, rfl⟩ on delayMs waitSizeM)

end SectionOk

end Amlogic.CodecMm
