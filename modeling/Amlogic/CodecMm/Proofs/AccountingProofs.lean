import Amlogic.CodecMm.Script
import Amlogic.CodecMm.Proofs.SystemProofs

/-!
# The accounts of a manager

The counters of a manager agree with its slots and scatters, as long as no cache scatter is lost. A cache
is lost if `codec_mm_scatter_scatter_arrange` creates the caches while there is a second one without a
first one, and if a cache is given up that the map of valid scatters does not have.
-/

namespace Amlogic.CodecMm

open Function

/-! ## Views without lost scatters -/

namespace View

/-- Every live scatter is on the list, is a cache, or is one of `D`; the caches have one owner. -/
structure Tidy (D : Set Nat) (v : View) : Prop where
  referenced : ∀ {mms}, mms ∈ v.live → mms ∈ v.list ∨ v.IsCache mms ∨ mms ∈ D
  owner : ∀ {mms}, v.IsCache mms → v.users mms = some 1000

def CachesValid (v : View) : Prop := ∀ mms, v.IsCache mms → some mms ∈ v.scmap

variable {D D' G : Set Nat} {v v' : View} {mms : Nat} {n : Int}

section

variable (h : v.Tidy D)
include h

theorem Tidy.mono (hD : D ⊆ D') : v.Tidy D' :=
  ⟨fun hx => (h.referenced hx).imp_right (Or.imp_right fun hd => hD hd), h.owner⟩

theorem Tidy.setUser (hlive : mms ∈ v.live) (hnc : ¬v.IsCache mms) :
    (v.setUser mms n).Tidy D where
  referenced hx := h.referenced ((mem_live_setUser hlive).mp hx)
  owner := by
    intro x hx
    have hne : x ≠ mms := by
      rintro rfl
      exact hnc hx
    exact (update_of_ne hne ..).trans (h.owner hx)

theorem Tidy.inc (hnc : ¬v.IsCache mms) (cnt : Int) : (v.inc mms cnt).Tidy D := by
  rcases v.inc_cases mms cnt with he | ⟨n, hn, -, -, he⟩
  · rw [he]
    exact h
  · rw [he]
    exact h.setUser (mem_live_of_users hn) hnc

theorem Tidy.dec (hnc : ¬v.IsCache mms) (cnt : Int) : (v.dec mms cnt).Tidy D := by
  rcases v.dec_cases mms cnt with he | ⟨n, hn, -, -, he⟩
  · rw [he]
    exact h
  · rw [he]
    exact h.setUser (mem_live_of_users hn) hnc

theorem Tidy.new (hok : v.Ok G) (hlive : mms ∉ v.live) : (v.new mms).Tidy D where
  referenced hx := by
    rcases mem_live_new.mp hx with hx | rfl
    · exact (h.referenced hx).imp_left fun hin => List.mem_append_left _ hin
    · exact .inl (List.mem_append_right _ (List.mem_singleton_self _))
  owner := by
    intro x hx
    have hne : x ≠ mms := by
      rintro rfl
      exact hlive (hok.cache_live hx)
    exact (update_of_ne hne ..).trans (h.owner hx)

theorem Tidy.alloc (hok : v.Ok G) (hstep : AllocStep G v v') : v'.Tidy D := by
  cases hstep with
  | none => exact h
  | reuse mms hmem huser =>
    exact h.setUser (hok.list_live hmem) fun hc => hok.cache_list hc hmem
  | fresh mms hG hlive => exact h.new hok hlive
  | unused mms hG hlive =>
    exact (h.new hok hlive).setUser (mem_live_new.mpr (Or.inr rfl)) fun hc => hlive (hok.cache_live hc)

theorem Tidy.free (hnc : ¬v.IsCache mms) : (v.free mms).Tidy (D \ {mms}) where
  referenced hx := by
    obtain ⟨hx, hne⟩ := mem_live_free.mp hx
    rcases h.referenced hx with hin | hc | hd
    · exact .inl ((List.mem_erase_of_ne hne).mpr hin)
    · exact .inr (Or.inl hc)
    · exact .inr (Or.inr ⟨hd, hne⟩)
  owner := by
    intro x hx
    have hne : x ≠ mms := by
      rintro rfl
      exact hnc hx
    exact (update_of_ne hne ..).trans (h.owner hx)

theorem Tidy.clear (hlist : ∀ mms, v.IsCache mms → mms ∉ v.list) (hstep : ClearStep v v') : v'.Tidy D := by
  cases hstep with
  | none => exact h
  | free mms hmem huser => exact (h.free fun hc => hlist mms hc hmem).mono Set.sdiff_subset

theorem Tidy.newCache0 (hok : v.Ok G) (h0 : v.cache0 = none) (hstep : NewCache G setCache0 v v') : v'.Tidy D := by
  cases hstep with
  | none => exact h
  | some mms hG hlive =>
    refine ⟨fun hx => ?_, ?_⟩
    · rcases mem_live_new.mp hx with hx | rfl
      · refine (h.referenced hx).imp_right (Or.imp_left fun hc => .inr (hc.resolve_left ?_))
        rw [h0]
        exact nofun
      · exact .inr (Or.inl (Or.inl rfl))
    · rintro x (hx | hx)
      · cases hx
        exact update_self ..
      · have hne : x ≠ mms := by
          rintro rfl
          exact hlive (hok.cache_live (Or.inr hx))
        exact (update_of_ne hne ..).trans (h.owner (Or.inr hx))

theorem Tidy.newCache1 (hlive : ∀ mms, v.IsCache mms → mms ∈ v.live)
    (h1 : v.cache1 = none) (hstep : NewCache G setCache1 v v') : v'.Tidy D := by
  cases hstep with
  | none => exact h
  | some mms hG hnew =>
    refine ⟨fun hx => ?_, ?_⟩
    · rcases mem_live_new.mp hx with hx | rfl
      · refine (h.referenced hx).imp_right (Or.imp_left fun hc => .inl (hc.resolve_right ?_))
        rw [h1]
        exact nofun
      · exact .inr (Or.inl (Or.inr rfl))
    · rintro x (hx | hx)
      · have hne : x ≠ mms := by
          rintro rfl
          exact hnew (hlive x (Or.inl hx))
        exact (update_of_ne hne ..).trans (h.owner (Or.inl hx))
      · cases hx
        exact update_self ..

end

theorem dropCache_eq_free (huser : v.users mms = some 1000) (hmap : some mms ∈ v.scmap) :
    v.dropCache (some mms) = v.free mms := by
  have hdec : v.dec mms 1000 = v.setUser mms 0 := by
    unfold View.dec
    rw [huser]
    exact if_pos ⟨hmap, by decide⟩
  show (v.dec mms 1000).freeOnNouser mms = _
  have huser' : (v.setUser mms 0).users mms = some 0 := update_self ..
  rw [hdec]
  unfold View.freeOnNouser
  rw [huser']
  show View.mk (update (update v.users mms (some 0)) mms none) _ _ _ _ = _
  rw [update_idem]
  rfl

theorem Tidy.dropCache {cache : Option Nat} (h : v.Tidy D) (hnc : ∀ mms, cache = some mms → ¬v.IsCache mms)
    (huser : ∀ mms, cache = some mms → v.users mms = some 1000)
    (hmap : ∀ mms, cache = some mms → some mms ∈ v.scmap) :
    (v.dropCache cache).Tidy (D \ {mms | cache = some mms}) := by
  cases cache with
  | none => exact h.mono fun x hx => ⟨hx, nofun⟩
  | some mms =>
    rw [dropCache_eq_free (huser mms rfl) (hmap mms rfl)]
    refine (h.free (hnc mms rfl)).mono ?_
    rintro x ⟨hx, hne⟩
    exact ⟨hx, fun he => hne (Option.some.inj he).symm⟩

theorem Tidy.create {delay : Int} (h : v.Tidy D) (hok : v.Ok G)
    (hkeep : delay > 0 → v.cache0 = none → v.cache1 = none) (hstep : CreateStep G delay v v') : v'.Tidy D := by
  cases hstep with
  | none => exact h
  | create v1 v2 hon h0 hfirst hsecond =>
    have h1 := h.newCache0 hok h0 hfirst
    have hnone : v1.cache1 = none := by
      have hsame : v1.cache1 = v.cache1 := by cases hfirst <;> rfl
      rw [hsame]
      exact hkeep hon h0
    refine h1.newCache1 (fun mms hc => ?_) hnone hsecond
    exact mem_live_of_users (h1.owner hc)

theorem Tidy.dropCaches (h : v.Tidy ∅) (hok : v.Ok G) (hvalid : v.CachesValid) :
    v.dropCaches.Tidy ∅ := by
  have hforget : ({ v with cache0 := none, cache1 := none } : View).Tidy {x | v.IsCache x} :=
    ⟨fun hx => (h.referenced hx).imp_right fun hc => .inr (hc.resolve_right id),
      fun hc => absurd hc (not_isCache rfl rfl)⟩
  have h0 := @Tidy.dropCache _ _ v.cache0 hforget (fun _ _ => not_isCache rfl rfl)
    (fun mms hm => h.owner (Or.inl hm)) fun mms hm => hvalid mms (Or.inl hm)
  have hcaches := caches_dropCache { v with cache0 := none, cache1 := none } v.cache0
  have hsecond : ∀ mms, v.cache1 = some mms → v.cache0 ≠ some mms := fun mms hm hc =>
    hok.cache_ne mms ⟨hc, hm⟩
  refine (h0.dropCache (fun _ _ => not_isCache hcaches.1 hcaches.2)
    (fun mms hm => (dropCache_of_ne _ (hsecond mms hm)).1.trans (h.owner (Or.inr hm)))
    fun mms hm => (dropCache_of_ne _ (hsecond mms hm)).2 (hvalid mms (Or.inr hm))).mono ?_
  rintro x ⟨⟨hx, hx0⟩, hx1⟩
  exact hx.elim hx0 hx1

structure Droppable (v : View) : Prop where
  tidy : v.Tidy ∅
  valid : v.CachesValid
  ne : ∀ mms, ¬(v.cache0 = some mms ∧ v.cache1 = some mms)
  list : ∀ mms, v.IsCache mms → mms ∉ v.list

theorem Droppable.shift (h : v.Droppable) : v.shiftCaches.Droppable := by
  have hnc : ∀ mms, v.cache0 = some mms →
      ¬({ v with cache0 := v.cache1, cache1 := none } : View).IsCache mms := by
    rintro mms hm (hx | hx)
    · exact h.ne mms ⟨hm, hx⟩
    · cases hx
  have hforget : ({ v with cache0 := v.cache1, cache1 := none } : View).Tidy {x | v.cache0 = some x} := by
    refine ⟨fun hx => ?_, fun hc => ?_⟩
    · rcases h.tidy.referenced hx with hin | (h0 | h1) | hd
      · exact .inl hin
      · exact .inr (Or.inr h0)
      · exact .inr (Or.inl (Or.inl h1))
      · exact absurd hd id
    · exact h.tidy.owner (hc.elim (fun h0 => .inr h0) nofun)
  have hdrop := hforget.dropCache hnc (fun mms hm => h.tidy.owner (Or.inl hm))
    fun mms hm => h.valid mms (Or.inl hm)
  obtain ⟨hc0, hc1⟩ := caches_dropCache { v with cache0 := v.cache1, cache1 := none } v.cache0
  have hold : ∀ mms, v.shiftCaches.IsCache mms → v.cache1 = some mms := by
    rintro mms (hx | hx)
    · exact hc0.symm.trans hx
    · exact absurd (hc1.symm.trans hx) nofun
  refine ⟨hdrop.mono fun x hx => absurd hx.1 hx.2, fun mms hm => ?_, fun mms hm => ?_, fun mms hm hin => ?_⟩
  · have hm := hold mms hm
    exact (dropCache_of_ne _ fun hc => h.ne mms ⟨hc, hm⟩).2 (h.valid mms (Or.inr hm))
  · exact absurd (hc1.symm.trans hm.2) nofun
  · exact h.list mms (Or.inr (hold mms hm)) ((dropCache_list_sublist { v with cache0 := v.cache1, cache1 := none } _).subset hin)

theorem Droppable.clear (h : v.Droppable) (hstep : ClearStep v v') : v'.Droppable := by
  refine ⟨h.tidy.clear h.list hstep, ?_, ?_, ?_⟩
  · cases hstep with
    | none => exact h.valid
    | free mms hmem huser =>
      intro x hx
      refine mem_scatterMapDel_of_ne (h.valid x hx) ?_
      rintro rfl
      exact h.list x hx hmem
  · cases hstep with
    | none | free mms hmem huser => exact h.ne
  · cases hstep with
    | none => exact h.list
    | free mms hmem huser => exact fun x hx hin => h.list x hx (List.mem_of_mem_erase hin)

theorem Droppable.freeAll {v1 v2 : View} (h : v.Droppable)
    (hshift : Relation.ReflTransGen (fun v v' => v' = shiftCaches v) v v1)
    (hclear : Relation.ReflTransGen ClearStep v1 v2) : v2.Droppable := by
  have h1 : v1.Droppable := by
    clear hclear
    induction hshift with
    | refl => exact h
    | tail _ hstep ih =>
      rw [hstep]
      exact ih.shift
  induction hclear with
  | refl => exact h1
  | tail _ hstep ih => exact ih.clear hstep

end View

/-! ## Runs -/

section Accounting

variable {ω : Type} {E : Externals ω} {w : ω} {s s' : System ω} {op : Op} {b : Bool}

/-- The operation loses no cache: caches are created only if there is none, and every cache that is given
up is a valid scatter. -/
def LosesNoCache (s : System ω) : Op → Prop
  | .arrange b => (s.mgt b).KeepsSecond ∧ ((s.mgt b).delayFreeOn ≤ 0 → (s.mgt b).view.CachesValid)
  | .freeAllIgnorecache flags =>
    ∀ b : Bool, flags &&& (if b then 2 else 1) ≠ 0 → (s.mgt b).view.CachesValid
  | _ => True

theorem SysInv.not_isCache (h : SysInv E s) {smgt : Bool} {mms : Nat} (hmem : mms ∈ (s.mgt smgt).scatterList)
    (b : Bool) : ¬(s.mgt b).view.IsCache mms := by
  intro hc
  rcases Bool.eq_or_eq_not b smgt with rfl | rfl
  · exact (h b).view.cache_list hc hmem
  · exact h.notMem_other ((h smgt).view.list_live hmem) ((h !smgt).view.cache_live hc)

theorem tidy_step (h : SysInv E s) (htidy : ∀ b, (s.mgt b).view.Tidy ∅ ∧ (s.mgt b).lag = 0)
    (hallow : op.Allowed s) (hok : LosesNoCache s op) (hstep : StepTo E op s s') (b : Bool) :
    (s'.mgt b).view.Tidy ∅ ∧ (s'.mgt b).lag = 0 := by
  have hto := hstep.2 b
  have hview := (h b).view
  obtain ⟨ht, hlag⟩ := htidy b
  generalize (s'.mgt b).view = v' at hto ⊢
  generalize (s'.mgt b).lag = c' at hto ⊢
  cases hto with
  | same => exact ⟨ht, hlag⟩
  | alloc maxPage pageNum hstep hold => exact ⟨ht.alloc hview hstep, hlag⟩
  | incForKeeper smgt mms => exact ⟨ht.inc (h.not_isCache (hallow (smgt, mms) rfl) b) 100, hlag⟩
  | decKeeperUser smgt mms delayMs =>
    exact ⟨ht.dec (h.not_isCache (hallow (smgt, mms) rfl) b) 100, hlag⟩
  | decOwnerUser smgt mms delayMs =>
    exact ⟨ht.dec (h.not_isCache (hallow (smgt, mms) rfl) b) 1000, hlag⟩
  | create hstep hkeep => exact ⟨ht.create hview hok.1 hstep, (hkeep hok.1).trans hlag⟩
  | drop hoff => exact ⟨ht.dropCaches hview (hok.2 hoff), rfl⟩
  | clear force hstep => exact ⟨ht.clear (fun mms hc => hview.cache_list hc) hstep, hlag⟩
  | freeAll flags hflags hshift hclear =>
    have hdrop : (s.mgt b).view.Droppable :=
      ⟨ht, hok b hflags, hview.cache_ne, fun mms hc => hview.cache_list hc⟩
    exact ⟨(hdrop.freeAll hshift hclear).tidy, rfl⟩

/-- In every run that loses no cache, the counters of each manager are those of its slots and scatters,
and a live scatter that is not on the list is one of the caches. -/
theorem accounts_balance {lessMemory : Bool} (hrun : Run E LosesNoCache (System.init w lessMemory) s) (b : Bool) :
    (s.mgt b).totalPageNum =
      Heap.total (fun slot => (slot.pageNum : Int)) (s.mgt b).slots + (s.mgt b).onePageCnt ∧
    (s.mgt b).allocedPageNum = (held (s.mgt b)).card ∧
    (s.mgt b).cachedPages = (s.mgt b).cacheCnt ∧
    ∀ mms sc, (s.mgt b).scatters.lookup mms = some sc → mms ∉ (s.mgt b).scatterList →
      (s.mgt b).cacheSc0 = some mms ∨ (s.mgt b).cacheSc1 = some mms := by
  obtain ⟨h, htidy⟩ := hrun.inv (P := fun s => ∀ b, (s.mgt b).view.Tidy ∅ ∧ (s.mgt b).lag = 0)
    (System.init_inv w lessMemory)
    (fun b => ⟨⟨fun hx => absurd rfl hx, fun hc => absurd hc (View.not_isCache rfl rfl)⟩, rfl⟩)
    fun s s' op h htidy hallow hok hstep => tidy_step h htidy hallow hok hstep
  obtain ⟨ht, hlag⟩ := htidy b
  have htotal : (s.mgt b).totalPageNum - (s.mgt b).onePageCnt =
      Heap.total (fun slot => (slot.pageNum : Int)) (s.mgt b).slots := (h b).pool.ledger.total
  have halloced : (s.mgt b).allocedPageNum + 0 = (0 + held (s.mgt b)).card := (h b).alloced
  refine ⟨by omega, ?_, ?_, fun mms sc hl hnot => ?_⟩
  · rw [zero_add, add_zero] at halloced
    exact halloced
  · unfold Mgt.lag at hlag
    omega
  · rcases ht.referenced (mem_live_iff.mpr ⟨sc, hl⟩) with hin | hc | hd
    · exact absurd hin hnot
    · exact hc
    · exact absurd hd id

/-- Two caches are created. -/
theorem accounts_balance_two_caches :
    let s₀ := System.init (⟨0, 1, []⟩ : Script) false
    let s₁ := (Op.delayFreeSwith false true 0 0).after scripted s₀
    let s := (Op.arrange false).after scripted s₁
    ((s.mgt false).cacheSc0 = some 1 ∧ (s.mgt false).cacheSc1 = some 2) ∧
    (s.mgt false).totalPageNum =
      Heap.total (fun slot => (slot.pageNum : Int)) (s.mgt false).slots + (s.mgt false).onePageCnt ∧
    (s.mgt false).allocedPageNum = (held (s.mgt false)).card ∧
    (s.mgt false).cachedPages = (s.mgt false).cacheCnt ∧
    ∀ mms sc, (s.mgt false).scatters.lookup mms = some sc → mms ∉ (s.mgt false).scatterList →
      (s.mgt false).cacheSc0 = some mms ∨ (s.mgt false).cacheSc1 = some mms := by
  intro s₀ s₁ s
  have h₁ : Run scripted LosesNoCache s₀ s₁ :=
    Run.init.next _ nofun trivial (by decide +kernel)
  have hend : ((Op.arrange false).exec scripted s₁).isOk ∧
      (s.mgt false).cacheSc0 = some 1 ∧ (s.mgt false).cacheSc1 = some 2 := by decide +kernel
  have h : Run scripted LosesNoCache s₀ s :=
    h₁.next (.arrange false) nofun
      ⟨fun _ _ => rfl, fun hoff => absurd hoff (by decide +kernel)⟩ hend.1
  exact ⟨hend.2, accounts_balance h false⟩

/-- The first cache cannot be allocated, but the second one can. The next pass creates both and forgets
the second one, scatter 1, which stays allocated. -/
theorem arrange_loses_cache :
    ∃ s : System Script, Run scripted (fun _ _ => True) (System.init ⟨0, 1, [false]⟩ false) s ∧
      (∃ sc, (s.mgt false).scatters.lookup 1 = some sc) ∧ 1 ∉ (s.mgt false).scatterList ∧
      (s.mgt false).cacheSc0 ≠ some 1 ∧ (s.mgt false).cacheSc1 ≠ some 1 := by
  let s₁ := (Op.delayFreeSwith false true 0 0).after scripted (System.init ⟨0, 1, [false]⟩ false)
  let s₂ := (Op.arrange false).after scripted s₁
  let s₃ := (Op.arrange false).after scripted s₂
  have hend : ((Op.arrange false).exec scripted s₁).isOk ∧ ((Op.arrange false).exec scripted s₂).isOk ∧
      ((s₃.mgt false).scatters.lookup 1).isSome ∧ 1 ∉ (s₃.mgt false).scatterList ∧
      (s₃.mgt false).cacheSc0 ≠ some 1 ∧ (s₃.mgt false).cacheSc1 ≠ some 1 := by decide +kernel
  have h₁ : Run scripted (fun _ _ => True) (System.init ⟨0, 1, [false]⟩ false) s₁ :=
    Run.init.next _ nofun trivial (by decide +kernel)
  have h₂ := h₁.next (.arrange false) nofun trivial hend.1
  have h₃ := h₂.next (.arrange false) nofun trivial hend.2.1
  exact ⟨s₃, h₃, Option.isSome_iff_exists.mp hend.2.2.1, hend.2.2.2⟩

end Accounting

end Amlogic.CodecMm
