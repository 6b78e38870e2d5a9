import Amlogic.CodecMm.View

/-!
# Views

The changes of a view keep it in order.
-/

namespace Amlogic.CodecMm

open Function

/-! ## The map of valid scatters -/

section Map

variable {l : List (Option Nat)} {mms x : Nat}

theorem scatterMapAdd_eq (l : List (Option Nat)) (mms : Nat) : scatterMapAdd l mms = l.replace none (some mms) := by
  induction l with
  | nil => rfl
  | cons y l ih =>
    cases y with
    | none => rfl
    | some y => exact congrArg (some y :: ·) ih

theorem scatterMapDel_eq (l : List (Option Nat)) (mms : Nat) : scatterMapDel l mms = l.replace (some mms) none := by
  induction l with
  | nil => rfl
  | cons y l ih =>
    rw [scatterMapDel]
    split_ifs with hy
    · rw [hy, List.replace_cons_self]
    · rw [List.replace_cons, beq_false_of_ne (Ne.symm hy), ih]

theorem count_scatterMapAdd_eq : (scatterMapAdd l mms).count (some x) =
    l.count (some x) + if none ∈ l ∧ mms = x then 1 else 0 := by
  rw [scatterMapAdd_eq, List.count_replace]
  by_cases h : none ∈ l <;> simp [h]

theorem count_scatterMapDel_eq :
    (scatterMapDel l mms).count (some x) = l.count (some x) - if mms = x then 1 else 0 := by
  rw [scatterMapDel_eq, List.count_replace]
  by_cases hm : some mms ∈ l
  · simp [hm]
  · rw [if_neg (by simpa using hm)]
    split_ifs with hx
    · rw [← hx, List.count_eq_zero.mpr hm]
    · rfl

theorem mem_scatterMapAdd (h : some x ∈ scatterMapAdd l mms) : some x ∈ l ∨ x = mms := by
  rw [← List.count_pos_iff, count_scatterMapAdd_eq] at h
  rw [← List.count_pos_iff]
  split_ifs at h with hx
  · exact .inr hx.2.symm
  · exact .inl h

theorem mem_scatterMapAdd_of_mem (h : some x ∈ l) : some x ∈ scatterMapAdd l mms := by
  rw [← List.count_pos_iff] at h ⊢
  rw [count_scatterMapAdd_eq]
  omega

theorem mem_scatterMapAdd_self (h : none ∈ l) : some mms ∈ scatterMapAdd l mms := by
  rw [← List.count_pos_iff, count_scatterMapAdd_eq, if_pos ⟨h, rfl⟩]
  omega

theorem count_scatterMapAdd (h : some mms ∉ l) (hx : l.count (some x) ≤ 1) :
    (scatterMapAdd l mms).count (some x) ≤ 1 := by
  rw [count_scatterMapAdd_eq]
  split_ifs with he
  · rw [← he.2, List.count_eq_zero.mpr h]
  · exact hx

theorem count_scatterMapDel_le : (scatterMapDel l mms).count (some x) ≤ l.count (some x) := by
  rw [count_scatterMapDel_eq]
  omega

theorem mem_of_mem_scatterMapDel (h : some x ∈ scatterMapDel l mms) : some x ∈ l :=
  List.count_pos_iff.mp ((List.count_pos_iff.mpr h).trans_le count_scatterMapDel_le)

theorem mem_scatterMapDel_of_ne (h : some x ∈ l) (hne : x ≠ mms) : some x ∈ scatterMapDel l mms := by
  rw [← List.count_pos_iff] at h ⊢
  rw [count_scatterMapDel_eq, if_neg hne.symm]
  exact h

theorem notMem_scatterMapDel (h : l.count (some mms) ≤ 1) : some mms ∉ scatterMapDel l mms := by
  rw [← List.count_eq_zero, count_scatterMapDel_eq, if_pos rfl]
  omega

end Map

/-! ## Views -/

namespace View

variable {G : Set Nat} {v : View} {mms x : Nat} {n : Int}

theorem mem_live_born : x ∈ (v.setUser mms n).live ↔ x ∈ v.live ∨ x = mms := by
  show update v.users mms (some n) x ≠ none ↔ _
  by_cases hx : x = mms
  · subst hx
    rw [update_self]
    exact iff_of_true nofun (Or.inr rfl)
  · rw [update_of_ne hx]
    exact ⟨Or.inl, fun h => h.resolve_right hx⟩

theorem mem_live_setUser (h : mms ∈ v.live) : x ∈ (v.setUser mms n).live ↔ x ∈ v.live :=
  mem_live_born.trans (or_iff_left_of_imp fun hx => hx ▸ h)

theorem mem_live_new : x ∈ (v.new mms).live ↔ x ∈ v.live ∨ x = mms :=
  mem_live_born (n := 1000)

theorem mem_live_free : x ∈ (v.free mms).live ↔ x ∈ v.live ∧ x ≠ mms := by
  show update v.users mms none x ≠ none ↔ _
  by_cases hx : x = mms
  · subst hx
    rw [update_self]
    exact iff_of_false (fun h => h rfl) fun h => h.2 rfl
  · rw [update_of_ne hx]
    exact ⟨fun h => ⟨h, hx⟩, fun h => h.1⟩

theorem Ok.setUser (h : v.Ok G) (hl : mms ∈ v.live) (n : Int) : (v.setUser mms n).Ok G where
  others hx := h.others ((mem_live_setUser hl).mp hx)
  cache_live hx := (mem_live_setUser hl).mpr (h.cache_live hx)
  cache_ne := h.cache_ne
  cache_list := h.cache_list
  list_live hx := (mem_live_setUser hl).mpr (h.list_live hx)
  list_nodup := h.list_nodup
  map_live hx := (mem_live_setUser hl).mpr (h.map_live hx)
  map_once := h.map_once

theorem Ok.born (h : v.Ok G) (hl : mms ∉ v.live) (hG : mms ∉ G) : (v.setUser mms n).Ok G where
  others hx := by
    rcases mem_live_born.mp hx with hx | rfl
    · exact h.others hx
    · exact hG
  cache_live hx := mem_live_born.mpr (Or.inl (h.cache_live hx))
  cache_ne := h.cache_ne
  cache_list := h.cache_list
  list_live hx := mem_live_born.mpr (Or.inl (h.list_live hx))
  list_nodup := h.list_nodup
  map_live hx := mem_live_born.mpr (Or.inl (h.map_live hx))
  map_once := h.map_once

theorem Ok.unlist (h : v.Ok G) (mms : Nat) :
    ({ v with list := v.list.erase mms, scmap := scatterMapDel v.scmap mms } : View).Ok G where
  others := h.others
  cache_live := h.cache_live
  cache_ne := h.cache_ne
  cache_list hx hin := h.cache_list hx (List.mem_of_mem_erase hin)
  list_live hx := h.list_live (List.mem_of_mem_erase hx)
  list_nodup := h.list_nodup.erase mms
  map_live hx := h.map_live (mem_of_mem_scatterMapDel hx)
  map_once x := count_scatterMapDel_le.trans (h.map_once x)

theorem Ok.enlist (h : v.Ok G) (hlive : mms ∈ v.live) (hl : mms ∉ v.list) (hm : some mms ∉ v.scmap)
    (hc : ¬v.IsCache mms) :
    ({ v with list := v.list ++ [mms], scmap := scatterMapAdd v.scmap mms } : View).Ok G where
  others := h.others
  cache_live := h.cache_live
  cache_ne := h.cache_ne
  cache_list := by
    intro x hx hin
    rcases List.mem_append.mp hin with hin | hin
    · exact h.cache_list hx hin
    · exact hc (List.mem_singleton.mp hin ▸ hx)
  list_live := by
    intro x hx
    rcases List.mem_append.mp hx with hx | hx
    · exact h.list_live hx
    · exact List.mem_singleton.mp hx ▸ hlive
  list_nodup := by
    refine h.list_nodup.append (List.nodup_singleton mms) ?_
    intro x hx hx'
    exact hl (List.mem_singleton.mp hx' ▸ hx)
  map_live := by
    intro x hx
    rcases mem_scatterMapAdd hx with hx | rfl
    · exact h.map_live hx
    · exact hlive
  map_once x := count_scatterMapAdd hm (h.map_once x)

theorem Ok.new (h : v.Ok G) (hl : mms ∉ v.live) (hG : mms ∉ G) : (v.new mms).Ok G :=
  (h.born hl hG (n := 1000)).enlist (mem_live_born.mpr (Or.inr rfl)) (fun hx => hl (h.list_live hx))
    (fun hx => hl (h.map_live hx)) fun hx => hl (h.cache_live hx)

theorem Ok.kill (h : v.Ok G) (hl : mms ∉ v.list) (hm : some mms ∉ v.scmap) (hc : ¬v.IsCache mms) :
    ({ v with users := update v.users mms none } : View).Ok G where
  others hx := h.others (mem_live_free.mp hx).1
  cache_live := by
    intro x hx
    refine mem_live_free.mpr ⟨h.cache_live hx, ?_⟩
    rintro rfl
    exact hc hx
  cache_ne := h.cache_ne
  cache_list := h.cache_list
  list_live := by
    intro x hx
    refine mem_live_free.mpr ⟨h.list_live hx, ?_⟩
    rintro rfl
    exact hl hx
  list_nodup := h.list_nodup
  map_live := by
    intro x hx
    refine mem_live_free.mpr ⟨h.map_live hx, ?_⟩
    rintro rfl
    exact hm hx
  map_once := h.map_once

/-! ## Users and caches -/

def adjust (v : View) (mms : Nat) (least : Int) (f : Int → Int) : View :=
  (v.users mms).elim v fun n => if some mms ∈ v.scmap ∧ least ≤ n then v.setUser mms (f n) else v

theorem inc_eq (v : View) (mms : Nat) (cnt : Int) : v.inc mms cnt = v.adjust mms 0 (· + cnt) := by
  unfold inc adjust
  cases v.users mms <;> rfl

theorem dec_eq (v : View) (mms : Nat) (cnt : Int) : v.dec mms cnt = v.adjust mms 1 (· - cnt) := by
  unfold dec adjust
  cases v.users mms <;> rfl

theorem adjust_of_users {least : Int} {f : Int → Int} (hn : v.users mms = some n) (hmap : some mms ∈ v.scmap) :
    v.adjust mms least f = if least ≤ n then v.setUser mms (f n) else v := by
  simp [adjust, hn, hmap]

theorem adjust_of_invalid {least : Int} {f : Int → Int} (hmap : some mms ∉ v.scmap) : v.adjust mms least f = v := by
  unfold adjust
  cases v.users mms <;> simp [hmap]

theorem adjust_cases (v : View) (mms : Nat) (least : Int) (f : Int → Int) : v.adjust mms least f = v ∨
    ∃ n, v.users mms = some n ∧ some mms ∈ v.scmap ∧ least ≤ n ∧ v.adjust mms least f = v.setUser mms (f n) := by
  unfold adjust
  cases v.users mms with
  | none => exact .inl rfl
  | some n =>
    by_cases h : some mms ∈ v.scmap ∧ least ≤ n
    · exact .inr ⟨n, rfl, h.1, h.2, if_pos h⟩
    · exact .inl (if_neg h)

theorem inc_cases (v : View) (mms : Nat) (cnt : Int) : v.inc mms cnt = v ∨
    ∃ n, v.users mms = some n ∧ some mms ∈ v.scmap ∧ 0 ≤ n ∧ v.inc mms cnt = v.setUser mms (n + cnt) := by
  rw [inc_eq]
  exact v.adjust_cases mms 0 (· + cnt)

theorem dec_cases (v : View) (mms : Nat) (cnt : Int) : v.dec mms cnt = v ∨
    ∃ n, v.users mms = some n ∧ some mms ∈ v.scmap ∧ 1 ≤ n ∧ v.dec mms cnt = v.setUser mms (n - cnt) := by
  rw [dec_eq]
  exact v.adjust_cases mms 1 (· - cnt)

theorem freeOnNouser_cases (v : View) (mms : Nat) : v.freeOnNouser mms = v ∨
    ∃ n, v.users mms = some n ∧ n ≤ 0 ∧ v.freeOnNouser mms = v.free mms := by
  unfold freeOnNouser
  cases v.users mms with
  | none => exact .inl rfl
  | some n =>
    by_cases h : 0 < n
    · exact .inl (if_pos h)
    · exact .inr ⟨n, rfl, not_lt.mp h, if_neg h⟩

theorem inc_of_notMem (cnt : Int) (h : mms ∉ v.live) : v.inc mms cnt = v :=
  (v.inc_cases mms cnt).resolve_right fun ⟨_, hn, _⟩ => h fun hnone => by rw [hnone] at hn; cases hn

theorem dec_of_notMem (cnt : Int) (h : mms ∉ v.live) : v.dec mms cnt = v :=
  (v.dec_cases mms cnt).resolve_right fun ⟨_, hn, _⟩ => h fun hnone => by rw [hnone] at hn; cases hn

theorem mem_live_of_users (h : v.users mms = some n) : mms ∈ v.live := by
  show v.users mms ≠ none
  rw [h]
  exact Option.some_ne_none n

theorem mem_live_dec (cnt : Int) : x ∈ (v.dec mms cnt).live ↔ x ∈ v.live := by
  rcases v.dec_cases mms cnt with he | ⟨n, hn, -, -, he⟩
  · rw [he]
  · rw [he]
    exact mem_live_setUser (mem_live_of_users hn)

theorem caches_dec (v : View) (mms : Nat) (cnt : Int) :
    (v.dec mms cnt).cache0 = v.cache0 ∧ (v.dec mms cnt).cache1 = v.cache1 := by
  rcases v.dec_cases mms cnt with he | ⟨n, -, -, -, he⟩
  · rw [he]
    exact ⟨rfl, rfl⟩
  · rw [he]
    exact ⟨rfl, rfl⟩

theorem isCache_dec (cnt : Int) : (v.dec mms cnt).IsCache x ↔ v.IsCache x := by
  obtain ⟨h0, h1⟩ := v.caches_dec mms cnt
  unfold IsCache
  rw [h0, h1]

theorem dec_of_ne (v : View) (cnt : Int) (hne : x ≠ mms) :
    (v.dec mms cnt).users x = v.users x ∧ (v.dec mms cnt).scmap = v.scmap := by
  rcases v.dec_cases mms cnt with he | ⟨n, -, -, -, he⟩
  · rw [he]
    exact ⟨rfl, rfl⟩
  · rw [he]
    exact ⟨update_of_ne hne .., rfl⟩

theorem dropCache_of_ne (v : View) {cache : Option Nat} (hne : cache ≠ some x) :
    (v.dropCache cache).users x = v.users x ∧
      (some x ∈ v.scmap → some x ∈ (v.dropCache cache).scmap) := by
  cases cache with
  | none => exact ⟨rfl, id⟩
  | some mms =>
    have hne : x ≠ mms := fun he => hne (congrArg some he.symm)
    obtain ⟨huser, hmap⟩ := v.dec_of_ne 1000 hne
    show ((v.dec mms 1000).freeOnNouser mms).users x = _ ∧
      (_ → some x ∈ ((v.dec mms 1000).freeOnNouser mms).scmap)
    rcases (v.dec mms 1000).freeOnNouser_cases mms with he | ⟨n, -, -, he⟩
    · rw [he, hmap]
      exact ⟨huser, id⟩
    · rw [he]
      refine ⟨(update_of_ne hne ..).trans huser, fun hin => ?_⟩
      exact mem_scatterMapDel_of_ne (hmap ▸ hin) hne

theorem mem_live_dropCache {cache : Option Nat} (hx : x ∈ v.live) (hne : cache ≠ some x) :
    x ∈ (v.dropCache cache).live := by
  show (v.dropCache cache).users x ≠ none
  rw [(v.dropCache_of_ne hne).1]
  exact hx

theorem caches_dropCache (v : View) (cache : Option Nat) :
    (v.dropCache cache).cache0 = v.cache0 ∧ (v.dropCache cache).cache1 = v.cache1 := by
  cases cache with
  | none => exact ⟨rfl, rfl⟩
  | some mms =>
    show ((v.dec mms 1000).freeOnNouser mms).cache0 = _ ∧ ((v.dec mms 1000).freeOnNouser mms).cache1 = _
    rcases (v.dec mms 1000).freeOnNouser_cases mms with he | ⟨n, -, -, he⟩
    · rw [he]
      exact v.caches_dec mms 1000
    · rw [he]
      exact v.caches_dec mms 1000

theorem dropCache_list_sublist (v : View) (cache : Option Nat) :
    (v.dropCache cache).list.Sublist v.list := by
  cases cache with
  | none => exact .refl _
  | some mms =>
    have hdec : (v.dec mms 1000).list = v.list := by
      rcases v.dec_cases mms 1000 with he | ⟨n, -, -, -, he⟩
      · rw [he]
      · rw [he]
        rfl
    show ((v.dec mms 1000).freeOnNouser mms).list.Sublist _
    rcases (v.dec mms 1000).freeOnNouser_cases mms with he | ⟨n, -, -, he⟩
    · rw [he, hdec]
    · rw [he, ← hdec]
      exact List.erase_sublist

theorem not_isCache (h0 : v.cache0 = none) (h1 : v.cache1 = none) : ¬v.IsCache mms := by
  rintro (hx | hx)
  · rw [h0] at hx
    cases hx
  · rw [h1] at hx
    cases hx

theorem Ok.forget (h : v.Ok G) {cache0 : Option Nat} (hsub : ∀ mms, cache0 = some mms → v.cache1 = some mms) :
    ({ v with cache0 := cache0, cache1 := none } : View).Ok G where
  others := h.others
  cache_live hx := h.cache_live (hx.elim (fun h0 => .inr (hsub _ h0)) nofun)
  cache_ne _ hx := absurd hx.2 nofun
  cache_list hx := h.cache_list (hx.elim (fun h0 => .inr (hsub _ h0)) nofun)
  list_live := h.list_live
  list_nodup := h.list_nodup
  map_live := h.map_live
  map_once := h.map_once

end View

end Amlogic.CodecMm
