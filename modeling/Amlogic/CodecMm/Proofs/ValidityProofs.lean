import Amlogic.CodecMm.Script
import Amlogic.CodecMm.Proofs.SystemProofs

/-!
# Valid scatters

A scatter that was allocated and not freed yet is in the map of valid scatters, as long as the map had
room for it, and calls that change its users take effect.
-/

namespace Amlogic.CodecMm

open Function

/-! ## Views -/

namespace View

/-- The scatters on the list are valid, and nobody has released more than was held. -/
structure Known (v : View) : Prop where
  valid : ∀ {mms}, mms ∈ v.list → some mms ∈ v.scmap
  users : ∀ {mms}, mms ∈ v.list → ∃ n, v.users mms = some n ∧ 0 ≤ n

variable {G : Set Nat} {v v' : View} {mms : Nat} {n : Int}

section

variable (h : v.Known)
include h

theorem Known.shrink (hlist : ∀ x ∈ v'.list, x ∈ v.list) (hmap : ∀ x ∈ v'.list, some x ∈ v.scmap → some x ∈ v'.scmap)
    (husers : ∀ x ∈ v'.list, v'.users x = v.users x) : v'.Known where
  valid hx := hmap _ hx (h.valid (hlist _ hx))
  users hx := by
    rw [husers _ hx]
    exact h.users (hlist _ hx)

theorem Known.setUser (hn : 0 ≤ n) : (v.setUser mms n).Known where
  valid := h.valid
  users := by
    intro x hx
    by_cases hxm : x = mms
    · subst hxm
      exact ⟨n, update_self .., hn⟩
    · obtain ⟨k, hk, hpos⟩ := h.users hx
      exact ⟨k, (update_of_ne hxm ..).trans hk, hpos⟩

theorem Known.new (hroom : none ∈ v.scmap) : (v.new mms).Known where
  valid hx := by
    rcases List.mem_append.mp hx with hx | hx
    · exact mem_scatterMapAdd_of_mem (h.valid hx)
    · rw [List.mem_singleton.mp hx]
      exact mem_scatterMapAdd_self hroom
  users := by
    intro x hx
    by_cases hxm : x = mms
    · subst hxm
      exact ⟨1000, update_self .., by decide⟩
    · have hin := (List.mem_append.mp hx).resolve_right fun hx => hxm (List.mem_singleton.mp hx)
      obtain ⟨k, hk, hpos⟩ := h.users hin
      exact ⟨k, (update_of_ne hxm ..).trans hk, hpos⟩

theorem Known.alloc (hroom : none ∈ v.scmap ∨ v'.list = v.list) (hstep : AllocStep G v v') :
    v'.Known := by
  cases hstep with
  | none => exact h
  | reuse mms hmem huser => exact h.setUser (by decide)
  | fresh mms hG hlive =>
    exact h.new (hroom.resolve_right fun he => by simp [View.new] at he)
  | unused mms hG hlive =>
    exact (h.new (hroom.resolve_right fun he => by simp [View.new, View.setUser] at he)).setUser (le_refl 0)

theorem Known.newOff (hok : ∀ x ∈ v.list, x ∈ v.live) (hlive : mms ∉ v.live) :
    (v.newOff mms).Known := by
  refine h.shrink (fun _ hx => hx) (fun _ _ hm => mem_scatterMapAdd_of_mem hm) fun x hx => ?_
  refine update_of_ne ?_ ..
  rintro rfl
  exact hlive (hok x hx)

theorem Known.create {delay : Int} (hok : v.Ok G) (hstep : CreateStep G delay v v') :
    v'.Known := by
  cases hstep with
  | none => exact h
  | create v1 v2 hon h0 hfirst hsecond =>
    have h1 : v1.Known ∧ ∀ x ∈ v1.list, x ∈ v1.live := by
      cases hfirst with
      | none => exact ⟨h, fun x hx => hok.list_live hx⟩
      | some mms hG hlive =>
        have hnew := h.newOff (fun x hx => hok.list_live hx) hlive
        exact ⟨⟨hnew.valid, hnew.users⟩, fun x hx => mem_live_new.mpr (Or.inl (hok.list_live hx))⟩
    cases hsecond with
    | none => exact h1.1
    | some mms hG hlive =>
      have hnew := h1.1.newOff h1.2 hlive
      exact ⟨hnew.valid, hnew.users⟩

theorem Known.dropCache {cache : Option Nat} (hnot : ∀ mms, cache = some mms → mms ∉ v.list) :
    (v.dropCache cache).Known := by
  have hsub := (v.dropCache_list_sublist cache).subset
  have hne : ∀ x ∈ (v.dropCache cache).list, cache ≠ some x := fun x hx hc => hnot x hc (hsub hx)
  exact h.shrink (fun x hx => hsub hx) (fun x hx => (v.dropCache_of_ne (hne x hx)).2)
    fun x hx => (v.dropCache_of_ne (hne x hx)).1

end

structure Clearable (v : View) : Prop where
  known : v.Known
  list : ∀ mms, v.IsCache mms → mms ∉ v.list
  nodup : v.list.Nodup

theorem Clearable.shift (h : v.Clearable) : v.shiftCaches.Clearable := by
  have hsub := View.dropCache_list_sublist { v with cache0 := v.cache1, cache1 := none } v.cache0
  have hforget : ({ v with cache0 := v.cache1, cache1 := none } : View).Known :=
    ⟨h.known.valid, h.known.users⟩
  obtain ⟨hc0, hc1⟩ := caches_dropCache { v with cache0 := v.cache1, cache1 := none } v.cache0
  refine ⟨hforget.dropCache fun mms hm => h.list mms (Or.inl hm), ?_, h.nodup.sublist hsub⟩
  rintro mms (hx | hx) hin
  · exact h.list mms (Or.inr (hc0.symm.trans hx)) (hsub.subset hin)
  · exact absurd (hc1.symm.trans hx) nofun

theorem Clearable.clear (h : v.Clearable) (hstep : ClearStep v v') : v'.Clearable := by
  cases hstep with
  | none => exact h
  | free mms hmem huser =>
    have hmem : ∀ x ∈ (v.free mms).list, x ≠ mms ∧ x ∈ v.list := fun x hx =>
      h.nodup.mem_erase_iff.mp hx
    refine ⟨h.known.shrink (fun x hx => (hmem x hx).2)
      (fun x hx hm => mem_scatterMapDel_of_ne hm (hmem x hx).1)
      (fun x hx => update_of_ne (hmem x hx).1 ..), ?_, h.nodup.erase mms⟩
    exact fun x hx hin => h.list x hx (hmem x hin).2

theorem Clearable.freeAll {v1 v2 : View} (h : v.Clearable)
    (hshift : Relation.ReflTransGen (fun v v' => v' = shiftCaches v) v v1)
    (hclear : Relation.ReflTransGen ClearStep v1 v2) : v2.Clearable := by
  have h1 : v1.Clearable := by
    clear hclear
    induction hshift with
    | refl => exact h
    | tail _ hstep ih =>
      rw [hstep]
      exact ih.shift
  induction hclear with
  | refl => exact h1
  | tail _ hstep ih => exact ih.clear hstep

end View

/-! ## Runs -/

section Validity

variable {ω : Type} {E : Externals ω} {w : ω} {s s' : System ω} {op : Op} {b : Bool} {mms : Nat}

/-- A new scatter finds a free entry in the map, and nobody releases more than is held. -/
def KeepsMap (s : System ω) : Op → Prop
  | .alloc b maxPage _ => none ∈ (s.mgt b).scmap ∨
    ∃ mms ∈ (s.mgt b).scatterList, (s.mgt b).Reusable maxPage mms
  | .decKeeperUser b mms _ => ∀ sc, (s.mgt b).scatters.lookup mms = some sc → 100 ≤ sc.userCnt
  | .decOwnerUser b mms _ => ∀ sc, (s.mgt b).scatters.lookup mms = some sc → 1000 ≤ sc.userCnt
  | _ => True

theorem known_step (h : SysInv E s) (hknown : ∀ b, (s.mgt b).view.Known) (hallow : op.Allowed s)
    (hok : KeepsMap s op) (hstep : StepTo E op s s') (b : Bool) : (s'.mgt b).view.Known := by
  have hto := hstep.2 b
  have hview := (h b).view
  have hk := hknown b
  generalize (s'.mgt b).view = v' at hto ⊢
  generalize (s'.mgt b).lag = c' at hto
  cases hto with
  | same => exact hk
  | alloc maxPage pageNum hstep hold =>
    refine hk.alloc (hok.imp_right ?_) hstep
    rintro ⟨x, hx, hre⟩
    exact hold x hx hre
  | incForKeeper smgt mms =>
    rcases View.inc_cases _ mms _ with he | ⟨n, -, -, hpos, he⟩
    · rw [he]
      exact hk
    · rw [he]
      exact hk.setUser (by omega)
  | decKeeperUser smgt mms delayMs | decOwnerUser smgt mms delayMs =>
    rcases View.dec_cases _ mms _ with he | ⟨n, hn, -, -, he⟩
    · rw [he]
      exact hk
    · rw [he]
      refine hk.setUser ?_
      rcases Bool.eq_or_eq_not b smgt with rfl | rfl
      · obtain ⟨sc, hl, rfl⟩ := Option.map_eq_some_iff.mp hn
        have := hok sc hl
        omega
      · exact absurd (View.mem_live_of_users hn) (h.notMem_other ((h smgt).view.list_live (hallow (smgt, mms) rfl)))
  | create hstep hkeep => exact hk.create hview hstep
  | drop hoff =>
    have hforget : ({ (s.mgt b).view with cache0 := none, cache1 := none } : View).Known := ⟨hk.valid, hk.users⟩
    refine (hforget.dropCache fun mms hm => hview.cache_list (Or.inl hm)).dropCache fun mms hm hin => ?_
    have hsub := View.dropCache_list_sublist { (s.mgt b).view with cache0 := none, cache1 := none } (s.mgt b).view.cache0
    exact hview.cache_list (Or.inr hm) (hsub.subset hin)
  | clear force hstep =>
    exact (View.Clearable.clear ⟨hk, fun x hc => hview.cache_list hc, hview.list_nodup⟩ hstep).known
  | freeAll flags hflags hshift hclear =>
    exact (View.Clearable.freeAll ⟨hk, fun x hc => hview.cache_list hc, hview.list_nodup⟩ hshift
      hclear).known

/-! ## Calls take effect -/

section Effect

variable {F : Multiset Nat} {G : Set Nat} {T : Multiset Nat} {a c : Int} {t : Local ω}

theorem ends_userIn1 {mms : Nat} {x : Scatter → Prog (Local ω) Int} (h : Inv E F G T a c t)
    (hx : ∀ sc, Ends (x sc) t) :
    Ends (do
      if !(← get).mgt.scatterValid mms then return -1
      else
        let sc ← scatterOf mms
        x sc) t := by
  rw [ends_get_bind]
  by_cases hvalid : some mms ∈ t.mgt.scmap
  · rw [if_neg (by simpa [Mgt.scatterValid] using hvalid)]
    obtain ⟨sc, hl⟩ := mem_live_iff.mp (h.view.map_live hvalid)
    rw [ends_bind_of_ok (scatterOf_run hl)]
    exact hx sc
  · rw [if_pos (by simpa [Mgt.scatterValid] using hvalid)]
    exact ends_pure

theorem ends_incUserIn1 (h : Inv E F G T a c t) (mms : Nat) (cnt : Int) :
    Ends (codecMmScatterIncUserIn1 E mms cnt) t := by
  refine ends_userIn1 h fun sc => ?_
  split_ifs <;> exact ⟨_, _, rfl⟩

theorem ends_decUserIn1 (h : Inv E F G T a c t) (mms : Nat) (delayFreeMs cnt : Int) :
    Ends (codecMmScatterDecUserIn1 E mms delayFreeMs cnt) t := by
  refine ends_userIn1 h fun sc => ?_
  dsimp only
  split_ifs <;> exact ⟨_, _, rfl⟩

end Effect

theorem SysInv.ends_users {x : Prog (Local ω) Int} (h : SysInv E s)
    (hx : ∀ {F G c} {t : Local ω}, Inv E F G 0 0 c t → Meets x t fun _ t' => Inv E F G 0 0 c t')
    (hend : ∀ {F G c} {t : Local ω}, Inv E F G 0 0 c t → Ends x t) :
    Ends (do
      let ret ← CodecMm.onMgt false x
      if ret < 0 then CodecMm.onMgt true x else return ret) s := by
  have hfirst : Ends (CodecMm.onMgt false x) s := Ends.zoom (s := s) (hend (h false))
  refine hfirst.bind fun ret s1 hrun => ?_
  have h1 := (h.onMgt (R := fun _ _ => True) false
    ((hx (h false)).mono fun _ t ht => ⟨⟨_, ht⟩, trivial⟩)).of_ok hrun
  split_ifs
  · exact Ends.zoom (s := s1) (hend (h1.1 true))
  · exact ends_pure

theorem users_invalid {x : Prog (Local ω) Int} (hx : ∀ b, x ⟨s.world, s.mgt b⟩ = .ok (-1, ⟨s.world, s.mgt b⟩)) :
    (do
      let ret ← onMgt false x
      if ret < 0 then onMgt true x else return ret : Prog (System ω) Int) s = .ok (-1, s) := by
  have hone : ∀ b, onMgt b x s = .ok (-1, s) := by
    intro b
    unfold onMgt Prog.zoom
    rw [hx b]
    show Except.ok (-1, { s with mgt := update s.mgt b (s.mgt b) }) = _
    rw [update_eq_self]
  show (onMgt false x s >>= fun p => (if p.1 < 0 then onMgt true x else pure p.1) p.2) = _
  rw [hone false]
  exact hone true

theorem incForKeeper_invalid (h : ∀ b, (s.mgt b).scatterValid mms = false) :
    codecMmScatterIncForKeeper E mms s = .ok (-1, s) := by
  refine users_invalid fun b => ?_
  show (if !(s.mgt b).scatterValid mms then pure (-1) else _ : Prog (Local ω) Int) _ = _
  rw [h b]
  rfl

theorem decOwnerUser_invalid (h : ∀ b, (s.mgt b).scatterValid mms = false) (delayMs : Int) :
    codecMmScatterDecOwnerUser E mms delayMs s = .ok (-1, s) := by
  refine users_invalid fun b => ?_
  show (if !(s.mgt b).scatterValid mms then pure (-1) else _ : Prog (Local ω) Int) _ = _
  rw [h b]
  rfl

/-- In every run in which the map has room, every scatter that was allocated and not freed is valid, and
calls of `codec_mm_scatter_inc_for_keeper` and, while somebody holds it, of
`codec_mm_scatter_dec_owner_user` change its user count. -/
theorem scatters_recognised {lessMemory : Bool} (hrun : Run E KeepsMap (System.init w lessMemory) s)
    (hmem : mms ∈ (s.mgt b).scatterList) :
    (s.mgt b).scatterValid mms = true ∧ ∃ n, (s.mgt b).view.users mms = some n ∧
      (∃ r s', codecMmScatterIncForKeeper E mms s = .ok (r, s') ∧
        (s'.mgt b).view.users mms = some (n + 100)) ∧
      ∀ delayMs, 1 ≤ n → ∃ r s', codecMmScatterDecOwnerUser E mms delayMs s = .ok (r, s') ∧
        (s'.mgt b).view.users mms = some (n - 1000) := by
  obtain ⟨h, hknown⟩ := hrun.inv (P := fun s => ∀ b, (s.mgt b).view.Known)
    (System.init_inv w lessMemory) (fun b => ⟨nofun, nofun⟩)
    fun s s' op h hknown hallow hok hstep => known_step h hknown hallow hok hstep
  have hvalid : some mms ∈ (s.mgt b).view.scmap := (hknown b).valid hmem
  obtain ⟨n, hn, hpos⟩ := (hknown b).users hmem
  refine ⟨decide_eq_true hvalid, n, hn, ?_, fun delayMs hone => ?_⟩
  · have hends : Ends (codecMmScatterIncForKeeper E mms) s := h.ends_users
      (fun ht => (codecMmScatterIncUserIn1_ok ht mms 100).mono fun _ _ ht' => ht'.1)
      (fun ht => ends_incUserIn1 ht mms 100)
    obtain ⟨r, s', hrun', -, heffect⟩ := (codecMmScatterIncUserIn_ok h mms 100).of_ends hends
    refine ⟨r, s', hrun', ?_⟩
    rw [(heffect b).1, View.inc_eq, View.adjust_of_users hn hvalid, if_pos hpos]
    exact update_self ..
  · have hends : Ends (codecMmScatterDecOwnerUser E mms delayMs) s := h.ends_users
      (fun ht => (codecMmScatterDecUserIn1_ok ht mms delayMs 1000).mono fun _ _ ht' => ht'.1)
      (fun ht => ends_decUserIn1 ht mms delayMs 1000)
    obtain ⟨r, s', hrun', -, heffect⟩ := (codecMmScatterDecUserIn_ok h mms delayMs 1000).of_ends hends
    refine ⟨r, s', hrun', ?_⟩
    rw [(heffect b).1, View.dec_eq, View.adjust_of_users hn hvalid, if_pos hone]
    exact update_self ..

/-- One scatter that its owner holds. -/
theorem scatters_recognised_one :
    let s := (Op.alloc false 16 4).after scripted (System.init ⟨0, 1, []⟩ false)
    1 ∈ (s.mgt false).scatterList ∧ (s.mgt false).scatterValid 1 = true ∧
      ∃ n, (s.mgt false).view.users 1 = some n ∧
      (∃ r s', codecMmScatterIncForKeeper scripted 1 s = .ok (r, s') ∧
        (s'.mgt false).view.users 1 = some (n + 100)) ∧
      ∀ delayMs, 1 ≤ n → ∃ r s', codecMmScatterDecOwnerUser scripted 1 delayMs s = .ok (r, s') ∧
        (s'.mgt false).view.users 1 = some (n - 1000) := by
  intro s
  have hmem : 1 ∈ (s.mgt false).scatterList := by decide +kernel
  have hrun : Run scripted KeepsMap (System.init ⟨0, 1, []⟩ false) s :=
    Run.init.next (.alloc false 16 4) nofun
      (Or.inl (List.mem_replicate.mpr ⟨by decide, rfl⟩)) (by decide +kernel)
  exact ⟨hmem, scatters_recognised hrun hmem⟩

def allocations (n : Nat) : System Script :=
  (fun s => (Op.alloc false 0 0).after scripted s)^[n] (System.init ⟨0, 1, []⟩ false)

/-- The 65th scatter does not fit into the map: a keeper gets no share of it, and its owner cannot give it
up. -/
theorem scatter_not_recognised :
    ∃ s : System Script, Run scripted (fun _ _ => True) (System.init ⟨0, 1, []⟩ false) s ∧
      65 ∈ (s.mgt false).scatterList ∧ (s.mgt false).scatterValid 65 = false ∧
      codecMmScatterIncForKeeper scripted 65 s = .ok (-1, s) ∧
      codecMmScatterDecOwnerUser scripted 65 0 s = .ok (-1, s) := by
  have hend : (∀ k < 65, ((Op.alloc false 0 0).exec scripted (allocations k)).isOk) ∧
      65 ∈ ((allocations 65).mgt false).scatterList ∧
      ∀ b, ((allocations 65).mgt b).scatterValid 65 = false := by decide +kernel
  have hrun : ∀ k ≤ 65, Run scripted (fun _ _ => True) (System.init ⟨0, 1, []⟩ false) (allocations k) := by
    intro k hk
    induction k with
    | zero => exact .init
    | succ k ih =>
      rw [allocations, iterate_succ_apply']
      exact (ih (by omega)).next _ nofun trivial (hend.1 k (by omega))
  exact ⟨allocations 65, hrun 65 le_rfl, hend.2.1, hend.2.2 false, incForKeeper_invalid hend.2.2,
    decOwnerUser_invalid hend.2.2 0⟩

end Validity

end Amlogic.CodecMm
