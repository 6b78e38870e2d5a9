import Amlogic.CodecMm.Protocol
import Amlogic.CodecMm.Proofs.ViewProofs

/-!
# The protocol keeps its tokens

Each section changes the tokens of one scatter, and the new ones agree with the new view. So in any order of
the sections, the tokens of every scatter agree with its user count.
-/

namespace Amlogic.CodecMm

open Multiset Function Threads Token

/-! ## Tokens of a scatter -/

section Fits

variable {v v' : View} {mms x : Nat} {u : Multiset Token} {n : Int}

theorem sum_weight_nonneg (h : ∀ p, .role p ∈ u → ¬p.Bare) : 0 ≤ (u.map weight).sum := by
  refine sum_nonneg ?_
  intro w hw
  obtain ⟨t, ht, rfl⟩ := mem_map.mp hw
  rcases t with share | p
  · cases share <;> decide
  · cases p with
    | born | marked | freeing => exact absurd trivial (h _ ht)
    | owned | listed | kept => decide

theorem eq_zero_of_sum_weight (hpos : ∀ t ∈ u, 0 < t.weight) (hsum : (u.map weight).sum ≤ 0) :
    u = 0 := by
  induction u using Multiset.induction_on with
  | empty => rfl
  | cons t u _ =>
    have ht := hpos t (mem_cons_self ..)
    have hu : 0 ≤ (u.map weight).sum := by
      refine sum_nonneg ?_
      intro w hw
      obtain ⟨t', ht', rfl⟩ := mem_map.mp hw
      exact (hpos t' (mem_cons_of_mem ht')).le
    rw [map_cons, sum_cons] at hsum
    omega

theorem Share.weight_pos (share : Share) : 0 < share.weight := by
  cases share <;> decide

theorem sum_weight_add (u : Multiset Token) (t : Token) :
    ((u + {t}).map weight).sum = (u.map weight).sum + t.weight := by
  rw [map_add, sum_add, map_singleton, sum_singleton]

theorem role_mem_add_share {p : Phase} {share : Share} : .role p ∈ u + {.share share} ↔ .role p ∈ u := by
  simp

theorem mem_add_self (t : Token) : t ∈ u + {t} :=
  mem_add.mpr (Or.inr (mem_singleton_self t))

theorem countP_add_share (share : Share) : (u + {.share share}).countP (·.isRole) = u.countP (·.isRole) := by
  rw [countP_add]
  exact Nat.add_zero _

theorem countP_add_role (p : Phase) : (u + {.role p}).countP (·.isRole) = u.countP (·.isRole) + 1 := by
  rw [countP_add]
  rfl

theorem setUser_users (v : View) (mms : Nat) (n : Int) : (v.setUser mms n).users mms = some n :=
  update_self ..

theorem Fits.no_role {p : Phase} (h : Fits v mms (u + {.role p})) (q : Phase) : .role q ∉ u := by
  intro hq
  have hone := h.one
  rw [countP_add_role] at hone
  have hpos : 0 < u.countP (·.isRole) := countP_pos.mpr ⟨.role q, hq, rfl⟩
  omega

theorem Fits.eq_zero_of_bare {p : Phase} (h : Fits v mms (u + {.role p})) (hp : p.Bare) : u = 0 := by
  refine eq_zero_of_forall_notMem ?_
  rintro (share | q) ht
  · exact h.bare (mem_add_self _) hp share (mem_add.mpr (Or.inl ht))
  · exact h.no_role q ht

theorem Fits.live {t : Token} (h : Fits v mms (u + {t})) : mms ∈ v.live := by
  intro hnone
  exact notMem_zero t (h.dead hnone ▸ mem_add_self t)

theorem Fits.weight_pos (h : Fits v mms u) (hmem : mms ∈ v.list) : ∀ t ∈ u, 0 < t.weight := by
  rintro (share | p) ht
  · exact share.weight_pos
  · obtain rfl := (h.list ht).mp hmem
    decide

theorem Fits.eq_zero_of_list (h : Fits v mms u) (hmem : mms ∈ v.list) (hn : v.users mms = some 0) : u = 0 :=
  eq_zero_of_sum_weight (h.weight_pos hmem) (h.count hn).ge

structure Same (v v' : View) (x : Nat) : Prop where
  users : v'.users x = v.users x
  list : x ∈ v'.list ↔ x ∈ v.list
  scmap : some x ∈ v'.scmap → some x ∈ v.scmap

theorem Same.refl (v : View) (x : Nat) : Same v v x := ⟨rfl, Iff.rfl, id⟩

theorem Same.setUser (v : View) (n : Int) (h : x ≠ mms) : Same v (v.setUser mms n) x :=
  ⟨update_of_ne h .., Iff.rfl, id⟩

structure Touched (v v' : View) (mms : Nat) : Prop where
  caches : v'.caches = v.caches
  same : ∀ x, x ≠ mms → Same v v' x

theorem Touched.refl (v : View) (mms : Nat) : Touched v v mms := ⟨rfl, fun x _ => .refl v x⟩

theorem Touched.setUser (v : View) (mms : Nat) (n : Int) : Touched v (v.setUser mms n) mms :=
  ⟨rfl, fun _ => Same.setUser v n⟩

theorem Fits.same (h : Fits v mms u) (hs : Same v v' mms) : Fits v' mms u where
  dead hnone := h.dead (hs.users ▸ hnone)
  count hn := h.count (hs.users ▸ hn)
  one := h.one
  bare := h.bare
  list hp := hs.list.trans (h.list hp)
  hidden hp hh := fun hmem => h.hidden hp hh (hs.scmap hmem)

theorem Fits.acquire (h : Fits v mms u) (hn : v.users mms = some n) (hbare : ∀ {p}, .role p ∈ u → ¬p.Bare)
    (share : Share) : Fits (v.setUser mms (n + share.weight)) mms (u + {.share share}) where
  dead hnone := absurd ((setUser_users ..).symm.trans hnone) (Option.some_ne_none _)
  count := by
    intro m hm
    obtain rfl := Option.some.inj ((setUser_users ..).symm.trans hm)
    rw [sum_weight_add, ← h.count hn]
    rfl
  one := (countP_add_share share).trans_le h.one
  bare hp hb := absurd hb (hbare (role_mem_add_share.mp hp))
  list hp := h.list (role_mem_add_share.mp hp)
  hidden hp := h.hidden (role_mem_add_share.mp hp)

theorem Fits.release {share : Share} (h : Fits v mms (u + {.share share})) (hn : v.users mms = some n) :
    1 ≤ n ∧ Fits (v.setUser mms (n - share.weight)) mms u := by
  have hbare : ∀ p, .role p ∈ u → ¬p.Bare := fun p hp hb =>
    h.bare (role_mem_add_share.mpr hp) hb share (mem_add_self _)
  have hcount := h.count hn
  rw [sum_weight_add] at hcount
  have hsum := sum_weight_nonneg hbare
  have hw := share.weight_pos
  have hweight : (Token.share share).weight = share.weight := rfl
  refine ⟨by omega, ?_, ?_, ?_, ?_, ?_, ?_⟩
  · exact fun hnone => absurd ((setUser_users ..).symm.trans hnone) (Option.some_ne_none _)
  · intro m hm
    obtain rfl := Option.some.inj ((setUser_users ..).symm.trans hm)
    omega
  · exact (countP_add_share share).symm.trans_le h.one
  · exact fun hp hb => absurd hb (hbare _ hp)
  · exact fun hp => h.list (role_mem_add_share.mpr hp)
  · exact fun hp => h.hidden (role_mem_add_share.mpr hp)

theorem fits_role {p : Phase} (hn : v.users mms = some (role p).weight)
    (hlist : mms ∈ v.list ↔ p = .listed) (hhidden : p.Hidden → some mms ∉ v.scmap) :
    Fits v mms {.role p} where
  dead hnone := absurd (hn.symm.trans hnone) (Option.some_ne_none _)
  count := by
    intro n hn'
    obtain rfl := Option.some.inj (hn.symm.trans hn')
    rw [map_singleton, sum_singleton]
  one := le_refl 1
  bare _ _ share hmem := by cases mem_singleton.mp hmem
  list := by
    intro q hq
    cases mem_singleton.mp hq
    exact hlist
  hidden := by
    intro q hq
    cases mem_singleton.mp hq
    exact hhidden

theorem Fits.birth {G : Set Nat} (h : Fits v mms u) (hok : v.Ok G) (hdead : mms ∉ v.live) :
    Fits (v.setUser mms 0) mms (u + {.role .born}) := by
  have hzero : u = 0 := h.dead (not_not.mp hdead)
  rw [hzero, zero_add]
  refine fits_role (setUser_users ..) ⟨fun hmem => ?_, nofun⟩ fun _ hmem => ?_
  · exact absurd (hok.list_live hmem) hdead
  · exact absurd (hok.map_live hmem) hdead

theorem Fits.own (h : Fits v mms (u + {.role .born})) :
    Fits (v.setUser mms 1000) mms (u + {.role .owned}) := by
  have hlist := h.list (mem_add_self _)
  have hhidden := h.hidden (mem_add_self _) trivial
  obtain rfl := h.eq_zero_of_bare trivial
  exact fits_role (setUser_users ..) ⟨fun hmem => absurd (hlist.mp hmem) nofun, nofun⟩ fun _ => hhidden

theorem Fits.rerole {p q : Phase} (h : Fits v mms (u + {.role p})) (husers : v'.users mms = v.users mms)
    (hw : (role q).weight = (role p).weight) (hbare : q.Bare → p.Bare)
    (hlist : mms ∈ v'.list ↔ q = .listed) (hhidden : q.Hidden → some mms ∉ v'.scmap) :
    Fits v' mms (u + {.role q}) where
  dead hnone := absurd (husers ▸ hnone) h.live
  count := by
    intro n hn
    rw [sum_weight_add, hw, ← sum_weight_add]
    exact h.count (husers ▸ hn)
  one := by
    rw [countP_add_role, ← countP_add_role p]
    exact h.one
  bare := by
    intro r hr hb share hmem
    rcases mem_add.mp hr with hr | hr
    · exact h.no_role r hr
    · cases mem_singleton.mp hr
      exact h.bare (mem_add_self _) (hbare hb) share (by simpa using hmem)
  list := by
    intro r hr
    rcases mem_add.mp hr with hr | hr
    · exact absurd hr (h.no_role r)
    · cases mem_singleton.mp hr
      exact hlist
  hidden := by
    intro r hr
    rcases mem_add.mp hr with hr | hr
    · exact absurd hr (h.no_role r)
    · cases mem_singleton.mp hr
      exact hhidden

theorem Fits.register (h : Fits v mms (u + {.role .owned})) :
    Fits (v.enlist mms) mms (u + {.role .listed}) :=
  h.rerole rfl rfl nofun ⟨fun _ => rfl, fun _ => List.mem_append_right _ (List.mem_singleton_self mms)⟩ nofun

theorem Fits.unrole (h : Fits v mms (u + {.role .kept})) : Fits v mms u where
  dead hnone := absurd hnone h.live
  count := by
    intro n hn
    rw [h.count hn, sum_weight_add]
    exact add_zero _
  one := by
    have hone := h.one
    rw [countP_add_role] at hone
    omega
  bare hp := absurd hp (h.no_role _)
  list hp := absurd hp (h.no_role _)
  hidden hp := absurd hp (h.no_role _)

theorem Fits.share_of_listed (h : Fits v mms (u + {.role .listed})) : Fits v mms (u + {.share .owner}) where
  dead hnone := absurd hnone h.live
  count := by
    intro n hn
    rw [h.count hn, sum_weight_add, sum_weight_add]
    rfl
  one := by
    rw [countP_add_share]
    have hone := h.one
    rw [countP_add_role] at hone
    omega
  bare hp := absurd (role_mem_add_share.mp hp) (h.no_role _)
  list hp := absurd (role_mem_add_share.mp hp) (h.no_role _)
  hidden hp := absurd (role_mem_add_share.mp hp) (h.no_role _)

theorem Fits.enrole (h : Fits v mms u) (hlive : mms ∈ v.live) (hno : ∀ p, .role p ∉ u) (hmem : mms ∉ v.list) :
    Fits v mms (u + {.role .kept}) where
  dead hnone := absurd hnone hlive
  count := by
    intro n hn
    rw [h.count hn, sum_weight_add]
    exact (add_zero _).symm
  one := by
    rw [countP_add_role]
    have hzero : u.countP (·.isRole) = 0 := by
      refine countP_eq_zero.mpr ?_
      rintro (share | p) ht
      · exact Bool.false_ne_true
      · exact absurd ht (hno p)
    omega
  bare := by
    intro p hp hb
    rcases mem_add.mp hp with hp | hp
    · exact absurd hp (hno p)
    · cases mem_singleton.mp hp
      exact absurd hb id
  list := by
    intro p hp
    rcases mem_add.mp hp with hp | hp
    · exact absurd hp (hno p)
    · cases mem_singleton.mp hp
      exact ⟨fun h' => absurd h' hmem, nofun⟩
  hidden := by
    intro p hp hh
    rcases mem_add.mp hp with hp | hp
    · exact absurd hp (hno p)
    · cases mem_singleton.mp hp
      exact absurd hh id

theorem Fits.mark (h : Fits v mms u) (hmem : mms ∈ v.list) (hnodup : v.list.Nodup)
    (hn : v.users mms = some 0) : Fits (v.mark mms) mms (u + {.role .marked}) := by
  rw [h.eq_zero_of_list hmem hn, zero_add]
  exact fits_role (setUser_users ..) ⟨fun h' => absurd h' hnodup.not_mem_erase, nofun⟩ nofun

theorem Fits.unlist {G : Set Nat} {marks : Bool}
    (h : Fits v mms (u + {.role (if marks then .marked else .kept)})) (hok : v.Ok G)
    (hn : v.users mms = some n) (hle : n ≤ 0) : Fits (v.unlist mms) mms (u + {.role (.freeing marks)}) := by
  have hlist : mms ∉ v.list := fun hmem => by
    have hlisted := (h.list (mem_add_self _)).mp hmem
    cases marks <;> cases hlisted
  have hzero : u = 0 := by
    cases marks with
    | true => exact h.eq_zero_of_bare trivial
    | false =>
      have hcount := h.count hn
      rw [sum_weight_add] at hcount
      refine eq_zero_of_sum_weight ?_ (le_trans (le_of_eq ?_) hle)
      · rintro (share | p) ht
        · exact share.weight_pos
        · exact absurd ht (h.no_role p)
      · rw [hcount]
        exact (add_zero _).symm
  have hw : n = (role (.freeing marks)).weight := by
    have hcount := h.count hn
    rw [hzero, sum_weight_add] at hcount
    cases marks <;> exact hcount
  rw [hzero, zero_add]
  refine fits_role (hn.trans (congrArg some hw)) ⟨fun hmem => absurd (List.mem_of_mem_erase hmem) hlist, nofun⟩
    fun _ => notMem_scatterMapDel (hok.map_once mms)

theorem Fits.kill {marks : Bool} (h : Fits v mms (u + {.role (.freeing marks)})) : Fits (v.kill mms) mms u := by
  obtain rfl := h.eq_zero_of_bare trivial
  have hnone : (v.kill mms).users mms = none := update_self ..
  exact ⟨fun _ => rfl, fun hn => absurd (hnone.symm.trans hn) nofun, Nat.zero_le 1,
    fun hp => absurd hp (notMem_zero _), fun hp => absurd hp (notMem_zero _),
    fun hp => absurd hp (notMem_zero _)⟩

end Fits

/-! ## Tokens of the threads -/

section Tokens

variable {v v' : Bool → View} {T T' U : Tokens} {A B : Multiset Token} {b : Bool} {mms x : Nat}

theorem only_self (b : Bool) (mms : Nat) (A : Multiset Token) : only b mms A b mms = A := by
  unfold only
  rw [Pi.single_eq_same, Pi.single_eq_same]

theorem only_of_ne {b' : Bool} (h : ¬(b' = b ∧ x = mms)) : only b mms A b' x = 0 := by
  unfold only
  by_cases hb : b' = b
  · subst hb
    rw [Pi.single_eq_same]
    exact Pi.single_eq_of_ne (fun hx => h ⟨rfl, hx⟩) _
  · rw [Pi.single_eq_of_ne hb]
    rfl

theorem fits_exchange (h : ∀ b x, Fits (v b) x (T b x)) (hT : T = U + only b mms A)
    (hT' : T' = U + only b mms B) (hother : v' (!b) = v !b) (hsame : ∀ x, x ≠ mms → Same (v b) (v' b) x)
    (hfit : ∀ u, Fits (v b) mms (u + A) → Fits (v' b) mms (u + B)) : ∀ b x, Fits (v' b) x (T' b x) := by
  subst hT hT'
  have helse : ∀ {b' x}, ¬(b' = b ∧ x = mms) → Same (v b') (v' b') x →
      Fits (v' b') x ((U + only b mms B) b' x) := by
    intro b' x hne hs
    have hx := h b' x
    rw [Pi.add_apply, Pi.add_apply, only_of_ne hne, add_zero] at hx ⊢
    exact hx.same hs
  intro b' x
  rcases Bool.eq_or_eq_not b' b with rfl | rfl
  · by_cases hx : x = mms
    · subst hx
      have hmms := h b' x
      rw [Pi.add_apply, Pi.add_apply, only_self] at hmms ⊢
      exact hfit _ hmms
    · exact helse (fun hand => hx hand.2) (hsame x hx)
  · refine helse (fun hand => Bool.not_ne_self b hand.1) ?_
    rw [hother]
    exact Same.refl ..

variable {σ : Type} {s : Threads σ}

theorem tokens_congr (s : Threads σ) (h : ∀ b, (v' b).caches = (v b).caches) : s.tokens v' = s.tokens v := by
  unfold tokens
  simp only [h]

theorem tokens_call {c : Call} {rest : Multiset Call} (hcall : s.calls = c ::ₘ rest) :
    s.tokens v = ({ s with calls := rest } : Threads σ).tokens v + c.tokens := by
  unfold tokens
  rw [hcall, map_cons, sum_cons]
  abel

theorem tokens_hold (s : Threads σ) (shares : Multiset (Bool × Nat × Share)) :
    (s.hold shares).tokens v = s.tokens v + (shares.map heldTokens).sum := by
  unfold tokens hold
  rw [map_add, sum_add]
  abel

def Threads.others (s : Threads σ) (b : Bool) (v : Bool → View) : Tokens :=
  (s.passOn s.mem b .idle).tokens v

theorem tokens_passOn (s : Threads σ) (mem : σ) (b : Bool) (p : Pass) :
    (s.passOn mem b p).tokens v = s.others b v + Pi.single b p.tokens := by
  have hpass : (fun b' => (update s.pass b p b').tokens) =
      (fun b' => (update s.pass b .idle b').tokens) + Pi.single b p.tokens := by
    funext b'
    rw [Pi.add_apply]
    by_cases hb : b' = b
    · subst hb
      rw [update_self, update_self, Pi.single_eq_same]
      exact (zero_add _).symm
    · rw [update_of_ne hb, update_of_ne hb, Pi.single_eq_of_ne hb, add_zero]
  unfold others tokens passOn
  rw [hpass]
  abel

theorem tokens_pass {p : Pass} (hpass : s.pass b = p) :
    s.tokens v = s.others b v + Pi.single b p.tokens := by
  rw [← tokens_passOn s s.mem b p]
  unfold passOn
  rw [← hpass, update_eq_self]

def Threads.uncached (s : Threads σ) (b : Bool) (v : Bool → View) : Tokens :=
  (s.held.map heldTokens).sum + (s.calls.map Call.tokens).sum + (fun b => (s.pass b).tokens) +
    update (fun b => keptTokens (v b).caches) b 0

theorem tokens_uncached (s : Threads σ) (b : Bool) (v : Bool → View) :
    s.tokens v = s.uncached b v + Pi.single b (keptTokens (v b).caches) := by
  have hcaches : (fun b' => keptTokens (v b').caches) =
      update (fun b => keptTokens (v b).caches) b 0 + Pi.single b (keptTokens (v b).caches) := by
    funext b'
    rw [Pi.add_apply]
    by_cases hb : b' = b
    · subst hb
      rw [update_self, Pi.single_eq_same, zero_add]
    · rw [update_of_ne hb, Pi.single_eq_of_ne hb, add_zero]
  unfold tokens uncached
  rw [add_assoc _ (update _ _ _), ← hcaches]

theorem uncached_congr (s : Threads σ) (hother : v' (!b) = v !b) : s.uncached b v' = s.uncached b v := by
  have hcaches : update (fun b => keptTokens (v' b).caches) b 0 =
      update (fun b => keptTokens (v b).caches) b 0 := by
    funext b'
    rcases Bool.eq_or_eq_not b' b with rfl | rfl
    · rw [update_self, update_self]
    · rw [update_of_ne (Bool.not_ne_self b), update_of_ne (Bool.not_ne_self b), hother]
  unfold uncached
  rw [hcaches]

theorem tokens_caches (s : Threads σ) {gone : List Nat} (hother : v' (!b) = v !b)
    (hgone : keptTokens (v b).caches = keptTokens (v' b).caches + keptTokens gone) :
    s.tokens v = s.tokens v' + Pi.single b (keptTokens gone) := by
  rw [tokens_uncached s b v, tokens_uncached s b v', uncached_congr s hother, hgone, Pi.single_add, add_assoc]

theorem keptTokens_cons (mms : Nat) (rest : List Nat) :
    keptTokens (mms :: rest) = Pi.single mms {.share .owner, .role .kept} + keptTokens rest := rfl

theorem keptTokens_singleton (mms : Nat) : keptTokens [mms] = Pi.single mms {.share .owner, .role .kept} :=
  add_zero _

theorem keptTokens_append (l l' : List Nat) : keptTokens (l ++ l') = keptTokens l + keptTokens l' := by
  unfold keptTokens
  rw [List.map_append, List.sum_append]

theorem tokens_next (after : After) : (Pass.next after).tokens = after.tokens := by
  rcases after with (_ | ⟨mms, rest⟩) | (_ | mms) <;> rfl

end Tokens

/-! ## Steps -/

section Steps

variable {σ : Type} {exec : Exec σ} {good : σ → Prop} {view : σ → Bool → View} {s s' : Threads σ} {mem : σ}
  {b : Bool} {mms x : Nat} {A B : Multiset Token} {c c' : Call} {rest calls : Multiset Call}
  {held : Multiset (Bool × Nat × Share)} {v' : View} {p p' : Pass} {R : Nat → Multiset Token}

theorem live_setUser {v : View} (h : mms ∈ v.live) (n : Int) : (v.setUser mms n).live = v.live :=
  Set.ext fun _ => View.mem_live_setUser h

theorem isSome_users {v : View} (h : x ∈ v'.live ↔ x ∈ v.live) :
    (v'.users x).isSome = (v.users x).isSome :=
  Bool.eq_iff_iff.mpr (by rw [Option.isSome_iff_ne_none, Option.isSome_iff_ne_none]; exact h)

theorem alive_congr {v v' : Bool → View} (h : ∀ b, x ∈ (v' b).live ↔ x ∈ (v b).live) :
    alive v' x = alive v x := by
  unfold alive
  rw [isSome_users (h false), isSome_users (h true)]

theorem Pass.Waits.mono {v : View} (h : p.Waits v) (hlive : v.live ⊆ v'.live) : p.Waits v' := by
  rcases p with _ | _ | _ | _ | _ | _ | _ | ⟨mms, _ | _ | x⟩ | ⟨mms, cnt, _ | _ | x⟩ | x
  all_goals first
    | exact trivial
    | exact hlive h
    | exact ⟨h.1, hlive h.2⟩

theorem Safe.keep (h : Safe good view s) (hgood : good s'.mem)
    (hlive : ∀ b, (view s'.mem b).live = (view s.mem b).live) (halloc : s'.allocated = s.allocated)
    (hfreed : s'.freed = s.freed) (hfits : ∀ b x, Fits (view s'.mem b) x (s'.tokens (view s'.mem) b x))
    (hwaits : ∀ b, (s'.pass b).Waits (view s.mem b)) : Safe good view s' where
  mem := hgood
  fits := hfits
  waits b := (hwaits b).mono (hlive b).ge
  once x := by
    rw [halloc, hfreed, alive_congr (v := view s.mem) fun b => by rw [hlive b]]
    exact h.once x

theorem Safe.calm (h : Safe good view s) (hgood : good s'.mem) (hview : view s'.mem = view s.mem)
    (halloc : s'.allocated = s.allocated) (hfreed : s'.freed = s.freed)
    (htok : s'.tokens (view s.mem) = s.tokens (view s.mem))
    (hwaits : ∀ b, (s'.pass b).Waits (view s.mem b)) : Safe good view s' := by
  refine h.keep hgood (fun b => by rw [hview]) halloc hfreed ?_ hwaits
  rw [hview, htok]
  exact h.fits

theorem view_eq {v v' : Bool → View} (h : v' b = v b) (hother : v' (!b) = v !b) : v' = v := by
  funext b'
  rcases Bool.eq_or_eq_not b' b with rfl | rfl
  · exact h
  · exact hother

theorem forall_bool {P : Bool → Prop} (h : P b) (hother : P !b) (b' : Bool) : P b' := by
  rcases Bool.eq_or_eq_not b' b with rfl | rfl
  · exact h
  · exact hother

theorem Safe.call_fits (h : Safe good view s) (hcall : s.calls = c ::ₘ rest) (hother : view mem (!b) = view s.mem !b)
    (hview : view mem b = v') (ht : Touched (view s.mem b) v' mms) (hold : c.tokens = only b mms A)
    (hnew : (held.map heldTokens).sum + (calls.map Call.tokens).sum =
      (s.held.map heldTokens).sum + (rest.map Call.tokens).sum + only b mms B)
    (hfit : ∀ u, Fits (view s.mem b) mms (u + A) → Fits v' mms (u + B)) :
    ∀ b x, Fits (view mem b) x
      (({ s with mem := mem, held := held, calls := calls } : Threads σ).tokens (view mem) b x) := by
  subst hview
  refine fits_exchange h.fits (U := ({ s with calls := rest } : Threads σ).tokens (view s.mem))
    ((tokens_call hcall).trans (by rw [hold])) ?_ hother ht.same hfit
  rw [← tokens_congr _ (forall_bool (P := fun b => (view mem b).caches = (view s.mem b).caches) ht.caches
    (congrArg View.caches hother))]
  unfold tokens
  rw [hnew]
  abel

theorem Safe.call (h : Safe good view s) (hcall : s.calls = c ::ₘ rest) (hgood : good mem)
    (hother : view mem (!b) = view s.mem !b) (hview : view mem b = v') (hlive : v'.live = (view s.mem b).live)
    (ht : Touched (view s.mem b) v' mms) (hold : c.tokens = only b mms A)
    (hnew : (held.map heldTokens).sum + (calls.map Call.tokens).sum =
      (s.held.map heldTokens).sum + (rest.map Call.tokens).sum + only b mms B)
    (hfit : ∀ u, Fits (view s.mem b) mms (u + A) → Fits v' mms (u + B)) :
    Safe good view { s with mem := mem, held := held, calls := calls } :=
  h.keep hgood (forall_bool (hview ▸ hlive) (congrArg View.live hother)) rfl rfl
    (h.call_fits hcall hother hview ht hold hnew hfit) h.waits

theorem only_zero (b : Bool) (mms : Nat) : only b mms 0 = 0 := by
  unfold only
  rw [Pi.single_zero, Pi.single_zero]

theorem call_ends (held : Multiset (Bool × Nat × Share)) (rest : Multiset Call) (b : Bool) (mms : Nat) :
    (held.map heldTokens).sum + (rest.map Call.tokens).sum =
      (held.map heldTokens).sum + (rest.map Call.tokens).sum + only b mms 0 := by
  rw [only_zero, add_zero]

theorem call_goes_on (held : Multiset (Bool × Nat × Share)) (rest : Multiset Call) (c : Call) :
    (held.map heldTokens).sum + ((c ::ₘ rest).map Call.tokens).sum =
      (held.map heldTokens).sum + (rest.map Call.tokens).sum + c.tokens := by
  rw [map_cons, sum_cons]
  abel

theorem call_holds (held : Multiset (Bool × Nat × Share)) (rest : Multiset Call) (b : Bool) (mms : Nat)
    (share : Share) :
    ((({(b, mms, share)} + held : Multiset _)).map heldTokens).sum + (rest.map Call.tokens).sum =
      (held.map heldTokens).sum + (rest.map Call.tokens).sum + only b mms {.share share} := by
  rw [map_add, sum_add, map_singleton, sum_singleton]
  show only b mms {.share share} + _ + _ = _
  abel

theorem Safe.call_calm (h : Safe good view s) (hcall : s.calls = c ::ₘ rest) (hgood : good mem)
    (hother : view mem (!b) = view s.mem !b) (hview : view mem b = view s.mem b)
    (hnew : (held.map heldTokens).sum + (calls.map Call.tokens).sum =
      (s.held.map heldTokens).sum + (rest.map Call.tokens).sum + c.tokens) :
    Safe good view { s with mem := mem, held := held, calls := calls } := by
  refine h.calm hgood (view_eq hview hother) rfl rfl ?_ h.waits
  rw [tokens_call hcall]
  unfold tokens
  rw [hnew]
  abel

theorem Safe.pass_fits (h : Safe good view s) (hpass : s.pass b = p) (hother : view mem (!b) = view s.mem !b)
    (hview : view mem b = v') (ht : Touched (view s.mem b) v' mms) (hold : p.tokens = R + Pi.single mms A)
    (hnew : p'.tokens = R + Pi.single mms B) (hfit : ∀ u, Fits (view s.mem b) mms (u + A) → Fits v' mms (u + B)) :
    ∀ b' x, Fits (view mem b') x ((s.passOn mem b p').tokens (view mem) b' x) := by
  subst hview
  have hcaches' : ∀ b, (view mem b).caches = (view s.mem b).caches :=
    forall_bool ht.caches (congrArg View.caches hother)
  refine fits_exchange h.fits (U := s.others b (view s.mem) + Pi.single b R) ?_ ?_ hother ht.same hfit
  · rw [tokens_pass hpass, hold, Pi.single_add, add_assoc]
    rfl
  · rw [tokens_congr _ hcaches', tokens_passOn, hnew, Pi.single_add, add_assoc]
    rfl

theorem Pass.waits_update {v : Bool → View} (h : ∀ b, (s.pass b).Waits (v b)) (hp : p.Waits (v b)) :
    ∀ b', (update s.pass b p b').Waits (v b') := by
  intro b'
  by_cases hb : b' = b
  · subst hb
    rw [update_self]
    exact hp
  · rw [update_of_ne hb]
    exact h b'

theorem Safe.pass_on (h : Safe good view s) (hpass : s.pass b = p) (hgood : good mem)
    (hother : view mem (!b) = view s.mem !b) (hview : view mem b = v') (hlive : v'.live = (view s.mem b).live)
    (ht : Touched (view s.mem b) v' mms) (hold : p.tokens = R + Pi.single mms A)
    (hnew : p'.tokens = R + Pi.single mms B) (hfit : ∀ u, Fits (view s.mem b) mms (u + A) → Fits v' mms (u + B))
    (hwaits : p'.Waits (view s.mem b)) : Safe good view (s.passOn mem b p') :=
  h.keep hgood (forall_bool (hview ▸ hlive) (congrArg View.live hother)) rfl rfl
    (h.pass_fits hpass hother hview ht hold hnew hfit) (Pass.waits_update h.waits hwaits)

theorem Safe.pass_calm (h : Safe good view s) (hpass : s.pass b = p) (hgood : good mem)
    (hview : view mem = view s.mem) (htok : p'.tokens = p.tokens) (hwaits : p'.Waits (view s.mem b)) :
    Safe good view (s.passOn mem b p') := by
  refine h.calm hgood hview rfl rfl ?_ (Pass.waits_update h.waits hwaits)
  rw [tokens_passOn, tokens_pass hpass, htok]

end Steps

end Amlogic.CodecMm
