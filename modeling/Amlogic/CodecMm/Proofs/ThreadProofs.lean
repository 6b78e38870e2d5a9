import Amlogic.CodecMm.Proofs.ProtocolProofs

/-!
# Every interleaving is safe

Each step of a call or of a pass keeps the state of the threads in order.
-/

namespace Amlogic.CodecMm

open Multiset Pass

variable {share : Share} {r maxPage pageNum : Int} {second : Bool}

section Facts

variable {v : View} {mms x : Nat} {u : Multiset Token} {n : Int}

theorem Fits.not_bare (h : Fits v mms u) (hmap : some mms ∈ v.scmap) (hn : v.users mms = some n)
    (hpos : 0 ≤ n) {p : Phase} (hp : .role p ∈ u) : ¬p.Bare := by
  intro hb
  obtain ⟨u', rfl⟩ := exists_cons_of_mem hp
  rw [← singleton_add, add_comm] at h
  have hcount := h.count hn
  rw [sum_weight_add, h.eq_zero_of_bare hb, map_zero, sum_zero, zero_add] at hcount
  have hhidden := h.hidden (mem_add_self _)
  cases p with
  | born | freeing => exact hhidden trivial hmap
  | marked =>
    subst hcount
    exact absurd hpos (by decide)
  | owned | listed | kept => exact hb

theorem Fits.dec (h : Fits v mms (u + {.share share})) (hmap : some mms ∈ v.scmap) :
    Fits (v.dec mms share.weight) mms u := by
  obtain ⟨n, hn⟩ := Option.ne_none_iff_exists'.mp h.live
  obtain ⟨hpos, hfit⟩ := h.release hn
  unfold View.dec
  rw [hn]
  dsimp only
  rw [if_pos ⟨hmap, hpos⟩]
  exact hfit

theorem Touched.dec (v : View) (mms : Nat) (cnt : Int) : Touched v (v.dec mms cnt) mms := by
  rcases v.dec_cases mms cnt with he | ⟨n, -, -, -, he⟩
  · rw [he]
    exact .refl ..
  · rw [he]
    exact .setUser ..

theorem live_dec (v : View) (mms : Nat) (cnt : Int) : (v.dec mms cnt).live = v.live :=
  Set.ext fun _ => View.mem_live_dec cnt

theorem Touched.enlist (v : View) (mms : Nat) : Touched v (v.enlist mms) mms := by
  refine ⟨rfl, fun x hne => ⟨rfl, ?_, fun hx => (mem_scatterMapAdd hx).resolve_right hne⟩⟩
  show x ∈ v.list ++ [mms] ↔ _
  rw [List.mem_append, List.mem_singleton]
  exact or_iff_left hne

theorem Touched.unlist (v : View) (mms : Nat) : Touched v (v.unlist mms) mms :=
  ⟨rfl, fun _ hne => ⟨rfl, List.mem_erase_of_ne hne, mem_of_mem_scatterMapDel⟩⟩

theorem Touched.mark (v : View) (mms : Nat) : Touched v (v.mark mms) mms :=
  ⟨rfl, fun _ hne => ⟨Function.update_of_ne hne .., List.mem_erase_of_ne hne, id⟩⟩

theorem Touched.kill (v : View) (mms : Nat) : Touched v (v.kill mms) mms :=
  ⟨rfl, fun _ hne => ⟨Function.update_of_ne hne .., Iff.rfl, id⟩⟩

theorem live_kill (v : View) (mms : Nat) : x ∈ (v.kill mms).live ↔ x ∈ v.live ∧ x ≠ mms :=
  View.mem_live_free (v := v)

theorem Fits.unknown {p : Phase} (h : Fits v mms (u + {.role p})) (hp : p ≠ .listed) (hhidden : p.Hidden)
    (hcache : v.IsCache mms → .role .kept ∈ u) : mms ∈ v.live ∧ mms ∉ v.list ∧ some mms ∉ v.scmap ∧ ¬v.IsCache mms :=
  ⟨h.live, fun hmem => hp ((h.list (mem_add_self _)).mp hmem), h.hidden (mem_add_self _) hhidden,
    fun hc => h.no_role _ (hcache hc)⟩

end Facts

section Steps

variable {σ : Type} {exec : Exec σ} {good : σ → Prop} {view : σ → Bool → View} {s s' : Threads σ} {mem : σ}
  {b : Bool} {mms x : Nat} {A : Multiset Token}

theorem mem_keptTokens {l : List Nat} (h : mms ∈ l) : .role .kept ∈ keptTokens l mms := by
  induction l with
  | nil => cases h
  | cons y l ih =>
    rw [keptTokens_cons, Pi.add_apply, mem_add]
    rcases List.mem_cons.mp h with rfl | h
    · rw [Pi.single_eq_same]
      exact .inl (mem_cons_of_mem (mem_singleton_self _))
    · exact .inr (ih h)

theorem mem_caches {v : View} : mms ∈ v.caches ↔ v.IsCache mms := by
  unfold View.caches View.IsCache
  rw [List.mem_append, Option.mem_toList, Option.mem_toList]

theorem mem_tokens_of_cache {v : Bool → View} (s : Threads σ) (h : (v b).IsCache mms) :
    .role .kept ∈ s.tokens v b mms :=
  mem_add.mpr (Or.inr (mem_keptTokens (mem_caches.mpr h)))

theorem Safe.call_fit {c : Call} {rest : Multiset Call} (h : Safe good view s) (hcall : s.calls = c ::ₘ rest)
    (hold : c.tokens = only b mms A) :
    Fits (view s.mem b) mms (({ s with calls := rest } : Threads σ).tokens (view s.mem) b mms + A) := by
  have hfit := h.fits b mms
  rw [tokens_call hcall, hold, Pi.add_apply, Pi.add_apply, only_self] at hfit
  exact hfit

theorem Safe.pass_fit {p : Pass} {R : Nat → Multiset Token} (h : Safe good view s) (hpass : s.pass b = p)
    (hold : p.tokens = R + Pi.single mms A) :
    Fits (view s.mem b) mms (s.others b (view s.mem) b mms + R mms + A) := by
  have hfit := h.fits b mms
  rw [tokens_pass hpass, hold, Pi.add_apply, Pi.add_apply, Pi.single_eq_same, Pi.add_apply,
    Pi.single_eq_same, ← add_assoc] at hfit
  exact hfit

theorem Sound.same_mgt (hs : Sound exec good view) (hgood : good mem) {b' : Bool}
    (h : mms ∈ (view mem b).live) (h' : mms ∈ (view mem b').live) : b' = b := by
  rcases Bool.eq_or_eq_not b' b with he | rfl
  · exact he
  · exact absurd h' ((hs.ok hgood b).others h)

theorem Safe.start (h : Safe good view s) (c : Call) (hc : c.tokens = 0) :
    Safe good view { s with calls := c ::ₘ s.calls } := by
  refine h.calm h.mem rfl rfl rfl ?_ h.waits
  unfold Threads.tokens
  rw [map_cons, sum_cons, hc, zero_add]

theorem alive_eq (v : Bool → View) (b : Bool) (x : Nat) :
    alive v x = ((v b).users x).isSome.toNat + ((v !b).users x).isSome.toNat := by
  cases b with
  | false => rfl
  | true => exact Nat.add_comm ..

theorem isSome_of_live {v : View} (h : x ∈ v.live) : (v.users x).isSome = true :=
  Option.isSome_iff_ne_none.mpr h

theorem isSome_of_not_live {v : View} (h : x ∉ v.live) : (v.users x).isSome = false := by
  rw [not_not.mp h]
  rfl

theorem Safe.birth {good : σ → Prop} (h : Safe good view s) (hgood : good mem)
    (hother : view mem (!b) = view s.mem !b) (hdead : mms ∉ (view s.mem b).live)
    (hview : view mem b = (view s.mem b).setUser mms 0) (hmem : s'.mem = mem)
    (halloc : s'.allocated = Function.update s.allocated mms (s.allocated mms + 1)) (hfreed : s'.freed = s.freed)
    (hfits : ∀ b x, Fits (view mem b) x (s'.tokens (view mem) b x)) (hwaits : ∀ b, (s'.pass b).Waits (view s.mem b)) :
    Safe good view s' := by
  subst hmem
  have hlive : ∀ x, x ∈ (view s'.mem b).live ↔ x ∈ (view s.mem b).live ∨ x = mms := by
    intro x
    rw [hview]
    exact View.mem_live_born
  refine ⟨hgood, hfits, fun b' => ?_, fun x => ?_⟩
  · refine (hwaits b').mono ?_
    rcases Bool.eq_or_eq_not b' b with rfl | rfl
    · exact fun x hx => (hlive x).mpr (Or.inl hx)
    · rw [hother]
  · have honce := h.once x
    rw [alive_eq _ b] at honce ⊢
    rw [halloc, hfreed, hother]
    by_cases hx : x = mms
    · subst hx
      rw [isSome_of_not_live hdead] at honce
      rw [Function.update_self, isSome_of_live ((hlive x).mpr (Or.inr rfl))]
      simp only [Bool.toNat_false, Bool.toNat_true] at honce ⊢
      omega
    · rw [Function.update_of_ne hx, isSome_users ((hlive x).trans (or_iff_left hx))]
      exact honce

theorem Safe.death {good : σ → Prop} (h : Safe good view s) (hgood : good mem)
    (hother : view mem (!b) = view s.mem !b) (hlive : mms ∈ (view s.mem b).live)
    (hview : view mem b = (view s.mem b).kill mms) (hmem : s'.mem = mem) (halloc : s'.allocated = s.allocated)
    (hfreed : s'.freed = Function.update s.freed mms (s.freed mms + 1))
    (hfits : ∀ b x, Fits (view mem b) x (s'.tokens (view mem) b x))
    (hwaits : ∀ b, (s'.pass b).Waits (view mem b)) : Safe good view s' := by
  subst hmem
  have hlive' : ∀ x, x ∈ (view s'.mem b).live ↔ x ∈ (view s.mem b).live ∧ x ≠ mms := by
    intro x
    rw [hview]
    exact live_kill ..
  refine ⟨hgood, hfits, hwaits, fun x => ?_⟩
  have honce := h.once x
  rw [alive_eq _ b] at honce ⊢
  rw [halloc, hfreed, hother]
  by_cases hx : x = mms
  · subst hx
    rw [isSome_of_live hlive] at honce
    rw [Function.update_self, isSome_of_not_live fun hx => ((hlive' x).mp hx).2 rfl]
    simp only [Bool.toNat_false, Bool.toNat_true] at honce ⊢
    omega
  · rw [Function.update_of_ne hx, isSome_users ((hlive' x).trans (and_iff_left hx))]
    exact honce

/-! ## Tokens that a step moves -/

variable {c : Call} {rest calls : Multiset Call} {held : Multiset (Bool × Nat × Share)} {B : Multiset Token} {p : Pass}
  {after : After}

theorem no_tokens (mms : Nat) : (0 : Nat → Multiset Token) = 0 + Pi.single mms 0 := by
  rw [Pi.single_zero, add_zero]

theorem pair_eq (t t' : Token) : ({t, t'} : Multiset Token) = {t} + {t'} := rfl

theorem Fits.relist {v v' : View} {u : Multiset Token} (h : Fits v mms u) (hno : ∀ p, .role p ∉ u)
    (husers : v'.users mms = v.users mms) : Fits v' mms u where
  dead hnone := h.dead (husers ▸ hnone)
  count hn := h.count (husers ▸ hn)
  one := h.one
  bare hp := absurd hp (hno _)
  list hp := absurd hp (hno _)
  hidden hp := absurd hp (hno _)

theorem Fits.cache {v v' : View} {u : Multiset Token} (h : Fits v mms (u + {.role .listed}))
    (husers : v'.users mms = v.users mms) (hmem : mms ∉ v'.list) :
    Fits v' mms (u + {.share .owner, .role .kept}) := by
  have hno : ∀ p, .role p ∉ u + {.share .owner} := fun p hp => h.no_role p (role_mem_add_share.mp hp)
  have hfit := h.share_of_listed.relist hno husers
  rw [pair_eq, ← add_assoc]
  exact hfit.enrole hfit.live hno hmem

theorem Safe.pass_caches {gone : List Nat} (h : Safe good view s) (hpass : s.pass b = p) (hp : p.tokens = 0)
    (hgood : good mem) (hother : view mem (!b) = view s.mem !b) (hsame : ∀ x, Same (view s.mem b) (view mem b) x)
    (hgone : keptTokens (view s.mem b).caches = keptTokens (view mem b).caches + keptTokens gone) :
    Safe good view (s.passOn mem b (.next (.drop gone))) := by
  have hlive : (view mem b).live = (view s.mem b).live := Set.ext fun x => not_congr (by rw [(hsame x).users])
  refine h.keep hgood (forall_bool hlive (congrArg View.live hother)) rfl rfl ?_ (waits_update h.waits ?_)
  · have htokens : (s.passOn mem b (.next (.drop gone))).tokens (view mem) = s.tokens (view s.mem) := by
      rw [tokens_passOn, tokens_next, tokens_pass hpass, hp, Pi.single_zero, add_zero]
      exact (tokens_caches (s.passOn s.mem b .idle) hother hgone).symm
    intro b' x
    show Fits (view mem b') x ((s.passOn mem b (.next (.drop gone))).tokens (view mem) b' x)
    rw [htokens]
    rcases Bool.eq_or_eq_not b' b with rfl | rfl
    · exact (h.fits b' x).same (hsame x)
    · rw [hother]
      exact h.fits (!b) x
  · cases gone <;> exact trivial

theorem Pass.waits_free {v : View} {cnt : Nat} :
    (free mms cnt after).Waits v ↔ (unlist mms after).Waits v := by
  rcases after with _ | _ | x <;> exact Iff.rfl

theorem Pass.Waits.next {v : View} (h : (unlist mms after).Waits v) : (next after).Waits v := by
  rcases after with (_ | ⟨x, rest⟩) | _ | x
  · exact trivial
  · exact trivial
  · exact trivial
  · exact h.2

theorem fits_replace {v : Bool → View} {T U : Tokens} {old : Option Nat} (h : ∀ b x, Fits (v b) x (T b x))
    (hT : T = U + Pi.single b (keptTokens old.toList)) :
    ∀ b' x, Fits (v b') x
      ((U + ((old.toList.map fun x => (b, x, Share.owner) : Multiset _).map heldTokens).sum) b' x) := by
  cases old with
  | none =>
    have hzero : Pi.single b (keptTokens (none : Option Nat).toList) = (0 : Tokens) := Pi.single_zero b
    rw [hT, hzero] at h
    exact h
  | some y =>
    refine fits_exchange (b := b) (A := {.share .owner} + {.role .kept}) (B := {.share .owner}) h
      (hT.trans (by rw [Option.toList_some, keptTokens_singleton]; rfl)) ?_ rfl (fun x _ => Same.refl ..) ?_
    · show U + (map heldTokens {(b, y, Share.owner)}).sum = _
      rw [map_singleton, sum_singleton]
      rfl
    · intro u hfit
      rw [← add_assoc] at hfit
      exact hfit.unrole

theorem keptTokens_putCache (v : View) (second : Bool) (mms : Nat) :
    ∃ l, keptTokens v.caches = keptTokens l + keptTokens (if second then v.cache1 else v.cache0).toList ∧
      keptTokens (v.putCache second mms).caches = keptTokens l + Pi.single mms {.share .owner, .role .kept} := by
  cases second with
  | false =>
    refine ⟨v.cache1.toList, (keptTokens_append ..).trans (add_comm ..), ?_⟩
    rw [← keptTokens_singleton]
    exact (keptTokens_append ..).trans (add_comm ..)
  | true =>
    refine ⟨v.cache0.toList, keptTokens_append .., ?_⟩
    rw [← keptTokens_singleton]
    exact keptTokens_append ..

theorem putCache_users (v : View) (second : Bool) (mms : Nat) : (v.putCache second mms).users = v.users := by
  cases second <;> rfl

theorem putCache_list (v : View) (second : Bool) (mms : Nat) :
    (v.putCache second mms).list = v.list.erase mms := by
  cases second <;> rfl

theorem putCache_scmap (v : View) (second : Bool) (mms : Nat) : (v.putCache second mms).scmap = v.scmap := by
  cases second <;> rfl

/-! ## Calls -/

variable (hs : Sound exec good view) (h : Safe good view s)
include hs h

theorem Safe.decFail {smgt : Bool} {delayMs : Int} (hcall : s.calls = .dec smgt b mms share delayMs ::ₘ rest)
    (hexec : exec smgt (.dec mms share delayMs) s.mem r mem) (hr : r < 0)
    (hnew : (held.map heldTokens).sum + (calls.map Call.tokens).sum =
      (s.held.map heldTokens).sum + (rest.map Call.tokens).sum + only b mms {.share share}) :
    Safe good view { s with mem := mem, held := held, calls := calls } := by
  obtain ⟨hgood, hother, heffect⟩ := hs.step h.mem hexec trivial
  rcases heffect with ⟨-, -, hview⟩ | ⟨hpos, -⟩
  · exact h.call_calm hcall hgood hother hview hnew
  · exact absurd hpos (not_le.mpr hr)

/-- Every step of a driver's call keeps the threads in order. -/
theorem CallStep.safe (hstep : CallStep exec s s') :
    Safe good view s' := by
  cases hstep with
  | startInc mms | startAlloc b maxPage pageNum | startSwitch b on delayMs waitSizeM => exact h.start _ rfl
  | @startDec held b mms share delayMs hheld =>
    refine h.calm h.mem rfl rfl rfl ?_ h.waits
    have hsame : (Call.dec false b mms share delayMs).tokens = heldTokens (b, mms, share) := rfl
    unfold Threads.tokens
    rw [hheld, map_cons, sum_cons, map_cons, sum_cons, hsame]
    abel
  | @incOk rest b mms r mem hcall hexec hr =>
    obtain ⟨hgood, hother, heffect⟩ := hs.step h.mem hexec trivial
    rcases heffect with ⟨hneg, -⟩ | ⟨-, n, hn, hmap, hpos, hview⟩
    · exact absurd hr (not_le.mpr hneg)
    · refine h.call hcall hgood hother hview (live_setUser (View.mem_live_of_users hn) _) (.setUser ..)
        (only_zero ..).symm (call_holds ..) ?_
      intro u hfit
      rw [add_zero] at hfit
      exact hfit.acquire hn (hfit.not_bare hmap hn hpos) .keeper
  | @incFail rest b mms r mem hcall hexec hr =>
    obtain ⟨hgood, hother, heffect⟩ := hs.step h.mem hexec trivial
    rcases heffect with ⟨-, hview⟩ | ⟨hpos, -⟩
    · refine h.call_calm hcall hgood hother hview ?_
      cases b with
      | false => exact call_goes_on ..
      | true => exact (add_zero _).symm
    · exact absurd hpos (not_le.mpr hr)
  | @decOk rest smgt b mms share delayMs r mem hcall hexec hr =>
    obtain ⟨hgood, hother, heffect⟩ := hs.step h.mem hexec trivial
    rcases heffect with ⟨hneg, -⟩ | ⟨-, hmap, hview⟩
    · exact absurd hr (not_le.mpr hneg)
    -- the share belongs to the manager that knows the scatter
    obtain rfl : smgt = b :=
      hs.same_mgt h.mem (h.call_fit hcall rfl).live ((hs.ok h.mem smgt).map_live hmap)
    refine h.call hcall hgood hother hview (live_dec ..) (.dec ..) rfl (call_ends ..) fun u hfit => ?_
    rw [add_zero]
    exact hfit.dec hmap
  | decNext hcall hexec hr => exact Safe.decFail (s := s) hs h hcall hexec hr (call_goes_on ..)
  | decFail hcall hexec hr => exact Safe.decFail (s := s) hs h hcall hexec hr (call_holds ..)
  | @found rest b maxPage pageNum mms mem hcall hexec =>
    obtain ⟨hgood, hother, heffect⟩ := hs.step h.mem hexec trivial
    rcases heffect with ⟨hnone, -⟩ | ⟨mms', hsome, hmem, hn, hview⟩
    · cases hnone
    cases hsome
    refine h.call hcall hgood hother hview (live_setUser (View.mem_live_of_users hn) _) (.setUser ..)
      (only_zero ..).symm (call_goes_on ..) ?_
    intro u hfit
    rw [add_zero] at hfit
    refine hfit.acquire hn (fun hp => ?_) .owner
    rw [hfit.eq_zero_of_list hmem hn] at hp
    exact absurd hp (notMem_zero _)
  | notFound hcall hexec =>
    obtain ⟨hgood, hother, heffect⟩ := hs.step h.mem hexec trivial
    rcases heffect with ⟨-, hview⟩ | ⟨mms', hsome, -⟩
    · exact h.call_calm hcall hgood hother hview (call_goes_on ..)
    · cases hsome
  | @create rest b maxPage pageNum mms mem hcall hexec =>
    obtain ⟨hgood, hother, heffect⟩ := hs.step h.mem hexec trivial
    rcases heffect with ⟨hnone, -⟩ | ⟨mms', hsome, -, hdead, hview⟩
    · cases hnone
    cases hsome
    refine h.birth hgood hother hdead hview rfl rfl rfl ?_ h.waits
    refine h.call_fits hcall hother hview (.setUser ..) (only_zero b mms).symm (call_goes_on ..) fun u hfit => ?_
    rw [add_zero] at hfit
    exact hfit.birth (hs.ok h.mem b) hdead
  | createFail hcall hexec =>
    obtain ⟨hgood, hother, heffect⟩ := hs.step h.mem hexec trivial
    rcases heffect with ⟨-, hview⟩ | ⟨mms', hsome, -⟩
    · exact h.call_calm hcall hgood hother hview (add_zero _).symm
    · cases hsome
  | own hcall hexec =>
    have hlive := (h.call_fit hcall rfl).live
    obtain ⟨hgood, hother, hview⟩ := hs.step h.mem hexec hlive
    exact h.call hcall hgood hother hview (live_setUser hlive _) (.setUser ..) rfl (call_goes_on ..)
      fun u hfit => hfit.own
  | register hcall hexec =>
    have hpre := (h.call_fit hcall rfl).unknown nofun trivial fun hc => mem_tokens_of_cache _ hc
    obtain ⟨hgood, hother, hview⟩ := hs.step h.mem hexec hpre
    exact h.call hcall hgood hother hview rfl (.enlist ..) rfl (call_goes_on ..)
      fun u hfit => hfit.register.share_of_listed
  | want hcall hexec hr =>
    obtain ⟨hgood, hother, hview⟩ := hs.step h.mem hexec (h.call_fit hcall rfl).live
    exact h.call_calm hcall hgood hother hview (call_holds ..)
  | wantFail hcall hexec hr =>
    obtain ⟨hgood, hother, hview⟩ := hs.step h.mem hexec (h.call_fit hcall rfl).live
    exact h.call_calm hcall hgood hother hview (call_goes_on ..)
  | giveBack hcall hexec =>
    have hlive := (h.call_fit hcall rfl).live
    obtain ⟨hgood, hother, n, hn, hview⟩ := hs.step h.mem hexec hlive
    refine h.call hcall hgood hother hview (live_setUser hlive _) (.setUser ..) rfl (call_ends ..) fun u hfit => ?_
    rw [add_zero]
    exact (hfit.release hn).2
  | switch hcall hexec =>
    obtain ⟨hgood, hother, hview⟩ := hs.step h.mem hexec trivial
    exact h.call_calm hcall hgood hother hview (add_zero _).symm

/-! ## Passes -/

theorem Safe.enterCache {old : Option Nat}
    (hpass : s.pass b = .listed second mms) (hexec : exec b (.enterCache second mms) s.mem old mem) :
    Safe good view ((s.passOn mem b (if second then .idle else .create true)).hold
      (old.toList.map fun x => (b, x, Share.owner))) := by
  have hmem : mms ∈ (view s.mem b).list :=
    ((h.pass_fit hpass (zero_add _).symm).list (mem_add_self _)).mpr rfl
  have hok := hs.ok h.mem b
  obtain ⟨hgood, hother, hold, hview⟩ := hs.step h.mem hexec hmem
  obtain ⟨l, hl, hl'⟩ := keptTokens_putCache (view s.mem b) second mms
  rw [← hold] at hl
  rw [← hview] at hl'
  have hlive : (view mem b).live = (view s.mem b).live := by
    unfold View.live
    rw [hview, putCache_users]
  have hnone : tokens (if second then .idle else .create true) = 0 := by cases second <;> rfl
  -- first the scatter in the place of the cache is given up, then the new one takes its place
  have hfits := fits_replace (b := b) h.fits
    (U := (s.passOn s.mem b .idle).uncached b (view s.mem) + Pi.single b (keptTokens l) +
      only b mms {.role .listed}) (by
    rw [tokens_pass hpass]
    unfold Threads.others
    rw [tokens_uncached _ b, hl, Pi.single_add]
    abel)
  refine h.keep hgood (forall_bool hlive (congrArg View.live hother)) rfl rfl ?_
    (waits_update h.waits (by cases second <;> exact trivial))
  refine fits_exchange (b := b) hfits (A := {.role .listed})
    (B := {.share .owner, .role .kept}) (add_right_comm ..) ?_ hother ?_ ?_
  · show ((s.passOn mem b _).hold _).tokens (view mem) = _
    rw [tokens_hold, tokens_passOn, hnone, Pi.single_zero, add_zero]
    unfold Threads.others
    rw [tokens_uncached _ b, uncached_congr _ hother, hl', Pi.single_add]
    show _ + (_ + only b mms _) + _ = _
    abel
  · intro x hx
    show Same (view s.mem b) (view mem b) x
    rw [hview]
    refine ⟨by rw [putCache_users], ?_, by rw [putCache_scmap]; exact id⟩
    rw [putCache_list]
    exact List.mem_erase_of_ne hx
  · intro u hfit
    show Fits (view mem b) mms _
    rw [hview]
    refine hfit.cache (by rw [putCache_users]) ?_
    rw [putCache_list]
    exact hok.list_nodup.not_mem_erase

theorem PassStep.safe (hstep : PassStep exec s b s') :
    Safe good view s' := by
  cases hstep with
  | startCreate hpass hexec | startDrop hpass hexec | manage hpass hexec =>
    obtain ⟨hgood, hother, hview⟩ := hs.step h.mem hexec trivial
    exact h.pass_calm hpass hgood (view_eq hview hother) rfl trivial
  | startShift hpass hexec =>
    obtain ⟨hgood, hother, rfl, hview⟩ := hs.step h.mem hexec trivial
    refine h.pass_caches hpass rfl hgood hother ?_ ?_
    · rw [hview]
      exact fun x => ⟨rfl, Iff.rfl, id⟩
    · rw [hview]
      show keptTokens (_ ++ _) = keptTokens (_ ++ []) + _
      rw [keptTokens_append, List.append_nil, add_comm]
  | @startClear force mms less mem hpass hexec =>
    obtain ⟨hgood, hother, hless, heffect⟩ := hs.step h.mem hexec trivial
    have hok := hs.ok h.mem b
    rcases heffect with ⟨hnone, -⟩ | ⟨mms', hsome, hmem, hn, hview⟩
    · cases hnone
    cases hsome
    refine h.pass_on hpass hgood hother hview (live_setUser (hok.list_live hmem) _) (.mark ..) (no_tokens mms)
      (B := {.role .marked}) (add_comm ..) ?_ ?_
    · intro u hfit
      rw [add_zero] at hfit
      exact hfit.mark hmem hok.list_nodup hn
    · by_cases heq : less = some mms
      · rw [if_pos heq]
        exact trivial
      · rw [if_neg heq]
        cases less with
        | none => exact trivial
        | some x => exact ⟨fun hx => heq (congrArg some hx), hok.list_live (hless x rfl)⟩
  | @startLess force less mem hpass hexec =>
    obtain ⟨hgood, hother, hless, heffect⟩ := hs.step h.mem hexec trivial
    rcases heffect with ⟨-, hview⟩ | ⟨mms', hsome, -⟩
    · refine h.pass_calm hpass hgood (view_eq hview hother) (tokens_next _) ?_
      cases less with
      | none => exact trivial
      | some x => exact (hs.ok h.mem b).list_live (hless x rfl)
    · cases hsome
  | @create second mms mem hpass hexec =>
    obtain ⟨hgood, hother, heffect⟩ := hs.step h.mem hexec trivial
    rcases heffect with ⟨hnone, -⟩ | ⟨mms', hsome, -, hdead, hview⟩
    · cases hnone
    cases hsome
    refine h.birth hgood hother hdead hview rfl rfl rfl ?_ (waits_update h.waits trivial)
    refine h.pass_fits hpass hother hview (.setUser ..) (no_tokens mms) (zero_add _).symm fun u hfit => ?_
    rw [add_zero] at hfit
    exact hfit.birth (hs.ok h.mem b) hdead
  | @createFail second _ hpass hexec =>
    obtain ⟨hgood, hother, heffect⟩ := hs.step h.mem hexec trivial
    rcases heffect with ⟨-, hview⟩ | ⟨mms', hsome, -⟩
    · cases second <;> exact h.pass_calm hpass hgood (view_eq hview hother) rfl trivial
    · cases hsome
  | own hpass hexec =>
    have hlive := (h.pass_fit hpass (zero_add _).symm).live
    obtain ⟨hgood, hother, hview⟩ := hs.step h.mem hexec hlive
    exact h.pass_on hpass hgood hother hview (live_setUser hlive _) (.setUser ..) (zero_add _).symm (zero_add _).symm
      (fun u hfit => hfit.own) trivial
  | register hpass hexec =>
    have hpre := (h.pass_fit hpass (zero_add _).symm).unknown nofun trivial fun hc =>
      mem_add.mpr (Or.inl (mem_tokens_of_cache (s.passOn s.mem b .idle) hc))
    obtain ⟨hgood, hother, hview⟩ := hs.step h.mem hexec hpre
    exact h.pass_on hpass hgood hother hview rfl (.enlist ..) (zero_add _).symm (zero_add _).symm
      (fun u hfit => hfit.register) trivial
  | enterCache hpass hexec => exact h.enterCache hs hpass hexec
  | drop hpass hexec =>
    obtain ⟨hgood, hother, rfl, hview⟩ := hs.step h.mem hexec trivial
    refine h.pass_caches hpass rfl hgood hother ?_ ?_
    · rw [hview]
      exact fun x => ⟨rfl, Iff.rfl, id⟩
    · rw [hview]
      exact (zero_add _).symm
  | @release smgt mms rest r mem hpass hexec hr =>
    have hold : (Pass.release smgt mms rest).tokens =
        keptTokens rest + Pi.single mms ({.role .kept} + {.share .owner}) := by
      rw [add_comm ({.role .kept} : Multiset Token)]
      exact add_comm ..
    obtain ⟨hgood, hother, heffect⟩ := hs.step h.mem hexec trivial
    rcases heffect with ⟨hneg, -⟩ | ⟨-, hmap, hview⟩
    · exact absurd hr (not_le.mpr hneg)
    have hfit := h.pass_fit hpass hold
    rw [← add_assoc] at hfit
    obtain rfl : smgt = b := hs.same_mgt h.mem hfit.live ((hs.ok h.mem smgt).map_live hmap)
    refine h.pass_on hpass hgood hother hview (live_dec ..) (.dec ..) hold (B := {.role .kept}) (add_comm ..)
      (fun u hfit => ?_) trivial
    rw [← add_assoc] at hfit
    exact hfit.dec hmap
  | releaseNext hpass hexec hr =>
    obtain ⟨hgood, hother, heffect⟩ := hs.step h.mem hexec trivial
    rcases heffect with ⟨-, -, hview⟩ | ⟨hpos, -⟩
    · exact h.pass_calm hpass hgood (view_eq hview hother) rfl trivial
    · exact absurd hpos (not_le.mpr hr)
  | @releaseFail mms rest r mem hpass hexec hr =>
    obtain ⟨hgood, hother, heffect⟩ := hs.step h.mem hexec trivial
    rcases heffect with ⟨-, -, hview⟩ | ⟨hpos, -⟩
    · refine h.calm hgood (view_eq hview hother) rfl rfl ?_ (waits_update h.waits trivial)
      have hold : (Pass.release true mms rest).tokens =
          (Pass.unlist mms (.drop rest)).tokens + Pi.single mms {.share .owner} := by
        show Pi.single mms ({.share .owner} + {.role .kept}) + keptTokens rest =
          Pi.single mms {.role .kept} + keptTokens rest + Pi.single mms {.share .owner}
        rw [Pi.single_add]
        abel
      rw [tokens_hold, tokens_passOn, tokens_pass hpass, hold, Pi.single_add, map_singleton,
        sum_singleton, add_assoc]
      rfl
    · exact absurd hpos (not_le.mpr hr)
  | unlist hpass hexec =>
    have hlive := (h.pass_fit hpass (add_comm ..)).live
    have hwaits := h.waits b
    rw [hpass] at hwaits
    obtain ⟨hgood, hother, n, hn, heffect⟩ := hs.step h.mem hexec hlive
    rcases heffect with ⟨hnone, -⟩ | ⟨-, hle, hview⟩
    · cases hnone
    exact h.pass_on hpass hgood hother hview rfl (.unlist ..) (add_comm ..) (add_comm ..)
      (fun u hfit => hfit.unlist (hs.ok h.mem b) hn hle) (waits_free.mpr hwaits)
  | @unlistUsed mms after mem hpass hexec =>
    have hlive := (h.pass_fit hpass (add_comm ..)).live
    have hwaits := h.waits b
    rw [hpass] at hwaits
    obtain ⟨hgood, hother, n, hn, heffect⟩ := hs.step h.mem hexec hlive
    rcases heffect with ⟨-, hpos, hview⟩ | ⟨hsome, -⟩
    swap
    · exact absurd rfl hsome
    refine h.pass_on hpass hgood hother hview rfl (.refl ..) (B := 0) (add_comm ..) ?_ ?_ hwaits.next
    · rw [tokens_next, Pi.single_zero, add_zero]
    · intro u hfit
      rw [add_zero]
      cases hmarks : after.marks with
      | false =>
        rw [hmarks] at hfit
        exact hfit.unrole
      | true =>
        -- a marked scatter has a negative user count
        rw [hmarks] at hfit
        have hcount := hfit.count hn
        rw [sum_weight_add, hfit.eq_zero_of_bare trivial] at hcount
        subst hcount
        exact absurd hpos (by decide)
  | @free mms cnt after mem hpass hexec =>
    have hpre := (h.pass_fit hpass (add_comm ..)).unknown nofun trivial fun hc =>
      mem_add.mpr (Or.inl (mem_tokens_of_cache (s.passOn s.mem b .idle) hc))
    have hwaits := h.waits b
    rw [hpass] at hwaits
    obtain ⟨hgood, hother, hview⟩ := hs.step h.mem hexec hpre
    replace hview : view mem b = (view s.mem b).kill mms := hview
    -- the scatter that waits for the pass is another one
    have hlater : (Pass.unlist mms after).Waits (view mem b) := by
      rw [hview]
      rcases after with _ | _ | x
      · exact trivial
      · exact trivial
      · exact ⟨hwaits.1, (live_kill ..).mpr ⟨hwaits.2, hwaits.1⟩⟩
    refine h.death hgood hother hpre.1 hview rfl rfl rfl ?_ (waits_update (forall_bool (b := b) ?_ ?_) hlater.next)
    · refine h.pass_fits hpass hother hview (.kill ..) (B := 0) (add_comm ..) ?_ fun u hfit => ?_
      · rw [tokens_next, Pi.single_zero, add_zero]
      · rw [add_zero]
        exact hfit.kill
    · rw [hpass]
      exact waits_free.mpr hlater
    · rw [hother]
      exact h.waits !b
  | @less mms r _ hpass hexec =>
    have hlive := h.waits b
    rw [hpass] at hlive
    obtain ⟨hgood, hother, hview⟩ := hs.step h.mem hexec hlive
    exact h.pass_calm hpass hgood (view_eq hview hother) rfl trivial

theorem Step.safe (hstep : Step exec s s') :
    Safe good view s' := by
  rcases hstep with hstep | ⟨b, hstep⟩
  · exact hstep.safe hs h
  · exact hstep.safe hs h

end Steps

end Amlogic.CodecMm
