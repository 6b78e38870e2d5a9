import Amlogic.Keeper.Passes
import Amlogic.Keeper.Proofs.KeeperProofs

/-!
# The keeper and several threads: the table stays consistent

Between its look at an entry and its critical section, a pass relies on the entry staying as it is. Clients do not
break this: they change only the user counts, and those go down. Another pass does, since it may free the
entry first, and then a client may have put a new handle there.
-/

namespace Amlogic.Keeper

open PassEvent Threads

/-! ## Counting -/

theorem countP_modify {α : Type} {p : α → Bool} {f : α → α} {l : List α} {i : Nat} {x : α} (h : l[i]? = some x) :
    (l.modify i f).countP p + (if p x then 1 else 0) = l.countP p + if p (f x) then 1 else 0 := by
  induction l generalizing i with
  | nil => cases h
  | cons y l ih =>
    cases i with
    | zero =>
      cases h
      rw [List.modify_zero_cons, List.countP_cons, List.countP_cons]
      omega
    | succ i =>
      have := ih (i := i) h
      rw [List.modify_succ_cons, List.countP_cons, List.countP_cons]
      omega

theorem countP_set {α : Type} {p : α → Bool} {l : List α} {i : Nat} {x : α} (y : α) (h : l[i]? = some x) :
    (l.set i y).countP p + (if p x then 1 else 0) = l.countP p + if p y then 1 else 0 := by
  have := countP_modify (p := p) (f := fun _ => y) h
  rwa [← List.set_eq_modify] at this

def Mgr.kept (m : Mgr) : Nat := m.keepList.countP fun e => e.handle.isSome

def Mgr.has (m : Mgr) (handle : Nat) : Nat := m.keepList.countP fun e => e.handle = some handle

def Pass.holding : Pass → Option Nat
  | .release _ _ handle => some handle
  | _ => none

def Threads.taken (s : Threads) (handle : Nat) : Nat := s.passes.countP fun p => p.holding = some handle

structure Threads.Law (s : Threads) : Prop where
  num : s.mgr.num.toInt = s.mgr.kept
  /-- A pass that is not forced frees no handle that has a user. -/
  unforced : ∀ handle force user, freed handle force user ∈ s.log → force ≠ 1 → user.toInt ≤ 0
  /-- A handle is released as often as it was kept, except where it still is, or is about to be released. -/
  once : ∀ handle, s.log.count (.kept handle) =
    s.mgr.has handle + s.taken handle + s.log.count (.released handle)

def Ready (m : Mgr) (force : Word) (i : Nat) : Prop :=
  ∃ e, m.keepList[i]? = some e ∧ e.handle ≠ none ∧ (force ≠ 1 → e.user.toInt ≤ 0)

structure Threads.Inv (s : Threads) : Prop where
  length : s.mgr.keepList.length = maxKeepFrame
  num : s.mgr.num = BitVec.ofNat 32 s.mgr.kept
  unforced : ∀ handle force user, freed handle force user ∈ s.log → force ≠ 1 → user.toInt ≤ 0
  once : ∀ handle, s.log.count (.kept handle) =
    s.mgr.has handle + s.taken handle + s.log.count (.released handle)
  ready : ∀ (t : Nat) force i, s.passes[t]? = some (.free force i) → Ready s.mgr force i
  single : ∀ (t t' : Nat) force force' i i', s.passes[t]? = some (.free force i) →
    s.passes[t']? = some (.free force' i') → t = t'

def Pass.freeing : Pass → Bool
  | .free _ _ => true
  | _ => false

/-- A pass looks at an entry while no other pass is between its look and its critical section, and a user count does
not overflow. -/
def Act.Fair (s : Threads) : Act → Prop
  | .test t _ => ∀ t' < s.passes.length, t' ≠ t → s.passes[t']?.any Pass.freeing = false
  | .unmask keepId _ => ∀ e ∈ s.mgr.keepList, e.keepId = keepId → e.user ≠ 0x80000000
  | _ => True

/-! ## The critical sections -/

section Sections

variable {m : Mgr}

theorem mask_cases (handle : Option Nat) (type : MemType) (granted : Bool) (m : Mgr) :
    (∃ keepId m', codecMmKeeperMaskKeepMem handle type granted m = (keepId, false, m') ∧
      m'.keepList = m.keepList ∧ m'.num = m.num) ∨
    ∃ h keepId m' i e, handle = some h ∧ codecMmKeeperMaskKeepMem handle type granted m = (keepId, true, m') ∧
      m.keepList[i]? = some e ∧ e.handle = none ∧ m'.num = m.num + 1 ∧
      m'.keepList = m.keepList.modify i fun e =>
        { e with handle := some h, keepId := m.nextId, type := type, user := 1 } := by
  unfold codecMmKeeperMaskKeepMem
  cases handle with
  | none => exact .inl ⟨_, _, rfl, rfl, rfl⟩
  | some h =>
    dsimp only
    split_ifs
    · exact .inl ⟨_, _, rfl, rfl, rfl⟩
    · exact .inl ⟨_, _, rfl, rfl, rfl⟩
    unfold maskSection
    rcases hscan : scan h m.keepList 0 none with ⟨slot, _ | keepId⟩
    · cases slot with
      | none => exact .inl ⟨_, _, rfl, rfl, rfl⟩
      | some i =>
        rcases scan_slot (congrArg Prod.fst hscan) with hslot | ⟨k, e, hk, he, hempty⟩
        · cases hslot
        obtain rfl : i = k := hk.trans (Nat.zero_add k)
        exact .inr ⟨h, _, _, i, e, rfl, rfl, he, hempty, rfl, rfl⟩
    · exact .inl ⟨_, _, rfl, rfl, rfl⟩

theorem unmask_cases (keepId : Word) (delay : BitVec 64) (m : Mgr) :
    (codecMmKeeperUnmaskKeeper keepId delay m).2 = m ∨
    ∃ i e, m.keepList[i]? = some e ∧ e.keepId = keepId ∧
      (codecMmKeeperUnmaskKeeper keepId delay m).2 = { m with
        keepList := m.keepList.modify i fun e => { e with user := e.user - 1, delayOnJiffies64 := delay } } := by
  unfold codecMmKeeperUnmaskKeeper
  split_ifs
  · exact .inl rfl
  cases hi : m.keepList.findIdx? fun e => e.keepId = keepId with
  | none => exact .inl rfl
  | some i =>
    obtain ⟨hlt, hid, -⟩ := List.findIdx?_eq_some_iff_getElem.mp hi
    exact .inr ⟨i, m.keepList[i], List.getElem?_eq_getElem hlt, of_decide_eq_true hid, rfl⟩

variable {now : BitVec 64} {t : Nat}

theorem ready_of_wantFree {force : Word} {i : Nat} {e : KeepMemInfo}
    (he : m.keepList[i]? = some e) (hwant : wantFree force now e = true) : Ready m force i := by
  refine ⟨e, he, ?_, fun hforce => ?_⟩
  · rintro hnone
    unfold wantFree at hwant
    rw [if_pos (Or.inl hnone)] at hwant
    cases hwant
  · have := (user_of_wantFree hforce hwant).2
    rw [BitVec.sle_iff_toInt_le] at this
    exact this

theorem pred_le_zero {user : Word} (hle : user.toInt ≤ 0) (hmin : user ≠ 0x80000000) : (user - 1).toInt ≤ 0 := by
  have hmin' : user.toInt ≠ (0x80000000 : Word).toInt := fun h => hmin (BitVec.toInt_inj.mp h)
  have h1 : (0x80000000 : Word).toInt = -2147483648 := by decide
  have h2 : -2 ^ 31 ≤ user.toInt := BitVec.le_toInt user
  have h3 : (1 : Word).toInt = 1 := by decide
  have hsub : (user - 1).toInt = user.toInt - 1 := by
    rw [BitVec.toInt_sub_of_not_ssubOverflow]
    · rw [h3]
    · simp only [BitVec.ssubOverflow, h3, Bool.or_eq_true, decide_eq_true_eq]
      omega
  omega

end Sections

/-! ## The steps -/

section Steps

variable {s s' : Threads}

theorem taken_goto {p : Pass} (q : Pass) (hp : s.passes[t]? = some p) (handle : Nat) :
    (s.goto t q).taken handle + (if p.holding = some handle then 1 else 0) =
      s.taken handle + if q.holding = some handle then 1 else 0 := by
  have hcount := countP_set (p := fun p : Pass => decide (p.holding = some handle)) q hp
  simp only [decide_eq_true_eq] at hcount
  exact hcount

theorem getElem?_goto {t' : Nat} {p q r : Pass} (hp : s.passes[t]? = some p) (h : (s.goto t q).passes[t']? = some r) :
    t' = t ∧ r = q ∨ t' ≠ t ∧ s.passes[t']? = some r := by
  have hlt : t < s.passes.length := (List.getElem?_eq_some_iff.mp hp).1
  by_cases ht : t' = t
  · subst ht
    refine .inl ⟨rfl, ?_⟩
    rw [goto, List.getElem?_set_self hlt] at h
    exact (Option.some.inj h).symm
  · rw [goto, List.getElem?_set_ne (Ne.symm ht)] at h
    exact .inr ⟨ht, h⟩

theorem Threads.Inv.move (h : s.Inv) {p q : Pass} (hp : s.passes[t]? = some p) (hp' : p.holding = none)
    (hq : q.holding = none) (hfree : q.freeing = false) : (s.goto t q).Inv := by
  refine ⟨h.length, h.num, h.unforced, fun handle => ?_, ?_, ?_⟩
  · have := taken_goto q hp handle
    rw [hp', hq] at this
    have honce := h.once handle
    rw [Nat.add_right_cancel this]
    exact honce
  · intro t' force i ht'
    rcases getElem?_goto hp ht' with ⟨-, rfl⟩ | ⟨-, hold⟩
    · cases hfree
    · exact h.ready t' force i hold
  · intro t1 t2 f1 f2 i1 i2 h1 h2
    rcases getElem?_goto hp h1 with ⟨-, rfl⟩ | ⟨-, hold1⟩
    · cases hfree
    rcases getElem?_goto hp h2 with ⟨-, rfl⟩ | ⟨-, hold2⟩
    · cases hfree
    exact h.single t1 t2 f1 f2 i1 i2 hold1 hold2

theorem Threads.Inv.mask (h : s.Inv) {handle : Option Nat} {type : MemType} {granted : Bool}
    (hstep : Act.Step s (.mask handle type granted) s') : s'.Inv := by
  have hstep : some { s with
      mgr := (codecMmKeeperMaskKeepMem handle type granted s.mgr).2.2
      log := recordKept handle (codecMmKeeperMaskKeepMem handle type granted s.mgr).2.1 s.log } = some s' := hstep
  cases hstep
  rcases mask_cases handle type granted s.mgr with
    ⟨keepId, m', hm, hlist, hnum⟩ | ⟨hd, keepId, m', i, e, rfl, hm, he, hempty, hnum, hlist⟩
  · -- nothing happens to the table
    rw [hm]
    have hlog : recordKept handle false s.log = s.log := by
      cases handle <;> rfl
    rw [hlog]
    obtain ⟨num, keepList, nextId⟩ := m'
    obtain rfl := hlist
    obtain rfl := hnum
    exact ⟨h.length, h.num, h.unforced, h.once, h.ready, h.single⟩
  · -- an empty entry is used
    rw [hm]
    show Threads.Inv { s with mgr := m', log := s.log ++ [.kept hd] }
    refine ⟨?_, ?_, ?_, ?_, ?_, h.single⟩
    · rw [hlist, List.length_modify]
      exact h.length
    · have hcount := countP_modify (p := fun e : KeepMemInfo => e.handle.isSome) (f := fun e =>
        { e with handle := some hd, keepId := s.mgr.nextId, type := type, user := 1 }) he
      have hkept := h.num
      unfold Mgr.kept at hkept ⊢
      rw [hnum, hkept, hlist]
      simp only [hempty, Option.isSome_none, Bool.false_eq_true, if_false, Option.isSome_some, if_true,
        Nat.add_zero] at hcount
      rw [hcount, BitVec.ofNat_add]
      rfl
    · intro handle force user hmem
      exact h.unforced handle force user (by simpa using hmem)
    · intro handle
      have hcount := countP_modify (p := fun e : KeepMemInfo => e.handle = some handle) (f := fun e =>
        { e with handle := some hd, keepId := s.mgr.nextId, type := type, user := 1 }) he
      have honce := h.once handle
      unfold Mgr.has at honce ⊢
      simp only [hempty, reduceCtorEq, decide_false, Bool.false_eq_true, if_false, Nat.add_zero, Option.some.injEq,
        decide_eq_true_eq] at hcount
      rw [hlist, hcount, List.count_append, List.count_append, honce]
      have hrel : [kept hd].count (.released handle) = 0 := rfl
      have hkept : [kept hd].count (.kept handle) = if hd = handle then 1 else 0 := by
        rw [List.count_singleton]
        simp
      show _ = _ + s.taken handle + _
      rw [hrel, hkept]
      omega
    · intro t force j ht
      obtain ⟨x, hx, hne, huser⟩ := h.ready t force j ht
      refine ⟨x, ?_, hne, huser⟩
      rw [hlist, getElem?_modify_some]
      refine ⟨x, hx, (if_neg ?_).symm⟩
      rintro rfl
      rw [he] at hx
      cases hx
      exact hne hempty

theorem Threads.Inv.unmask (h : s.Inv) {keepId : Word} {delay : BitVec 64} (hfair : Act.Fair s (.unmask keepId delay))
    (hstep : Act.Step s (.unmask keepId delay) s') : s'.Inv := by
  cases hstep
  rcases unmask_cases keepId delay s.mgr with hm | ⟨i, e, he, hid, hm⟩
  · rw [hm]
    exact h
  · rw [hm]
    have hcount : ∀ p : KeepMemInfo → Bool, (∀ e u d, p { e with user := u, delayOnJiffies64 := d } = p e) →
        (s.mgr.keepList.modify i fun e => { e with user := e.user - 1, delayOnJiffies64 := delay }).countP p =
          s.mgr.keepList.countP p := by
      intro p hp
      have := countP_modify (p := p) (f := fun e => { e with user := e.user - 1, delayOnJiffies64 := delay }) he
      rw [hp e (e.user - 1) delay] at this
      omega
    refine ⟨?_, ?_, h.unforced, ?_, ?_, h.single⟩
    · rw [List.length_modify]
      exact h.length
    · refine h.num.trans ?_
      unfold Mgr.kept
      rw [hcount _ fun _ _ _ => rfl]
    · intro handle
      refine (h.once handle).trans ?_
      unfold Mgr.has
      rw [hcount _ fun _ _ _ => rfl]
      rfl
    · intro t force j ht
      obtain ⟨x, hx, hne, huser⟩ := h.ready t force j ht
      refine ⟨_, getElem?_modify_some.mpr ⟨x, hx, rfl⟩, ?_, fun hforce => ?_⟩
      · split_ifs <;> exact hne
      · have hle := huser hforce
        split_ifs with hij
        · subst hij
          rw [he] at hx
          cases hx
          have hmin := hfair e (List.mem_of_getElem? he) hid
          exact pred_le_zero hle hmin
        · exact hle

/-! ### What a pass does -/

theorem begin_inv {force : Word} (h : Act.Step s (.begin t force) s') :
    s.passes[t]? = some .idle ∧ s' = s.goto t (.test force 0) := by
  simp only [Act.Step, Act.exec] at h
  split at h
  · rename_i hp
    exact ⟨hp, (Option.some.inj h).symm⟩
  · cases h

theorem test_inv (h : Act.Step s (.test t now) s') :
    ∃ force i, s.passes[t]? = some (.test force i) ∧
      (s.mgr.keepList[i]? = none ∧ s' = s.goto t .idle ∨
        ∃ e, s.mgr.keepList[i]? = some e ∧
          s' = s.goto t (if wantFree force now e then .free force i else .test force (i + 1))) := by
  simp only [Act.Step, Act.exec] at h
  split at h
  · rename_i force i hp
    refine ⟨force, i, hp, ?_⟩
    split at h
    · rename_i he
      exact .inl ⟨he, (Option.some.inj h).symm⟩
    · rename_i e he
      exact .inr ⟨e, he, (Option.some.inj h).symm⟩
  · cases h

theorem free_inv (h : Act.Step s (.free t) s') :
    ∃ force i, s.passes[t]? = some (.free force i) ∧ ∀ e handle, s.mgr.keepList[i]? = some e → e.handle = some handle →
      s' = { s.goto t (.release force i handle) with
        mgr := (freeKeep i s.mgr).2
        log := s.log ++ [.freed handle force e.user] } := by
  simp only [Act.Step, Act.exec] at h
  split at h
  · rename_i force i hp
    refine ⟨force, i, hp, fun e handle he hh => ?_⟩
    have hfst : (freeKeep i s.mgr).1 = some handle := by
      show s.mgr.keepList[i]?.bind KeepMemInfo.handle = some handle
      rw [he]
      exact hh
    rw [he] at h
    split at h
    · rename_i handle' m hm
      rw [hm] at hfst
      cases hfst
      rw [hm]
      exact (Option.some.inj h).symm
    · rename_i m hm
      rw [hm] at hfst
      cases hfst
  · cases h

theorem release_inv (h : Act.Step s (.release t) s') :
    ∃ force i handle, s.passes[t]? = some (.release force i handle) ∧
      s' = { s.goto t (.test force (i + 1)) with log := s.log ++ [.released handle] } := by
  simp only [Act.Step, Act.exec] at h
  split at h
  · rename_i force i handle hp
    exact ⟨force, i, handle, hp, (Option.some.inj h).symm⟩
  · cases h

theorem Threads.Inv.test (h : s.Inv) (hfair : Act.Fair s (.test t now))
    (hstep : Act.Step s (.test t now) s') : s'.Inv := by
  obtain ⟨force, i, hp, ⟨-, rfl⟩ | ⟨e, he, rfl⟩⟩ := test_inv hstep
  · exact h.move hp rfl rfl rfl
  by_cases hwant : wantFree force now e = true
  · rw [if_pos hwant]
    have hready := ready_of_wantFree he hwant
    -- no other pass is where this one is now
    have hothers : ∀ (t' : Nat) f j, t' ≠ t → s.passes[t']? ≠ some (.free f j) := by
      intro t' f j hne ht'
      have := hfair t' (List.getElem?_eq_some_iff.mp ht').1 hne
      rw [ht'] at this
      cases this
    refine ⟨h.length, h.num, h.unforced, fun handle => ?_, ?_, ?_⟩
    · have htaken := taken_goto (.free force i) hp handle
      rw [Nat.add_right_cancel htaken]
      exact h.once handle
    · intro t' f j ht'
      rcases getElem?_goto hp ht' with ⟨-, heq⟩ | ⟨hne, hold⟩
      · obtain ⟨rfl, rfl⟩ := Pass.free.inj heq
        exact hready
      · exact absurd hold (hothers t' f j hne)
    · intro t1 t2 f1 f2 i1 i2 h1 h2
      rcases getElem?_goto hp h1 with ⟨rfl, -⟩ | ⟨hne, hold⟩
      · rcases getElem?_goto hp h2 with ⟨rfl, -⟩ | ⟨hne, hold⟩
        · rfl
        · exact absurd hold (hothers t2 f2 i2 hne)
      · exact absurd hold (hothers t1 f1 i1 hne)
  · rw [if_neg hwant]
    exact h.move hp rfl rfl rfl

theorem Threads.Inv.free (h : s.Inv) (hstep : Act.Step s (.free t) s') : s'.Inv := by
  obtain ⟨force, i, hp, hs'⟩ := free_inv hstep
  obtain ⟨e, he, hne, huser⟩ := h.ready t force i hp
  obtain ⟨hd, hh⟩ := Option.ne_none_iff_exists'.mp hne
  obtain rfl := hs' e hd he hh
  -- the entry is emptied, and this pass is the only one that was about to do that
  have hcount : ∀ p : KeepMemInfo → Bool, p { e with handle := none, delayOnJiffies64 := 0 } = false →
      (freeKeep i s.mgr).2.keepList.countP p + (if p e then 1 else 0) = s.mgr.keepList.countP p := by
    intro p hp
    have := countP_modify (p := p) (f := fun e => { e with handle := none, delayOnJiffies64 := 0 }) he
    rw [hp] at this
    exact this
  refine ⟨?_, ?_, ?_, ?_, ?_, ?_⟩
  · exact (List.length_modify ..).trans h.length
  · have := hcount (fun e => e.handle.isSome) rfl
    rw [hh] at this
    show s.mgr.num - 1 = BitVec.ofNat 32 (freeKeep i s.mgr).2.kept
    have hnum : s.mgr.kept = (freeKeep i s.mgr).2.kept + 1 := this.symm
    rw [h.num, hnum, BitVec.ofNat_add]
    exact BitVec.add_sub_cancel _ _
  · intro handle f user hmem hforce
    rcases List.mem_append.mp hmem with hmem | hmem
    · exact h.unforced handle f user hmem hforce
    · obtain ⟨rfl, rfl, rfl⟩ := freed.inj (List.mem_singleton.mp hmem)
      exact huser hforce
  · intro handle
    have hhas := hcount (fun e => e.handle = some handle) rfl
    have htaken := taken_goto (.release force i hd) hp handle
    have honce := h.once handle
    simp only [hh, decide_eq_true_eq, Option.some.injEq] at hhas
    simp only [Pass.holding, reduceCtorEq, if_false, Nat.add_zero, Option.some.injEq] at htaken
    show (s.log ++ _).count _ = (freeKeep i s.mgr).2.has handle + (s.goto t (.release force i hd)).taken handle +
      (s.log ++ _).count _
    unfold Mgr.has at honce ⊢
    have h1 : [freed hd force e.user].count (.kept handle) = 0 := rfl
    have h2 : [freed hd force e.user].count (.released handle) = 0 := rfl
    rw [List.count_append, List.count_append, htaken, honce, h1, h2]
    split_ifs at hhas ⊢ <;> omega
  · intro t' f j ht'
    rcases getElem?_goto hp ht' with ⟨-, heq⟩ | ⟨hne', hold⟩
    · cases heq
    · exact absurd (h.single t' t f force j i hold hp) hne'
  · intro t1 t2 f1 f2 i1 i2 h1 h2
    rcases getElem?_goto hp h1 with ⟨-, heq⟩ | ⟨-, hold1⟩
    · cases heq
    rcases getElem?_goto hp h2 with ⟨-, heq⟩ | ⟨-, hold2⟩
    · cases heq
    exact h.single t1 t2 f1 f2 i1 i2 hold1 hold2

theorem Threads.Inv.release (h : s.Inv) (hstep : Act.Step s (.release t) s') : s'.Inv := by
  obtain ⟨force, i, hd, hp, rfl⟩ := release_inv hstep
  refine ⟨h.length, h.num, ?_, ?_, ?_, ?_⟩
  · intro handle f user hmem
    exact h.unforced handle f user (by simpa using hmem)
  · intro handle
    have htaken := taken_goto (.test force (i + 1)) hp handle
    have honce := h.once handle
    simp only [Pass.holding, reduceCtorEq, if_false, Nat.add_zero, Option.some.injEq] at htaken
    show (s.log ++ [released hd]).count _ =
      s.mgr.has handle + (s.goto t (.test force (i + 1))).taken handle + (s.log ++ [released hd]).count _
    have h1 : [released hd].count (.kept handle) = 0 := rfl
    have h2 : [released hd].count (.released handle) = if hd = handle then 1 else 0 := by
      rw [List.count_singleton]
      simp
    rw [List.count_append, List.count_append, h1, h2, honce]
    split_ifs at htaken ⊢ <;> omega
  · intro t' f j ht'
    rcases getElem?_goto hp ht' with ⟨-, heq⟩ | ⟨-, hold⟩
    · cases heq
    · exact h.ready t' f j hold
  · intro t1 t2 f1 f2 i1 i2 h1 h2
    rcases getElem?_goto hp h1 with ⟨-, heq⟩ | ⟨-, hold1⟩
    · cases heq
    rcases getElem?_goto hp h2 with ⟨-, heq⟩ | ⟨-, hold2⟩
    · cases heq
    exact h.single t1 t2 f1 f2 i1 i2 hold1 hold2

end Steps

/-! ## Every run -/

section Runs

variable {s : Threads} {n : Nat}

theorem Threads.inv_start : (start n).Inv := by
  have hidle : ∀ (t : Nat) p, (start n).passes[t]? = some p → p = .idle := by
    intro t p hp
    exact (List.mem_replicate.mp (List.mem_of_getElem? hp)).2
  refine ⟨rfl, rfl, nofun, fun handle => ?_, ?_, ?_⟩
  · have hhas : (start n).mgr.has handle = 0 := List.countP_eq_zero.mpr fun e he => by
      obtain rfl := (List.mem_replicate.mp he).2
      simp
    have htaken : (start n).taken handle = 0 := List.countP_eq_zero.mpr fun p hp => by
      obtain rfl := (List.mem_replicate.mp hp).2
      simp [Pass.holding]
    rw [hhas, htaken]
    rfl
  · intro t force i ht
    cases hidle t _ ht
  · intro t _ force _ i _ ht
    cases hidle t _ ht

theorem threads_inv_of_runs (h : Runs Act.Step Act.Fair (Threads.start n) s) : s.Inv := by
  refine h.keeps (P := Threads.Inv) ?_ Threads.inv_start
  intro s a s' hinv hfair hstep
  cases a with
  | mask handle type granted => exact hinv.mask hstep
  | unmask keepId delay => exact hinv.unmask hfair hstep
  | begin t force =>
    obtain ⟨hp, rfl⟩ := begin_inv hstep
    exact hinv.move hp rfl rfl rfl
  | test t now => exact hinv.test hfair hstep
  | free t => exact hinv.free hstep
  | release t => exact hinv.release hstep

/-- If no pass looks at an entry while another one is about to free what it has looked at, and no user count
overflows, the table stays consistent in every run of any number of threads. -/
theorem keeper_table_consistent (h : Runs Act.Step Act.Fair (Threads.start n) s) : s.Law := by
  have hinv := threads_inv_of_runs h
  refine ⟨?_, hinv.unforced, hinv.once⟩
  have hle : s.mgr.kept ≤ maxKeepFrame := hinv.length ▸ List.countP_le_length
  have : s.mgr.kept ≤ 16 := hle
  rw [hinv.num, BitVec.toInt_eq_toNat_of_lt]
  · rw [BitVec.toNat_ofNat]
    omega
  · rw [BitVec.toNat_ofNat]
    omega

instance (a : Act) : Decidable (a.Fair s) :=
  match a with
  | .test t _ => inferInstanceAs (Decidable (∀ t' < s.passes.length, t' ≠ t → s.passes[t']?.any Pass.freeing = false))
  | .unmask keepId _ => inferInstanceAs (Decidable (∀ e ∈ s.mgr.keepList, e.keepId = keepId → e.user ≠ 0x80000000))
  | .mask _ _ _ | .begin _ _ | .free _ | .release _ => inferInstanceAs (Decidable True)

def Act.after (ok : Threads → Act → Prop) [∀ s a, Decidable (ok s a)] (s : Threads) (a : Act) : Option Threads :=
  if ok s a then a.exec s else none

theorem act_step_of_after {ok : Threads → Act → Prop} [∀ s a, Decidable (ok s a)] {s' : Threads} {a : Act}
    (h : a.after ok s = some s') : ok s a ∧ a.Step s s' := by
  unfold Act.after at h
  split_ifs at h with hc
  exact ⟨hc, h⟩

/-- A handle is masked and unmasked, and a pass frees it. -/
theorem keeper_table_consistent_once :
    ∃ s, Runs Act.Step Act.Fair (Threads.start 1) s ∧ released 1 ∈ s.log ∧ s.Law := by
  have hplay : ([Act.mask (some 1) .codecMm true, .unmask 9 5, .begin 0 0, .test 0 10, .free 0, .release 0].foldlM
      (Act.after Act.Fair) (Threads.start 1)).any (fun s => decide (released 1 ∈ s.log)) = true := by
    decide +kernel
  obtain ⟨s, hrun, hrel⟩ := Runs.of_play hplay act_step_of_after
  exact ⟨s, hrun, of_decide_eq_true hrel, keeper_table_consistent hrun⟩

/-- Two passes free an entry one after the other, and `num` goes down twice. Or a client masks a handle in between, and
the second pass frees it although it has a user. -/
theorem passes_disturb_each_other :
    (¬∀ s, Runs Act.Step (fun _ _ => True) (Threads.start 2) s → s.mgr.num.toInt = s.mgr.kept) ∧
    ¬∀ s, Runs Act.Step (fun _ _ => True) (Threads.start 2) s →
      ∀ handle force user, freed handle force user ∈ s.log → force ≠ 1 → user.toInt ≤ 0 := by
  constructor
  · intro hall
    have hplay : ([Act.mask (some 1) .codecMm true, .begin 0 1, .begin 1 1, .test 0 0, .test 1 0, .free 0, .free 1].foldlM
        (Act.after fun _ _ => True) (Threads.start 2)).any (fun s => decide (s.mgr.num.toInt ≠ s.mgr.kept)) = true := by
      decide +kernel
    obtain ⟨s, hrun, hne⟩ := Runs.of_play hplay act_step_of_after
    exact of_decide_eq_true hne (hall s hrun)
  · intro hall
    have hplay : ([Act.mask (some 1) .codecMm true, .unmask 9 5, .begin 0 2, .begin 1 2, .test 0 0, .test 1 0, .free 0,
        .mask (some 2) .codecMm true, .free 1].foldlM (Act.after fun _ _ => True) (Threads.start 2)).any
        (fun s => decide (freed 2 2 1 ∈ s.log)) = true := by
      decide +kernel
    obtain ⟨s, hrun, hmem⟩ := Runs.of_play hplay act_step_of_after
    exact absurd (hall s hrun 2 2 1 (of_decide_eq_true hmem) (by decide)) (by decide)

end Runs

end Amlogic.Keeper
