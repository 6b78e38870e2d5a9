import Amlogic.Keeper.Keeper

/-!
# The keeper: a handle is kept until it is unmasked

`user` is 1 when a handle enters the table and goes down with every unmask, but a second mask of a handle that
is in the table does not make it go up. So a handle is kept until all its masks are matched only if it is masked
once. Moreover the ids start again after `MAX_KEEP_ID`, and an unmask takes the first entry with its id.
-/

namespace Amlogic.Keeper

open Event

/-! ## The log -/

/-- What has happened since the keeper has released the handle for the last time. -/
def since (handle : Nat) (log : List Event) : List Event :=
  log.foldl (fun l e => if e = .released handle then [] else l ++ [e]) []

theorem since_append (handle : Nat) (log : List Event) (e : Event) :
    since handle (log ++ [e]) = if e = .released handle then [] else since handle log ++ [e] := by
  unfold since
  rw [List.foldl_append]
  rfl

/-- Each mask of the handle is matched by an unmask after it with the id it has returned: there are enough of them in
every last part of the events. -/
def Matched (handle : Nat) (events : List Event) : Prop :=
  ∀ keepId part, part <:+ events → part.count (.masked handle keepId) ≤ part.count (.unmasked keepId)

/-- Every handle is released only when all its masks are matched. -/
def StaysKept (log : List Event) : Prop :=
  ∀ handle before after, log = before ++ .released handle :: after → Matched handle (since handle before)

section Log

variable {log : List Event} {handle : Nat}

theorem staysKept_append {e : Event} (h : StaysKept log)
    (he : ∀ handle, e = .released handle → Matched handle (since handle log)) : StaysKept (log ++ [e]) := by
  intro handle before after hlog
  rcases List.eq_nil_or_concat after with rfl | ⟨after, e', rfl⟩
  · obtain ⟨rfl, hlast⟩ := List.append_inj' hlog rfl
    exact he handle (List.cons.inj hlast).1
  · rw [List.concat_eq_append, ← List.cons_append, ← List.append_assoc] at hlog
    exact h handle before after (List.append_inj' hlog rfl).1

theorem matched_of_single {keepId : Word} {l l' : List Event} (hl : ∀ k, masked handle k ∉ l)
    (hl' : ∀ k, masked handle k ∉ l') (hmem : unmasked keepId ∈ l') :
    Matched handle (l ++ .masked handle keepId :: l') := by
  intro k part hpart
  by_cases hk : k = keepId
  · subst hk
    have hzero : l.count (masked handle k) = 0 := List.count_eq_zero.mpr (hl k)
    have hzero' : l'.count (masked handle k) = 0 := List.count_eq_zero.mpr (hl' k)
    have hpos := List.count_pos_iff.mpr hmem
    obtain ⟨pre, hpre⟩ := hpart
    rcases List.append_eq_append_iff.mp hpre with ⟨t, rfl, rfl⟩ | ⟨t, rfl, ht⟩
    · -- the part has the mask and all after it
      rw [List.count_append] at hzero
      rw [List.count_append, List.count_append, List.count_cons_self, hzero', List.count_cons_of_ne (by simp)]
      omega
    · rcases List.suffix_cons_iff.mp ⟨t, ht.symm⟩ with rfl | hin
      · rw [List.count_cons_self, hzero', List.count_cons_of_ne (by simp)]
        omega
      · have := hin.sublist.count_le (masked handle k)
        omega
  · have hnone : masked handle k ∉ part := by
      intro hin
      have := hpart.subset hin
      simp only [List.mem_append, List.mem_cons, masked.injEq, hk, and_false, false_or] at this
      exact this.elim (hl k) (hl' k)
    rw [List.count_eq_zero.mpr hnone]
    exact Nat.zero_le _

end Log

/-! ## The table -/

section Table

variable {handle : Nat} {es : List KeepMemInfo} {i : Nat} {slot : Option Nat}

theorem scan_some {keepId : Word} (h : (scan handle es i slot).2 = some keepId) :
    ∃ e ∈ es, e.handle = some handle ∧ e.keepId = keepId := by
  induction es generalizing i slot with
  | nil => cases h
  | cons e es ih =>
    unfold scan at h
    split_ifs at h with hempty hsame
    · obtain ⟨e', he', hh⟩ := ih h
      exact ⟨e', List.mem_cons_of_mem _ he', hh⟩
    · exact ⟨e, List.mem_cons_self, hsame, Option.some.inj h⟩
    · obtain ⟨e', he', hh⟩ := ih h
      exact ⟨e', List.mem_cons_of_mem _ he', hh⟩

theorem scan_slot {j : Nat} (h : (scan handle es i slot).1 = some j) :
    slot = some j ∨ ∃ k e, j = i + k ∧ es[k]? = some e ∧ e.handle = none := by
  induction es generalizing i slot with
  | nil => exact .inl h
  | cons e es ih =>
    unfold scan at h
    split_ifs at h with hempty hsame
    · rcases ih h with hj | ⟨k, e', rfl, he', hnone⟩
      · exact .inr ⟨0, e, (Option.some.inj hj).symm, rfl, hempty.1⟩
      · exact .inr ⟨k + 1, e', by omega, he', hnone⟩
    · exact .inl h
    · rcases ih h with hj | ⟨k, e', rfl, he', hnone⟩
      · exact .inl hj
      · exact .inr ⟨k + 1, e', by omega, he', hnone⟩

end Table

/-! ## The invariant -/

/-- An entry of the table that keeps a handle: since it is there, it has been masked once, and `user` went down at
most as often as its id was unmasked. -/
def KeptOnce (log : List Event) (handle : Nat) (e : KeepMemInfo) : Prop :=
  ∃ l l' n, since handle log = l ++ .masked handle e.keepId :: l' ∧ (∀ k, masked handle k ∉ l) ∧
    (∀ k, masked handle k ∉ l') ∧ n ≤ l'.count (.unmasked e.keepId) ∧ e.user = 1 - BitVec.ofNat 32 n

structure State.Inv (s : State) : Prop where
  next : startKeepId.toInt ≤ s.mgr.nextId.toInt ∧ s.mgr.nextId.toInt < maxKeepId.toInt
  kept : ∀ (i : Nat) e handle, s.mgr.keepList[i]? = some e → e.handle = some handle → KeptOnce s.log handle e
  apart : ∀ (i j : Nat) e e', s.mgr.keepList[i]? = some e → s.mgr.keepList[j]? = some e' → e.handle ≠ none →
    e'.handle ≠ none → i ≠ j → e.handle ≠ e'.handle ∧ e.keepId ≠ e'.keepId
  absent : ∀ handle, (∀ e ∈ s.mgr.keepList, e.handle ≠ some handle) → ∀ k, masked handle k ∉ since handle s.log
  law : StaysKept s.log

section KeptOnce

variable {log : List Event} {handle : Nat} {e : KeepMemInfo} {ev : Event}

theorem KeptOnce.append (h : KeptOnce log handle e) (hrel : ev ≠ .released handle)
    (hmask : ∀ k, ev ≠ .masked handle k) : KeptOnce (log ++ [ev]) handle e := by
  obtain ⟨l, l', n, hsince, hl, hl', hn, huser⟩ := h
  refine ⟨l, l' ++ [ev], n, ?_, hl, fun k hk => ?_, ?_, huser⟩
  · rw [since_append, if_neg hrel, hsince, List.append_assoc, List.cons_append]
  · rcases List.mem_append.mp hk with hk | hk
    · exact hl' k hk
    · exact hmask k (List.mem_singleton.mp hk).symm
  · rw [List.count_append]
    omega

theorem KeptOnce.unmask (h : KeptOnce log handle e) (delay : BitVec 64) :
    KeptOnce (log ++ [.unmasked e.keepId]) handle { e with user := e.user - 1, delayOnJiffies64 := delay } := by
  obtain ⟨l, l', n, hsince, hl, hl', hn, huser⟩ := h
  refine ⟨l, l' ++ [.unmasked e.keepId], n + 1, ?_, hl, fun k hk => ?_, ?_, ?_⟩
  · rw [since_append, if_neg (by simp), hsince, List.append_assoc, List.cons_append]
  · rcases List.mem_append.mp hk with hk | hk
    · exact hl' k hk
    · cases List.mem_singleton.mp hk
  · simp only [List.count_append, List.count_singleton_self]
    omega
  · rw [huser, BitVec.ofNat_add]
    exact BitVec.sub_sub _ _ _

end KeptOnce

/-! ## The calls -/

theorem getElem?_modify_some {α : Type} {l : List α} {i j : Nat} {f : α → α} {x : α} :
    (l.modify i f)[j]? = some x ↔ ∃ y, l[j]? = some y ∧ x = if i = j then f y else y := by
  rw [List.getElem?_modify]
  cases l[j]? with
  | none => simp
  | some y => simp [eq_comm]

section Calls

variable {s : State}

theorem State.Inv.record (h : s.Inv) {ev : Event} (hrel : ∀ handle, ev ≠ .released handle)
    (hmask : ∀ handle k, ev ≠ .masked handle k) : State.Inv ⟨s.mgr, s.log ++ [ev]⟩ := by
  refine ⟨h.next, ?_, h.apart, ?_, ?_⟩
  · intro i e handle he hh
    exact (h.kept i e handle he hh).append (hrel handle) (hmask handle)
  · intro handle hnone k hk
    rw [since_append, if_neg (hrel handle), List.mem_append] at hk
    rcases hk with hk | hk
    · exact h.absent handle hnone k hk
    · exact hmask handle k (List.mem_singleton.mp hk).symm
  · exact staysKept_append h.law fun handle he => absurd he (hrel handle)

theorem State.Inv.unmask (h : s.Inv) (keepId : Word) (delay : BitVec 64) :
    (Call.exec s (.unmask keepId delay)).Inv := by
  show State.Inv ⟨(codecMmKeeperUnmaskKeeper keepId delay s.mgr).2, s.log ++ [.unmasked keepId]⟩
  unfold codecMmKeeperUnmaskKeeper
  have hsame : State.Inv ⟨s.mgr, s.log ++ [.unmasked keepId]⟩ := h.record (fun _ => by simp) (fun _ _ => by simp)
  split_ifs
  · exact hsame
  cases hi : s.mgr.keepList.findIdx? fun e => e.keepId = keepId with
  | none => exact hsame
  | some i =>
    obtain ⟨hlt, hid, -⟩ := List.findIdx?_eq_some_iff_getElem.mp hi
    have hid : s.mgr.keepList[i].keepId = keepId := of_decide_eq_true hid
    refine ⟨h.next, ?_, ?_, ?_, hsame.law⟩
    · intro j e handle he hh
      obtain ⟨e0, he0, rfl⟩ := getElem?_modify_some.mp he
      by_cases hij : i = j
      · subst hij
        rw [if_pos rfl] at hh ⊢
        obtain rfl : s.mgr.keepList[i] = e0 := Option.some.inj ((List.getElem?_eq_getElem hlt).symm.trans he0)
        rw [← hid]
        exact (h.kept i _ handle he0 hh).unmask delay
      · rw [if_neg hij] at hh ⊢
        exact hsame.kept j e0 handle he0 hh
    · intro j j' e e' he he'
      obtain ⟨e0, he0, rfl⟩ := getElem?_modify_some.mp he
      obtain ⟨e1, he1, rfl⟩ := getElem?_modify_some.mp he'
      have := h.apart j j' e0 e1 he0 he1
      split_ifs <;> exact this
    · intro handle hnone
      refine hsame.absent handle fun e he => ?_
      obtain ⟨j, hj⟩ := List.mem_iff_getElem?.mp he
      have := hnone _ (List.mem_of_getElem? (getElem?_modify_some.mpr ⟨e, hj, rfl⟩))
      split_ifs at this <;> exact this

theorem State.Inv.free (h : s.Inv) {i : Nat} {e : KeepMemInfo} {handle : Nat} (he : s.mgr.keepList[i]? = some e)
    (hh : e.handle = some handle) (huser : e.user.sle 0 = true) :
    State.Inv ⟨(freeKeep i s.mgr).2, s.log ++ [.released handle]⟩ := by
  refine ⟨h.next, ?_, ?_, ?_, ?_⟩
  · intro j e' handle' he' hh'
    obtain ⟨e0, he0, rfl⟩ := getElem?_modify_some.mp he'
    by_cases hij : i = j
    · rw [if_pos hij] at hh'
      cases hh'
    · rw [if_neg hij] at hh' ⊢
      refine (h.kept j e0 handle' he0 hh').append ?_ (fun _ => by simp)
      intro heq
      have := (h.apart i j e e0 he he0 (by simp [hh]) (by simp [hh']) hij).1
      rw [hh, hh', released.inj heq] at this
      exact this rfl
  · intro j j' e1 e2 he1 he2 hn1 hn2 hne
    obtain ⟨x1, hx1, rfl⟩ := getElem?_modify_some.mp he1
    obtain ⟨x2, hx2, rfl⟩ := getElem?_modify_some.mp he2
    by_cases hij : i = j
    · rw [if_pos hij] at hn1
      exact absurd rfl hn1
    by_cases hij' : i = j'
    · rw [if_pos hij'] at hn2
      exact absurd rfl hn2
    rw [if_neg hij] at hn1 ⊢
    rw [if_neg hij'] at hn2 ⊢
    exact h.apart j j' x1 x2 hx1 hx2 hn1 hn2 hne
  · intro handle' hnone k hk
    rw [since_append] at hk
    split_ifs at hk with heq
    · cases hk
    · rcases List.mem_append.mp hk with hk | hk
      · refine h.absent handle' (fun x hx hxh => ?_) k hk
        obtain ⟨j, hj⟩ := List.mem_iff_getElem?.mp hx
        have := hnone _ (List.mem_of_getElem? (getElem?_modify_some.mpr ⟨x, hj, rfl⟩))
        by_cases hij : i = j
        · subst hij
          rw [he] at hj
          cases hj
          rw [hh] at hxh
          exact heq (by rw [Option.some.inj hxh])
        · rw [if_neg hij] at this
          exact this hxh
      · cases List.mem_singleton.mp hk
  · refine staysKept_append h.law fun handle' heq => ?_
    obtain rfl := released.inj heq
    obtain ⟨l, l', n, hsince, hl, hl', hn, hu⟩ := h.kept i e handle he hh
    rw [hsince]
    refine matched_of_single hl hl' (List.count_pos_iff.mp (lt_of_lt_of_le ?_ hn))
    refine Nat.pos_of_ne_zero ?_
    rintro rfl
    rw [hu] at huser
    cases huser

theorem user_of_wantFree {force : Word} {now : BitVec 64} {e : KeepMemInfo} (hforce : force ≠ 1)
    (h : wantFree force now e = true) : e.handle ≠ none ∧ e.user.sle 0 = true := by
  unfold wantFree at h
  split_ifs at h with hskip
  refine ⟨fun hnone => hskip (Or.inl hnone), ?_⟩
  simp only [decide_eq_false hforce, Bool.false_or, Bool.or_eq_true, Bool.and_eq_true] at h
  rcases h with h | h
  · exact h.2
  · exact h.1

theorem State.Inv.passRound (h : s.Inv) {force : Word} (hforce : force ≠ 1) (now : Nat → BitVec 64) (i : Nat) :
    (passRound force now s i).Inv := by
  unfold Keeper.passRound freeRound
  cases he : s.mgr.keepList[i]? with
  | none =>
    show State.Inv ⟨s.mgr, s.log ++ []⟩
    rw [List.append_nil]
    exact h
  | some e =>
    dsimp only
    by_cases hwant : wantFree force (now i) e = true
    · obtain ⟨hne, huser⟩ := user_of_wantFree hforce hwant
      obtain ⟨handle, hh⟩ := Option.ne_none_iff_exists'.mp hne
      have hfst : (freeKeep i s.mgr).1 = some handle := by
        show s.mgr.keepList[i]?.bind KeepMemInfo.handle = some handle
        rw [he]
        exact hh
      rw [if_pos hwant, hfst]
      exact h.free he hh huser
    · rw [if_neg hwant]
      show State.Inv ⟨s.mgr, s.log ++ []⟩
      rw [List.append_nil]
      exact h

theorem nextIdAfter_spec {nextId : Word} (h : startKeepId.toInt ≤ nextId.toInt ∧ nextId.toInt < maxKeepId.toInt) :
    startKeepId.toInt ≤ (nextIdAfter nextId).toInt ∧ (nextIdAfter nextId).toInt < maxKeepId.toInt := by
  unfold nextIdAfter
  split_ifs with hwrap
  · exact ⟨le_refl _, by decide⟩
  · have hadd : (nextId + 1).toInt = nextId.toInt + 1 := by
      rw [BitVec.toInt_add_of_not_saddOverflow]
      · rfl
      · have : maxKeepId.toInt = 2147483646 := by decide
        have : startKeepId.toInt = 9 := by decide
        have : (1 : Word).toInt = 1 := by decide
        simp only [BitVec.saddOverflow, Bool.or_eq_true, decide_eq_true_eq]
        omega
    omega

/-- A handle is masked when it is not in the table, and gets an id that no handle of the table has. -/
def Call.MasksOnce (s : State) : Call → Prop
  | .mask (some handle) _ _ =>
    ∀ e ∈ s.mgr.keepList, e.handle ≠ none → e.handle ≠ some handle ∧ e.keepId ≠ s.mgr.nextId
  | _ => True

theorem State.Inv.enter (h : s.Inv) {handle i : Nat} {e : KeepMemInfo} (type : MemType)
    (honce : Call.MasksOnce s (.mask (some handle) type true)) (he : s.mgr.keepList[i]? = some e)
    (hempty : e.handle = none) :
    State.Inv ⟨{ s.mgr with
      nextId := nextIdAfter s.mgr.nextId
      keepList := s.mgr.keepList.modify i fun e =>
        { e with handle := some handle, keepId := s.mgr.nextId, type := type, user := 1 }
      num := s.mgr.num + 1 }, s.log ++ [.masked handle s.mgr.nextId]⟩ := by
  have hnone : ∀ e ∈ s.mgr.keepList, e.handle ≠ some handle := by
    intro x hx hxh
    exact (honce x hx (by simp [hxh])).1 hxh
  refine ⟨nextIdAfter_spec h.next, ?_, ?_, ?_, ?_⟩
  · intro j e' handle' he' hh'
    obtain ⟨x, hx, rfl⟩ := getElem?_modify_some.mp he'
    by_cases hij : i = j
    · rw [if_pos hij] at hh' ⊢
      cases hh'
      refine ⟨since handle s.log, [], 0, ?_, h.absent handle hnone, fun _ => List.not_mem_nil, Nat.zero_le _, rfl⟩
      rw [since_append, if_neg (by simp)]
    · rw [if_neg hij] at hh' ⊢
      refine (h.kept j x handle' hx hh').append (by simp) fun k heq => ?_
      obtain ⟨rfl, -⟩ := masked.inj heq
      exact hnone x (List.mem_of_getElem? hx) hh'
  · intro j j' e1 e2 he1 he2 hn1 hn2 hne
    obtain ⟨x1, hx1, rfl⟩ := getElem?_modify_some.mp he1
    obtain ⟨x2, hx2, rfl⟩ := getElem?_modify_some.mp he2
    by_cases hij : i = j
    · have hij' : i ≠ j' := fun h => hne (hij.symm.trans h)
      rw [if_neg hij'] at hn2
      rw [if_pos hij, if_neg hij']
      obtain ⟨h1, h2⟩ := honce x2 (List.mem_of_getElem? hx2) hn2
      exact ⟨Ne.symm h1, Ne.symm h2⟩
    · rw [if_neg hij] at hn1 ⊢
      by_cases hij' : i = j'
      · rw [if_pos hij']
        exact honce x1 (List.mem_of_getElem? hx1) hn1
      · rw [if_neg hij'] at hn2 ⊢
        exact h.apart j j' x1 x2 hx1 hx2 hn1 hn2 hne
  · intro handle' hnone' k hk
    rw [since_append, if_neg (by simp), List.mem_append] at hk
    have hne : handle' ≠ handle := by
      rintro rfl
      exact hnone' _ (List.mem_of_getElem? (getElem?_modify_some.mpr ⟨e, he, rfl⟩)) (by rw [if_pos rfl])
    rcases hk with hk | hk
    · refine h.absent handle' (fun x hx hxh => ?_) k hk
      obtain ⟨j, hj⟩ := List.mem_iff_getElem?.mp hx
      have := hnone' _ (List.mem_of_getElem? (getElem?_modify_some.mpr ⟨x, hj, rfl⟩))
      by_cases hij : i = j
      · subst hij
        rw [he] at hj
        cases hj
        rw [hempty] at hxh
        cases hxh
      · rw [if_neg hij] at this
        exact this hxh
    · exact hne (masked.inj (List.mem_singleton.mp hk)).1
  · exact staysKept_append h.law nofun

theorem State.Inv.mask (h : s.Inv) {handle : Option Nat} {type : MemType} {granted : Bool}
    (honce : Call.MasksOnce s (.mask handle type granted)) : (Call.exec s (.mask handle type granted)).Inv := by
  cases handle with
  | none => exact h
  | some handle =>
    unfold Call.exec codecMmKeeperMaskKeepMem
    dsimp only
    by_cases htype : type = .invalid
    · rw [if_pos htype]
      exact h
    rw [if_neg htype]
    cases granted with
    | false => exact h
    | true =>
      show State.Inv ⟨(maskSection handle type s.mgr).2.2,
        recordMask (some handle) (maskSection handle type s.mgr).1 s.log⟩
      unfold maskSection
      rcases hscan : Keeper.scan handle s.mgr.keepList 0 none with ⟨slot, same⟩
      cases same with
      | some keepId =>
        -- the handle is not in the table
        obtain ⟨e, he, hh, -⟩ := scan_some (congrArg Prod.snd hscan)
        exact absurd hh (honce e he (by simp [hh])).1
      | none =>
        cases slot with
        | none => exact ⟨nextIdAfter_spec h.next, h.kept, h.apart, h.absent, h.law⟩
        | some i =>
          rcases scan_slot (congrArg Prod.fst hscan) with hslot | ⟨k, e, hk, he, hempty⟩
          · cases hslot
          have hik : i = k := hk.trans (Nat.zero_add k)
          subst hik
          have hnonneg : ¬s.mgr.nextId.toInt < 0 := by
            have := h.next.1
            have : startKeepId.toInt = 9 := by decide
            omega
          dsimp only [recordMask]
          rw [if_neg hnonneg]
          exact h.enter type honce he hempty

end Calls

/-! ## Every run -/

section Runs

variable {s : State}

theorem inv_start : start.Inv := by
  refine ⟨by decide, ?_, ?_, ?_, ?_⟩
  · intro i e handle he hh
    obtain rfl := (List.mem_replicate.mp (List.mem_of_getElem? he)).2
    cases hh
  · intro i j e e' he _ hne
    obtain rfl := (List.mem_replicate.mp (List.mem_of_getElem? he)).2
    exact absurd rfl hne
  · intro handle _ k hk
    cases hk
  · intro handle before after hlog
    simp [start] at hlog

theorem inv_of_runs (h : Runs Call.Step Call.MasksOnce start s) : s.Inv := by
  refine h.keeps (P := State.Inv) ?_ inv_start
  rintro s c s' hinv honce ⟨hforce, rfl⟩
  cases c with
  | mask handle type granted => exact hinv.mask honce
  | unmask keepId delay => exact hinv.unmask keepId delay
  | freeAllKeep force now =>
    show ((List.range maxKeepFrame).foldl (passRound force now) s).Inv
    induction List.range maxKeepFrame generalizing s with
    | nil => exact hinv
    | cons i l ih => exact ih (hinv.passRound hforce now i) trivial

/-- If each handle is masked while it is not in the table, and no id is given out while a handle has it, then in every
run a handle is kept until its masks are matched. -/
theorem kept_until_unmasked (h : Runs Call.Step Call.MasksOnce start s) : StaysKept s.log :=
  (inv_of_runs h).law

instance (c : Call) : Decidable c.Unforced :=
  match c with
  | .freeAllKeep force _ => inferInstanceAs (Decidable (force ≠ 1))
  | .mask _ _ _ | .unmask _ _ => inferInstanceAs (Decidable True)

instance (c : Call) : Decidable (c.MasksOnce s) :=
  match c with
  | .mask (some handle) _ _ => inferInstanceAs (Decidable (∀ e ∈ s.mgr.keepList, e.handle ≠ none →
      e.handle ≠ some handle ∧ e.keepId ≠ s.mgr.nextId))
  | .mask none _ _ | .unmask _ _ | .freeAllKeep _ _ => inferInstanceAs (Decidable True)

def Call.after (ok : State → Call → Prop) [∀ s c, Decidable (ok s c)] (s : State) (c : Call) : Option State :=
  if ok s c ∧ c.Unforced then some (c.exec s) else none

theorem step_of_after {ok : State → Call → Prop} [∀ s c, Decidable (ok s c)] {s' : State} {c : Call}
    (h : c.after ok s = some s') : ok s c ∧ c.Step s s' := by
  unfold Call.after at h
  split_ifs at h with hc
  exact ⟨hc.1, hc.2, (Option.some.inj h).symm⟩

/-- A handle is masked, unmasked and freed. -/
theorem kept_until_unmasked_once :
    ∃ s, Runs Call.Step Call.MasksOnce start s ∧ released 1 ∈ s.log ∧ StaysKept s.log := by
  have hplay : ([Call.mask (some 1) .codecMm true, .unmask 9 5, .freeAllKeep 0 fun _ => 10].foldlM
      (Call.after Call.MasksOnce) start).any (fun s => decide (released 1 ∈ s.log)) = true := by
    decide +kernel
  obtain ⟨s, hrun, hrel⟩ := Runs.of_play hplay step_of_after
  exact ⟨s, hrun, of_decide_eq_true hrel, kept_until_unmasked hrun⟩

/-- Two clients mask a handle, one of them unmasks it, and it is released. -/
theorem released_while_masked :
    ¬∀ s, Runs Call.Step (fun _ _ => True) start s → StaysKept s.log := by
  intro hall
  have hplay : ([Call.mask (some 1) .codecMm true, .mask (some 1) .codecMm true, .unmask 9 5,
      .freeAllKeep 0 fun _ => 10].foldlM (Call.after fun _ _ => True) start).any (fun s =>
      decide (s.log = [.masked 1 9, .masked 1 9, .unmasked 9] ++ .released 1 :: [])) = true := by
    decide +kernel
  obtain ⟨s, hrun, hlog⟩ := Runs.of_play hplay step_of_after
  have hmatched := hall s hrun 1 _ _ (of_decide_eq_true hlog)
  exact absurd (hmatched 9 _ (List.suffix_refl _)) (by decide)

end Runs

end Amlogic.Keeper
