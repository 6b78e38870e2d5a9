import Amlogic.Unifykey.Init
import Amlogic.Unifykey.Proofs.RoundTripProofs

/-!
# Initialisation of the key store: success is only reported with the key block in the buffer

`_amlkey_init` takes a buffer for a sign that all is done, and it has one also after it has failed. `key_unify_init`
takes every code that is not negative for success, and storage drivers have positive codes for failures.
-/

namespace Amlogic.Unifykey

open InitEvent

def Answers.code (a : Answers) : Int := (a.read.map Prod.fst).getD 0

/-! ## Secure storage -/

theorem amlkeyInit_again {a : Answers} {s : StoragekeyInfo} (h : s.buffer.isSome = true) :
    amlkeyInit a s = ⟨0, s, none⟩ := if_pos h

structure FirstAttempt (a : Answers) (r : Attempted StoragekeyInfo) : Prop where
  success : r.ret = 0 → ∃ m, r.state.buffer = some m ∧ r.fetched = some m
  /-- A failure leaves no buffer only if there is none. -/
  failure : r.ret ≠ 0 → a.getbuf = none → r.state.buffer = none
  negative : a.code ≤ 0 → r.ret ≤ 0

theorem amlkeyInit_first {a : Answers} {s : StoragekeyInfo} (h : s.buffer = none) :
    FirstAttempt a (amlkeyInit a s) := by
  unfold amlkeyInit
  rw [if_neg (by rw [h]; decide)]
  have hneg : ¬ (-einval = 0) := by decide
  cases hget : a.getbuf with
  | none => exact ⟨fun hzero => absurd hzero hneg, fun _ _ => rfl, fun _ => (by decide : -einval ≤ 0)⟩
  | some m =>
    have hno : ∀ {P : Prop}, a.getbuf = none → P := fun hnone => absurd (hget.symm.trans hnone) nofun
    split_ifs
    · exact ⟨fun hzero => absurd hzero hneg, fun _ => hno, fun _ => (by decide : -einval ≤ 0)⟩
    cases hread : a.read with
    | none => exact ⟨fun hzero => absurd hzero hneg, fun _ => hno, fun _ => (by decide : -einval ≤ 0)⟩
    | some p =>
      obtain ⟨ret, content, actualSize⟩ := p
      dsimp only
      by_cases hret : ret ≠ 0
      · rw [if_pos hret]
        refine ⟨fun hzero => absurd hzero hret, fun _ => hno, fun hcode => ?_⟩
        rwa [Answers.code, hread] at hcode
      rw [if_neg hret]
      by_cases hsize : 1 <<< 20 ≤ actualSize
      · rw [if_pos hsize]
        exact ⟨fun hzero => absurd hzero hneg, fun _ => hno, fun _ => (by decide : -einval ≤ 0)⟩
      · rw [if_neg hsize]
        exact ⟨fun _ => ⟨_, rfl, rfl⟩, fun _ => hno, fun _ => Int.le_refl 0⟩

/-! ## Normal storage -/

theorem normalkeyReadfromblock_ends {env : Env} {block : Option (List UInt8)} {size : Nat} {s s' : NormalKey} {ret : Int}
    (h : normalkeyReadfromblock env block size s = .ok (ret, s')) : ret = -1 ∨ ret = 0 ∧ s'.blockinited = 2 := by
  unfold normalkeyReadfromblock at h
  by_cases hb : s.blockinited ≠ 1
  · rw [if_pos hb] at h
    cases h
    exact .inl rfl
  rw [if_neg hb] at h
  rcases block with _ | m
  · cases h
    exact .inl rfl
  split_ifs at h
  · cases h
    exact .inl rfl
  obtain ⟨p, -, h⟩ := bind_eq_ok h
  split_ifs at h
  · cases h
    exact .inr ⟨rfl, rfl⟩
  · obtain ⟨s1, h1, h⟩ := bind_eq_ok h
    cases h
    exact .inr ⟨rfl, (readBlock_frame h1).2⟩

theorem normalkeyDeinit_inited (nk : NormalKey) : (normalkeyDeinit nk).blockinited = 0 := by
  unfold normalkeyDeinit
  split_ifs with h
  · exact h
  · rfl

structure NormalAttempt (a : Answers) (s : AmlkeyNormal) (r : Attempted AmlkeyNormal) : Prop where
  success : r.ret = 0 → r.state.nk.blockinited ≠ 0 ∧ ∃ m, r.state.normalBlock = some m ∧ r.fetched = some m
  /-- A failure leaves an uninitialised list uninitialised, and an initialised one alone. -/
  failure : r.ret ≠ 0 → s.nk.blockinited = 0 ∧ r.state.nk.blockinited = 0 ∨ r.state = s
  negative : a.code ≤ 0 → r.ret ≤ 0

theorem attemptNormal_ends {a : Answers} {s : AmlkeyNormal} {r : Attempted AmlkeyNormal}
    (h : attemptNormal a s = .ok r) : NormalAttempt a s r := by
  obtain ⟨⟨ret, s'⟩, hinit, h⟩ := bind_eq_ok h
  cases h
  unfold amlkeyInitNormal at hinit
  -- without a block, without a storage driver and for an initialised list nothing is done
  have hrefused : ∀ fetched, NormalAttempt a s ⟨-1, s, fetched⟩ := fun _ =>
    ⟨fun hzero => absurd hzero (by decide : (-1 : Int) ≠ 0), fun _ => .inr rfl, fun _ => (by decide : (-1 : Int) ≤ 0)⟩
  cases hblock : s.normalBlock with
  | none =>
    rw [hblock] at hinit
    cases hinit
    exact hrefused _
  | some m =>
    cases hread : a.read with
    | none =>
      rw [hblock, hread] at hinit
      cases hinit
      exact hrefused _
    | some p =>
      obtain ⟨code, content, size⟩ := p
      rw [hblock, hread] at hinit
      dsimp only [Option.map] at hinit
      by_cases hnk : (normalkeyInit s.nk).1 ≠ 0
      · rw [if_pos hnk] at hinit
        cases hinit
        exact hrefused _
      have hfresh : s.nk.blockinited = 0 := by
        by_contra hne
        exact hnk (by rw [normalkeyInit, if_pos hne]; exact (by decide : (-1 : Int) ≠ 0))
      rw [if_neg hnk] at hinit
      by_cases hcode : code ≠ 0
      · rw [if_pos hcode] at hinit
        cases hinit
        refine ⟨fun hzero => absurd hzero hcode, fun _ => .inl ⟨hfresh, normalkeyDeinit_inited _⟩, fun hle => ?_⟩
        rwa [Answers.code, hread] at hle
      obtain rfl := not_not.mp hcode
      obtain ⟨⟨ret1, nk⟩, hfrom, hinit⟩ := bind_eq_ok hinit
      rcases normalkeyReadfromblock_ends hfrom with rfl | ⟨rfl, hinited⟩
      · cases hinit
        exact ⟨fun hzero => absurd hzero (by decide : (-1 : Int) ≠ 0), fun _ => .inl ⟨hfresh, normalkeyDeinit_inited _⟩,
          fun _ => (by decide : (-1 : Int) ≤ 0)⟩
      · cases hinit
        refine ⟨fun _ => ⟨?_, _, rfl, if_pos (not_not.mp hnk)⟩, fun hne => absurd rfl hne, fun _ => Int.le_refl 0⟩
        rw [hinited]
        decide

/-! ## Runs -/

/-- No call of `_amlkey_init` has failed with the memory from bl31 in its hands. -/
def KeyStore.Unspoiled (s : KeyStore) : Prop := s.secure = true → ∀ ret ∈ s.answered, ret = 0

instance KeyStore.decidableUnspoiled (s : KeyStore) : Decidable s.Unspoiled := inferInstanceAs (Decidable (_ → _))

/-- An attempt is made on an unspoiled store, and behind `key_unify_init` the storage read has no positive code. -/
def InitEvent.Fair (s : KeyStore) : InitEvent → Prop
  | unify a => s.initFlag = true ∨ s.Unspoiled ∧ a.code ≤ 0
  | direct _ => s.Unspoiled

instance InitEvent.decidableFair (s : KeyStore) : ∀ e : InitEvent, Decidable (e.Fair s)
  | .unify _ => inferInstanceAs (Decidable (_ ∨ _))
  | .direct _ => inferInstanceAs (Decidable (KeyStore.Unspoiled s))

namespace KeyStore

variable {a : Answers} {s s' : KeyStore} {ret : Int}

def Loaded (s : KeyStore) : Prop := ∃ m ∈ s.fetched, s.keyBuffer = some m

/-- The key buffer is loaded and stays so. -/
def Settled (s : KeyStore) : Prop := s.Loaded ∧ (s.secure = false → s.normal.nk.blockinited ≠ 0)

structure Inv (s : KeyStore) : Prop where
  secure : s.secure = true → s.info.buffer.isSome = true → s.Loaded ∨ ¬ s.Unspoiled
  normal : s.secure = false → s.normal.nk.blockinited ≠ 0 → s.Loaded
  flag : s.initFlag = true → s.Settled
  reports : ∀ r ∈ s.reports, r.Honest

structure InitEnds (a : Answers) (ret : Int) (s s' : KeyStore) : Prop where
  inv : s'.Inv
  settled : ret = 0 → s'.Settled
  negative : a.code ≤ 0 → ret ≤ 0

theorem Inv.initSecure (h : s.Inv) (hclean : s.Unspoiled) (hsecure : s.secure = true)
    (hrun : s.init a = .ok (ret, s')) : InitEnds a ret s s' := by
  unfold init at hrun
  rw [if_pos hsecure] at hrun
  have hnormal : ∀ {P : Prop}, s.secure = false → P := fun hno => absurd (hsecure.symm.trans hno) nofun
  cases hbuffer : s.info.buffer with
  | some m =>
    have hsome : s.info.buffer.isSome = true := by rw [hbuffer]; rfl
    rw [amlkeyInit_again hsome] at hrun
    have hloaded : s.Loaded := (h.secure hsecure hsome).resolve_right (not_not.mpr hclean)
    obtain ⟨rfl, hs'⟩ := Prod.mk.inj (Except.ok.inj hrun)
    have hsame : s' = s := by
      rw [← hs', hbuffer]
      rfl
    rw [hsame]
    exact ⟨h, fun _ => ⟨hloaded, hnormal⟩, fun _ => Int.le_refl 0⟩
  | none =>
    have hfirst := amlkeyInit_first (a := a) hbuffer
    -- before this attempt there is no buffer, so nothing is settled
    have hflag : s.initFlag = true → False := by
      intro hf
      obtain ⟨m, -, hm⟩ := (h.flag hf).1
      rw [keyBuffer, if_pos hsecure, hbuffer] at hm
      cases hm
    generalize amlkeyInit a s.info = r at hrun hfirst
    cases hrun
    have hsettled : r.ret = 0 → Settled { s with
        info := r.state
        answered := if s.info.buffer.isNone && a.getbuf.isSome then r.ret :: s.answered else s.answered
        fetched := r.fetched.toList ++ s.fetched } := by
      intro hzero
      obtain ⟨m, hm, hfetched⟩ := hfirst.success hzero
      refine ⟨⟨m, ?_, ?_⟩, hnormal⟩
      · rw [hfetched]
        exact List.mem_cons_self
      · exact (if_pos hsecure).trans hm
    refine ⟨⟨fun _ hsome => ?_, hnormal, fun hf => (hflag hf).elim, h.reports⟩, hsettled, hfirst.negative⟩
    by_cases hzero : r.ret = 0
    · exact .inl (hsettled hzero).1
    · refine .inr fun hun => ?_
      cases hget : a.getbuf with
      | none =>
        have hnone := hfirst.failure hzero hget
        rw [hnone] at hsome
        cases hsome
      | some m =>
        have hmem := hun hsecure r.ret
        rw [hbuffer, hget] at hmem
        exact hzero (hmem List.mem_cons_self)

theorem Inv.initNormal (h : s.Inv) (hsecure : s.secure = false) (hrun : s.init a = .ok (ret, s')) :
    InitEnds a ret s s' := by
  unfold init at hrun
  rw [if_neg (by rw [hsecure]; decide)] at hrun
  obtain ⟨r, hattempt, hrun⟩ := bind_eq_ok hrun
  have hends := attemptNormal_ends hattempt
  cases hrun
  have hno : ∀ {P : Prop}, s.secure = true → P := fun hyes => absurd (hyes.symm.trans hsecure) nofun
  have hsettled : r.ret = 0 → Settled { s with normal := r.state, fetched := r.fetched.toList ++ s.fetched } := by
    intro hzero
    obtain ⟨hinited, m, hm, hfetched⟩ := hends.success hzero
    refine ⟨⟨m, ?_, ?_⟩, fun _ => hinited⟩
    · rw [hfetched]
      exact List.mem_cons_self
    · exact (if_neg (by rw [hsecure]; decide)).trans hm
  -- what was loaded is still there after a failure
  have hkept : r.state = s.normal → s.Loaded →
      Loaded { s with normal := r.state, fetched := r.fetched.toList ++ s.fetched } := by
    rintro hsame ⟨m, hmem, hm⟩
    rw [hsame]
    exact ⟨m, List.mem_append.mpr (.inr hmem), hm⟩
  refine ⟨⟨hno, fun _ hinited => ?_, fun hf => ?_, h.reports⟩, hsettled, hends.negative⟩
  · by_cases hzero : r.ret = 0
    · exact (hsettled hzero).1
    · rcases hends.failure hzero with ⟨-, hnone⟩ | hsame
      · exact absurd hnone hinited
      · refine hkept hsame (h.normal hsecure ?_)
        rwa [← hsame]
  · by_cases hzero : r.ret = 0
    · exact hsettled hzero
    · obtain ⟨hloaded, hinited⟩ := h.flag hf
      rcases hends.failure hzero with ⟨hnone, -⟩ | hsame
      · exact absurd hnone (hinited hsecure)
      · refine ⟨hkept hsame hloaded, fun _ => ?_⟩
        rw [hsame]
        exact hinited hsecure

theorem Inv.init (h : s.Inv) (hclean : s.Unspoiled) (hrun : s.init a = .ok (ret, s')) : InitEnds a ret s s' := by
  cases hsecure : s.secure with
  | true => exact h.initSecure hclean hsecure hrun
  | false => exact h.initNormal hsecure hrun

theorem Inv.report (h : s.Inv) (hsettled : ret = 0 → s.Loaded) : (s.report ret).Inv := by
  refine ⟨h.secure, h.normal, h.flag, fun r hr => ?_⟩
  rcases List.mem_cons.mp hr with rfl | hr
  · exact hsettled
  · exact h.reports r hr

theorem Inv.step (h : s.Inv) {e : InitEvent} (hfair : e.Fair s) (hstep : e.Step s s') : s'.Inv := by
  unfold InitEvent.Step next at hstep
  cases e with
  | direct a =>
    dsimp only at hstep
    split at hstep
    · rename_i ret s1 hrun
      cases hstep
      have hends := h.init hfair hrun
      exact hends.inv.report fun hzero => (hends.settled hzero).1
    · cases hstep
  | unify a =>
    dsimp only at hstep
    split at hstep
    · rename_i ret s1 hrun
      cases hstep
      unfold keyUnifyInit at hrun
      by_cases hflag : s.initFlag = true
      · rw [if_pos hflag] at hrun
        cases hrun
        exact h.report fun _ => (h.flag hflag).1
      · rw [if_neg hflag] at hrun
        obtain ⟨hclean, hcode⟩ := hfair.resolve_left hflag
        obtain ⟨⟨ret2, s2⟩, hinit, hrun⟩ := bind_eq_ok hrun
        have hends := h.init hclean hinit
        dsimp only at hrun
        by_cases hneg : ret2 < 0
        · rw [if_pos hneg] at hrun
          cases hrun
          exact hends.inv.report fun hzero => (hends.settled hzero).1
        · rw [if_neg hneg] at hrun
          cases hrun
          have hzero : ret2 = 0 := Int.le_antisymm (hends.negative hcode) (Int.not_lt.mp hneg)
          have hsettled := hends.settled hzero
          have hinv : Inv { s2 with initFlag := true } :=
            ⟨hends.inv.secure, hends.inv.normal, fun _ => hsettled, hends.inv.reports⟩
          exact hinv.report fun _ => hsettled.1
    · cases hstep

theorem boot_inv (env : Env) (blocksize : Option UInt32) (secure : Bool) : (boot env blocksize secure).Inv := by
  refine ⟨fun _ => nofun, fun _ hinited => ?_, nofun, nofun⟩
  refine absurd ?_ hinited
  unfold boot normalKeyInit
  cases secure with
  | true => rfl
  | false =>
    dsimp only
    split_ifs <;> rfl

end KeyStore

/-- In a run of fair attempts success is only reported with the stored key block in the key buffer. -/
theorem init_reports_honestly {env : Env} {blocksize : Option UInt32} {secure : Bool} {s : KeyStore}
    (hrun : Runs InitEvent.Step InitEvent.Fair (.boot env blocksize secure) s) : ∀ r ∈ s.reports, r.Honest := by
  have hinv : s.Inv := Runs.keeps (fun h hfair hstep => KeyStore.Inv.step h hfair hstep) hrun
    (KeyStore.boot_inv env blocksize secure)
  exact hinv.reports

def initEnv : Env := ⟨fun _ => .zero 32, fun _ _ => true, fun _ => true⟩

def readAnswer (code : Int) : Answers := ⟨initEnv, some [0, 0], true, some (code, [7, 8], 2)⟩

/-- Secure storage is read by the first of three attempts. -/
theorem init_reports_honestly_thrice : ∃ s : KeyStore,
    Runs InitEvent.Step InitEvent.Fair (.boot initEnv none true) s ∧ s.reports.map Report.ret = [0, 0, 0] ∧
      ∀ r ∈ s.reports, r.Honest := by
  have hplay : ([unify (readAnswer 0), .unify (readAnswer 0), .direct (readAnswer 0)].foldlM
      (guarded InitEvent.Fair next) (.boot initEnv none true)).any
      (fun s => decide (s.reports.map Report.ret = [0, 0, 0])) = true := by
    decide +kernel
  obtain ⟨s, hrun, hs⟩ : ∃ s, Runs InitEvent.Step InitEvent.Fair (.boot initEnv none true) s ∧ _ :=
    Runs.of_guarded hplay id
  exact ⟨s, hrun, of_decide_eq_true hs, init_reports_honestly hrun⟩

/-- The storage read fails, and the second attempt takes the buffer for a success. And `key_unify_init` takes the code 1
of a failed read for a success, with either storage. -/
theorem init_reports_dishonestly :
    (∃ s : KeyStore, Runs InitEvent.Step (fun _ _ => True) (.boot initEnv none true) s ∧
      s.reports.map Report.ret = [0, -5] ∧ s.fetched = [] ∧ ∃ r ∈ s.reports, ¬ r.Honest) ∧
    ∀ secure, ∃ s : KeyStore, Runs InitEvent.Step (fun _ _ => True) (.boot initEnv none secure) s ∧
      s.reports.map Report.ret = [0] ∧ s.fetched = [] ∧ ∃ r ∈ s.reports, ¬ r.Honest := by
  have hnext : ∀ {s s' : KeyStore} {e : InitEvent}, e.next s = some s' → True ∧ e.Step s s' := fun h => ⟨trivial, h⟩
  constructor
  · have hplay : ([direct (readAnswer (-5)), .direct (readAnswer 0)].foldlM next
        (.boot initEnv none true)).any (fun s => decide (s.reports.map Report.ret = [0, -5] ∧ s.fetched = [] ∧
          ∃ r ∈ s.reports, ¬ r.Honest)) = true := by
      decide +kernel
    obtain ⟨s, hrun, hs⟩ := Runs.of_play hplay hnext
    exact ⟨s, hrun, of_decide_eq_true hs⟩
  · intro secure
    have hplay : ∀ secure, ([unify (readAnswer 1)].foldlM next (.boot initEnv none secure)).any
        (fun s => decide (s.reports.map Report.ret = [0] ∧ s.fetched = [] ∧ ∃ r ∈ s.reports, ¬ r.Honest)) = true := by
      decide +kernel
    obtain ⟨s, hrun, hs⟩ := Runs.of_play (hplay secure) hnext
    exact ⟨s, hrun, of_decide_eq_true hs⟩

end Amlogic.Unifykey
