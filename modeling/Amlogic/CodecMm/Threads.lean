import Amlogic.CodecMm.System

/-!
# Interleaved calls (`codec_mm/codec_mm_scatter.c`)

Drivers call the scatter memory from many threads, and the monitor cleans up at the same time. Here a call
is cut into its sections: a section is what a thread does under the list lock, or one atomic operation on a
user count. Between two sections of one call, any other call may go on. The clean-up passes of a manager
hold its `monitor_lock`, so there is one at a time.

Code that only moves pages is one section; it does not look at the user counts.
-/

namespace Amlogic.CodecMm

/-! ## Sections -/

/-- Who holds a scatter. -/
inductive Share where
  | owner
  | keeper
  deriving DecidableEq

def Share.weight : Share → Int
  | .owner => 1000
  | .keeper => 100

/-- The sections of the code, with the types of their results. -/
inductive Sec : Type → Type 1
  /-- `codec_mm_scatter_inc_user_in1`, for a keeper. -/
  | inc (mms : Nat) : Sec Int
  /-- `codec_mm_scatter_dec_user_in1`. -/
  | dec (mms : Nat) (share : Share) (delayMs : Int) : Sec Int
  /-- The search of `codec_mm_scatter_alloc`. -/
  | find (maxPage : Int) : Sec (Option Nat)
  /-- `codec_mm_scatter_alloc_new`, up to `atomic_set(&mms->user_cnt, 0)`. -/
  | create (maxPage : Int) : Sec (Option Nat)
  /-- `atomic_set(&mms->user_cnt, 1000)`. -/
  | own (mms : Nat) : Sec Unit
  /-- The end of `codec_mm_scatter_alloc_new`. -/
  | register (mms : Nat) : Sec Unit
  /-- `codec_mm_scatter_alloc_want_pages_in`. -/
  | want (mms : Nat) (pageNum : Int) : Sec Int
  /-- `atomic_sub(1000, &alloced_mms->user_cnt)`. -/
  | giveBack (mms : Nat) : Sec Unit
  | needCaches : Sec Bool
  /-- A new cache; the result is the scatter that was in its place. -/
  | enterCache (second : Bool) (mms : Nat) : Sec (Option Nat)
  | dropsCaches : Sec Bool
  | takeCaches : Sec (List Nat)
  /-- The first cache is taken out in `codec_mm_scatter_free_all_ignorecache_in`. -/
  | shiftCache : Sec (Option Nat)
  /-- The first part of `codec_mm_scatter_scatter_clear`: the scatter to free, and one with unused pages. -/
  | clear (force : Bool) : Sec (Option Nat × Option Nat)
  /-- The first part of `codec_mm_scatter_free_on_nouser`: the number of pages, if the scatter is freed. -/
  | unlist (mms : Nat) : Sec (Option Nat)
  | free (mms cnt : Nat) : Sec Unit
  /-- `codec_mm_scatter_free_unused_pages`. -/
  | less (mms : Nat) : Sec Int
  | manage : Sec Unit
  /-- `codec_mm_scatter_mgt_delay_free_swith`. -/
  | switch (on : Bool) (delayMs waitSizeM : Int) : Sec Int

section Code

variable {ω : Type}

def allocFind (maxPage : Int) : Prog (Local ω) (Option Nat) := do
  let found ← findFree maxPage (← get).mgt.scatterList.reverse
  match found with
  | some mms => do
    let sc ← scatterOf mms
    modifyMgt fun m => m.setScatter mms { sc with
      userCnt := sc.userCnt + 1000, pageUsed := sc.pageCnt }
    return some mms
  | none => return none

def setUserCnt (mms : Nat) (f : Int → Int) : Prog (Local ω) Unit := do
  let sc ← scatterOf mms
  modifyMgt fun m => m.setScatter mms { sc with userCnt := f sc.userCnt }

def registerNew (mms : Nat) : Prog (Local ω) Unit := do
  let sc ← scatterOf mms
  modifyMgt fun m => (m.setScatter mms { sc with pageUsed := sc.pageCnt }).register mms

def putCache (second : Bool) (mms : Nat) : Prog (Local ω) (Option Nat) := do
  let m := (← get).mgt
  modifyMgt fun m =>
    if second then { m with scatterList := m.scatterList.erase mms, cacheSc1 := some mms }
    else { m with scatterList := m.scatterList.erase mms, cacheSc0 := some mms }
  return if second then m.cacheSc1 else m.cacheSc0

def cachesOut : Prog (Local ω) (List Nat) := do
  let m := (← get).mgt
  modifyMgt fun m => { m with cacheSc0 := none, cacheSc1 := none, cachedPages := 0 }
  return m.cacheSc0.toList ++ m.cacheSc1.toList

def cacheOut : Prog (Local ω) (Option Nat) := do
  let m := (← get).mgt
  modifyMgt fun m => { m with
    delayFreeOn := 0, cacheSc0 := m.cacheSc1, cacheSc1 := none, cachedPages := 0 }
  return m.cacheSc0

def unlistNouser (mms : Nat) : Prog (Local ω) (Option Nat) := do
  let sc ← scatterOf mms
  if sc.userCnt > 0 then return none
  else
    modifyMgt fun m => { m with
      scatterList := m.scatterList.erase mms
      scattersCnt := m.scattersCnt - 1
      scmap := scatterMapDel m.scmap mms }
    return some sc.pageCnt

variable (E : Externals ω)

def newScatter (maxPage : Int) : Prog (Local ω) (Option Nat) := do
  if maxPage < 0 then return none
  else
    match ← onPool (ext E.scAlloc) with
    | none => return none
    | some mms =>
      modifyMgt fun m => m.setScatter mms (Scatter.empty maxPage.toNat)
      return some mms

def cachesDue : Prog (Local ω) Bool := do
  let m := (← get).mgt
  if m.delayFreeOn ≤ 0 ∧ m.cacheSc0 ≠ none then
    let now ← onPool (ext E.jiffies)
    return now > m.delayFreeTimeoutJiffies64
  else return false

def clearPick (force : Bool) : Prog (Local ω) (Option Nat × Option Nat) := do
  let scan ← clearScan (← get).mgt.scatterList none 0
  let toFree ← chooseFree E scan force
  return (toFree, scan.lessPage)

def freeRest (mms cnt : Nat) : Prog (Local ω) Unit := do
  let sc ← scatterOf mms
  let _ ← (if sc.pageCnt > 0 then codecMmScatterFreeTailPagesIn E mms 0 0 0 else pure 0)
  modifyMgt fun m => m.raiseTryAlloc cnt
  onPool (ext fun w => ((), E.scFree mms w))
  modifyMgt fun m => { m with scatters := m.scatters.erase mms }

def Sec.code {α : Type} : Sec α → Prog (Local ω) α
  | .inc mms => codecMmScatterIncUserIn1 E mms 100
  | .dec mms share delayMs => codecMmScatterDecUserIn1 E mms delayMs share.weight
  | .find maxPage => allocFind maxPage
  | .create maxPage => newScatter E maxPage
  | .own mms => setUserCnt mms fun _ => 1000
  | .register mms => registerNew mms
  | .want mms pageNum => codecMmScatterAllocWantPagesIn E mms pageNum
  | .giveBack mms => setUserCnt mms fun n => n - 1000
  | .needCaches => do
    let m := (← get).mgt
    return m.delayFreeOn > 0 ∧ m.cacheSc0 = none
  | .enterCache second mms => putCache second mms
  | .dropsCaches => cachesDue E
  | .takeCaches => cachesOut
  | .shiftCache => cacheOut
  | .clear force => clearPick E force
  | .unlist mms => unlistNouser mms
  | .free mms cnt => freeRest E mms cnt
  | .less mms => codecMmScatterFreeUnusedPages E mms
  | .manage => codecMmScatterCacheManage E
  | .switch on delayMs waitSizeM => codecMmScatterMgtDelayFreeSwith E on delayMs waitSizeM

end Code

/-! ## Calls -/

/-- A call of a driver, at the section that comes next. -/
inductive Call where
  | inc (smgt : Bool) (mms : Nat)
  /-- A share of manager `b` is released; both managers are tried. -/
  | dec (smgt : Bool) (b : Bool) (mms : Nat) (share : Share) (delayMs : Int)
  | find (b : Bool) (maxPage pageNum : Int)
  | create (b : Bool) (maxPage pageNum : Int)
  | born (b : Bool) (mms : Nat) (pageNum : Int)
  | owned (b : Bool) (mms : Nat) (pageNum : Int)
  | want (b : Bool) (mms : Nat) (pageNum : Int)
  | giveBack (b : Bool) (mms : Nat)
  | switch (b : Bool) (on : Bool) (delayMs waitSizeM : Int)

/-- What a pass does when a scatter has been freed: it gives up the other caches, or it frees the unused
pages of a scatter. -/
inductive After where
  | drop (rest : List Nat)
  | less (mms : Option Nat)

/-- The clean-up pass of a manager, at the section that comes next. -/
inductive Pass where
  | idle
  | create (second : Bool)
  | born (second : Bool) (mms : Nat)
  | owned (second : Bool) (mms : Nat)
  | listed (second : Bool) (mms : Nat)
  | drop
  | release (smgt : Bool) (mms : Nat) (rest : List Nat)
  | unlist (mms : Nat) (after : After)
  | free (mms cnt : Nat) (after : After)
  | less (mms : Nat)

def Pass.next : After → Pass
  | .drop [] => .idle
  | .drop (mms :: rest) => .release false mms rest
  | .less none => .idle
  | .less (some mms) => .less mms

/-- The memory, the shares that are held, the calls that are going on and the two passes. The ghost counters
tell how often a scatter has been allocated and freed. -/
structure Threads (σ : Type) where
  mem : σ
  /-- The manager, the scatter and the kind of every share that no call is working on. -/
  held : Multiset (Bool × Nat × Share)
  calls : Multiset Call
  pass : Bool → Pass
  allocated : Nat → Nat
  freed : Nat → Nat

section Step

variable {σ : Type}

def Threads.goOn (s : Threads σ) (mem : σ) (calls : Multiset Call) : Threads σ :=
  { s with mem := mem, calls := calls }

def Threads.passOn (s : Threads σ) (mem : σ) (b : Bool) (p : Pass) : Threads σ :=
  { s with mem := mem, pass := Function.update s.pass b p }

def Threads.hold (s : Threads σ) (shares : Multiset (Bool × Nat × Share)) : Threads σ :=
  { s with held := shares + s.held }

def Threads.countAlloc (s : Threads σ) (mms : Nat) : Threads σ :=
  { s with allocated := Function.update s.allocated mms (s.allocated mms + 1) }

def Threads.countFree (s : Threads σ) (mms : Nat) : Threads σ :=
  { s with freed := Function.update s.freed mms (s.freed mms + 1) }

def Exec (σ : Type) := ∀ {α : Type}, Bool → Sec α → σ → α → σ → Prop

inductive CallStep (exec : Exec σ) (s : Threads σ) : Threads σ → Prop
  | startInc (mms : Nat) : CallStep exec s { s with calls := .inc false mms ::ₘ s.calls }
  | startDec {held : Multiset (Bool × Nat × Share)} {b : Bool} {mms : Nat} {share : Share} (delayMs : Int)
      (hheld : s.held = (b, mms, share) ::ₘ held) :
      CallStep exec s { s with held := held, calls := .dec false b mms share delayMs ::ₘ s.calls }
  | startAlloc (b : Bool) (maxPage pageNum : Int) :
      CallStep exec s { s with calls := .find b maxPage pageNum ::ₘ s.calls }
  | startSwitch (b : Bool) (on : Bool) (delayMs waitSizeM : Int) :
      CallStep exec s { s with calls := .switch b on delayMs waitSizeM ::ₘ s.calls }
  | incOk {rest smgt mms r mem} (hcall : s.calls = .inc smgt mms ::ₘ rest)
      (hexec : exec smgt (.inc mms) s.mem r mem) (hr : 0 ≤ r) :
      CallStep exec s ((s.goOn mem rest).hold {(smgt, mms, .keeper)})
  | incFail {rest smgt mms r mem} (hcall : s.calls = .inc smgt mms ::ₘ rest)
      (hexec : exec smgt (.inc mms) s.mem r mem) (hr : r < 0) :
      CallStep exec s (s.goOn mem (if smgt then rest else .inc true mms ::ₘ rest))
  | decOk {rest smgt b mms share delayMs r mem} (hcall : s.calls = .dec smgt b mms share delayMs ::ₘ rest)
      (hexec : exec smgt (.dec mms share delayMs) s.mem r mem) (hr : 0 ≤ r) :
      CallStep exec s (s.goOn mem rest)
  | decNext {rest b mms share delayMs r mem} (hcall : s.calls = .dec false b mms share delayMs ::ₘ rest)
      (hexec : exec false (.dec mms share delayMs) s.mem r mem) (hr : r < 0) :
      CallStep exec s (s.goOn mem (.dec true b mms share delayMs ::ₘ rest))
  | decFail {rest b mms share delayMs r mem} (hcall : s.calls = .dec true b mms share delayMs ::ₘ rest)
      (hexec : exec true (.dec mms share delayMs) s.mem r mem) (hr : r < 0) :
      CallStep exec s ((s.goOn mem rest).hold {(b, mms, share)})
  | found {rest b maxPage pageNum mms mem} (hcall : s.calls = .find b maxPage pageNum ::ₘ rest)
      (hexec : exec b (.find maxPage) s.mem (some mms) mem) :
      CallStep exec s (s.goOn mem (.want b mms pageNum ::ₘ rest))
  | notFound {rest b maxPage pageNum mem} (hcall : s.calls = .find b maxPage pageNum ::ₘ rest)
      (hexec : exec b (.find maxPage) s.mem none mem) :
      CallStep exec s (s.goOn mem (.create b maxPage pageNum ::ₘ rest))
  | create {rest b maxPage pageNum mms mem} (hcall : s.calls = .create b maxPage pageNum ::ₘ rest)
      (hexec : exec b (.create maxPage) s.mem (some mms) mem) :
      CallStep exec s ((s.goOn mem (.born b mms pageNum ::ₘ rest)).countAlloc mms)
  | createFail {rest b maxPage pageNum mem} (hcall : s.calls = .create b maxPage pageNum ::ₘ rest)
      (hexec : exec b (.create maxPage) s.mem none mem) : CallStep exec s (s.goOn mem rest)
  | own {rest b mms pageNum mem} (hcall : s.calls = .born b mms pageNum ::ₘ rest)
      (hexec : exec b (.own mms) s.mem () mem) :
      CallStep exec s (s.goOn mem (.owned b mms pageNum ::ₘ rest))
  | register {rest b mms pageNum mem} (hcall : s.calls = .owned b mms pageNum ::ₘ rest)
      (hexec : exec b (.register mms) s.mem () mem) :
      CallStep exec s (s.goOn mem (.want b mms pageNum ::ₘ rest))
  | want {rest b mms pageNum r mem} (hcall : s.calls = .want b mms pageNum ::ₘ rest)
      (hexec : exec b (.want mms pageNum) s.mem r mem) (hr : 0 ≤ r) :
      CallStep exec s ((s.goOn mem rest).hold {(b, mms, .owner)})
  | wantFail {rest b mms pageNum r mem} (hcall : s.calls = .want b mms pageNum ::ₘ rest)
      (hexec : exec b (.want mms pageNum) s.mem r mem) (hr : r < 0) :
      CallStep exec s (s.goOn mem (.giveBack b mms ::ₘ rest))
  | giveBack {rest b mms mem} (hcall : s.calls = .giveBack b mms ::ₘ rest)
      (hexec : exec b (.giveBack mms) s.mem () mem) : CallStep exec s (s.goOn mem rest)
  | switch {rest b on delayMs waitSizeM r mem}
      (hcall : s.calls = .switch b on delayMs waitSizeM ::ₘ rest)
      (hexec : exec b (.switch on delayMs waitSizeM) s.mem r mem) : CallStep exec s (s.goOn mem rest)

inductive PassStep (exec : Exec σ) (s : Threads σ) (b : Bool) : Threads σ → Prop
  | startCreate {mem} (hpass : s.pass b = .idle) (hexec : exec b .needCaches s.mem true mem) :
      PassStep exec s b (s.passOn mem b (.create false))
  | startDrop {mem} (hpass : s.pass b = .idle) (hexec : exec b .dropsCaches s.mem true mem) :
      PassStep exec s b (s.passOn mem b .drop)
  | startShift {cache mem} (hpass : s.pass b = .idle) (hexec : exec b .shiftCache s.mem cache mem) :
      PassStep exec s b (s.passOn mem b (.next (.drop cache.toList)))
  | startClear {force mms less mem} (hpass : s.pass b = .idle)
      (hexec : exec b (.clear force) s.mem (some mms, less) mem) :
      PassStep exec s b (s.passOn mem b (.unlist mms (.less (if less = some mms then none else less))))
  | startLess {force less mem} (hpass : s.pass b = .idle)
      (hexec : exec b (.clear force) s.mem (none, less) mem) :
      PassStep exec s b (s.passOn mem b (.next (.less less)))
  | manage {mem} (hpass : s.pass b = .idle) (hexec : exec b .manage s.mem () mem) :
      PassStep exec s b (s.passOn mem b .idle)
  | create {second mms mem} (hpass : s.pass b = .create second)
      (hexec : exec b (.create 16384) s.mem (some mms) mem) :
      PassStep exec s b ((s.passOn mem b (.born second mms)).countAlloc mms)
  | createFail {second mem} (hpass : s.pass b = .create second)
      (hexec : exec b (.create 16384) s.mem none mem) :
      PassStep exec s b (s.passOn mem b (if second then .idle else .create true))
  | own {second mms mem} (hpass : s.pass b = .born second mms) (hexec : exec b (.own mms) s.mem () mem) :
      PassStep exec s b (s.passOn mem b (.owned second mms))
  | register {second mms mem} (hpass : s.pass b = .owned second mms)
      (hexec : exec b (.register mms) s.mem () mem) :
      PassStep exec s b (s.passOn mem b (.listed second mms))
  | enterCache {second mms old mem} (hpass : s.pass b = .listed second mms)
      (hexec : exec b (.enterCache second mms) s.mem old mem) :
      PassStep exec s b ((s.passOn mem b (if second then .idle else .create true)).hold
        (old.toList.map fun x => (b, x, Share.owner)))
  | drop {caches mem} (hpass : s.pass b = .drop) (hexec : exec b .takeCaches s.mem caches mem) :
      PassStep exec s b (s.passOn mem b (.next (.drop caches)))
  | release {smgt mms rest r mem} (hpass : s.pass b = .release smgt mms rest)
      (hexec : exec smgt (.dec mms .owner 0) s.mem r mem) (hr : 0 ≤ r) :
      PassStep exec s b (s.passOn mem b (.unlist mms (.drop rest)))
  | releaseNext {mms rest r mem} (hpass : s.pass b = .release false mms rest)
      (hexec : exec false (.dec mms .owner 0) s.mem r mem) (hr : r < 0) :
      PassStep exec s b (s.passOn mem b (.release true mms rest))
  | releaseFail {mms rest r mem} (hpass : s.pass b = .release true mms rest)
      (hexec : exec true (.dec mms .owner 0) s.mem r mem) (hr : r < 0) :
      PassStep exec s b ((s.passOn mem b (.unlist mms (.drop rest))).hold {(b, mms, .owner)})
  | unlist {mms after cnt mem} (hpass : s.pass b = .unlist mms after)
      (hexec : exec b (.unlist mms) s.mem (some cnt) mem) :
      PassStep exec s b (s.passOn mem b (.free mms cnt after))
  | unlistUsed {mms after mem} (hpass : s.pass b = .unlist mms after)
      (hexec : exec b (.unlist mms) s.mem none mem) : PassStep exec s b (s.passOn mem b (.next after))
  | free {mms cnt after mem} (hpass : s.pass b = .free mms cnt after)
      (hexec : exec b (.free mms cnt) s.mem () mem) :
      PassStep exec s b ((s.passOn mem b (.next after)).countFree mms)
  | less {mms r mem} (hpass : s.pass b = .less mms) (hexec : exec b (.less mms) s.mem r mem) :
      PassStep exec s b (s.passOn mem b .idle)

inductive Step (exec : Exec σ) (s s' : Threads σ) : Prop
  | call (h : CallStep exec s s')
  | pass (b : Bool) (h : PassStep exec s b s')

end Step

section Init

variable {ω : Type} (E : Externals ω)

def codeExec : Exec (System ω) := fun smgt sec s r s' => onMgt smgt (sec.code E) s = .ok (r, s')

/-- No call yet, after `codec_mm_scatter_mgt_init`. -/
def Threads.init (w : ω) (lessMemory : Bool) : Threads (System ω) where
  mem := System.init w lessMemory
  held := 0
  calls := 0
  pass := fun _ => .idle
  allocated := fun _ => 0
  freed := fun _ => 0

/-- The states that the calls and passes reach, in any order of their sections. -/
def Interleaving (w : ω) (lessMemory : Bool) : Threads (System ω) → Prop :=
  Relation.ReflTransGen (Step (codeExec E)) (Threads.init w lessMemory)

end Init

end Amlogic.CodecMm
