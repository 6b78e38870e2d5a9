import Amlogic.CodecMm.Threads

/-!
# The protocol of the user counts

What a section does to the view of its manager, and the tokens of a scatter: everybody who holds a scatter or
is about to change it has a token for it, and the tokens tell the user count and where the scatter stands.
-/

namespace Amlogic.CodecMm

/-! ## Sections on views -/

def Sec.Pre (v : View) : {α : Type} → Sec α → Prop
  | _, .own mms | _, .want mms _ | _, .giveBack mms | _, .unlist mms | _, .less mms => mms ∈ v.live
  | _, .register mms => mms ∈ v.live ∧ mms ∉ v.list ∧ some mms ∉ v.scmap ∧ ¬v.IsCache mms
  | _, .enterCache _ mms => mms ∈ v.list
  | _, .free mms _ => mms ∈ v.live ∧ mms ∉ v.list ∧ some mms ∉ v.scmap ∧ ¬v.IsCache mms
  | _, _ => True

/-- What a section does to the view of its manager. `G` are the scatters of the other manager. -/
def Sec.Effect (G : Set Nat) (v v' : View) : {α : Type} → Sec α → α → Prop
  | _, .inc mms, r => r < 0 ∧ v' = v ∨
    0 ≤ r ∧ ∃ n, v.users mms = some n ∧ some mms ∈ v.scmap ∧ 0 ≤ n ∧ v' = v.setUser mms (n + 100)
  | _, .dec mms share _, r => r < 0 ∧ some mms ∉ v.scmap ∧ v' = v ∨
    0 ≤ r ∧ some mms ∈ v.scmap ∧ v' = v.dec mms share.weight
  | _, .find _, r => r = none ∧ v' = v ∨
    ∃ mms, r = some mms ∧ mms ∈ v.list ∧ v.users mms = some 0 ∧ v' = v.setUser mms 1000
  | _, .create _, r => r = none ∧ v' = v ∨
    ∃ mms, r = some mms ∧ mms ∉ G ∧ mms ∉ v.live ∧ v' = v.setUser mms 0
  | _, .own mms, _ => v' = v.setUser mms 1000
  | _, .register mms, _ => v' = v.enlist mms
  | _, .giveBack mms, _ => ∃ n, v.users mms = some n ∧ v' = v.setUser mms (n - 1000)
  | _, .enterCache second mms, r => r = (if second then v.cache1 else v.cache0) ∧ v' = v.putCache second mms
  | _, .takeCaches, r => r = v.caches ∧ v' = { v with cache0 := none, cache1 := none }
  | _, .shiftCache, r => r = v.cache0 ∧ v' = { v with cache0 := v.cache1, cache1 := none }
  | _, .clear _, r => (∀ x, r.2 = some x → x ∈ v.list) ∧ (r.1 = none ∧ v' = v ∨
    ∃ mms, r.1 = some mms ∧ mms ∈ v.list ∧ v.users mms = some 0 ∧ v' = v.mark mms)
  | _, .unlist mms, r => ∃ n, v.users mms = some n ∧
    (r = none ∧ 0 < n ∧ v' = v ∨ r ≠ none ∧ n ≤ 0 ∧ v' = v.unlist mms)
  | _, .free mms _, _ => v' = v.kill mms
  | _, .want _ _, _ | _, .needCaches, _ | _, .dropsCaches, _ | _, .less _, _ | _, .manage, _
  | _, .switch _ _ _, _ => v' = v

/-- The sections do what `Sec.Effect` says, in every state that is in order. -/
structure Sound {σ : Type} (exec : Exec σ) (good : σ → Prop) (view : σ → Bool → View) : Prop where
  ok : ∀ {m}, good m → ∀ b, (view m b).Ok (view m !b).live
  step : ∀ {α m m' b} {sec : Sec α} {r}, good m → exec b sec m r m' → sec.Pre (view m b) →
    good m' ∧ view m' (!b) = view m (!b) ∧ sec.Effect (view m !b).live (view m b) (view m' b) r

/-! ## Tokens -/

/-- What is about to happen to a scatter. -/
inductive Phase where
  /-- It has no user yet. -/
  | born
  /-- It has an owner and is going to be put on the list. -/
  | owned
  /-- It has an owner and is going to be taken off the list, for a cache. -/
  | listed
  /-- It is a cache, or it was one and is going to be freed if nobody holds it. -/
  | kept
  /-- Its user count is negative. -/
  | marked
  /-- Its pages and the scatter are going to be freed. -/
  | freeing (marked : Bool)
  deriving DecidableEq

inductive Token where
  | share (holder : Share)
  | role (phase : Phase)
  deriving DecidableEq

namespace Phase

def Bare : Phase → Prop
  | .born | .marked | .freeing _ => True
  | _ => False

def Hidden : Phase → Prop
  | .born | .owned | .freeing _ => True
  | _ => False

end Phase

namespace Token

def weight : Token → Int
  | .share holder => holder.weight
  | .role .owned | .role .listed => 1000
  | .role .marked | .role (.freeing true) => -100000
  | .role _ => 0

def isRole : Token → Bool
  | .share _ => false
  | .role _ => true

end Token

/-- The tokens of a scatter agree with the view. -/
structure Fits (v : View) (mms : Nat) (u : Multiset Token) : Prop where
  dead : v.users mms = none → u = 0
  count : ∀ {n}, v.users mms = some n → n = (u.map Token.weight).sum
  one : u.countP (·.isRole) ≤ 1
  bare : ∀ {p}, .role p ∈ u → p.Bare → ∀ share, .share share ∉ u
  list : ∀ {p}, .role p ∈ u → (mms ∈ v.list ↔ p = .listed)
  hidden : ∀ {p}, .role p ∈ u → p.Hidden → some mms ∉ v.scmap

abbrev Tokens := Bool → Nat → Multiset Token

def only (b : Bool) (mms : Nat) (u : Multiset Token) : Tokens := Pi.single b (Pi.single mms u)

def keptTokens (caches : List Nat) : Nat → Multiset Token :=
  (caches.map fun mms => Pi.single mms {.share .owner, .role .kept}).sum

def heldTokens (share : Bool × Nat × Share) : Tokens := only share.1 share.2.1 {.share share.2.2}

def Call.tokens : Call → Tokens
  | .dec _ b mms share _ => only b mms {.share share}
  | .born b mms _ => only b mms {.role .born}
  | .owned b mms _ => only b mms {.role .owned}
  | .want b mms _ | .giveBack b mms => only b mms {.share .owner}
  | _ => 0

def After.tokens : After → Nat → Multiset Token
  | .drop rest => keptTokens rest
  | .less _ => 0

def After.marks : After → Bool
  | .drop _ => false
  | .less _ => true

def Pass.tokens : Pass → Nat → Multiset Token
  | .born _ mms => Pi.single mms {.role .born}
  | .owned _ mms => Pi.single mms {.role .owned}
  | .listed _ mms => Pi.single mms {.role .listed}
  | .release _ mms rest => keptTokens (mms :: rest)
  | .unlist mms after => Pi.single mms {.role (if after.marks then .marked else .kept)} + after.tokens
  | .free mms _ after => Pi.single mms {.role (.freeing after.marks)} + after.tokens
  | _ => 0

/-- The tokens of the shares, of the calls, of the passes and of the caches. -/
def Threads.tokens {σ : Type} (s : Threads σ) (v : Bool → View) : Tokens :=
  (s.held.map heldTokens).sum + (s.calls.map Call.tokens).sum + (fun b => (s.pass b).tokens) +
    fun b => keptTokens (v b).caches

def Pass.Waits (v : View) : Pass → Prop
  | .unlist mms (.less (some x)) | .free mms _ (.less (some x)) => x ≠ mms ∧ x ∈ v.live
  | .less x => x ∈ v.live
  | _ => True

def alive (v : Bool → View) (mms : Nat) : Nat :=
  ((v false).users mms).isSome.toNat + ((v true).users mms).isSome.toNat

/-- The state of the threads in order. -/
structure Safe {σ : Type} (good : σ → Prop) (view : σ → Bool → View) (s : Threads σ) : Prop where
  mem : good s.mem
  fits : ∀ b mms, Fits (view s.mem b) mms (s.tokens (view s.mem) b mms)
  waits : ∀ b, (s.pass b).Waits (view s.mem b)
  once : ∀ mms, s.allocated mms = s.freed mms + alive (view s.mem) mms

/-! ## Holders -/

def Call.Holds (b : Bool) (mms : Nat) : Call → Prop
  | .dec _ b' x _ _ | .born b' x _ | .owned b' x _ | .want b' x _ | .giveBack b' x => b' = b ∧ x = mms
  | _ => False

def After.Holds (mms : Nat) : After → Prop
  | .drop rest => mms ∈ rest
  | .less x => x = some mms

/-- The pass is going to use the scatter, other than to free it now. -/
def Pass.Holds (mms : Nat) : Pass → Prop
  | .born _ x | .owned _ x | .listed _ x | .less x => x = mms
  | .release _ x rest => x = mms ∨ mms ∈ rest
  | .unlist x after => x = mms ∨ after.Holds mms
  | .free _ _ after => after.Holds mms
  | _ => False

/-- Somebody holds the scatter of manager `b`: it has an owner or a keeper, a call or the pass is at work on
it, or it is a cache. -/
def Threads.Held {σ : Type} (s : Threads σ) (v : Bool → View) (b : Bool) (mms : Nat) : Prop :=
  (∃ share, (b, mms, share) ∈ s.held) ∨ (∃ c ∈ s.calls, c.Holds b mms) ∨ (s.pass b).Holds mms ∨
    (v b).IsCache mms

end Amlogic.CodecMm
