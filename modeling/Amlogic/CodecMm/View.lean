import Amlogic.CodecMm.Manager

/-!
# What a manager knows about its scatters

The pages that the scatters of a manager hold, and the view of the manager. The view leaves out pages and
times: it has the live scatters with their user counts, the list of scatters, the map of valid scatters,
and the cache scatters.
-/

namespace Amlogic.CodecMm

/-! ## Pages -/

def Scatter.tokens (sc : Scatter) : Multiset Nat := sc.pagesList.take sc.pageCnt

def held (m : Mgt) : Multiset Nat := Heap.total Scatter.tokens m.scatters

def Mgt.cachePages (m : Mgt) (cache : Option Nat) : Int :=
  match cache.bind m.scatters.lookup with
  | some sc => sc.pageCnt
  | none => 0

def Mgt.cacheCnt (m : Mgt) : Int := m.cachePages m.cacheSc0 + m.cachePages m.cacheSc1

/-! ## Scatters -/

/-- The scatters of a manager, without their pages. -/
structure View where
  users : Nat → Option Int
  list : List Nat
  scmap : List (Option Nat)
  cache0 : Option Nat
  cache1 : Option Nat

def Mgt.view (m : Mgt) : View where
  users mms := (m.scatters.lookup mms).map Scatter.userCnt
  list := m.scatterList
  scmap := m.scmap
  cache0 := m.cacheSc0
  cache1 := m.cacheSc1

namespace View

def live (v : View) : Set Nat := {mms | v.users mms ≠ none}

def IsCache (v : View) (mms : Nat) : Prop := v.cache0 = some mms ∨ v.cache1 = some mms

def setUser (v : View) (mms : Nat) (n : Int) : View :=
  { v with users := Function.update v.users mms (some n) }

def new (v : View) (mms : Nat) : View :=
  { v with
    users := Function.update v.users mms (some 1000)
    list := v.list ++ [mms]
    scmap := scatterMapAdd v.scmap mms }

def newOff (v : View) (mms : Nat) : View :=
  { v with
    users := Function.update v.users mms (some 1000)
    scmap := scatterMapAdd v.scmap mms }

def free (v : View) (mms : Nat) : View :=
  { v with
    users := Function.update v.users mms none
    list := v.list.erase mms
    scmap := scatterMapDel v.scmap mms }

def inc (v : View) (mms : Nat) (cnt : Int) : View :=
  match v.users mms with
  | some n => if some mms ∈ v.scmap ∧ 0 ≤ n then v.setUser mms (n + cnt) else v
  | none => v

def dec (v : View) (mms : Nat) (cnt : Int) : View :=
  match v.users mms with
  | some n => if some mms ∈ v.scmap ∧ 1 ≤ n then v.setUser mms (n - cnt) else v
  | none => v

def freeOnNouser (v : View) (mms : Nat) : View :=
  match v.users mms with
  | some n => if 0 < n then v else v.free mms
  | none => v

/-- The owner of a scatter that was a cache gives it up. -/
def dropCache (v : View) : Option Nat → View
  | none => v
  | some mms => (v.dec mms 1000).freeOnNouser mms

def dropCaches (v : View) : View :=
  ((({ v with cache0 := none, cache1 := none } : View).dropCache v.cache0).dropCache v.cache1)

/-- The first cache is given up, and the second one takes its place. -/
def shiftCaches (v : View) : View :=
  ({ v with cache0 := v.cache1, cache1 := none } : View).dropCache v.cache0

def enlist (v : View) (mms : Nat) : View :=
  { v with list := v.list ++ [mms], scmap := scatterMapAdd v.scmap mms }

def unlist (v : View) (mms : Nat) : View :=
  { v with list := v.list.erase mms, scmap := scatterMapDel v.scmap mms }

def mark (v : View) (mms : Nat) : View :=
  { v.setUser mms (-100000) with list := v.list.erase mms }

def caches (v : View) : List Nat := v.cache0.toList ++ v.cache1.toList

def putCache (v : View) (second : Bool) (mms : Nat) : View :=
  if second then { v with list := v.list.erase mms, cache1 := some mms }
  else { v with list := v.list.erase mms, cache0 := some mms }

def kill (v : View) (mms : Nat) : View :=
  { v with users := Function.update v.users mms none }

/-- The view of a manager in order. `G` are the scatters of the other manager. -/
structure Ok (G : Set Nat) (v : View) : Prop where
  others : ∀ {mms}, mms ∈ v.live → mms ∉ G
  cache_live : ∀ {mms}, v.IsCache mms → mms ∈ v.live
  cache_ne : ∀ mms, ¬(v.cache0 = some mms ∧ v.cache1 = some mms)
  cache_list : ∀ {mms}, v.IsCache mms → mms ∉ v.list
  list_live : ∀ {mms}, mms ∈ v.list → mms ∈ v.live
  list_nodup : v.list.Nodup
  map_live : ∀ {mms}, some mms ∈ v.scmap → mms ∈ v.live
  map_once : ∀ mms, v.scmap.count (some mms) ≤ 1

end View

end Amlogic.CodecMm
