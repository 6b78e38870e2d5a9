import Amlogic.Base.Returns
import Amlogic.Configs.Node
import Amlogic.Configs.Proofs.ValueProofs

/-!
# Following a path and climbing back

A walk down from a node holds the nodes it has found, the last one first (`Held`). A climb from there
with the start of the walk as its end counts down exactly the held nodes; a climb without an end goes
on through the start and everything above it. Both are stated on the parents alone, since a call may
change other parts of a node in between.
-/

namespace Amlogic.Configs

/-! ## Trees -/

/-- Sons know their parent, the root has none, and no node is above itself. -/
structure Tree.IsTree (t : Tree) : Prop where
  root_parent : (t.node rootNode).parentNode = none
  son_parent : ∀ n m, m ∈ (t.node n).sons → (t.node m).parentNode = some n
  acyclic : ∃ rank : NodeId → Nat, ∀ n p, (t.node n).parentNode = some p → rank p < rank n

namespace Tree

def incs (t : Tree) (l : List NodeId) : Tree :=
  { t with refCnt := fun n => t.refCnt n + BitVec.ofNat 32 (l.count n) }

def decs (t : Tree) (l : List NodeId) : Tree :=
  { t with refCnt := fun n => t.refCnt n - BitVec.ofNat 32 (l.count n) }

@[simp] theorem incs_nil (t : Tree) : t.incs [] = t := by simp [incs]

@[simp] theorem decs_nil (t : Tree) : t.decs [] = t := by simp [decs]

theorem ofNat_succ_count (k : Nat) : BitVec.ofNat 32 (k + 1) = BitVec.ofNat 32 k + 1 := by
  rw [BitVec.ofNat_add]
  rfl

theorem incRef_incs (t : Tree) (l : List NodeId) (n : NodeId) : (t.incs l).incRef n = t.incs (n :: l) := by
  unfold incRef incs
  congr 1
  funext m
  by_cases h : m = n
  · subst h
    rw [if_pos rfl, List.count_cons_self, ofNat_succ_count, BitVec.add_assoc]
  · rw [if_neg h, List.count_cons_of_ne (Ne.symm h)]

theorem decs_decRef (t : Tree) (l : List NodeId) (n : NodeId) : (t.decRef n).decs l = t.decs (n :: l) := by
  unfold decRef decs
  congr 1
  funext m
  by_cases h : m = n
  · subst h
    dsimp only
    rw [if_pos rfl, List.count_cons_self, ofNat_succ_count, BitVec.sub_sub, BitVec.add_comm]
  · dsimp only
    rw [if_neg h, List.count_cons_of_ne (Ne.symm h)]

@[simp] theorem decs_incs (t : Tree) (l : List NodeId) : (t.incs l).decs l = t := by
  unfold incs decs
  congr 1
  funext m
  exact BitVec.add_sub_cancel _ _

end Tree

/-! ## The climb -/

/-- The nodes that a climb from `p` counts down, in the order of the climb. -/
inductive Up (t : Tree) (stop : Option NodeId) : Option NodeId → List NodeId → Prop where
  | top : Up t stop none []
  | stop {p : NodeId} : some p = stop → Up t stop (some p) []
  | step {p : NodeId} {l : List NodeId} : some p ≠ stop → Up t stop (t.node p).parentNode l →
      Up t stop (some p) (p :: l)

def SameParents (t t' : Tree) : Prop := ∀ n, (t'.node n).parentNode = (t.node n).parentNode

theorem SameParents.refl (t : Tree) : SameParents t t := fun _ => rfl

theorem SameParents.incs (t : Tree) (l : List NodeId) : SameParents t (t.incs l) := fun _ => rfl

theorem SameParents.decs {t t' : Tree} (h : SameParents t t') (l : List NodeId) :
    SameParents t (t'.decs l) := h

section Climb

variable {t t' : Tree} {stop : Option NodeId} {n : NodeId} {l : List NodeId}

theorem Up.climb {p : Option NodeId} (hup : Up t stop p l) (hsame : SameParents t t') :
    Returns (fun rounds => climb stop rounds t' p) (t'.decs l) := by
  induction hup generalizing t' with
  | top =>
    refine ⟨1, ?_⟩
    intro rounds hrounds
    obtain ⟨k, rfl⟩ := Nat.exists_eq_add_of_le' hrounds
    rw [Tree.decs_nil]
    rfl
  | @stop p h =>
    refine ⟨1, ?_⟩
    intro rounds hrounds
    obtain ⟨k, rfl⟩ := Nat.exists_eq_add_of_le' hrounds
    rw [Tree.decs_nil]
    exact if_pos h
  | @step p l h _ ih =>
    have hsame' : SameParents t (t'.decRef p) := hsame
    obtain ⟨bound, hbound⟩ := ih hsame'
    refine ⟨bound + 1, ?_⟩
    intro rounds hrounds
    obtain ⟨k, rfl⟩ := Nat.exists_eq_add_of_le' hrounds
    have hround : Configs.climb stop (k + bound + 1) t' (some p) =
        Configs.climb stop (k + bound) (t'.decRef p) (t'.node p).parentNode := if_neg h
    rw [← Tree.decs_decRef, ← hbound (k + bound) (Nat.le_add_left _ _), ← hsame p]
    exact hround

theorem Up.put (hup : Up t stop (t.node n).parentNode l) (hsame : SameParents t t') :
    Returns (fun rounds => configsPutNode rounds t' (some n) true stop) (t'.decs (n :: l)) := by
  have hsame' : SameParents t (t'.decRef n) := hsame
  have hclimb := hup.climb hsame'
  rw [Tree.decs_decRef] at hclimb
  refine hclimb.congr ?_
  intro rounds
  show Configs.climb stop rounds (t'.decRef n) (t'.node n).parentNode = _
  rw [hsame n]

theorem put_node_only (rounds : Nat) :
    configsPutNode rounds t' (some n) false stop = .ok (t'.decs [n]) := by
  show Except.ok (t'.decRef n) = _
  rw [← Tree.decs_nil (t'.decRef n), Tree.decs_decRef]

end Climb

namespace Tree.IsTree

variable {t : Tree}

theorem exists_up (h : t.IsTree) (stop : Option NodeId) (n : NodeId) :
    ∃ l, Up t stop (t.node n).parentNode l ∧ (n :: l).Nodup := by
  obtain ⟨rank, hrank⟩ := h.acyclic
  suffices hall : ∀ k n, rank n ≤ k →
      ∃ l, Up t stop (t.node n).parentNode l ∧ (n :: l).Nodup ∧ ∀ m ∈ l, rank m < rank n by
    obtain ⟨l, hup, hnodup, -⟩ := hall (rank n) n (le_refl _)
    exact ⟨l, hup, hnodup⟩
  intro k
  induction k with
  | zero =>
    intro n hk
    cases hp : (t.node n).parentNode with
    | none => exact ⟨[], .top, List.nodup_singleton n, nofun⟩
    | some p =>
      have := hrank n p hp
      omega
  | succ k ih =>
    intro n hk
    cases hp : (t.node n).parentNode with
    | none => exact ⟨[], .top, List.nodup_singleton n, nofun⟩
    | some p =>
      have hlt := hrank n p hp
      by_cases hstop : some p = stop
      · exact ⟨[], .stop hstop, List.nodup_singleton n, nofun⟩
      · obtain ⟨l, hup, hnodup, hall⟩ := ih p (by omega)
        have hbelow : ∀ m ∈ p :: l, rank m < rank n := by
          intro m hm
          rcases List.mem_cons.mp hm with rfl | hm
          · exact hlt
          · exact lt_trans (hall m hm) hlt
        refine ⟨p :: l, .step hstop hup, List.nodup_cons.mpr ⟨?_, hnodup⟩, hbelow⟩
        intro hn
        exact lt_irrefl _ (hbelow n hn)

end Tree.IsTree

/-! ## The nodes held by a walk -/

def Held (t : Tree) (a : NodeId) : List NodeId → Prop
  | [] => True
  | n :: ns => (t.node n).parentNode = some (ns.headD a) ∧ Held t a ns

section Held

variable {t : Tree} {a n : NodeId} {ns : List NodeId} {rank : NodeId → Nat}

theorem Held.rank_lt (hrank : ∀ n p, (t.node n).parentNode = some p → rank p < rank n) (h : Held t a ns) :
    (∀ m ∈ ns, rank a < rank m ∧ rank m ≤ rank (ns.headD a)) ∧ ns.Nodup := by
  induction ns with
  | nil => exact ⟨nofun, List.nodup_nil⟩
  | cons n ns ih =>
    obtain ⟨hparent, hheld⟩ := h
    obtain ⟨hall, hnodup⟩ := ih hheld
    have hlt := hrank n _ hparent
    have hbelow : ∀ m ∈ ns, rank m < rank n := fun m hm => lt_of_le_of_lt (hall m hm).2 hlt
    have han : rank a < rank n := by
      cases ns with
      | nil => exact hlt
      | cons m ms => exact lt_trans (hall m List.mem_cons_self).1 (hbelow m List.mem_cons_self)
    refine ⟨?_, List.nodup_cons.mpr ⟨fun hn => lt_irrefl _ (hbelow n hn), hnodup⟩⟩
    intro m hm
    rcases List.mem_cons.mp hm with rfl | hm
    · exact ⟨han, le_refl _⟩
    · exact ⟨(hall m hm).1, le_of_lt (hbelow m hm)⟩

theorem Held.nodup (ht : t.IsTree) (h : Held t a ns) : (a :: ns).Nodup := by
  obtain ⟨rank, hrank⟩ := ht.acyclic
  obtain ⟨hall, hnodup⟩ := h.rank_lt hrank
  exact List.nodup_cons.mpr ⟨fun ha => lt_irrefl _ (hall a ha).1, hnodup⟩

theorem Held.up (ht : t.IsTree) (h : Held t a (n :: ns)) : Up t (some a) (t.node n).parentNode ns := by
  induction ns generalizing n with
  | nil =>
    rw [h.1]
    exact .stop rfl
  | cons m ms ih =>
    have hne : some m ≠ some a := by
      intro hma
      have hnodup := Held.nodup ht h.2
      exact (List.nodup_cons.mp hnodup).1 (Option.some.inj hma ▸ List.mem_cons_self)
    rw [h.1]
    exact .step hne (ih h.2)

theorem Held.up_root (ht : t.IsTree) (h : Held t rootNode ns) :
    Up t none (some (ns.headD rootNode)) (ns ++ [rootNode]) := by
  induction ns with
  | nil =>
    refine .step (Option.some_ne_none _) ?_
    rw [List.headD_nil, ht.root_parent]
    exact .top
  | cons m ms ih =>
    refine .step (Option.some_ne_none _) ?_
    rw [List.headD_cons, h.1]
    exact ih h.2

end Held

/-! ## The walk -/

def findSon (t : Tree) (p : NodeId) (name : List UInt8) : Option NodeId :=
  ((t.node p).sons.find? fun n => (t.node n).name = name).filter fun n => (t.node n).active

/-- A lookup counts the node up before it refuses it. -/
def Refused (t : Tree) (n : NodeId) : Prop := (t.refCnt n + 1).toInt < 0

instance (t : Tree) (n : NodeId) : Decidable (Refused t n) := inferInstanceAs (Decidable (_ < _))

section Walk

variable {t : Tree} {a p n : NodeId} {name : List UInt8} {ns : List NodeId}

theorem configsGetNodeWithName_none (h : findSon t p name = none) :
    configsGetNodeWithName t p name = (none, t) := by
  unfold findSon at h
  unfold configsGetNodeWithName
  cases hf : (t.node p).sons.find? fun n => (t.node n).name = name with
  | none => rfl
  | some m =>
    have hm : (t.node m).active = false := by simpa [hf] using h
    simp [hm]

theorem configsGetNodeWithName_some (h : findSon t p name = some n) :
    configsGetNodeWithName t p name = (if Refused t n then none else some n, t.incRef n) := by
  unfold configsGetNodeWithName
  obtain ⟨hf, hactive⟩ := Option.filter_eq_some_iff.mp h
  have hcount : ((t.incRef n).refCnt n).toInt < 0 ↔ Refused t n := by
    simp [Refused, Tree.incRef]
  simp only [hf, hactive, Bool.not_true, Bool.false_eq_true, if_false, hcount]
  split_ifs <;> rfl

theorem findSon_parent (ht : t.IsTree) (h : findSon t p name = some n) : (t.node n).parentNode = some p := by
  obtain ⟨hf, -⟩ := Option.filter_eq_some_iff.mp h
  exact ht.son_parent p n (List.mem_of_find?_eq_some hf)

inductive WalkEnd where
  | malformed
  | missing
  | refused (n : NodeId)
  | arrived (name : List UInt8)

/-- Follow a path from `a`, on the tree as it is before the call: the nodes held, and the end. -/
def walk (t : Tree) (a : NodeId) : List NodeId → Parts → List NodeId × WalkEnd
  | ns, .bad => (ns, .malformed)
  | ns, .last name => (ns, .arrived name)
  | ns, .more name rest =>
    match findSon t (ns.headD a) name with
    | none => (ns, .missing)
    | some n => if Refused t n then (ns, .refused n) else walk t a (n :: ns) rest

theorem Held.cons (ht : t.IsTree) (h : Held t a ns) (hn : findSon t (ns.headD a) name = some n) :
    Held t a (n :: ns) := ⟨findSon_parent ht hn, h⟩

theorem walk_held (ht : t.IsTree) (h : Held t a ns) (parts : Parts) :
    Held t a (walk t a ns parts).1 ∧
      ∀ n, (walk t a ns parts).2 = .refused n → Held t a (n :: (walk t a ns parts).1) := by
  induction parts generalizing ns with
  | bad | last name => exact ⟨h, fun _ hn => WalkEnd.noConfusion hn⟩
  | more name rest ih =>
    unfold walk
    cases hf : findSon t (ns.headD a) name with
    | none => exact ⟨h, fun _ hn => WalkEnd.noConfusion hn⟩
    | some n =>
      dsimp only
      split_ifs
      · refine ⟨h, ?_⟩
        rintro m ⟨⟩
        exact h.cons ht hf
      · exact ih (h.cons ht hf)

def loopResult (t : Tree) (a : NodeId) : List NodeId × WalkEnd → LoopEnd × Tree
  | (ns, .malformed) => (.malformed, t.incs ns)
  | (ns, .missing) => (.missing ns.head?, t.incs ns)
  | (ns, .refused n) => (.missing ns.head?, t.incs (n :: ns))
  | (ns, .arrived name) => (.arrived (ns.headD a) name, t.incs ns)

theorem refused_incs (hn : n ∉ ns) : Refused (t.incs ns) n ↔ Refused t n := by
  simp [Refused, Tree.incs, List.count_eq_zero_of_not_mem hn]

theorem headD_ne_iff (ht : t.IsTree) (h : Held t a ns) :
    (if ns.headD a ≠ a then some (ns.headD a) else none) = ns.head? := by
  cases ns with
  | nil => simp
  | cons n ns =>
    have hne : n ≠ a := by
      rintro rfl
      exact (List.nodup_cons.mp (Held.nodup ht h)).1 List.mem_cons_self
    simp [hne]

theorem pathConfigFrom_eq (ht : t.IsTree) (h : Held t a ns) (parts : Parts) :
    pathConfigFrom a (t.incs ns) (ns.headD a) parts = loopResult t a (walk t a ns parts) := by
  induction parts generalizing ns with
  | bad => rfl
  | last name => rfl
  | more name rest ih =>
    unfold pathConfigFrom walk
    cases hf : findSon t (ns.headD a) name with
    | none =>
      have hget : configsGetNodeWithName (t.incs ns) (ns.headD a) name = (none, t.incs ns) :=
        configsGetNodeWithName_none hf
      rw [hget]
      dsimp only [loopResult]
      rw [headD_ne_iff ht h]
    | some n =>
      have hnotin : n ∉ ns := by
        have hnodup := Held.nodup ht (h.cons ht hf)
        exact (List.nodup_cons.mp (List.nodup_cons.mp hnodup).2).1
      have hget : configsGetNodeWithName (t.incs ns) (ns.headD a) name =
          (if Refused t n then none else some n, t.incs (n :: ns)) := by
        rw [configsGetNodeWithName_some (t := t.incs ns) hf, Tree.incRef_incs]
        simp only [refused_incs hnotin]
      rw [hget]
      by_cases hr : Refused t n
      · simp only [if_pos hr, loopResult]
        rw [headD_ne_iff ht h]
      · simp only [if_neg hr]
        exact ih (h.cons ht hf)

/-! ## The end of a path -/

def EndFails (t : Tree) : Parts → Prop
  | .bad => True
  | .last name => (t.node rootNode).name ≠ name ∧ findSon t rootNode name = none
  | .more name _ => findSon t rootNode name = none

/-- A walk to a node from the nodes `ns` has counted those on the way; it fails, or it ends at the last one. -/
def EndResult (t : Tree) (ns : List NodeId) (r : Option NodeId × Tree) : Prop :=
  ∃ l, (r = (none, t.incs l) ∨ r = (some (l.headD rootNode), t.incs l)) ∧ Held t rootNode l ∧ ns <:+ l

theorem lookup_endResult (name : List UInt8) (ht : t.IsTree) (h : Held t rootNode ns) :
    EndResult t ns (configsGetNodeWithName (t.incs ns) (ns.headD rootNode) name) := by
  cases hf : findSon t (ns.headD rootNode) name with
  | none =>
    have hget : configsGetNodeWithName (t.incs ns) (ns.headD rootNode) name = (none, t.incs ns) :=
      configsGetNodeWithName_none hf
    exact ⟨ns, .inl hget, h, List.suffix_refl _⟩
  | some n =>
    have hget := configsGetNodeWithName_some (t := t.incs ns) hf
    rw [Tree.incRef_incs] at hget
    refine ⟨n :: ns, ?_, h.cons ht hf, List.suffix_cons n ns⟩
    rw [hget]
    split_ifs
    · exact .inl rfl
    · exact .inr rfl

theorem endNodeFrom_result (ht : t.IsTree) (h : Held t rootNode ns) (parts : Parts) :
    EndResult t ns (endNodeFrom false rootNode (t.incs ns) (ns.headD rootNode) parts) := by
  induction parts generalizing ns with
  | bad => exact ⟨ns, .inl rfl, h, List.suffix_refl _⟩
  | last name =>
    unfold endNodeFrom
    split_ifs with hroot
    · exact ⟨ns, .inr rfl, h, List.suffix_refl _⟩
    · exact lookup_endResult name ht h
  | more name rest ih =>
    unfold endNodeFrom
    obtain ⟨l, hr | hr, hl, hsuf⟩ := lookup_endResult name ht h
    · rw [hr]
      exact ⟨l, .inl rfl, hl, hsuf⟩
    · rw [hr]
      obtain ⟨k, hk, hheld, hlk⟩ := ih hl
      exact ⟨k, hk, hheld, hsuf.trans hlk⟩

/-- A path to a node: it fails and leaves the tree as it is; or it fails and leaves nodes counted;
or it ends at a node and has counted those on the way. -/
theorem endNode_cases (ht : t.IsTree) (parts : Parts) :
    (EndFails t parts ∧ endNodeFrom false rootNode t rootNode parts = (none, t)) ∨
    (¬ EndFails t parts ∧
      ((∃ l, l ≠ [] ∧ Held t rootNode l ∧
          endNodeFrom false rootNode t rootNode parts = (none, t.incs l)) ∨
        ∃ l, Held t rootNode l ∧
          endNodeFrom false rootNode t rootNode parts = (some (l.headD rootNode), t.incs l))) := by
  by_cases hfails : EndFails t parts
  · refine .inl ⟨hfails, ?_⟩
    cases parts with
    | bad => rfl
    | last name =>
      obtain ⟨hne, hson⟩ := hfails
      unfold endNodeFrom
      rw [if_neg (fun h => hne h.2.2), configsGetNodeWithName_none hson]
    | more name rest =>
      have hson : findSon t rootNode name = none := hfails
      unfold endNodeFrom
      rw [configsGetNodeWithName_none hson]
  · refine .inr ⟨hfails, ?_⟩
    -- after the first lookup at least one node is counted
    have hfirst : ∀ {name n}, findSon t rootNode name = some n → Held t rootNode [n] := fun hf =>
      ⟨findSon_parent ht hf, trivial⟩
    have hlook : ∀ {name n}, findSon t rootNode name = some n →
        configsGetNodeWithName t rootNode name = (if Refused t n then none else some n, t.incs [n]) := by
      intro name n hf
      rw [configsGetNodeWithName_some hf, ← Tree.incRef_incs, Tree.incs_nil]
    cases parts with
    | bad => exact absurd trivial hfails
    | last name =>
      unfold endNodeFrom
      split_ifs with hroot
      · exact .inr ⟨[], trivial, by simp⟩
      · cases hf : findSon t rootNode name with
        | none => exact absurd ⟨fun h => hroot ⟨rfl, rfl, h⟩, hf⟩ hfails
        | some n =>
          rw [hlook hf]
          split_ifs
          · exact .inl ⟨[n], List.cons_ne_nil _ _, hfirst hf, rfl⟩
          · exact .inr ⟨[n], hfirst hf, rfl⟩
    | more name rest =>
      cases hf : findSon t rootNode name with
      | none => exact absurd hf hfails
      | some n =>
        unfold endNodeFrom
        rw [hlook hf]
        split_ifs
        · exact .inl ⟨[n], List.cons_ne_nil _ _, hfirst hf, rfl⟩
        · obtain ⟨l, hr | hr, hl, hsuf⟩ := endNodeFrom_result ht (hfirst hf) rest
          · refine .inl ⟨l, ?_, hl, hr⟩
            rintro rfl
            exact absurd (List.eq_nil_of_suffix_nil hsuf) (List.cons_ne_nil _ _)
          · exact .inr ⟨l, hl, hr⟩

end Walk

end Amlogic.Configs
