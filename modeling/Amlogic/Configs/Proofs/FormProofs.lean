import Amlogic.Configs.Proofs.ReferenceProofs

/-!
# The form of the tree of config nodes

Depth, permissions and prefix of a node are made from those of its parent when it is registered. They suit the tree as
long as every node is registered once, before it has sons.
-/

namespace Amlogic.Configs

/-! ## What is wanted -/

/-- A node that is reached from the root, with the names of its ancestors; the root is left out. -/
inductive Reached (t : Tree) : NodeId → List (List UInt8) → Prop
  | root : Reached t rootNode []
  | top {n : NodeId} : n ∈ (t.node rootNode).sons → Reached t n []
  | son {p n : NodeId} {names : List (List UInt8)} : Reached t p names → p ≠ rootNode → n ∈ (t.node p).sons →
      Reached t n (names ++ [(t.node p).name])

/-- Depth and permissions of a son. -/
def Node.Suits (p n : Node) : Prop :=
  n.depth = p.depth + 1 ∧ n.depth ≤ maxDepth ∧ n.rwFlags &&& p.rwFlags = n.rwFlags

structure WellFormed (t : Tree) : Prop where
  suits : ∀ p names, Reached t p names → ∀ n ∈ (t.node p).sons, (t.node p).Suits (t.node n)
  pathPrefix : ∀ n names, Reached t n names → (t.node n).pathPrefix = [charDot].intercalate names

/-! ## What registrations keep -/

/-- What a son has from its parent. -/
structure Node.Follows (p n : Node) : Prop where
  suits : p.Suits n
  name : n.name ≠ []
  pathPrefix : n.pathPrefix =
    if p.depth = 0 then [] else (if p.pathPrefix = [] then [] else p.pathPrefix ++ [charDot]) ++ p.name

structure Formed (node : NodeId → Node) : Prop where
  root : (node rootNode).depth = 0 ∧ (node rootNode).pathPrefix = []
  sons : ∀ p, ∀ n ∈ (node p).sons, (node p).Follows (node n)

/-- A node as `configs_init_new_node` leaves it, in no list yet. -/
structure Fresh (node : NodeId → Node) (new : NodeId) : Prop where
  root : new ≠ rootNode
  sons : (node new).sons = []
  name : (node new).name ≠ []
  pathPrefix : (node new).pathPrefix = []
  unlisted : ∀ p, new ∉ (node p).sons

section Form

variable {t t' : Tree} {new p n : NodeId} {names : List (List UInt8)}

theorem dotted_ne {name : List UInt8} (h : name ≠ []) : [charDot].intercalate (name :: names) ≠ [] := by
  cases names <;> simp [List.intercalate, h]

theorem dotted_snoc (hnames : ∀ x ∈ names, x ≠ []) (name : List UInt8) :
    [charDot].intercalate (names ++ [name]) = (if [charDot].intercalate names = [] then []
      else [charDot].intercalate names ++ [charDot]) ++ name := by
  induction names with
  | nil => simp [List.intercalate]
  | cons x names ih =>
    have hrest := fun y hy => hnames y (List.mem_cons_of_mem x hy)
    rw [if_neg (dotted_ne (hnames x List.mem_cons_self))]
    cases names with
    | nil => simp [List.intercalate]
    | cons y names =>
      have hcons : ∀ l, [charDot].intercalate (x :: y :: l) = x ++ charDot :: [charDot].intercalate (y :: l) :=
        fun l => by simp [List.intercalate]
      have hsnoc := ih hrest
      rw [if_neg (dotted_ne (hrest y List.mem_cons_self))] at hsnoc
      rw [hcons, List.cons_append, List.cons_append, hcons, ← List.cons_append, hsnoc]
      simp

theorem Node.Follows.named {p n : Node} (h : p.Follows n) : n.depth ≠ 0 ∧ n.name ≠ [] := by
  refine ⟨?_, h.name⟩
  rw [h.suits.1]
  exact Nat.succ_ne_zero _

theorem Formed.reached (h : Formed t.node) (hn : Reached t n names) :
    (n ≠ rootNode → (t.node n).depth ≠ 0 ∧ (t.node n).name ≠ []) ∧ (∀ x ∈ names, x ≠ []) ∧
      (t.node n).pathPrefix = [charDot].intercalate names := by
  induction hn with
  | root => exact ⟨absurd rfl, List.forall_mem_nil _, h.root.2⟩
  | top hmem =>
    have hson := h.sons _ _ hmem
    refine ⟨fun _ => hson.named, List.forall_mem_nil _, ?_⟩
    rw [hson.pathPrefix, if_pos h.root.1]
    rfl
  | son hp hroot hmem ih =>
    have hson := h.sons _ _ hmem
    obtain ⟨hnamed, hnames, hprefix⟩ := ih
    obtain ⟨hdepth, hname⟩ := hnamed hroot
    refine ⟨fun _ => hson.named, ?_, ?_⟩
    · intro x hx
      rcases List.mem_append.mp hx with hx | hx
      · exact hnames x hx
      · exact List.mem_singleton.mp hx ▸ hname
    · rw [hson.pathPrefix, if_neg hdepth, hprefix, dotted_snoc hnames]

theorem Formed.wellFormed (h : Formed t.node) : WellFormed t :=
  ⟨fun p _ _ n hn => (h.sons p n hn).suits, fun _ _ hn => (h.reached hn).2.2⟩

theorem Formed.addNode (h : Formed t.node) (hnew : Fresh t.node new) (hne : new ≠ p)
    (hdepth : (t.node p).depth < maxDepth) : Formed (addNode t p new).node := by
  have hold : ∀ n, n ≠ new → ∃ l, (Configs.addNode t p new).node n = { t.node n with sons := l } := by
    intro n hn
    rw [addNode_node n hne, if_neg hn]
    split_ifs <;> exact ⟨_, rfl⟩
  constructor
  · obtain ⟨l, hroot⟩ := hold rootNode hnew.root.symm
    rw [hroot]
    exact h.root
  · intro q n hn
    have hcases : (q = p ∧ n = new) ∨ n ∈ (t.node q).sons := by
      rw [addNode_sons q hne] at hn
      split_ifs at hn with hq
      · exact (List.mem_append.mp hn).symm.imp (fun hn => ⟨hq, List.mem_singleton.mp hn⟩) id
      · exact .inr hn
    rcases hcases with ⟨rfl, rfl⟩ | hmem
    · obtain ⟨l, hp⟩ := hold q hne.symm
      rw [hp, addNode_new hne]
      refine ⟨⟨rfl, hdepth, ?_⟩, hnew.name, ?_⟩
      · show _ &&& _ &&& _ = _
        rw [BitVec.and_comm, ← BitVec.and_assoc, BitVec.and_self]
      · show (if _ then _ else _) = _
        rw [hnew.pathPrefix]
        simp only [Nat.reduceLeDiff, ge_iff_le, ite_not]
        split_ifs <;> simp_all
    · have hq : q ≠ new := by
        rintro rfl
        rw [hnew.sons] at hmem
        cases hmem
      have hn' : n ≠ new := fun he => hnew.unlisted q (he ▸ hmem)
      obtain ⟨l, hl⟩ := hold q hq
      obtain ⟨k, hk⟩ := hold n hn'
      rw [hl, hk]
      obtain ⟨hsuits, hname, hprefix⟩ := h.sons q n hmem
      exact ⟨hsuits, hname, hprefix⟩

/-! ## Registrations -/

theorem configsGetNodeWithName_node (t : Tree) (p : NodeId) (name : List UInt8) :
    (configsGetNodeWithName t p name).2.node = t.node := by
  cases hf : findSon t p name with
  | none => rw [configsGetNodeWithName_none hf]
  | some n =>
    rw [configsGetNodeWithName_some hf]
    rfl

theorem endNodeFrom_node (given : Bool) (start : NodeId) (t : Tree) (n : NodeId) (parts : Parts) :
    (endNodeFrom given start t n parts).2.node = t.node := by
  induction parts generalizing t n with
  | bad => rfl
  | last name =>
    unfold endNodeFrom
    split_ifs
    · rfl
    · exact configsGetNodeWithName_node t n name
  | more name rest ih =>
    have hget := configsGetNodeWithName_node t n name
    unfold endNodeFrom
    split
    · rename_i hfound
      rw [hfound] at hget
      exact hget
    · rename_i m t' hfound
      rw [hfound] at hget
      exact (ih t' m).trans hget

theorem climb_node {stop p : Option NodeId} {rounds : Nat} (h : climb stop rounds t p = .ok t') :
    t'.node = t.node := by
  induction rounds generalizing t p with
  | zero => cases h
  | succ rounds ih =>
    cases p with
    | none =>
      cases h
      rfl
    | some p =>
      rw [climb] at h
      split_ifs at h
      · cases h
        rfl
      · exact (ih h :)

end Form

/-- A registration: below a node, or by a path. -/
inductive Registration where
  | node (parent : Option NodeId) (new : NodeId)
  | path (text : Option (List UInt8)) (new : NodeId)

namespace Registration

def new : Registration → NodeId
  | node _ new | path _ new => new

def Step (t : Tree) : Registration → Tree → Prop
  | .node parent new, t' => (configsRegisterNode t parent new).2 = t'
  | .path text new, t' => ∃ rounds ret, configsRegisterPathNode rounds t text new = .ok (ret, t')

/-- The nodes stay, or one is added below another. -/
def Adds (node : NodeId → Node) (t' : Tree) (new : NodeId) : Prop :=
  t'.node = node ∨ ∃ t p, t.node = node ∧ new ≠ p ∧ (node p).depth < maxDepth ∧ t'.node = (addNode t p new).node

variable {t t' : Tree}

theorem registerNode_adds (t : Tree) (parent : Option NodeId) (new : NodeId) :
    Adds t.node (configsRegisterNode t parent new).2 new := by
  obtain ⟨t1, hcount, hres⟩ := registerNode_cases t parent new
  have hnode : t1.node = t.node := by
    rcases hcount with ⟨-, rfl⟩ | ⟨-, m, -, rfl⟩ <;> rfl
  rcases hres with h | ⟨hne, hdepth, h⟩
  · exact .inl (by rw [h, hnode])
  · exact .inr ⟨t1, _, hnode, hne, hdepth, by rw [h]⟩

theorem Step.adds {e : Registration} (hstep : Step t e t') : Adds t.node t' e.new := by
  cases e with
  | node parent new => exact hstep ▸ registerNode_adds t parent new
  | path text new =>
    obtain ⟨rounds, ret, hrun⟩ := hstep
    have hroot : (configsRegisterNode t none new).2 = t' → Adds t.node t' new := fun hnode =>
      hnode ▸ registerNode_adds t none new
    rcases text with _ | _ | ⟨c, text⟩
    · exact hroot (congrArg Prod.snd (Except.ok.inj hrun))
    · exact hroot (congrArg Prod.snd (Except.ok.inj hrun))
    · have hend : (configsGetNodePathEndNode t none (some (c :: text))).2.node = t.node :=
        endNodeFrom_node false rootNode t rootNode _
      simp only [configsRegisterPathNode] at hrun
      generalize configsGetNodePathEndNode t none (some (c :: text)) = r at hend hrun
      obtain ⟨parent, t1⟩ := r
      cases parent with
      | none =>
        cases hrun
        exact .inl hend
      | some parent =>
        obtain ⟨t2, hput, hrun⟩ := bind_eq_ok hrun
        cases hrun
        have hadds := registerNode_adds t1 (some parent) new
        have hnode : t'.node = (configsRegisterNode t1 (some parent) new).2.node := (climb_node hput).trans rfl
        unfold Adds at hadds ⊢
        rw [hnode, ← hend]
        exact hadds

end Registration

/-- A root and nodes that are not registered yet. -/
def blankTree : Tree where
  node n := { name := if n = rootNode then [0x72] else [0x61] }
  refCnt _ := 0

end Amlogic.Configs
