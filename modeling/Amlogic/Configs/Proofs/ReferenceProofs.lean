import Amlogic.Configs.Proofs.BalanceProofs

/-!
# References over whole calls

A call by a path from the root releases the node it ends at together with everything above it, the
root included, which no walk has counted. So such a call is balanced only if it finds nothing. Over a
run of balanced calls the counts stay as they are, and a node that can be found stays so.
-/

namespace Amlogic.Configs

variable {x : Nat → Except Fault (Int × Tree)} {path : List UInt8} {n p : NodeId}

/-! ## The calls -/

inductive Call where
  | getStr (top : Option NodeId) (path : Option (List UInt8)) (size : Int)
  | setStr (top : Option NodeId) (path val : Option (List UInt8))
  | value (top : Option NodeId) (path : Option (List UInt8)) (valSet valGet : Option UserVal) (size : Int)
      (set : Bool)
  | getNodepath (top : Option NodeId) (path : List UInt8) (size : Int)
  | setNodepath (top : Option NodeId) (path val : List UInt8)
  | setValonpath (top : Option NodeId) (path : List UInt8)
  | setPrefix (pathPrefix path val : Option (List UInt8))
  | setPrefixValonpath (pathPrefix : Option (List UInt8)) (path : List UInt8)
  | list (listNodes : Tree → NodeId → Int) (path : Option (List UInt8))
  | registerNode (path : Option (List UInt8)) (new : NodeId)
  | registerConfigs (path : Option (List UInt8)) (configs : List Mconfig)

namespace Call

def exec : Call → Tree → Nat → Except Fault (Int × Tree)
  | getStr top path size, t, rounds => configsGetNodePathStr rounds t top path size
  | setStr top path val, t, rounds => configsSetNodePathStr rounds t top path val
  | value top path valSet valGet size set, t, rounds =>
    configsSetgetNodePathValue rounds t top path valSet valGet size set
  | getNodepath top path size, t, rounds => configsGetNodeNodepathStr rounds t top path size
  | setNodepath top path val, t, rounds => configsSetNodeNodepathStr rounds t top path val
  | setValonpath top path, t, rounds => configsSetNodePathValonpath rounds t top path
  | setPrefix pathPrefix path val, t, rounds => configsSetPrefixPathStr rounds t pathPrefix path val
  | setPrefixValonpath pathPrefix path, t, rounds => configsSetPrefixPathValonpath rounds t pathPrefix path
  | list listNodes path, t, rounds => configsListPathNodes listNodes rounds t path
  | registerNode path new, t, rounds => configsRegisterPathNode rounds t path new
  | registerConfigs path configs, t, rounds => configsRegisterPathConfigs rounds t path configs

def Restores (c : Call) (t : Tree) : Prop :=
  ∃ ret t', Returns (c.exec t) (ret, t') ∧ t'.refCnt = t.refCnt

def Step (t : Tree) (c : Call) (t' : Tree) : Prop := ∃ ret, Returns (c.exec t) (ret, t')

/-- A node that is registered is a new one: it is not in the tree yet. -/
def Proper (c : Call) (t : Tree) : Prop :=
  match c with
  | registerNode _ new => (t.node new).parentNode = none ∧ new ≠ rootNode
  | _ => True

end Call

/-- A registration in this parent looks up no name, or none that is there. -/
def RegisterQuiet (t : Tree) (parent new : NodeId) : Prop :=
  new = parent ∨ (t.node parent).depth ≥ maxDepth ∨
    (t.node parent).pathPrefix.length + (t.node parent).name.length ≥ maxPrefixName - 2 ∨
    findSon t parent (t.node new).name = none

def BehindBalanced (t : Tree) (top : Option NodeId) (path : List UInt8) (balanced : List UInt8 → Prop) : Prop :=
  match top with
  | none => balanced path
  | some n =>
    match behindName (t.node n).name path with
    | .error _ => False
    | .ok none => True
    | .ok (some rest) => balanced rest

def PrefixBalanced (t : Tree) (path val : Option (List UInt8)) : Option (List UInt8) → Prop
  | none | some [] => SetBalanced t none path val
  | some (p :: pathPrefix) => EndFails t (parts (p :: pathPrefix))

/-- When the call is balanced, in terms of the tree before it. -/
def Call.Balanced (c : Call) (t : Tree) : Prop :=
  match c with
  | .getStr top path _ => GetBalanced t top path
  | .setStr top path val => SetBalanced t top path val
  | .value _ none _ _ _ _ => True
  | .value top (some path) _ _ _ set => AccessBalanced t top set path
  | .getNodepath top path _ => BehindBalanced t top path fun rest => GetBalanced t top (some rest)
  | .setNodepath top path val => BehindBalanced t top path fun rest => SetBalanced t top (some rest) (some val)
  | .setValonpath top path => SetBalanced t top (some path) (configsParserStrValstr path)
  | .setPrefix pathPrefix path val => PrefixBalanced t path val pathPrefix
  | .setPrefixValonpath pathPrefix path => PrefixBalanced t (some path) (configsParserStrValstr path) pathPrefix
  | .list _ none => True
  | .list _ (some path) => EndFails t (parts path)
  | .registerNode none new | .registerNode (some []) new => RegisterQuiet t rootNode new
  | .registerNode (some path) _ => EndFails t (parts path)
  | .registerConfigs none _ | .registerConfigs (some []) _ => True
  | .registerConfigs (some path) _ => EndFails t (parts path)

/-! ## What a call keeps -/

structure Grows (t t' : Tree) : Prop where
  isTree : t'.IsTree
  name : ∀ n, (t'.node n).name = (t.node n).name
  active : ∀ n, (t.node n).active = true → (t'.node n).active = true
  sons : ∀ n, (t.node n).sons <+: (t'.node n).sons

theorem SameShape.grows {t t' : Tree} (h : SameShape t t') (ht : t.IsTree) : Grows t t' := by
  refine ⟨h.isTree ht, ?_, ?_, ?_⟩
  · intro n
    rw [h n]
  · intro n hn
    rw [h n]
    exact hn
  · intro n
    rw [h n]

theorem Grows.of_node {t t' t'' : Tree} (h : Grows t t') (hnode : t''.node = t'.node) : Grows t t'' := by
  obtain ⟨htree, hname, hactive, hsons⟩ := h
  refine ⟨(SameShape.of_node hnode).isTree htree, ?_, ?_, ?_⟩ <;> rw [hnode] <;> assumption

/-- The call ends in a tree that has only grown, with the counts as before iff it is balanced. -/
def Verdict (t : Tree) (x : Nat → Except Fault (Int × Tree)) (balanced : Prop) : Prop :=
  ∃ ret t', Returns x (ret, t') ∧ Grows t t' ∧ (t'.refCnt = t.refCnt ↔ balanced)

theorem Outcome.verdict {t : Tree} (ht : t.IsTree) {balanced : Prop}
    (h : Outcome t x balanced) : Verdict t x balanced := by
  obtain ⟨ret, t', hret, hshape, hsettles⟩ := h
  refine ⟨ret, t', hret, hshape.grows ht, ?_⟩
  rcases hsettles with ⟨hbal, hcnt⟩ | ⟨hbal, hleaves⟩
  · exact iff_of_true hcnt hbal
  · exact iff_of_false hleaves.ne hbal

/-! ## Calls by a path from the root -/

section Root

variable {t t₂ : Tree} {l : List NodeId}

theorem put_root (ht : t₂.IsTree) (hl : Held t₂ rootNode l) :
    Returns (fun rounds => configsPutNode rounds t₂ (some (l.headD rootNode)) true none)
      (t₂.decs (l ++ [rootNode])) := by
  cases l with
  | nil =>
    have hup : Up t₂ none (t₂.node rootNode).parentNode [] := by
      rw [ht.root_parent]
      exact .top
    exact hup.put (.refl t₂)
  | cons n l =>
    have hup : Up t₂ none (t₂.node n).parentNode (l ++ [rootNode]) := by
      rw [hl.1]
      exact Held.up_root ht hl.2
    exact hup.put (.refl t₂)

theorem end_verdict (ht : t.IsTree) (hfail : ∀ t', configsGetNodePathEndNode t none (some path) = (none, t') →
      ∃ ret, ∀ rounds, x rounds = .ok (ret, t')) (hok : ∀ l, Held t rootNode l →
      configsGetNodePathEndNode t none (some path) = (some (l.headD rootNode), t.incs l) →
      ∃ ret t₂, Grows t t₂ ∧ Held t₂ rootNode l ∧
        (t₂.refCnt rootNode = (t.incs l).refCnt rootNode ∨
          t₂.refCnt rootNode = (t.incs l).refCnt rootNode - 1) ∧
        ∀ t3, Returns (fun rounds => configsPutNode rounds t₂ (some (l.headD rootNode)) true none) t3 →
          Returns x (ret, t3)) : Verdict t x (EndFails t (parts path)) := by
  have hgrows : ∀ l, Grows t (t.incs l) := fun l => SameShape.grows (.of_node rfl) ht
  rcases endNode_cases ht (parts path) with
    ⟨hfails, hend⟩ | ⟨hfails, ⟨l, hne, hl, hend⟩ | ⟨l, hl, hend⟩⟩
  · obtain ⟨ret, hx⟩ := hfail t hend
    exact ⟨ret, t, (Returns.pure _).congr hx, SameShape.grows (.of_node rfl) ht, iff_of_true rfl hfails⟩
  · obtain ⟨ret, hx⟩ := hfail _ hend
    refine ⟨ret, _, (Returns.pure _).congr hx, hgrows l, iff_of_false ?_ hfails⟩
    exact (leaves_held ht hl hne rfl).ne
  · obtain ⟨ret, t₂, hg, hl2, hcnt, hx⟩ := hok l hl hend
    refine ⟨ret, t₂.decs (l ++ [rootNode]), hx _ (put_root hg.isTree hl2), hg.of_node rfl,
      iff_of_false ?_ hfails⟩
    intro heq
    have hroot := congrFun heq rootNode
    have hnotin : rootNode ∉ l := hl.root_notMem ht
    have hinc : (t.incs l).refCnt rootNode = t.refCnt rootNode := by
      simp [Tree.incs, List.count_eq_zero_of_not_mem hnotin]
    have hdec : (t₂.decs (l ++ [rootNode])).refCnt rootNode = t₂.refCnt rootNode - 1 := by
      simp [Tree.decs, List.count_append, List.count_eq_zero_of_not_mem hnotin]
    rcases hcnt with hcnt | hcnt
    · exact absurd hroot (by bv_omega)
    · exact absurd hroot (by bv_omega)

theorem SameShape.held {a : NodeId} (h : SameShape t t₂) (hl : Held t a l) : Held t₂ a l := by
  induction l with
  | nil => trivial
  | cons n l ih => exact ⟨(h.parents n).trans hl.1, ih hl.2⟩

theorem end_verdict_of_shape (ht : t.IsTree)
    (hfail : ∀ t', configsGetNodePathEndNode t none (some path) = (none, t') →
      ∃ ret, ∀ rounds, x rounds = .ok (ret, t'))
    (hok : ∀ n t', configsGetNodePathEndNode t none (some path) = (some n, t') → t'.node = t.node →
      ∃ ret t₂, SameShape t' t₂ ∧ t₂.refCnt = t'.refCnt ∧
        ∀ rounds, x rounds = (configsPutNode rounds t₂ (some n) true none >>= fun t3 => .ok (ret, t3))) :
    Verdict t x (EndFails t (parts path)) := by
  refine end_verdict ht hfail ?_
  intro l hl hend
  obtain ⟨ret, t₂, hshape, hcnt, hx⟩ := hok _ _ hend rfl
  have hshape' : SameShape t t₂ := SameShape.trans (.of_node rfl) hshape
  refine ⟨ret, t₂, hshape'.grows ht, hshape'.held hl, .inl (congrFun hcnt rootNode), ?_⟩
  intro t3 hput
  exact (hput.reply ret).congr hx

theorem registerConfigs_shape (t : Tree) (n : NodeId) (configs : List Mconfig) :
    SameShape t (configsRegisterConfigs t n configs).2 ∧
      (configsRegisterConfigs t n configs).2.refCnt = t.refCnt := by
  unfold configsRegisterConfigs
  cases hc : (t.node n).configs with
  | some _ => exact ⟨.of_node rfl, rfl⟩
  | none =>
    refine ⟨?_, rfl⟩
    intro m
    by_cases hm : m = n
    · subst hm
      simp [Tree.setNode]
    · simp [Tree.setNode, hm]

end Root

/-! ## Registration of a node -/

section Register

variable {t : Tree} {parent new : NodeId} {l : List NodeId}

def Above (t : Tree) (m n : NodeId) : Prop :=
  Relation.ReflTransGen (fun x y => (t.node x).parentNode = some y) n m

theorem Above.iff_of_parent {m : NodeId} (hp : (t.node n).parentNode = some p) (hne : m ≠ n) :
    Above t m n ↔ Above t m p := by
  constructor
  · intro h
    rcases Relation.ReflTransGen.cases_head h with heq | ⟨q, hq, habove⟩
    · exact absurd heq.symm hne
    · rw [hp] at hq
      exact Option.some.inj hq ▸ habove
  · intro h
    exact Relation.ReflTransGen.head hp h

theorem Held.above (ht : t.IsTree) (hl : Held t rootNode l) {m : NodeId}
    (h : Above t m (l.headD rootNode)) : m ∈ rootNode :: l := by
  induction l with
  | nil =>
    rcases Relation.ReflTransGen.cases_head h with heq | ⟨q, hq, -⟩
    · exact heq ▸ List.mem_cons_self
    · rw [List.headD_nil, ht.root_parent] at hq
      cases hq
  | cons n l ih =>
    by_cases hne : m = n
    · subst hne
      exact List.mem_cons_of_mem _ List.mem_cons_self
    · have hmem := ih hl.2 ((Above.iff_of_parent hl.1 hne).mp h)
      rcases List.mem_cons.mp hmem with rfl | hmem
      · exact List.mem_cons_self
      · exact List.mem_cons_of_mem _ (List.mem_cons_of_mem _ hmem)

theorem addNode_node (n : NodeId) (hne : new ≠ parent) : (addNode t parent new).node n =
    if n = parent then { t.node n with sons := (t.node n).sons ++ [new] }
    else if n = new then (addNode t parent new).node new else t.node n := by
  unfold addNode Tree.setNode
  dsimp only
  split_ifs <;> simp_all

theorem addNode_new (hne : new ≠ parent) : (addNode t parent new).node new = { t.node new with
    depth := (t.node parent).depth + 1
    pathPrefix := if (t.node parent).depth + 1 ≥ 2 then
        (if (t.node parent).pathPrefix ≠ [] then (t.node parent).pathPrefix ++ [charDot] else (t.node new).pathPrefix) ++
          (t.node parent).name
      else (t.node new).pathPrefix
    parentNode := some parent
    rwFlags := (t.node parent).rwFlags &&& (t.node new).rwFlags
    active := true } := by
  simp [addNode, Tree.setNode, hne]

theorem addNode_parentNode (n : NodeId) (hne : new ≠ parent) :
    ((addNode t parent new).node n).parentNode = if n = new then some parent else (t.node n).parentNode := by
  rw [addNode_node n hne, addNode_new hne]
  split_ifs <;> simp_all

theorem addNode_sons (n : NodeId) (hne : new ≠ parent) :
    ((addNode t parent new).node n).sons =
      if n = parent then (t.node n).sons ++ [new] else (t.node n).sons := by
  rw [addNode_node n hne, addNode_new hne]
  split_ifs <;> simp_all

theorem addNode_name_active (n : NodeId) (hne : new ≠ parent) :
    ((addNode t parent new).node n).name = (t.node n).name ∧
      ((t.node n).active = true → ((addNode t parent new).node n).active = true) := by
  rw [addNode_node n hne, addNode_new hne]
  split_ifs <;> simp_all

/-- A registration may count up a son of the parent that has the name, and it may add the node. -/
theorem registerNode_cases (t : Tree) (parent : Option NodeId) (new : NodeId) : ∃ t1,
    ((RegisterQuiet t (parent.getD rootNode) new ∧ t1 = t) ∨ (¬ RegisterQuiet t (parent.getD rootNode) new ∧
      ∃ m, findSon t (parent.getD rootNode) (t.node new).name = some m ∧ t1 = t.incRef m)) ∧
    ((configsRegisterNode t parent new).2 = t1 ∨ (new ≠ parent.getD rootNode ∧
      (t.node (parent.getD rootNode)).depth < maxDepth ∧
      (configsRegisterNode t parent new).2 = addNode t1 (parent.getD rootNode) new)) := by
  unfold configsRegisterNode
  by_cases h1 : new = parent.getD rootNode
  · exact ⟨t, .inl ⟨.inl h1, rfl⟩, .inl (by rw [if_pos h1])⟩
  by_cases h2 : (t.node (parent.getD rootNode)).depth ≥ maxDepth
  · exact ⟨t, .inl ⟨.inr (.inl h2), rfl⟩, .inl (by rw [if_neg h1, if_pos h2])⟩
  by_cases h3 : (t.node (parent.getD rootNode)).pathPrefix.length +
      (t.node (parent.getD rootNode)).name.length ≥ maxPrefixName - 2
  · exact ⟨t, .inl ⟨.inr (.inr (.inl h3)), rfl⟩, .inl (by rw [if_neg h1, if_neg h2, if_pos h3])⟩
  rw [if_neg h1, if_neg h2, if_neg h3]
  cases hf : findSon t (parent.getD rootNode) (t.node new).name with
  | none =>
    refine ⟨t, .inl ⟨.inr (.inr (.inr hf)), rfl⟩, .inr ⟨h1, not_le.mp h2, ?_⟩⟩
    rw [configsGetNodeWithName_none hf]
  | some m =>
    refine ⟨t.incRef m, .inr ⟨?_, m, rfl, rfl⟩, ?_⟩
    · rintro (h | h | h | h)
      · exact h1 h
      · exact h2 h
      · exact h3 h
      · rw [hf] at h
        cases h
    · rw [configsGetNodeWithName_some hf]
      by_cases hr : Refused t m
      · exact .inr ⟨h1, not_le.mp h2, by simp only [if_pos hr]⟩
      · exact .inl (by simp only [if_neg hr])

theorem incRef_root (ht : t.IsTree) {m : NodeId} {name : List UInt8} (hm : findSon t p name = some m)
    (t1 : Tree) : (t1.incRef m).refCnt rootNode = t1.refCnt rootNode := by
  have hne : rootNode ≠ m := by
    rintro rfl
    have hsome := findSon_parent ht hm
    rw [ht.root_parent] at hsome
    cases hsome
  simp [Tree.incRef, hne]

section

variable (ht : t.IsTree) (hnew : (t.node new).parentNode = none) (hroot : new ≠ rootNode)
include ht hnew hroot

theorem not_above_of_new (hl : Held t rootNode l) : ¬ Above t new (l.headD rootNode) := by
  have hnotin : ∀ l, Held t rootNode l → new ∉ l := by
    intro l hl
    induction l with
    | nil => exact List.not_mem_nil
    | cons n l ih =>
      intro hmem
      rcases List.mem_cons.mp hmem with rfl | hmem
      · have hsome := hl.1
        rw [hnew] at hsome
        cases hsome
      · exact ih hl.2 hmem
  intro habove
  rcases List.mem_cons.mp (hl.above ht habove) with heq | hmem
  · exact hroot heq
  · exact hnotin l hl hmem

/-- A new node below a node of the tree makes a tree again: everything in the part that hangs below the
new node is ranked behind the parent. -/
theorem addNode_isTree (habove : ¬ Above t new parent) : (addNode t parent new).IsTree := by
  classical
  have hne : new ≠ parent := by
    rintro rfl
    exact habove .refl
  refine ⟨?_, ?_, ?_⟩
  · rw [addNode_parentNode _ hne, if_neg hroot.symm]
    exact ht.root_parent
  · intro n m hm
    rw [addNode_sons _ hne] at hm
    rw [addNode_parentNode _ hne]
    have hold : m ∈ (t.node n).sons → (if m = new then some parent else (t.node m).parentNode) = some n := by
      intro hmem
      have hparent := ht.son_parent n m hmem
      rw [if_neg, hparent]
      rintro rfl
      rw [hnew] at hparent
      cases hparent
    split_ifs at hm with hn
    · rcases List.mem_append.mp hm with hm | hm
      · exact hold hm
      · rw [List.mem_singleton.mp hm, if_pos rfl, hn]
    · exact hold hm
  · obtain ⟨rank, hrank⟩ := ht.acyclic
    refine ⟨fun n => rank n + if Above t new n then rank parent + 1 else 0, ?_⟩
    intro n p hp
    rw [addNode_parentNode _ hne] at hp
    dsimp only
    by_cases hn : n = new
    · rw [if_pos hn] at hp
      rw [← Option.some.inj hp, hn, if_neg habove, if_pos (show Above t new new from .refl)]
      omega
    · rw [if_neg hn] at hp
      have hlt := hrank n p hp
      have hiff := Above.iff_of_parent hp (Ne.symm hn)
      by_cases ha : Above t new p
      · rw [if_pos ha, if_pos (hiff.mpr ha)]
        omega
      · rw [if_neg ha, if_neg (fun h => ha (hiff.mp h))]
        omega

theorem addNode_grows (habove : ¬ Above t new parent) : Grows t (addNode t parent new) := by
  have hne : new ≠ parent := by
    rintro rfl
    exact habove .refl
  refine ⟨addNode_isTree ht hnew hroot habove, ?_, ?_, ?_⟩
  · intro n
    exact (addNode_name_active n hne).1
  · intro n
    exact (addNode_name_active n hne).2
  · intro n
    rw [addNode_sons n hne]
    split_ifs
    · exact List.prefix_append _ _
    · exact List.prefix_refl _

theorem registerNode_grows (hl : Held t rootNode l) (t1 : Tree) (hnode : t1.node = t.node) :
    (Grows t t1 ∧ Held t1 rootNode l) ∧ Grows t (addNode t1 (l.headD rootNode) new) ∧
      Held (addNode t1 (l.headD rootNode) new) rootNode l := by
  have habove := not_above_of_new ht hnew hroot hl
  have hsame : SameShape t t1 := .of_node hnode
  have hne : new ≠ l.headD rootNode := by
    intro heq
    exact habove (heq ▸ .refl)
  have hadd : (addNode t1 (l.headD rootNode) new).node = (addNode t (l.headD rootNode) new).node := by
    unfold addNode Tree.setNode
    rw [hnode]
  refine ⟨⟨hsame.grows ht, hsame.held hl⟩, (addNode_grows ht hnew hroot habove).of_node hadd, ?_⟩
  -- the new node is not on the walk, so the parents on it are unchanged
  have hkeep : ∀ k, Held t rootNode k → Held (addNode t1 (l.headD rootNode) new) rootNode k := by
    intro k hk
    induction k with
    | nil => trivial
    | cons n k ih =>
      refine ⟨?_, ih hk.2⟩
      have hn : n ≠ new := by
        rintro rfl
        have hsome := hk.1
        rw [hnew] at hsome
        cases hsome
      rw [hadd, addNode_parentNode n hne, if_neg hn]
      exact hk.1
  exact hkeep l hl

theorem registerNode_keeps (hl : Held t rootNode l) {t₂ : Tree}
    (ht2 : (configsRegisterNode (t.incs l) (some (l.headD rootNode)) new).2 = t₂) :
    (Grows t t₂ ∧ Held t₂ rootNode l) ∧ t₂.refCnt rootNode = (t.incs l).refCnt rootNode := by
  obtain ⟨t1, hcount, hres⟩ := registerNode_cases (t.incs l) (some (l.headD rootNode)) new
  obtain ⟨hnode, hcnt⟩ : t1.node = t.node ∧ t1.refCnt rootNode = (t.incs l).refCnt rootNode := by
    rcases hcount with ⟨-, rfl⟩ | ⟨-, m, hm, rfl⟩
    · exact ⟨rfl, rfl⟩
    · exact ⟨rfl, incRef_root ht hm _⟩
  obtain ⟨hsame, hadd⟩ := registerNode_grows ht hnew hroot hl t1 hnode
  rcases hres with h | ⟨-, -, h⟩
  · rw [← ht2, h]
    exact ⟨hsame, hcnt⟩
  · rw [← ht2, h]
    exact ⟨hadd, hcnt⟩

theorem registerNode_verdict :
    Verdict t (fun _ => .ok (configsRegisterNode t none new)) (RegisterQuiet t rootNode new) := by
  have hnil : Held t rootNode [] := trivial
  have hplus : ∀ m, (t.incRef m).refCnt ≠ t.refCnt := by
    intro m heq
    have hm := congrFun heq m
    simp only [Tree.incRef, if_true] at hm
    exact absurd hm (by bv_omega)
  have hgrows : Grows t (configsRegisterNode t none new).2 := by
    have hkeeps := registerNode_keeps ht hnew hroot hnil rfl
    rw [Tree.incs_nil] at hkeeps
    exact hkeeps.1.1
  refine ⟨_, (configsRegisterNode t none new).2, Returns.pure _, hgrows, ?_⟩
  obtain ⟨t1, hcount, hres⟩ := registerNode_cases t none new
  have hcnt : (configsRegisterNode t none new).2.refCnt = t1.refCnt := by
    rcases hres with h | ⟨-, -, h⟩
    · rw [h]
    · rw [h]
      rfl
  rw [hcnt]
  rcases hcount with ⟨hq, rfl⟩ | ⟨hq, m, -, rfl⟩
  · exact iff_of_true rfl hq
  · exact iff_of_false (hplus m) hq

end

end Register

/-! ## All calls -/

section Calls

variable {t t' : Tree} {c : Call}

theorem verdict_unchanged (ht : t.IsTree) {ret : Int}
    (h : ∀ rounds, x rounds = .ok (ret, t)) : Verdict t x True := (outcome_unchanged h).verdict ht

theorem behind_verdict (ht : t.IsTree) {top : Option NodeId} {balanced : List UInt8 → Prop}
    {y : List UInt8 → Nat → Except Fault (Int × Tree)} (hx : ∀ rounds, x rounds = match top with
      | none => y path rounds
      | some n => behindName (t.node n).name path >>= fun r =>
        match r with
        | none => .ok (-1, t)
        | some rest => y rest rounds) (hy : ∀ rest, Verdict t (y rest) (balanced rest)) :
    Verdict t x (BehindBalanced t top path balanced) ∨
      (¬ BehindBalanced t top path balanced ∧ ∀ rounds, ∃ f, x rounds = .error f) := by
  unfold BehindBalanced
  cases top with
  | none =>
    refine .inl ?_
    rw [show x = y path from funext hx]
    exact hy path
  | some n =>
    dsimp only at hx ⊢
    cases hb : behindName (t.node n).name path with
    | error f =>
      refine .inr ⟨id, ?_⟩
      intro rounds
      exact ⟨f, by rw [hx, hb]; rfl⟩
    | ok r =>
      rw [hb] at hx
      cases r with
      | none => exact .inl (verdict_unchanged ht hx)
      | some rest =>
        refine .inl ?_
        rw [show x = y rest from funext hx]
        exact hy rest

theorem setPrefix_verdict (ht : t.IsTree) (pathPrefix path val : Option (List UInt8)) :
    Verdict t (fun rounds => configsSetPrefixPathStr rounds t pathPrefix path val)
      (PrefixBalanced t path val pathPrefix) := by
  match pathPrefix with
  | none | some [] => exact (setNodePathStr_outcome ht none path val).verdict ht
  | some (p :: pathPrefix) =>
    refine end_verdict ht ?_ ?_
    · intro t' hend
      exact ⟨-1, fun rounds => by simp only [configsSetPrefixPathStr, hend]⟩
    · intro l hl hend
      have hsame : SameShape t (t.incs l) := .of_node rfl
      obtain ⟨ret, t₂, hret, hshape, hsettles⟩ :=
        setNodePathStr_outcome (hsame.isTree ht) (some (l.headD rootNode)) path val
      have hshape' : SameShape t t₂ := hsame.trans hshape
      refine ⟨ret, t₂, hshape'.grows ht, hshape'.held hl, hsettles.root, ?_⟩
      intro t3 hput
      refine (hret.bind (f := fun rounds r => configsPutNode rounds r.2 (some (l.headD rootNode)) true none >>=
        fun t3 => .ok (r.1, t3)) (hput.reply ret)).congr ?_
      intro rounds
      simp only [configsSetPrefixPathStr, hend]
      rfl

/-- Every call has its verdict, or is not balanced and reads behind its path. -/
theorem Call.verdict (ht : t.IsTree) (hc : c.Proper t) :
    Verdict t (c.exec t) (c.Balanced t) ∨ (¬ c.Balanced t ∧ ∀ rounds, ∃ f, c.exec t rounds = .error f) := by
  cases c with
  | getStr top path size => exact .inl ((getNodePathStr_outcome ht top path size).verdict ht)
  | setStr top path val => exact .inl ((setNodePathStr_outcome ht top path val).verdict ht)
  | value top path valSet valGet size set =>
    cases path with
    | none => exact .inl (verdict_unchanged ht fun _ => rfl)
    | some path => exact .inl ((setgetNodePathValue_outcome ht top path valSet valGet size set).verdict ht)
  | getNodepath top path size =>
    refine behind_verdict ht (y := fun rest rounds => configsGetNodePathStr rounds t top (some rest) size) ?_
      fun rest => (getNodePathStr_outcome ht top (some rest) size).verdict ht
    intro rounds
    cases top <;> rfl
  | setNodepath top path val =>
    refine behind_verdict ht (y := fun rest rounds => configsSetNodePathStr rounds t top (some rest) (some val))
      ?_ fun rest => (setNodePathStr_outcome ht top (some rest) (some val)).verdict ht
    intro rounds
    cases top <;> rfl
  | setValonpath top path =>
    exact .inl ((setNodePathStr_outcome ht top (some path) (configsParserStrValstr path)).verdict ht)
  | setPrefix pathPrefix path val => exact .inl (setPrefix_verdict ht pathPrefix path val)
  | setPrefixValonpath pathPrefix path =>
    exact .inl (setPrefix_verdict ht pathPrefix (some path) (configsParserStrValstr path))
  | list listNodes path =>
    cases path with
    | none => exact .inl (verdict_unchanged ht fun _ => rfl)
    | some path =>
      refine .inl (end_verdict_of_shape ht ?_ ?_)
      · intro t' hend
        exact ⟨0, fun rounds => by simp only [Call.exec, configsListPathNodes, hend]⟩
      · intro n t' hend _
        refine ⟨listNodes t' n, t', .of_node rfl, rfl, ?_⟩
        intro rounds
        simp only [Call.exec, configsListPathNodes, hend]
        rfl
  | registerNode path new =>
    obtain ⟨hnew, hroot⟩ := hc
    match path with
    | none | some [] => exact .inl (registerNode_verdict ht hnew hroot)
    | some (p :: path) =>
      refine .inl (end_verdict ht ?_ ?_)
      · intro t' hend
        exact ⟨-1, fun rounds => by simp only [Call.exec, configsRegisterPathNode, hend]⟩
      · intro l hl hend
        generalize hr : configsRegisterNode (t.incs l) (some (l.headD rootNode)) new = r
        obtain ⟨⟨hgrows, hheld⟩, hcnt⟩ := registerNode_keeps ht hnew hroot hl (congrArg Prod.snd hr)
        refine ⟨r.1, r.2, hgrows, hheld, .inl hcnt, ?_⟩
        intro t3 hput
        refine (hput.reply r.1).congr ?_
        intro rounds
        simp only [Call.exec, configsRegisterPathNode, hend, hr]
        rfl
  | registerConfigs path configs =>
    match path with
    | none | some [] => exact .inl (verdict_unchanged ht fun _ => rfl)
    | some (p :: path) =>
      refine .inl (end_verdict_of_shape ht ?_ ?_)
      · intro t' hend
        exact ⟨-1, fun rounds => by simp only [Call.exec, configsRegisterPathConfigs, hend]⟩
      · intro n t' hend _
        obtain ⟨hshape, hcnt⟩ := registerConfigs_shape t' n configs
        refine ⟨(configsRegisterConfigs t' n configs).1, _, hshape, hcnt, ?_⟩
        intro rounds
        simp only [Call.exec, configsRegisterPathConfigs, hend]
        rfl

theorem Call.restores_iff (ht : t.IsTree) (hc : c.Proper t) : c.Restores t ↔ c.Balanced t := by
  rcases Call.verdict ht hc with ⟨ret, t', hret, -, hiff⟩ | ⟨hbal, herr⟩
  · constructor
    · rintro ⟨ret', t'', hret', hcnt⟩
      cases hret.unique hret'
      exact hiff.mp hcnt
    · intro hbal
      exact ⟨ret, t', hret, hiff.mpr hbal⟩
  · refine iff_of_false ?_ hbal
    rintro ⟨ret, t', ⟨bound, hbound⟩, -⟩
    obtain ⟨f, hf⟩ := herr bound
    rw [hbound bound (le_refl _)] at hf
    cases hf

theorem Call.step_balanced (ht : t.IsTree) (hc : c.Proper t) (hbal : c.Balanced t) (hstep : Call.Step t c t') :
    Grows t t' ∧ t'.refCnt = t.refCnt := by
  obtain ⟨ret, hret⟩ := hstep
  rcases Call.verdict ht hc with ⟨ret', t'', hret', hgrows, hiff⟩ | ⟨hno, -⟩
  · cases hret.unique hret'
    exact ⟨hgrows, hiff.mpr hbal⟩
  · exact absurd hbal hno

def Findable (t : Tree) (p n : NodeId) : Prop := (configsGetNodeWithName t p (t.node n).name).1 = some n

theorem findable_iff :
    Findable t p n ↔ findSon t p (t.node n).name = some n ∧ ¬ Refused t n := by
  unfold Findable
  cases hf : findSon t p (t.node n).name with
  | none =>
    rw [configsGetNodeWithName_none hf]
    refine iff_of_false ?_ ?_
    · rintro ⟨⟩
    · rintro ⟨⟨⟩, -⟩
  | some m =>
    rw [configsGetNodeWithName_some hf]
    by_cases hr : Refused t m
    · rw [if_pos hr]
      refine iff_of_false nofun ?_
      rintro ⟨hmn, hn⟩
      exact hn (Option.some.inj hmn ▸ hr)
    · rw [if_neg hr]
      constructor
      · intro hmn
        exact ⟨hmn, Option.some.inj hmn ▸ hr⟩
      · rintro ⟨hmn, -⟩
        exact hmn

theorem Grows.findable (hg : Grows t t') (hcnt : t'.refCnt = t.refCnt) (h : Findable t p n) :
    Findable t' p n := by
  obtain ⟨hson, hrefused⟩ := findable_iff.mp h
  obtain ⟨hfind, hactive⟩ := Option.filter_eq_some_iff.mp hson
  refine findable_iff.mpr ⟨?_, ?_⟩
  · obtain ⟨more, hmore⟩ := hg.sons p
    refine Option.filter_eq_some_iff.mpr ⟨?_, hg.active n hactive⟩
    have hnames : (fun m => decide ((t'.node m).name = (t'.node n).name)) =
        fun m => decide ((t.node m).name = (t.node n).name) := by
      funext m
      rw [hg.name m, hg.name n]
    rw [hnames, ← hmore, List.find?_append, hfind]
    rfl
  · unfold Refused at hrefused ⊢
    rw [hcnt]
    exact hrefused

/-- References are restored by exactly the balanced calls, and over a run of balanced calls a node that
can be found stays so. -/
theorem references_restored_iff (t : Tree) (ht : t.IsTree) :
    (∀ c : Call, c.Proper t → (c.Restores t ↔ c.Balanced t)) ∧
    ∀ t' : Tree, Runs Call.Step (fun t c => c.Proper t ∧ c.Balanced t) t t' →
      t'.refCnt = t.refCnt ∧ ∀ p n, Findable t p n → Findable t' p n := by
  refine ⟨fun c hc => Call.restores_iff ht hc, ?_⟩
  intro t' hrun
  have hkeeps : t'.IsTree ∧ t'.refCnt = t.refCnt ∧ ∀ p n, Findable t p n → Findable t' p n := by
    refine Runs.keeps (P := fun s => s.IsTree ∧ s.refCnt = t.refCnt ∧ ∀ p n, Findable t p n → Findable s p n)
      ?_ hrun ⟨ht, rfl, fun _ _ h => h⟩
    rintro s c s' ⟨hs, hcnt, hfind⟩ ⟨hc, hbal⟩ hstep
    obtain ⟨hgrows, hsame⟩ := Call.step_balanced hs hc hbal hstep
    exact ⟨hgrows.isTree, hsame.trans hcnt, fun p n h => hgrows.findable hsame (hfind p n h)⟩
  exact hkeeps.2

end Calls

def smallTree : Tree where
  node n :=
    if n = 0 then { name := [0x72], sons := [1] }
    else if n = 1 then { name := [0x61], parentNode := some 0, sons := [2], depth := 1 }
    else if n = 2 then { name := [0x62], parentNode := some 1, depth := 2 }
    else { name := [] }
  refCnt _ := 0

theorem smallTree_parent (h : (smallTree.node n).parentNode = some p) :
    n = 1 ∧ p = 0 ∨ n = 2 ∧ p = 1 := by
  unfold smallTree at h
  dsimp only at h
  split_ifs at h with h0 h1 h2
  · exact .inl ⟨h1, (Option.some.inj h).symm⟩
  · exact .inr ⟨h2, (Option.some.inj h).symm⟩

theorem smallTree_isTree : smallTree.IsTree := by
  refine ⟨rfl, ?_, id, ?_⟩
  · intro n m hm
    unfold smallTree at hm
    dsimp only at hm
    split_ifs at hm with h0 h1 h2
    · rw [List.mem_singleton.mp hm, h0]
      rfl
    · rw [List.mem_singleton.mp hm, h1]
      rfl
    · cases hm
    · cases hm
  · intro n p hp
    rcases smallTree_parent hp with ⟨rfl, rfl⟩ | ⟨rfl, rfl⟩ <;> decide

/-- The listing of a path that is not there. -/
theorem references_restored_iff_smallTree :
    (Call.list (fun _ _ => 0) (some [0x78])).Restores smallTree :=
  ((references_restored_iff smallTree smallTree_isTree).1 (.list (fun _ _ => 0) (some [0x78])) trivial).mpr
    (by show EndFails smallTree (.last [0x78]); exact ⟨by decide, by decide⟩)

/-- The listing of the node `a` leaves the root counted down. -/
theorem references_not_restored :
    ¬ ∀ (t : Tree) (c : Call), t.IsTree → c.Proper t → c.Restores t := by
  intro hall
  have hproper : (Call.list (fun _ _ => 0) (some [0x61])).Proper smallTree := trivial
  have hbal : EndFails smallTree (.last [0x61]) :=
    (Call.restores_iff smallTree_isTree hproper).mp (hall _ _ smallTree_isTree hproper)
  exact absurd hbal.2 (by decide)

end Amlogic.Configs
