import Amlogic.Base.Runs
import Amlogic.Configs.Proofs.NodeProofs

/-!
# Are the references of config nodes balanced?

Every call ends. It leaves all counts as they were, or it leaves some nodes counted up or down; which
of the two is decided by the tree and the path before the call. The balanced calls are those that find
no node at all, and those that stay strictly below a given top node.
-/

namespace Amlogic.Configs

/-! ## What a call does to the counts -/

def SameShape (t t' : Tree) : Prop := ∀ n, t'.node n = { t.node n with configs := (t'.node n).configs }

/-- Nodes stay counted up, the root not among them, or are counted down too often. -/
inductive Leaves (t t' : Tree) : Prop where
  | up {l : List NodeId} : l ≠ [] → l.Nodup → rootNode ∉ l → t'.refCnt = (t.incs l).refCnt → Leaves t t'
  | down {l : List NodeId} : l ≠ [] → l.Nodup → t'.refCnt = (t.decs l).refCnt → Leaves t t'

def Settles (t t' : Tree) (balanced : Prop) : Prop :=
  (balanced ∧ t'.refCnt = t.refCnt) ∨ (¬ balanced ∧ Leaves t t')

/-- The call ends, changes nothing but entries and counts, and settles the counts. -/
def Outcome (t : Tree) (x : Nat → Except Fault (Int × Tree)) (balanced : Prop) : Prop :=
  ∃ ret t', Returns x (ret, t') ∧ SameShape t t' ∧ Settles t t' balanced

namespace SameShape

variable {t t' t'' : Tree}

theorem of_node (h : t'.node = t.node) : SameShape t t' := fun n => by rw [h]

theorem trans (h : SameShape t t') (h' : SameShape t' t'') : SameShape t t'' := by
  intro n
  rw [h' n, h n]

theorem parents (h : SameShape t t') : SameParents t t' := fun n => by rw [h n]

theorem isTree (h : SameShape t t') (ht : t.IsTree) : t'.IsTree := by
  refine ⟨?_, ?_, ?_⟩
  · rw [h.parents rootNode]
    exact ht.root_parent
  · intro n m hm
    rw [h.parents m]
    refine ht.son_parent n m ?_
    rw [h n] at hm
    exact hm
  · obtain ⟨rank, hrank⟩ := ht.acyclic
    refine ⟨rank, ?_⟩
    intro n p hp
    rw [h.parents n] at hp
    exact hrank n p hp

theorem setEntry (t : Tree) (n : NodeId) (i : Nat) (c : Mconfig) : SameShape t (setEntry t n i c) := by
  intro m
  by_cases hm : m = n
  · subst hm
    simp [Configs.setEntry, Tree.setNode]
  · simp [Configs.setEntry, Tree.setNode, hm]

end SameShape

section Counts

variable {t t' : Tree}

theorem Tree.decs_append (t : Tree) (l m : List NodeId) : (t.decs l).decs m = t.decs (l ++ m) := by
  unfold Tree.decs
  congr 1
  funext n
  rw [List.count_append, BitVec.ofNat_add, BitVec.sub_sub]

theorem Tree.decs_refCnt_congr (h : t'.refCnt = t.refCnt) (l : List NodeId) :
    (t'.decs l).refCnt = (t.decs l).refCnt := by
  unfold Tree.decs
  rw [h]

theorem Leaves.ne (h : Leaves t t') : t'.refCnt ≠ t.refCnt := by
  intro heq
  cases h with
  | @up l hne hnodup _ hcnt =>
    cases l with
    | nil => exact hne rfl
    | cons n l =>
      have hn := congrFun (hcnt.symm.trans heq) n
      simp only [Tree.incs, List.count_eq_one_of_mem hnodup List.mem_cons_self] at hn
      exact absurd hn (by bv_omega)
  | @down l hne hnodup hcnt =>
    cases l with
    | nil => exact hne rfl
    | cons n l =>
      have hn := congrFun (hcnt.symm.trans heq) n
      simp only [Tree.decs, List.count_eq_one_of_mem hnodup List.mem_cons_self] at hn
      exact absurd hn (by bv_omega)

theorem Settles.root {balanced : Prop} (h : Settles t t' balanced) :
    t'.refCnt rootNode = t.refCnt rootNode ∨ t'.refCnt rootNode = t.refCnt rootNode - 1 := by
  rcases h with ⟨-, hcnt⟩ | ⟨-, hleaves⟩
  · exact .inl (congrFun hcnt rootNode)
  · cases hleaves with
    | @up l _ _ hroot hcnt =>
      refine .inl ((congrFun hcnt rootNode).trans ?_)
      simp [Tree.incs, List.count_eq_zero_of_not_mem hroot]
    | @down l _ hnodup hcnt =>
      by_cases hmem : rootNode ∈ l
      · refine .inr ((congrFun hcnt rootNode).trans ?_)
        simp [Tree.decs, List.count_eq_one_of_mem hnodup hmem]
      · refine .inl ((congrFun hcnt rootNode).trans ?_)
        simp [Tree.decs, List.count_eq_zero_of_not_mem hmem]

theorem leaves_held (ht : t.IsTree) {l : List NodeId} (hl : Held t rootNode l) (hne : l ≠ [])
    (hcnt : t'.refCnt = (t.incs l).refCnt) : Leaves t t' := by
  obtain ⟨hroot, hnodup⟩ := List.nodup_cons.mp (Held.nodup ht hl)
  exact .up hne hnodup hroot hcnt

end Counts

/-! ## Access to an entry -/

def grant (t : Tree) (n : NodeId) (name : List UInt8) (set : Bool) : Option Nat :=
  if set ∧ (t.node n).rwFlags &&& configForW = 0 then none
  else if !set ∧ (t.node n).rwFlags &&& configForR = 0 then none
  else ((t.node n).configs.getD []).findIdx? fun c => c.itemName = name

/-- The access counts every node down that it counts up: no part of the path is missing as text, no
node on it is refused, and the entry is not in the top node itself; with the root as top node, nothing
may be granted either. -/
def AccessBalanced (t : Tree) (top : Option NodeId) (set : Bool) (path : List UInt8) : Prop :=
  match walk t (top.getD rootNode) [] (parts path) with
  | (ns, .malformed) => ns = []
  | (_, .missing) => True
  | (_, .refused _) => False
  | (ns, .arrived name) => ns ≠ [] ∧ (top ≠ none ∨ grant t (ns.headD (top.getD rootNode)) name set = none)

section Access

variable {t t' : Tree} {n : NodeId} {name : List UInt8} {set : Bool} {top : Option NodeId}
  {path : List UInt8} {ns : List NodeId}

theorem configOf_none (h : grant t n name set = none) : ∃ e, configOf t n name set = (.error e, t) := by
  unfold grant at h
  unfold configOf configsGetNodeConfig
  split_ifs at h ⊢
  · exact ⟨_, rfl⟩
  · exact ⟨_, rfl⟩
  · rw [h]
    exact ⟨_, rfl⟩

theorem configOf_some {i : Nat} (h : grant t n name set = some i) :
    configOf t n name set = (.ok i, t.incRef n) := by
  unfold grant at h
  unfold configOf configsGetNodeConfig
  split_ifs at h ⊢
  rw [h]

theorem Held.root_notMem {a : NodeId} (ht : t.IsTree) (h : Held t a ns) : rootNode ∉ ns := by
  induction ns with
  | nil => exact List.not_mem_nil
  | cons n ns ih =>
    intro hmem
    rcases List.mem_cons.mp hmem with rfl | hmem
    · have hparent := h.1
      rw [ht.root_parent] at hparent
      cases hparent
    · exact ih h.2 hmem

theorem leaves_walk {a : NodeId} (ht : t.IsTree) (h : Held t a ns) (hne : ns ≠ [])
    (hcnt : t'.refCnt = (t.incs ns).refCnt) : Leaves t t' :=
  .up hne (List.nodup_cons.mp (Held.nodup ht h)).2 (h.root_notMem ht) hcnt

theorem put_held {a : NodeId} (ht : t.IsTree) (h : Held t a (n :: ns)) (hsame : SameParents t t') :
    Returns (fun rounds => configsPutNode rounds t' (some n) true (some a)) (t'.decs (n :: ns)) :=
  (h.up ht).put hsame

/-- `configs_get_node_path_config` ends with an error, and has settled the counts; or it ends with an
entry, and the nodes on the way and once more the last one are counted. -/
theorem pathConfig_cases (ht : t.IsTree) (top : Option NodeId) (path : List UInt8) (set : Bool) :
    (∃ e t', Returns (fun rounds => configsGetNodePathConfig rounds t top (some path) set) (.error e, t') ∧
      t'.node = t.node ∧ Settles t t' (AccessBalanced t top set path)) ∨
    ∃ ns name i, walk t (top.getD rootNode) [] (parts path) = (ns, .arrived name) ∧
      grant t (ns.headD (top.getD rootNode)) name set = some i ∧ Held t (top.getD rootNode) ns ∧
      Returns (fun rounds => configsGetNodePathConfig rounds t top (some path) set)
        (.ok (ns.headD (top.getD rootNode), i), t.incs (ns.headD (top.getD rootNode) :: ns)) := by
  generalize ha : top.getD rootNode = a
  have hnone : Held t a [] := trivial
  have hloop := pathConfigFrom_eq ht hnone (parts path)
  rw [Tree.incs_nil, List.headD_nil] at hloop
  obtain ⟨hheld, hrefused⟩ := walk_held ht hnone (parts path)
  unfold AccessBalanced
  rw [ha]
  generalize hw : walk t a [] (parts path) = w at hloop hheld hrefused
  obtain ⟨ns, e⟩ := w
  simp only [configsGetNodePathConfig, ha, hloop]
  cases e with
  | malformed =>
    refine .inl ⟨-1, t.incs ns, Returns.pure _, rfl, ?_⟩
    by_cases hns : ns = []
    · exact .inl ⟨hns, by rw [hns, Tree.incs_nil]⟩
    · exact .inr ⟨hns, leaves_walk ht hheld hns rfl⟩
  | missing =>
    cases ns with
    | nil => exact .inl ⟨-2, t.incs [], Returns.pure _, rfl, .inl ⟨trivial, by rw [Tree.incs_nil]⟩⟩
    | cons n ns =>
      have hput := put_held ht hheld (.incs t (n :: ns))
      rw [Tree.decs_incs] at hput
      exact .inl ⟨-1, t, hput.reply _, rfl, .inl ⟨trivial, rfl⟩⟩
  | refused m =>
    have hm := hrefused m rfl
    have hone : ([m] : List NodeId) ≠ [] := List.cons_ne_nil _ _
    have hmroot : rootNode ∉ [m] := fun hmem =>
      hm.root_notMem ht (List.mem_singleton.mp hmem ▸ List.mem_cons_self)
    cases ns with
    | nil =>
      exact .inl ⟨-2, t.incs [m], Returns.pure _, rfl, .inr ⟨id, .up hone (List.nodup_singleton m) hmroot rfl⟩⟩
    | cons n ns =>
      have hput := put_held ht hheld (.incs t (m :: n :: ns))
      refine .inl ⟨-1, (t.incs (m :: n :: ns)).decs (n :: ns), hput.reply _, rfl,
        .inr ⟨id, .up hone (List.nodup_singleton m) hmroot ?_⟩⟩
      have hswap : t.incs (m :: n :: ns) = (t.incs [m]).incs (n :: ns) := by
        unfold Tree.incs
        congr 1
        funext k
        rw [show m :: n :: ns = [m] ++ (n :: ns) from rfl, List.count_append, BitVec.ofNat_add,
          BitVec.add_assoc]
      rw [hswap, Tree.decs_incs]
  | arrived name =>
    cases hgrant : grant t (ns.headD a) name set with
    | some i =>
      refine .inr ⟨ns, name, i, rfl, hgrant, hheld, ?_⟩
      simp only [loopResult, configOf_some (t := t.incs ns) hgrant, Tree.incRef_incs]
      exact Returns.pure _
    | none =>
      obtain ⟨e, hconfig⟩ := configOf_none (t := t.incs ns) hgrant
      simp only [loopResult, hconfig]
      cases ns with
      | nil =>
        -- the top node itself is released, and everything above it
        obtain ⟨l, hup, hnodup⟩ := ht.exists_up (some a) a
        exact .inl ⟨e, (t.incs []).decs (a :: l), (hup.put (.incs t [])).reply _, rfl,
          .inr ⟨fun h => h.1 rfl, .down (List.cons_ne_nil _ _) hnodup (by rw [Tree.incs_nil])⟩⟩
      | cons n ns =>
        have hput := put_held ht hheld (.incs t (n :: ns))
        rw [Tree.decs_incs] at hput
        exact .inl ⟨e, t, hput.reply _, rfl,
          .inl ⟨⟨List.cons_ne_nil _ _, .inr hgrant⟩, rfl⟩⟩

theorem releaseEntry_settles (ht : t.IsTree) {i : Nat}
    (hw : walk t (top.getD rootNode) [] (parts path) = (ns, .arrived name))
    (hgrant : grant t (ns.headD (top.getD rootNode)) name set = some i) (hheld : Held t (top.getD rootNode) ns)
    (hshape : SameShape t t') (hcnt : t'.refCnt = (t.incs (ns.headD (top.getD rootNode) :: ns)).refCnt) :
    ∃ t'', Returns (fun rounds => releaseEntry rounds t' (ns.headD (top.getD rootNode)) top) t'' ∧
      SameShape t t'' ∧ Settles t t'' (AccessBalanced t top set path) := by
  -- both releases together count down the last node and the nodes of a climb
  have hrelease : ∀ l, Up t top (t.node (ns.headD (top.getD rootNode))).parentNode l →
      Returns (fun rounds => releaseEntry rounds t' (ns.headD (top.getD rootNode)) top)
        (t'.decs (ns.headD (top.getD rootNode) :: ns.headD (top.getD rootNode) :: l)) := by
    intro l hup
    have hput := hup.put (hshape.parents.decs [ns.headD (top.getD rootNode)])
    rw [Tree.decs_append] at hput
    refine hput.congr ?_
    intro rounds
    unfold releaseEntry
    rw [put_node_only, ok_bind]
  have hafter : ∀ l, SameShape t (t'.decs l) := fun l => hshape.trans (.of_node rfl)
  unfold AccessBalanced
  rw [hw]
  dsimp only
  rw [hgrant]
  cases ns with
  | nil =>
    obtain ⟨l, hup, hnodup⟩ := ht.exists_up top (top.getD rootNode)
    refine ⟨_, hrelease l hup, hafter _, .inr ⟨fun h => h.1 rfl, .down (List.cons_ne_nil _ _) hnodup ?_⟩⟩
    rw [Tree.decs_refCnt_congr hcnt]
    rw [show ∀ b : NodeId, b :: b :: l = [b] ++ (b :: l) from fun _ => rfl, ← Tree.decs_append,
      List.headD_nil, Tree.decs_incs]
  | cons n ns =>
    cases top with
    | some a =>
      refine ⟨_, hrelease ns (hheld.up ht), hafter _,
        .inl ⟨⟨List.cons_ne_nil _ _, .inl (Option.some_ne_none _)⟩, ?_⟩⟩
      rw [Tree.decs_refCnt_congr hcnt]
      simp [Tree.decs_incs]
    | none =>
      have hup : Up t none (t.node n).parentNode (ns ++ [rootNode]) := by
        rw [hheld.1]
        exact Held.up_root ht hheld.2
      refine ⟨_, hrelease _ hup, hafter _, .inr ⟨?_, .down (List.cons_ne_nil rootNode [])
        (List.nodup_singleton rootNode) ?_⟩⟩
      · rintro ⟨-, h | h⟩
        · exact h rfl
        · cases h
      · rw [Tree.decs_refCnt_congr hcnt]
        rw [List.headD_cons, show n :: n :: (ns ++ [rootNode]) = (n :: n :: ns) ++ [rootNode] from rfl,
          ← Tree.decs_append, Tree.decs_incs]

theorem entryAt_of_grant {i : Nat} (t' : Tree) (h : grant t n name set = some i) (hnode : t'.node = t.node) :
    ∃ c, entryAt t' n i = .ok c := by
  unfold grant at h
  split_ifs at h
  have hlt : i < ((t.node n).configs.getD []).length := (List.findIdx?_eq_some_iff_findIdx_eq.mp h).1
  refine ⟨((t.node n).configs.getD [])[i], ?_⟩
  unfold entryAt
  rw [hnode, List.getElem?_eq_getElem hlt]

end Access

/-! ## Calls that use an entry -/

section Entry

variable {t : Tree} {top : Option NodeId} {path : List UInt8} {set : Bool}

theorem access_outcome (ht : t.IsTree) {x : Nat → Except Fault (Int × Tree)}
    (herr : ∀ e t' rounds, configsGetNodePathConfig rounds t top (some path) set = .ok (.error e, t') →
      x rounds = .ok (e, t'))
    (hok : ∀ n i t' c, entryAt t' n i = .ok c → ∃ ret t2, SameShape t' t2 ∧ t2.refCnt = t'.refCnt ∧
      ∀ rounds, configsGetNodePathConfig rounds t top (some path) set = .ok (.ok (n, i), t') →
        x rounds = (releaseEntry rounds t2 n top >>= fun t3 => .ok (ret, t3))) :
    Outcome t x (AccessBalanced t top set path) := by
  rcases pathConfig_cases ht top path set with
    ⟨e, t', hret, hnode, hsettles⟩ | ⟨ns, name, i, hw, hgrant, hheld, hret⟩
  · refine ⟨e, t', ?_, .of_node hnode, hsettles⟩
    obtain ⟨bound, hbound⟩ := hret
    exact ⟨bound, fun rounds hrounds => herr e t' rounds (hbound rounds hrounds)⟩
  · obtain ⟨c, hc⟩ := entryAt_of_grant (t.incs (ns.headD (top.getD rootNode) :: ns)) hgrant rfl
    obtain ⟨ret, t2, hshape, hcnt, hx⟩ := hok _ i _ c hc
    have hshape' : SameShape t t2 := SameShape.trans (.of_node rfl) hshape
    obtain ⟨t3, hrelease, hshape3, hsettles⟩ := releaseEntry_settles ht hw hgrant hheld hshape' hcnt
    refine ⟨ret, t3, ?_, hshape3, hsettles⟩
    obtain ⟨bound, hbound⟩ := hret
    obtain ⟨bound', hbound'⟩ := hrelease
    refine ⟨max bound bound', ?_⟩
    intro rounds hrounds
    have hfound := hbound rounds (le_trans (le_max_left _ _) hrounds)
    have hdone := hbound' rounds (le_trans (le_max_right _ _) hrounds)
    dsimp only at hfound hdone
    rw [hx rounds hfound, hdone, ok_bind]

theorem setgetNodePathValue_outcome (ht : t.IsTree) (top : Option NodeId) (path : List UInt8) (valSet valGet : Option UserVal)
    (size : Int) (set : Bool) :
    Outcome t (fun rounds => configsSetgetNodePathValue rounds t top (some path) valSet valGet size set)
      (AccessBalanced t top set path) := by
  refine access_outcome ht ?_ ?_
  · intro e t' rounds h
    simp [configsSetgetNodePathValue, h]
  · intro n i t' c hc
    refine ⟨(configsSetgetConfigValue c valSet valGet size set).1,
      setEntry t' n i (configsSetgetConfigValue c valSet valGet size set).2.1,
      SameShape.setEntry _ _ _ _, rfl, ?_⟩
    intro rounds h
    simp only [configsSetgetNodePathValue, h, ok_bind, hc]
    rfl

def SetBalanced (t : Tree) (top : Option NodeId) : Option (List UInt8) → Option (List UInt8) → Prop
  | some (p :: path), some (_ :: _) => AccessBalanced t top true (p :: path)
  | _, _ => True

theorem outcome_unchanged {x : Nat → Except Fault (Int × Tree)} {ret : Int} (h : ∀ rounds, x rounds = .ok (ret, t)) :
    Outcome t x True :=
  ⟨ret, t, (Returns.pure _).congr h, .of_node rfl, .inl ⟨trivial, rfl⟩⟩

theorem setNodePathStr_outcome (ht : t.IsTree) (top : Option NodeId) (path val : Option (List UInt8)) :
    Outcome t (fun rounds => configsSetNodePathStr rounds t top path val) (SetBalanced t top path val) := by
  match path, val with
  | none, _ | some [], _ | some (p :: path), none | some (p :: path), some [] =>
    exact outcome_unchanged fun _ => rfl
  | some (p :: path), some (v :: val) =>
    refine access_outcome ht ?_ ?_
    · intro e t' rounds h
      simp [configsSetNodePathStr, h]
    · intro n i t' c hc
      obtain ⟨⟨ret, c'⟩, hstr⟩ := configsStr2config_total c (v :: val)
      refine ⟨if ret > 0 then 0 else if ret = 0 then -1 else ret, setEntry t' n i c',
        SameShape.setEntry _ _ _ _, rfl, ?_⟩
      intro rounds h
      simp only [configsSetNodePathStr, h, ok_bind, hc, hstr]
      rfl

def GetBalanced (t : Tree) (top : Option NodeId) : Option (List UInt8) → Prop
  | some (p :: path) => AccessBalanced t top false (p :: path)
  | _ => True

theorem getNodePathStr_outcome (ht : t.IsTree) (top : Option NodeId) (path : Option (List UInt8)) (size : Int) :
    Outcome t (fun rounds => configsGetNodePathStr rounds t top path size) (GetBalanced t top path) := by
  match path with
  | none | some [] => exact outcome_unchanged fun _ => rfl
  | some (p :: path) =>
    refine access_outcome ht ?_ ?_
    · intro e t' rounds h
      simp [configsGetNodePathStr, h]
    · intro n i t' c hc
      refine ⟨(configsConfig2str c size).1, t', .of_node rfl, rfl, ?_⟩
      intro rounds h
      simp only [configsGetNodePathStr, h, ok_bind, hc]
      rfl

end Entry

end Amlogic.Configs
