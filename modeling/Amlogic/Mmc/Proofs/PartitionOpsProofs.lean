import Amlogic.Mmc.PartitionOps

/-!
# The partition table and what reads it

The exit of the start frees the table and takes nothing back that was created before. So after a failure the table
is gone while there are entries in /proc, or key operations, that read it.
-/

namespace Amlogic.Mmc

def StartAnswers.TableRead (a : StartAnswers) : Prop :=
  a.isCardEmmc = true ∧ a.buffer = true ∧ a.readGpt = 0 ∧ a.gpt = false ∧ a.ptFmt = true ∧ a.mmcReadPartitionTbl = 0

def StartAnswers.KeyWorks (a : StartAnswers) : Prop :=
  a.emmckeyInfo = true ∧ a.ukType = true ∧ 0 ≤ a.getReservePartitionOffFromTbl ∧ a.amlEmmcKeyCheck = 0 ∧
    a.registerUnifykeyTypes = 0

def StartAnswers.StoreWorks (a : StartAnswers) : Prop :=
  a.amlStoreClass = true ∧ a.amlVersion = 0 ∧ a.amlPartTable = 0 ∧ a.amlStoreDevice = 0 ∧ a.bootloaderOffset = 0

/-- Whatever fails behind the table fails before anything has been created. -/
def StartAnswers.Clean (a : StartAnswers) : Prop :=
  a.TableRead → (a.KeyWorks ∧ a.StoreWorks) ∨ (¬a.KeyWorks ∧ a.procInand = false ∧ a.procNtd = false)

namespace Start

/-- The table is allocated, or nothing is left that reads it. -/
def Safe (s : Start) : Prop := s.ptFmt = .live ∨ s.interfaces = []

variable {a : StartAnswers} {s : Start}

theorem create_ptFmt (created : Bool) (i : Interface) : (s.create created i).ptFmt = s.ptFmt := by
  unfold create
  split_ifs <;> rfl

theorem create_interfaces_ne (created : Bool) (i : Interface) (h : s.interfaces ≠ []) :
    (s.create created i).interfaces ≠ [] := by
  unfold create
  split_ifs
  · exact List.cons_ne_nil _ _
  · exact h

theorem not_safe_out (h : s.ptFmt = .live) : s.out.Safe ↔ s.interfaces = [] := by
  unfold out Safe
  rw [if_pos h]
  exact or_iff_right nofun

theorem emmcKeyInit_cases (a : StartAnswers) (s : Start) :
    (a.KeyWorks ∧ s.emmcKeyInit a = (0, s.create true .keyOps)) ∨
      (¬a.KeyWorks ∧ ∃ ret : Int, ret ≠ 0 ∧ s.emmcKeyInit a = (ret, s)) := by
  unfold StartAnswers.KeyWorks emmcKeyInit
  split_ifs with h1 h2 h3 h4 h5
  · exact .inr ⟨by simp_all, _, by decide, rfl⟩
  · exact .inr ⟨by simp_all, _, by decide, rfl⟩
  · exact .inr ⟨fun h => absurd h.2.2.1 (not_le.mpr h3), _, by decide, rfl⟩
  · exact .inr ⟨fun h => h4 h.2.2.2.1, _, h4, rfl⟩
  · exact .inr ⟨fun h => h5 h.2.2.2.2, _, by decide, rfl⟩
  · exact .inl ⟨⟨by simpa using h1, by simpa using h2, not_lt.mp h3, not_not.mp h4, not_not.mp h5⟩, rfl⟩

theorem createStoreClass_cases (a : StartAnswers) (s : Start) :
    (a.StoreWorks ∧ (s.createStoreClass a).2 = s.create true .partTable) ∨
      (¬a.StoreWorks ∧ (s.createStoreClass a).2 = s.out) := by
  unfold StartAnswers.StoreWorks createStoreClass
  split_ifs with h1 h2 h3 h4 h5
  · exact .inr ⟨by simp_all, rfl⟩
  · exact .inr ⟨fun h => h2 h.2.1, rfl⟩
  · exact .inr ⟨fun h => h3 h.2.2.1, rfl⟩
  · exact .inr ⟨fun h => h4 h.2.2.2.1, rfl⟩
  · exact .inr ⟨fun h => h5 h.2.2.2.2, rfl⟩
  · exact .inl ⟨⟨by simpa using h1, not_not.mp h2, not_not.mp h3, not_not.mp h4, not_not.mp h5⟩, rfl⟩

theorem safe_behind_table (h : a.TableRead) (p : TablePtr) :
    (amlEmmcPartitionOps a ⟨p, []⟩).2.Safe ↔
      (a.KeyWorks ∧ a.StoreWorks) ∨ (¬a.KeyWorks ∧ a.procInand = false ∧ a.procNtd = false) := by
  obtain ⟨h1, h2, h3, h4, h5, h6⟩ := h
  simp only [amlEmmcPartitionOps, h1, h2, h3, h4, h5, h6, Bool.not_true, Bool.false_eq_true, if_false, ne_eq,
    not_true_eq_false]
  obtain ⟨hkey, hinit⟩ | ⟨hkey, ret, hret, hinit⟩ := emmcKeyInit_cases a (addEmmcPartition a ⟨.live, []⟩)
  · simp only [hinit, not_true_eq_false, if_false, hkey, true_and, false_and, or_false]
    generalize hs : ((addEmmcPartition a ⟨.live, []⟩).create true .keyOps).amlmmcDtbInit a = s
    have hlive : s.ptFmt = .live := by
      rw [← hs]
      simp only [amlmmcDtbInit, addEmmcPartition, create_ptFmt]
    have hleft : s.interfaces ≠ [] := by
      rw [← hs]
      exact create_interfaces_ne _ _ (List.cons_ne_nil _ _)
    obtain ⟨hstore, hclass⟩ | ⟨hstore, hclass⟩ := createStoreClass_cases a s
    · exact iff_of_true (.inl (by rw [hclass, create_ptFmt, hlive])) hstore
    · rw [hclass, not_safe_out hlive]
      exact iff_of_false hleft hstore
  · simp only [hinit, hret, not_false_eq_true, if_true, hkey, false_and, true_and, false_or]
    rw [not_safe_out (by simp only [addEmmcPartition, create_ptFmt])]
    unfold addEmmcPartition create
    cases a.procInand <;> cases a.procNtd <;> simp

/-- After the start the table is allocated or nothing reads it, just if what fails behind the table fails before
anything has been created. -/
theorem table_outlives_readers_iff (a : StartAnswers) (p : TablePtr) :
    (amlEmmcPartitionOps a ⟨p, []⟩).2.Safe ↔ a.Clean := by
  by_cases h : a.TableRead
  · rw [safe_behind_table h, StartAnswers.Clean, forall_prop_of_true h]
  refine iff_of_true ?_ fun hread => absurd hread h
  unfold amlEmmcPartitionOps
  split_ifs
  iterate 6 exact .inr rfl
  all_goals exact absurd (by unfold StartAnswers.TableRead; simp_all) h

def allWorks : StartAnswers :=
  ⟨true, true, 0, false, true, 0, true, true, true, true, 0, 0, 0, 0, 0, true, 0, true, true, 0, 0, 0, 0⟩

/-- No memory for the key operations: the entries in /proc are left, and the table is freed. -/
theorem readers_outlive_table : (amlEmmcPartitionOps { allWorks with ukType := false } ⟨.null, []⟩).2.ptFmt = .freed ∧
    (amlEmmcPartitionOps { allWorks with ukType := false } ⟨.null, []⟩).2.interfaces = [.ntd, .inand] := by decide

end Start

end Amlogic.Mmc
