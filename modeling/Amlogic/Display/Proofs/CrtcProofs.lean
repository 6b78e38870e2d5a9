import Amlogic.Display.Device

/-!
# Display: which CRTC a connector gets

The CRTC of an encoder, or else the first one, is taken as soon as it is idle: only the search for another CRTC looks
at `possible_crtcs`. So a connector can get a CRTC that none of its encoders drives.
-/

namespace Amlogic.Display

namespace DrmEncoder

def defaultCrtc (e : DrmEncoder) (crtcs : List DrmCrtc) : Option DrmCrtc :=
  (crtcs.find? (·.id == e.crtcId)).or crtcs.head?

def Finds (e : DrmEncoder) (crtcs : List DrmCrtc) : Prop :=
  ∃ c ∈ crtcs, c.canBind = true ∧ (e.defaultCrtc crtcs = some c ∨ e.possibleCrtcs.testBit c.pipe = true)

variable {e : DrmEncoder} {crtcs : List DrmCrtc} {c : DrmCrtc} {id : Nat}

theorem mem_of_defaultCrtc (h : e.defaultCrtc crtcs = some c) : c ∈ crtcs := by
  obtain hfind | ⟨_, hhead⟩ := Option.or_eq_some_iff.mp h
  · exact List.mem_of_find?_eq_some hfind
  · exact List.mem_of_head? hhead

theorem pickIdleCrtcId_default (hc : e.defaultCrtc crtcs = some c) :
    e.pickIdleCrtcId crtcs = if c.canBind then some c.id
      else (crtcs.filter fun c => c.canBind && e.possibleCrtcs.testBit c.pipe).getLast?.map DrmCrtc.id := by
  unfold pickIdleCrtcId
  rw [show (crtcs.find? (·.id == e.crtcId)).or crtcs.head? = some c from hc]

theorem pickIdleCrtcId_some (h : e.pickIdleCrtcId crtcs = some id) : ∃ c ∈ crtcs, c.canBind = true ∧ c.id = id ∧
    (e.defaultCrtc crtcs = some c ∨ e.possibleCrtcs.testBit c.pipe = true) := by
  cases hc : e.defaultCrtc crtcs with
  | none =>
    unfold pickIdleCrtcId at h
    rw [show (crtcs.find? (·.id == e.crtcId)).or crtcs.head? = none from hc] at h
    cases h
  | some c =>
    rw [pickIdleCrtcId_default hc] at h
    split_ifs at h with hbind
    · exact ⟨c, mem_of_defaultCrtc hc, hbind, Option.some.inj h, .inl rfl⟩
    · obtain ⟨c', hlast, hid⟩ := Option.map_eq_some_iff.mp h
      obtain ⟨hmem, hok⟩ := List.mem_filter.mp (List.mem_of_getLast? hlast)
      obtain ⟨hbind', hbit⟩ := (Bool.and_eq_true _ _).mp hok
      exact ⟨c', hmem, hbind', hid, .inr hbit⟩

theorem pickIdleCrtcId_eq_none : e.pickIdleCrtcId crtcs = none ↔ ¬e.Finds crtcs := by
  refine ⟨?_, fun h => ?_⟩
  · rintro h ⟨c, hmem, hbind, hc⟩
    obtain ⟨d, hd⟩ : ∃ d, e.defaultCrtc crtcs = some d := by
      refine Option.ne_none_iff_exists'.mp fun hnone => List.ne_nil_of_mem hmem ?_
      exact List.head?_eq_none_iff.mp (Option.or_eq_none_iff.mp hnone).2
    rw [pickIdleCrtcId_default hd] at h
    split_ifs at h with hdbind
    have hbit : e.possibleCrtcs.testBit c.pipe = true := by
      refine hc.resolve_left fun hdc => hdbind ?_
      cases hd.symm.trans hdc
      exact hbind
    have hempty := List.getLast?_eq_none_iff.mp (Option.map_eq_none_iff.mp h)
    exact List.not_mem_nil (hempty ▸ List.mem_filter.mpr ⟨hmem, by rw [hbind, hbit]; rfl⟩)
  · by_contra hne
    obtain ⟨id, hid⟩ := Option.ne_none_iff_exists'.mp hne
    obtain ⟨c, hmem, hbind, -, hc⟩ := pickIdleCrtcId_some hid
    exact h ⟨c, hmem, hbind, hc⟩

end DrmEncoder

namespace DrmConnector

def tried (c : DrmConnector) (encoders : List DrmEncoder) : List DrmEncoder :=
  (c.encoderId :: c.possibleEncoders).filterMap fun id => encoders.find? (·.id == id)

def Drives (c : DrmConnector) (encoders : List DrmEncoder) (crtc : DrmCrtc) : Prop :=
  ∃ e ∈ c.tried encoders, e.possibleCrtcs.testBit crtc.pipe = true

/-- The CRTC that a connector gets is idle and can be driven, and it gets one if there is one. -/
def CrtcLaw (c : DrmConnector) (encoders : List DrmEncoder) (crtcs : List DrmCrtc) : Prop :=
  (∀ id, c.pickIdleCrtcId encoders crtcs = some id →
    ∃ crtc ∈ crtcs, crtc.id = id ∧ crtc.canBind = true ∧ c.Drives encoders crtc) ∧
  ((∃ crtc ∈ crtcs, crtc.canBind = true ∧ c.Drives encoders crtc) → (c.pickIdleCrtcId encoders crtcs).isSome)

/-- The first encoder that finds a CRTC has no default CRTC that is idle and cannot be driven. -/
def DefaultDriven (c : DrmConnector) (encoders : List DrmEncoder) (crtcs : List DrmCrtc) : Prop :=
  ∀ l₁ e l₂, c.tried encoders = l₁ ++ e :: l₂ → (∀ x ∈ l₁, ¬x.Finds crtcs) →
    ∀ crtc, e.defaultCrtc crtcs = some crtc → crtc.canBind = true → c.Drives encoders crtc

variable {c : DrmConnector} {encoders : List DrmEncoder} {crtcs : List DrmCrtc}

theorem pickIdleCrtcId_eq :
    c.pickIdleCrtcId encoders crtcs = (c.tried encoders).findSome? (·.pickIdleCrtcId crtcs) := by
  unfold pickIdleCrtcId tried
  induction c.encoderId :: c.possibleEncoders with
  | nil => rfl
  | cons id ids ih =>
    cases h : encoders.find? (·.id == id) <;> simp [List.findSome?_cons, tryPickEncoder, h, ih]

theorem pickIdleCrtcId_eq_some {id : Nat} : c.pickIdleCrtcId encoders crtcs = some id ↔
    ∃ l₁ e l₂, c.tried encoders = l₁ ++ e :: l₂ ∧ e.pickIdleCrtcId crtcs = some id ∧ ∀ x ∈ l₁, ¬x.Finds crtcs := by
  simp only [pickIdleCrtcId_eq, List.findSome?_eq_some_iff, DrmEncoder.pickIdleCrtcId_eq_none]

/-- A connector gets an idle CRTC that it can drive, if there is one, unless the first encoder that finds a CRTC has a
default CRTC that is idle and that no encoder of the connector drives. -/
theorem crtcLaw_iff (hids : (crtcs.map DrmCrtc.id).Nodup) :
    c.CrtcLaw encoders crtcs ↔ c.DefaultDriven encoders crtcs := by
  refine ⟨?_, fun hdriven => ⟨fun id hpick => ?_, ?_⟩⟩
  · rintro ⟨hsound, -⟩ l₁ e l₂ hsplit hnone crtc hdefault hbind
    have he : e.pickIdleCrtcId crtcs = some crtc.id := by
      rw [DrmEncoder.pickIdleCrtcId_default hdefault, if_pos hbind]
    obtain ⟨crtc', hmem, hid, -, hdrives⟩ := hsound _ (pickIdleCrtcId_eq_some.mpr ⟨l₁, e, l₂, hsplit, he, hnone⟩)
    obtain rfl := List.inj_on_of_nodup_map hids hmem (DrmEncoder.mem_of_defaultCrtc hdefault) hid
    exact hdrives
  · obtain ⟨l₁, e, l₂, hsplit, he, hnone⟩ := pickIdleCrtcId_eq_some.mp hpick
    obtain ⟨crtc, hmem, hbind, hid, hdefault | hbit⟩ := DrmEncoder.pickIdleCrtcId_some he
    · exact ⟨crtc, hmem, hid, hbind, hdriven l₁ e l₂ hsplit hnone crtc hdefault hbind⟩
    · exact ⟨crtc, hmem, hid, hbind, e, by simp [hsplit], hbit⟩
  · rintro ⟨crtc, hmem, hbind, e, he, hbit⟩
    by_contra hnone
    rw [Option.not_isSome_iff_eq_none, pickIdleCrtcId_eq] at hnone
    exact DrmEncoder.pickIdleCrtcId_eq_none.mp (List.findSome?_eq_none_iff.mp hnone e he)
      ⟨crtc, hmem, hbind, .inr hbit⟩

def withEncoder7 : DrmConnector := { encoderId := 7, modes := [] }

/-- The encoder has the second of two CRTCs and drives it. -/
theorem crtcLaw_of_second :
    withEncoder7.CrtcLaw [⟨7, 5, 2⟩] [{ id := 4, displayId := 0 }, { id := 5, pipe := 1 }] := by
  refine (crtcLaw_iff (by decide)).mpr ?_
  rintro l₁ e l₂ hsplit - crtc hdefault -
  have he : e ∈ withEncoder7.tried [⟨7, 5, 2⟩] := by simp [hsplit]
  cases List.mem_singleton.mp he
  cases hdefault
  exact ⟨_, he, rfl⟩

/-- The encoder drives the CRTC 4 only, and the connector gets the idle CRTC 5, the one of the encoder. -/
theorem crtcLaw_fails : ¬withEncoder7.CrtcLaw [⟨7, 5, 1⟩] [{ id := 4 }, { id := 5, pipe := 1 }] := by
  rintro ⟨hsound, -⟩
  obtain ⟨crtc, hmem, hid, -, e, he, hbit⟩ := hsound 5 rfl
  cases List.mem_singleton.mp he
  simp only [List.mem_cons, List.not_mem_nil, or_false] at hmem
  rcases hmem with rfl | rfl
  · cases hid
  · cases hbit

end DrmConnector

end Amlogic.Display
