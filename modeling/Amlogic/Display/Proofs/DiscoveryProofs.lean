import Amlogic.Display.Proofs.CrtcProofs
import Amlogic.Display.Proofs.InitProofs

/-!
# Discovery of the displays

The displays that `DrmDevice::DiscoveryDisplay` returns are initialised and share nothing exactly if each connector for
which a CRTC is picked finds all that its display needs, and no plane that an earlier display has. A plane of a display
at pipe 0 still counts as idle.
-/

namespace Amlogic.Display

open DrmDevice

variable {d d' : DrmDevice} {connector : DrmConnector} {ds : List Discovered} {a : InitAnswers}

/-! ## What is wanted -/

/-- All displays are initialised, and no two have an id, a CRTC or a plane in common. -/
structure DisplaysSound (ds : List Discovered) : Prop where
  initialised : ∀ x ∈ ds, x.ret = .success
  ids : (ds.map fun x => x.display.mId).Nodup
  crtcs : (ds.map fun x => x.display.mCrtc.id).Nodup
  planes : ds.Pairwise fun x y => ∀ p ∈ x.display.mPlanes.1, ∀ q ∈ y.display.mPlanes.1, p.id ≠ q.id

/-! ## When it is so -/

/-- If a CRTC is picked for the connector, its display finds all it needs and takes no plane of another display. -/
def ConnectorFair (d : DrmDevice) (a : InitAnswers) (connector : DrmConnector) : Prop :=
  ∀ crtc, d.pickCrtc connector = some crtc → ResourcesWork d a crtc ∧ connector.StartsFirst ∧
    ∀ x ∈ d.mDisplays, ∀ p ∈ x.display.mPlanes.1, ∀ q ∈ d.planesFor crtc, p.id ≠ q.id

def ConnectorsFair (a : Nat → InitAnswers) : Nat → List DrmConnector → DrmDevice → Prop
  | _, [], _ => True
  | i, connector :: rest, d => ConnectorFair d (a i) connector ∧
    ∀ d', d.discoverConnector (a i) connector = .ok d' → ConnectorsFair a (i + 1) rest d'

/-! ## A CRTC is picked -/

theorem pickCrtc_idle (hids : (d.mCrtcs.map DrmCrtc.id).Nodup)
    {crtc : DrmCrtc} (h : d.pickCrtc connector = some crtc) : crtc ∈ d.mCrtcs ∧ crtc.canBind = true := by
  obtain ⟨id, hpick, hfind⟩ := Option.bind_eq_some_iff.mp h
  obtain ⟨e, _, htry⟩ := List.exists_of_findSome?_eq_some hpick
  obtain ⟨encoder, _, hencoder⟩ := Option.bind_eq_some_iff.mp htry
  obtain ⟨c, hc, hbind, rfl, -⟩ := DrmEncoder.pickIdleCrtcId_some hencoder
  have hmem := List.mem_of_find?_eq_some hfind
  have hid : crtc.id = c.id := by simpa using List.find?_some hfind
  obtain rfl := List.inj_on_of_nodup_map hids hmem hc hid
  exact ⟨hmem, hbind⟩

/-! ## A step -/

theorem displaysSound_snoc {x : Discovered} : DisplaysSound (ds ++ [x]) ↔
    DisplaysSound ds ∧ x.ret = .success ∧ (∀ y ∈ ds, y.display.mId ≠ x.display.mId) ∧
      (∀ y ∈ ds, y.display.mCrtc.id ≠ x.display.mCrtc.id) ∧
      ∀ y ∈ ds, ∀ p ∈ y.display.mPlanes.1, ∀ q ∈ x.display.mPlanes.1, p.id ≠ q.id := by
  constructor
  · rintro ⟨hinit, hids, hcrtcs, hplanes⟩
    rw [List.map_append, List.nodup_append] at hids hcrtcs
    obtain ⟨hplanes, _, hnew⟩ := List.pairwise_append.mp hplanes
    refine ⟨⟨fun y hy => hinit y (List.mem_append_left _ hy), hids.1, hcrtcs.1, hplanes⟩,
      hinit x (by simp), fun y hy => ?_, fun y hy => ?_, fun y hy => hnew y hy x (by simp)⟩
    · exact hids.2.2 _ (List.mem_map_of_mem hy) _ (by simp)
    · exact hcrtcs.2.2 _ (List.mem_map_of_mem hy) _ (by simp)
  · rintro ⟨⟨hinit, hids, hcrtcs, hplanes⟩, hret, hid, hcrtc, hplane⟩
    refine ⟨fun y hy => ?_, ?_, ?_, ?_⟩
    · obtain hy | hy := List.mem_append.mp hy
      · exact hinit y hy
      · exact List.mem_singleton.mp hy ▸ hret
    · rw [List.map_append, List.nodup_append]
      exact ⟨hids, List.nodup_singleton _, by simpa using hid⟩
    · rw [List.map_append, List.nodup_append]
      exact ⟨hcrtcs, List.nodup_singleton _, by simpa using hcrtc⟩
    · exact List.pairwise_append.mpr ⟨hplanes, List.pairwise_singleton .., by simpa using hplane⟩

theorem DisplaysSound.of_first {ds' : List Discovered} (hpre : ds <+: ds') (h : DisplaysSound ds') :
    DisplaysSound ds :=
  ⟨fun x hx => h.initialised x (hpre.subset hx), h.ids.sublist (hpre.sublist.map _),
    h.crtcs.sublist (hpre.sublist.map _), h.planes.sublist hpre.sublist⟩

structure DeviceInv (d : DrmDevice) : Prop where
  crtcIds : (d.mCrtcs.map DrmCrtc.id).Nodup
  sound : DisplaysSound d.mDisplays
  used : ∀ x ∈ d.mDisplays, x.display.mId ≠ noId ∧ x.display.mId ∈ d.displayIds.mIdSets
  bound : ∀ x ∈ d.mDisplays, ∀ c ∈ d.mCrtcs, c.id = x.display.mCrtc.id → c.canBind = false

theorem mem_setCrtc {crtc c : DrmCrtc} (h : c ∈ (d.setCrtc crtc).mCrtcs) :
    c = crtc ∨ c ∈ d.mCrtcs ∧ c.id ≠ crtc.id := by
  obtain ⟨c', hc', heq⟩ := List.mem_map.mp h
  split at heq
  · exact .inl heq.symm
  · rename_i hne
    exact .inr ⟨heq ▸ hc', heq ▸ hne⟩

theorem setCrtc_ids (d : DrmDevice) (crtc : DrmCrtc) :
    (d.setCrtc crtc).mCrtcs.map DrmCrtc.id = d.mCrtcs.map DrmCrtc.id := by
  unfold setCrtc
  rw [List.map_map]
  refine List.map_congr_left fun c _ => ?_
  show (if c.id = crtc.id then crtc else c).id = c.id
  split
  · rename_i h
    exact h.symm
  · rfl

theorem discoverConnector_spec (hinv : DeviceInv d) (h : d.discoverConnector a connector = .ok d') :
    (d.pickCrtc connector = none ∧ d' = d) ∨
      ∃ crtc x d1, d.pickCrtc connector = some crtc ∧ crtc ∈ d.mCrtcs ∧ crtc.canBind = true ∧
        Initialised d a connector crtc x d1 ∧ d' = { d1 with mDisplays := d.mDisplays ++ [x] } := by
  unfold discoverConnector at h
  split at h
  · rename_i hnone
    exact .inl ⟨hnone, (Except.ok.inj h).symm⟩
  rename_i crtc hpick
  obtain ⟨⟨x, d1⟩, hinit, h⟩ := bind_eq_ok h
  cases h
  obtain ⟨hmem, hbind⟩ := pickCrtc_idle hinv.crtcIds hpick
  have hspec := initDisplay_spec hbind hinit
  refine .inr ⟨crtc, x, d1, hpick, hmem, hbind, hspec, ?_⟩
  -- no display has the id of the new one
  have hnew : (d1.mDisplays.any fun y => y.display.mId == x.display.mId) = false := by
    rw [hspec.displays]
    refine List.any_eq_false.mpr fun y hy heq => ?_
    have hid : y.display.mId = x.display.mId := by simpa using heq
    obtain ⟨hno, hused⟩ := hinv.used y hy
    obtain hnone | hfree := hspec.newId
    · exact hno (hid.trans hnone)
    · exact hfree (hid ▸ hused)
  unfold emplaceDisplay
  rw [if_neg (by simp [hnew]), hspec.displays]

theorem DeviceInv.step (hinv : DeviceInv d) (h : d.discoverConnector a connector = .ok d') :
    (DisplaysSound d'.mDisplays ↔ ConnectorFair d a connector) ∧ (ConnectorFair d a connector → DeviceInv d') := by
  obtain ⟨hnone, rfl⟩ | ⟨crtc, x, d1, hpick, hmem, hbind, hspec, rfl⟩ := discoverConnector_spec hinv h
  · have hfair : ConnectorFair d' a connector := fun crtc hcrtc => by simp [hnone] at hcrtc
    exact ⟨iff_of_true hinv.sound hfair, fun _ => hinv⟩
  have hplanes : x.ret = .success → ((∀ y ∈ d.mDisplays, ∀ p ∈ y.display.mPlanes.1, ∀ q ∈ x.display.mPlanes.1,
      p.id ≠ q.id) ↔ ∀ y ∈ d.mDisplays, ∀ p ∈ y.display.mPlanes.1, ∀ q ∈ d.planesFor crtc, p.id ≠ q.id) := by
    intro hsuccess
    have hids := (hspec.success hsuccess).2.2.2.2
    constructor
    · intro hall y hy p hp q hq heq
      obtain ⟨q', hq', hid⟩ := List.mem_map.mp ((hids q.id).mpr (List.mem_map_of_mem hq))
      exact hall y hy p hp q' hq' (heq.trans hid.symm)
    · intro hall y hy p hp q hq heq
      obtain ⟨q', hq', hid⟩ := List.mem_map.mp ((hids q.id).mp (List.mem_map_of_mem hq))
      exact hall y hy p hp q' hq' (heq.trans hid.symm)
  have hfair : ConnectorFair d a connector ↔ x.ret = .success ∧
      ∀ y ∈ d.mDisplays, ∀ p ∈ y.display.mPlanes.1, ∀ q ∈ x.display.mPlanes.1, p.id ≠ q.id := by
    constructor
    · intro hfair
      obtain ⟨hworks, hfirst, hfree⟩ := hfair crtc hpick
      have hsuccess := hspec.ret.mpr ⟨hworks, hfirst⟩
      exact ⟨hsuccess, (hplanes hsuccess).mpr hfree⟩
    · rintro ⟨hsuccess, hfree⟩ crtc' hcrtc'
      obtain rfl := Option.some.inj (hpick.symm.trans hcrtc')
      obtain ⟨hworks, hfirst⟩ := hspec.ret.mp hsuccess
      exact ⟨hworks, hfirst, (hplanes hsuccess).mp hfree⟩
  have hsound : DisplaysSound (d.mDisplays ++ [x]) ↔ ConnectorFair d a connector := by
    rw [displaysSound_snoc, hfair]
    constructor
    · rintro ⟨_, hsuccess, _, _, hfree⟩
      exact ⟨hsuccess, hfree⟩
    · rintro ⟨hsuccess, hfree⟩
      obtain ⟨hno, hcrtc, _⟩ := hspec.success hsuccess
      refine ⟨hinv.sound, hsuccess, fun y hy heq => ?_, fun y hy heq => ?_, hfree⟩
      · exact hspec.newId.elim hno fun hnew => hnew (heq ▸ (hinv.used y hy).2)
      · rw [hcrtc] at heq
        rw [hinv.bound y hy crtc hmem heq.symm] at hbind
        cases hbind
  refine ⟨hsound, fun hok => ?_⟩
  have hsuccess := (hfair.mp hok).1
  obtain ⟨hno, hcrtc, hdisplay, hcrtcs, _⟩ := hspec.success hsuccess
  have hbusy : x.display.mCrtc.canBind = false := by simp [DrmCrtc.canBind, hdisplay, hno]
  refine ⟨?_, hsound.mpr hok, fun y hy => ?_, fun y hy c hc hid => ?_⟩
  · rw [hcrtcs, setCrtc_ids]
    exact hinv.crtcIds
  · rw [hspec.ids]
    obtain hy | hy := List.mem_append.mp hy
    · exact ⟨(hinv.used y hy).1, List.mem_cons_of_mem _ (hinv.used y hy).2⟩
    · obtain rfl := List.mem_singleton.mp hy
      exact ⟨hno, List.mem_cons_self⟩
  · have hc : c ∈ (d.setCrtc x.display.mCrtc).mCrtcs := hcrtcs ▸ hc
    obtain rfl | ⟨hc, hne⟩ := mem_setCrtc hc
    · exact hbusy
    · obtain hy | hy := List.mem_append.mp hy
      · exact hinv.bound y hy c hc hid
      · obtain rfl := List.mem_singleton.mp hy
        exact absurd hid hne

/-! ## The loop -/

theorem initDisplay_displays {crtc : DrmCrtc}
    {x : Discovered} (h : d.initDisplay a connector crtc = .ok (x, d')) : d'.mDisplays = d.mDisplays := by
  unfold initDisplay at h
  dsimp only at h
  split at h
  · cases h
  split at h
  · exact ((Prod.mk.inj (Except.ok.inj h)).2 ▸ rfl)
  split at h
  · exact ((Prod.mk.inj (Except.ok.inj h)).2 ▸ rfl)
  split at h
  · rename_i htake
    obtain ⟨_, rfl⟩ := Prod.mk.inj htake
    exact ((Prod.mk.inj (Except.ok.inj h)).2 ▸ rfl)
  rename_i htake
  obtain ⟨_, rfl⟩ := Prod.mk.inj htake
  split at h
  · exact ((Prod.mk.inj (Except.ok.inj h)).2 ▸ rfl)
  · obtain ⟨⟨ret, s⟩, _, h⟩ := bind_eq_ok h
    exact ((Prod.mk.inj (Except.ok.inj h)).2 ▸ rfl)

theorem discover_grows {a : Nat → InitAnswers} {connectors : List DrmConnector} {i : Nat}
    (h : discover a i connectors d = .ok d') : d.mDisplays <+: d'.mDisplays := by
  induction connectors generalizing i d with
  | nil => exact Except.ok.inj h ▸ List.prefix_rfl
  | cons connector rest ih =>
    obtain ⟨d1, hstep, h⟩ := bind_eq_ok h
    refine List.IsPrefix.trans ?_ (ih h)
    unfold discoverConnector at hstep
    split at hstep
    · exact Except.ok.inj hstep ▸ List.prefix_rfl
    obtain ⟨⟨x, d2⟩, hinit, hstep⟩ := bind_eq_ok hstep
    cases hstep
    rw [← initDisplay_displays hinit]
    unfold emplaceDisplay
    split
    · exact List.prefix_rfl
    · exact List.prefix_append ..

theorem discover_sound {a : Nat → InitAnswers} {connectors : List DrmConnector} {i : Nat}
    (hinv : DeviceInv d) (h : discover a i connectors d = .ok d') :
    DisplaysSound d'.mDisplays ↔ ConnectorsFair a i connectors d := by
  induction connectors generalizing i d with
  | nil =>
    cases h
    exact iff_of_true hinv.sound trivial
  | cons connector rest ih =>
    obtain ⟨d1, hstep, h⟩ := bind_eq_ok h
    obtain ⟨hsound, hnext⟩ := hinv.step hstep
    constructor
    · intro hfinal
      have hfair := hsound.mp (hfinal.of_first (discover_grows h))
      refine ⟨hfair, fun d2 hstep' => ?_⟩
      obtain rfl := Except.ok.inj (hstep.symm.trans hstep')
      exact (ih (hnext hfair) h).mp hfinal
    · rintro ⟨hfair, hrest⟩
      exact (ih (hnext hfair) h).mpr (hrest d1 hstep)

def Resources.device (r : Resources) (displayIds : IdPool) : DrmDevice :=
  { mCrtcs := r.crtcs, mEncoders := r.encoders, mPlanes := r.planes, displayIds }

/-- The displays that are returned are sound exactly if it is fair for each connector. -/
theorem discovery_sound_iff {r : Resources} {displayIds : IdPool} {a : Nat → InitAnswers} {ds : List Discovered}
    (h : discoveryDisplay r displayIds a = .ok ds) :
    DisplaysSound ds ↔ ConnectorsFair a 0 r.connectors (r.device displayIds) := by
  obtain ⟨d, hloop, h⟩ := bind_eq_ok h
  cases h
  have hnone {P : Discovered → Prop} : ∀ x ∈ [], P x := List.forall_mem_nil P
  have hinv : DeviceInv (r.device displayIds) := ⟨r.crtcIds, ⟨hnone, .nil, .nil, .nil⟩, hnone, hnone⟩
  exact discover_sound hinv hloop

def twoScreens (possible₁ possible₂ : Nat) (modes : List ModeInfo) (count : modes.length < 2 ^ 31) : Resources where
  crtcs := [{ id := 41, pipe := 0 }, { id := 42, pipe := 1 }]
  crtcIds := by decide
  crtcsNew := by decide
  encoders := [⟨51, 41, 3⟩, ⟨52, 42, 3⟩]
  connectors := [{ id := 61, encoderId := 51, modes, count }, { id := 62, encoderId := 52, modes, count }]
  planes := ⟨[{ id := 31, possibleCrtcs := possible₁ }, { id := 32, possibleCrtcs := possible₂ }], by simp⟩
  planesNew := by simp

def summary (ds : List Discovered) : List (Nat × DispErrCode × Nat × List Nat) :=
  ds.map fun x => (x.display.mId, x.ret, x.display.mCrtc.id, x.display.mPlanes.1.map DrmPlane.id)

theorem ok_of_summary {x : Except Fault (List Discovered)} {l : List (Nat × DispErrCode × Nat × List Nat)}
    (h : x.toOption.map summary = some l) : ∃ ds, x = .ok ds ∧ summary ds = l := by
  cases x with
  | error e => cases h
  | ok ds => exact ⟨ds, rfl, Option.some.inj h⟩

/-- A plane for each CRTC. -/
theorem discovery_sound_for_two : ∃ ds, discoveryDisplay (twoScreens 1 2 [⟨640, 480, 60, true⟩] (by decide)) {}
    (fun _ => {}) = .ok ds ∧ summary ds = [(0, .success, 41, [31]), (1, .success, 42, [32])] ∧
    (DisplaysSound ds ↔ ConnectorsFair (fun _ => {}) 0 (twoScreens 1 2 [⟨640, 480, 60, true⟩] (by decide)).connectors
      ((twoScreens 1 2 [⟨640, 480, 60, true⟩] (by decide)).device {})) := by
  have hrun : (discoveryDisplay (twoScreens 1 2 [⟨640, 480, 60, true⟩] (by decide)) {} fun _ => {}).toOption.map
      summary = some [(0, .success, 41, [31]), (1, .success, 42, [32])] := by
    decide +kernel
  obtain ⟨ds, hds, hsummary⟩ := ok_of_summary hrun
  exact ⟨ds, hds, hsummary, discovery_sound_iff hds⟩

theorem displaysSound_success (h : DisplaysSound ds) : ∀ e ∈ summary ds, e.2.1 = .success := by
  intro e he
  obtain ⟨x, hx, rfl⟩ := List.mem_map.mp he
  exact h.initialised x hx

theorem displaysSound_planes (h : DisplaysSound ds) :
    (summary ds).Pairwise fun e e' => ∀ p ∈ e.2.2.2, p ∉ e'.2.2.2 := by
  refine List.pairwise_map.mpr (h.planes.imp fun {x y} hxy id hid hid' => ?_)
  obtain ⟨p, hp, rfl⟩ := List.mem_map.mp hid
  obtain ⟨q, hq, heq⟩ := List.mem_map.mp hid'
  exact hxy p hp q hq heq.symm

/-- A plane that suits both CRTCs is taken by both displays. And if the second mode is preferred, displays whose `Init`
has failed are returned. -/
theorem discovery_unsound :
    (∃ ds, discoveryDisplay (twoScreens 3 2 [⟨640, 480, 60, true⟩] (by decide)) {} (fun _ => {}) = .ok ds ∧
      summary ds = [(0, .success, 41, [31]), (1, .success, 42, [31, 32])] ∧ ¬ DisplaysSound ds) ∧
    ∃ ds, discoveryDisplay (twoScreens 1 2 [⟨640, 480, 60, false⟩, ⟨1280, 720, 60, true⟩] (by decide)) {}
      (fun _ => {}) = .ok ds ∧
      summary ds = [(0, .failure, 41, [31]), (1, .failure, 42, [32])] ∧ ¬ DisplaysSound ds := by
  constructor
  · have hrun : (discoveryDisplay (twoScreens 3 2 [⟨640, 480, 60, true⟩] (by decide)) {} fun _ => {}).toOption.map
        summary = some [(0, .success, 41, [31]), (1, .success, 42, [31, 32])] := by
      decide +kernel
    obtain ⟨ds, hds, hsummary⟩ := ok_of_summary hrun
    refine ⟨ds, hds, hsummary, fun hsound => ?_⟩
    have hplanes := displaysSound_planes hsound
    rw [hsummary] at hplanes
    exact absurd hplanes (by decide)
  · have hrun : (discoveryDisplay (twoScreens 1 2 [⟨640, 480, 60, false⟩, ⟨1280, 720, 60, true⟩] (by decide)) {}
        fun _ => {}).toOption.map summary = some [(0, .failure, 41, [31]), (1, .failure, 42, [32])] := by
      decide +kernel
    obtain ⟨ds, hds, hsummary⟩ := ok_of_summary hrun
    refine ⟨ds, hds, hsummary, fun hsound => ?_⟩
    have hsuccess := displaysSound_success hsound
    rw [hsummary] at hsuccess
    exact absurd hsuccess (by decide)

end Amlogic.Display
