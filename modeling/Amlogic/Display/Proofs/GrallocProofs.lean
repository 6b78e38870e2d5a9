import Amlogic.Display.Gralloc

/-!
# The size of graphics buffers

The request for a dumb buffer is computed in 32 bits. Where nothing wraps around, the rows that are asked for hold
the luma and the chroma planes; where the number of rows wraps around, fewer rows are asked for than the luma alone
has.
-/

namespace Amlogic.Display

open ImageLayout

variable {layout : ImageLayout} {info : AllocInfo} {req : DumbRequest}

/-- What is assumed of the kernel: rows of at least the asked width, and all of the asked rows. -/
structure Dumb.Meets (d : Dumb) (req : DumbRequest) : Prop where
  pitch : req.width.toNat * req.bpp.toNat / 8 ≤ d.pitch.toNat
  size : d.pitch.toNat * req.height.toNat ≤ d.size.toNat

/-- The number of rows that is computed in 32 bits from a height does not wrap around. -/
def ImageLayout.RowsFit (height : Nat) : ImageLayout → Prop
  | .packed _ => height + 1 < 2 ^ 32
  | .semiPlanar420 | .planar420 => height * 6 < 2 ^ 32
  | .semiPlanar422 | .planar422 => height * 8 < 2 ^ 32

/-- An image without rows, or one whose width and rows can be rounded up in 32 bits. -/
def AllocInfo.Fits (info : AllocInfo) : Prop :=
  info.height = 0 ∨
    info.width.toNat + 7 < 2 ^ 32 ∧ ∀ layout, info.format.layout = some layout → layout.RowsFit info.height.toNat

/-! ## The request -/

theorem alignUp_toNat (x : UInt32) {a : UInt32} (ha : 0 < a.toNat) :
    (alignUp x a).toNat = (x.toNat + (a.toNat - 1)) % 2 ^ 32 / a.toNat * a.toNat := by
  have hone : (a - 1).toNat = a.toNat - 1 :=
    UInt32.toNat_sub_of_le _ _ (UInt32.le_iff_toNat_le.mpr ha)
  have hle : (x.toNat + (a.toNat - 1)) % 2 ^ 32 / a.toNat * a.toNat ≤ (x.toNat + (a.toNat - 1)) % 2 ^ 32 :=
    Nat.div_mul_le_self _ _
  unfold alignUp
  rw [UInt32.toNat_mul, UInt32.toNat_div, UInt32.toNat_add, hone]
  omega

theorem divRoundUp_toNat (n : UInt32) : (divRoundUp n 4).toNat = (n.toNat + 3) % 2 ^ 32 / 4 := by
  have hfour : (4 : UInt32).toNat = 4 := rfl
  have hone : (1 : UInt32).toNat = 1 := rfl
  unfold divRoundUp
  rw [UInt32.toNat_div, UInt32.toNat_sub, UInt32.toNat_add, hfour, hone]
  omega

def ImageLayout.rows (height : UInt32) : ImageLayout → UInt32
  | .packed _ => height
  | .semiPlanar420 | .planar420 => divRoundUp (height * 6) 4
  | .semiPlanar422 | .planar422 => divRoundUp (height * 8) 4

/-- The luma and chroma rows of an image, in strides of the luma. -/
def ImageLayout.allRows (height : Nat) : ImageLayout → Nat
  | .packed _ => height
  | .semiPlanar420 | .planar420 => height + (height + 1) / 2
  | .semiPlanar422 | .planar422 => height + height

def ImageLayout.bytesPerPixel : ImageLayout → Nat
  | .packed bytes => bytes
  | _ => 1

theorem layout_bytesPerPixel {format : PixelFormat} (h : format.layout = some layout) :
    1 ≤ layout.bytesPerPixel ∧ layout.bytesPerPixel ≤ 4 := by
  cases format <;> simp_all only [PixelFormat.layout, Option.some.injEq, reduceCtorEq] <;> subst h <;> decide

theorem request_eq (h : info.format.layout = some layout) :
    info.request = some
      { width := alignUp info.width 8, height := alignUp (layout.rows info.height) 2,
        bpp := UInt32.ofNat (8 * layout.bytesPerPixel) } := by
  obtain ⟨width, height, usage, format⟩ := info
  cases format <;> simp only [PixelFormat.layout, Option.some.injEq, reduceCtorEq] at h <;> subst h <;> rfl

theorem layout_of_request (h : info.request = some req) :
    ∃ layout, info.format.layout = some layout := by
  obtain ⟨width, height, usage, format⟩ := info
  cases format <;> first | exact ⟨_, rfl⟩ | exact nomatch h

theorem planar_rows_toNat (height k : UInt32) :
    (alignUp (divRoundUp (height * k) 4) 2).toNat =
      ((height.toNat * k.toNat % 2 ^ 32 + 3) % 2 ^ 32 / 4 + 1) / 2 * 2 := by
  rw [alignUp_toNat _ (by decide), divRoundUp_toNat, UInt32.toNat_mul, show (2 : UInt32).toNat = 2 from rfl]
  omega

theorem rows_of_fit {height : UInt32} (h : layout.RowsFit height.toNat) :
    layout.allRows height.toNat ≤ (alignUp (layout.rows height) 2).toNat := by
  have h420 (hfit : height.toNat * 6 < 2 ^ 32) :
      height.toNat + (height.toNat + 1) / 2 ≤ (alignUp (divRoundUp (height * 6) 4) 2).toNat := by
    rw [planar_rows_toNat, show (6 : UInt32).toNat = 6 from rfl, Nat.mod_eq_of_lt hfit,
      Nat.mod_eq_of_lt (by omega)]
    omega
  have h422 (hfit : height.toNat * 8 < 2 ^ 32) :
      height.toNat + height.toNat ≤ (alignUp (divRoundUp (height * 8) 4) 2).toNat := by
    rw [planar_rows_toNat, show (8 : UInt32).toNat = 8 from rfl, Nat.mod_eq_of_lt hfit,
      Nat.mod_eq_of_lt (by omega)]
    omega
  cases layout with
  | packed bytes =>
    have hfit : height.toNat + 1 < 2 ^ 32 := h
    show height.toNat ≤ (alignUp height 2).toNat
    rw [alignUp_toNat _ (by decide), show (2 : UInt32).toNat = 2 from rfl, Nat.mod_eq_of_lt hfit]
    omega
  | semiPlanar420 | planar420 => exact h420 h
  | semiPlanar422 | planar422 => exact h422 h

theorem rows_of_not_fit {height : UInt32} (h : ¬ layout.RowsFit height.toNat) :
    (alignUp (layout.rows height) 2).toNat < height.toNat := by
  -- what is left of the product is less than `2 ^ 32`, so a quarter of it is less than the height
  have h420 (hfit : ¬ height.toNat * 6 < 2 ^ 32) :
      (alignUp (divRoundUp (height * 6) 4) 2).toNat < height.toNat := by
    have hsum := Nat.mod_le (height.toNat * 6 % 2 ^ 32 + 3) (2 ^ 32)
    rw [planar_rows_toNat, show (6 : UInt32).toNat = 6 from rfl]
    generalize (height.toNat * 6 % 2 ^ 32 + 3) % 2 ^ 32 = sum at hsum ⊢
    have hquarter : (sum / 4 + 1) / 2 * 2 * 4 ≤ height.toNat * 6 % 2 ^ 32 + 7 := by omega
    have hwraps : 1 ≤ height.toNat * 6 / 2 ^ 32 := by omega
    have hrest := Nat.div_add_mod (height.toNat * 6) (2 ^ 32)
    have hrestLt := Nat.mod_lt (height.toNat * 6) (show 0 < 2 ^ 32 by decide)
    generalize height.toNat * 6 / 2 ^ 32 = wraps at hwraps hrest
    generalize height.toNat * 6 % 2 ^ 32 = rest at hquarter hrest hrestLt
    linarith
  have h422 (hfit : ¬ height.toNat * 8 < 2 ^ 32) :
      (alignUp (divRoundUp (height * 8) 4) 2).toNat < height.toNat := by
    have hsum := Nat.mod_le (height.toNat * 8 % 2 ^ 32 + 3) (2 ^ 32)
    rw [planar_rows_toNat, show (8 : UInt32).toNat = 8 from rfl]
    generalize (height.toNat * 8 % 2 ^ 32 + 3) % 2 ^ 32 = sum at hsum ⊢
    omega
  cases layout with
  | packed bytes =>
    have hfit : ¬ height.toNat + 1 < 2 ^ 32 := h
    rw [alignUp_toNat _ (by decide), show (2 : UInt32).toNat = 2 from rfl]
    omega
  | semiPlanar420 => exact h420 h
  | planar420 => exact h420 h
  | semiPlanar422 => exact h422 h
  | planar422 => exact h422 h

/-! ## The image -/

theorem first_plane_le (layout : ImageLayout) (width height stride : Nat) :
    height * max stride (width * layout.bytesPerPixel) ≤ layout.bytes width height stride := by
  cases layout <;>
    simp [bytes, planes, bytesPerPixel, Plane.bytes]

theorem bytes_le {width height stride even rows : Nat} (hwidth : width ≤ 2 * even)
    (hstride : 2 * even * layout.bytesPerPixel ≤ stride) (hrows : layout.allRows height ≤ rows) :
    layout.bytes width height stride ≤ stride * rows := by
  have hluma : width * layout.bytesPerPixel ≤ stride := le_trans (Nat.mul_le_mul_right _ hwidth) hstride
  refine le_trans ?_ (Nat.mul_le_mul_left stride hrows)
  cases layout with
  | packed bytes =>
    have hmax : max stride (width * bytes) = stride := max_eq_left hluma
    simp only [ImageLayout.bytes, ImageLayout.planes, ImageLayout.allRows, Plane.bytes, List.map_cons,
      List.map_nil, List.sum_cons, List.sum_nil, hmax]
    exact le_of_eq (by ring)
  | semiPlanar420 | semiPlanar422 =>
    simp only [bytesPerPixel, Nat.mul_one] at hluma hstride
    have hpairs : max stride (2 * ((width + 1) / 2)) = stride := max_eq_left (by omega)
    simp only [bytes, planes, allRows, Plane.bytes, List.map_cons,
      List.map_nil, List.sum_cons, List.sum_nil, max_eq_left hluma, hpairs]
    exact le_of_eq (by ring)
  | planar420 | planar422 =>
    simp only [bytesPerPixel, Nat.mul_one] at hluma hstride
    have hhalf : max (stride / 2) ((width + 1) / 2) = stride / 2 := max_eq_left (by omega)
    have hchroma (rows : Nat) : rows * (stride / 2) + rows * (stride / 2) ≤ rows * stride := by
      rw [← Nat.mul_add]
      exact Nat.mul_le_mul_left _ (by omega)
    simp only [bytes, planes, allRows, Plane.bytes, List.map_cons,
      List.map_nil, List.sum_cons, List.sum_nil, max_eq_left hluma, hhalf]
    linarith [hchroma height, hchroma ((height + 1) / 2)]

/-! ## The handle -/

def AllocInfo.handle (info : AllocInfo) (fd : Int) (d : Dumb) : BufferHandle :=
  initBufferHandle (initGbmBo info.width info.height d) fd info

theorem gbmAllocMem_ok {a : GbmAnswers} {b : BufferHandle} (h : gbmAllocMem a info = .ok b) :
    ∃ d, a.dumb = some d ∧ b = info.handle a.fd d := by
  unfold gbmAllocMem at h
  split at h
  · exact nomatch h
  · by_cases hmanager : a.manager = true
    · rw [if_neg (not_not_intro hmanager)] at h
      split at h
      · exact nomatch h
      · rename_i bo hbo
        split_ifs at h
        unfold hdiGbmBoCreate at hbo
        split at hbo
        · exact nomatch hbo
        · split_ifs at hbo
          obtain ⟨d, hd, rfl⟩ := Option.map_eq_some_iff.mp hbo
          exact ⟨d, hd, (Except.ok.inj h).symm⟩
    · rw [if_pos hmanager] at h
      exact nomatch h

theorem gbmAllocMem_of_request (h : info.request = some req) (d : Dumb) :
    gbmAllocMem { dumb := some d } info = .ok (info.handle 0 d) := by
  obtain ⟨width, height, usage, format⟩ := info
  cases format <;> first | rfl | exact nomatch h

theorem size_toNat {d : Dumb} (h : d.size.toNat < 2 ^ 32) : d.size.toUInt32.toNat = d.size.toNat := by
  rw [UInt64.toNat_toUInt32, Nat.mod_eq_of_lt h]

theorem holds_of_fits {d : Dumb} (hreq : info.request = some req)
    (hfits : info.Fits) (hd : d.Meets req) (hsize : d.size.toNat < 2 ^ 32) (fd : Int) : (info.handle fd d).Holds := by
  intro layout hlayout
  show layout.bytes info.width.toNat info.height.toNat d.pitch.toNat ≤ d.size.toUInt32.toNat
  rw [size_toNat hsize]
  rcases hfits with hnone | ⟨hwidth, hrows⟩
  · rw [hnone]
    cases layout <;> simp [bytes, planes, Plane.bytes]
  · obtain rfl : req = _ := Option.some.inj (hreq.symm.trans (request_eq hlayout))
    obtain ⟨hpitch, hheight⟩ := hd
    have hbpp := layout_bytesPerPixel hlayout
    have hbits : (UInt32.ofNat (8 * layout.bytesPerPixel)).toNat = 8 * layout.bytesPerPixel :=
      UInt32.toNat_ofNat_of_lt' (by show _ < 2 ^ 32; omega)
    have hasked : (alignUp info.width 8).toNat = (info.width.toNat + 7) / 8 * 8 := by
      rw [alignUp_toNat _ (by decide), show (8 : UInt32).toNat = 8 from rfl, Nat.mod_eq_of_lt hwidth]
    have hrowBytes : 2 * ((info.width.toNat + 7) / 8 * 4) * layout.bytesPerPixel ≤ d.pitch.toNat := by
      simp only [hasked, hbits] at hpitch
      rw [Nat.mul_comm 8, ← Nat.mul_assoc, Nat.mul_div_cancel _ (by decide)] at hpitch
      linarith
    exact le_trans (bytes_le (by omega) hrowBytes (rows_of_fit (hrows layout hlayout))) hheight

theorem exists_pitch {d : Dumb} (hd : d.Meets req) (hsize : d.size.toNat < 2 ^ 32) :
    ∃ pitch : UInt32, 0 < pitch.toNat ∧ req.width.toNat * req.bpp.toNat / 8 ≤ pitch.toNat ∧
      pitch.toNat * req.height.toNat < 2 ^ 32 := by
  by_cases hzero : d.pitch.toNat = 0
  · have hpitch := hd.pitch
    have hheight : req.height.toNat < 2 ^ 32 := req.height.toNat_lt
    have hone : (1 : UInt32).toNat = 1 := rfl
    exact ⟨1, by decide, by omega, by rw [hone, Nat.one_mul]; exact hheight⟩
  · exact ⟨d.pitch, by omega, hd.pitch, lt_of_le_of_lt hd.size hsize⟩

theorem not_holds_of_rows {pitch : UInt32} {size : UInt64} (hlayout : info.format.layout = some layout)
    (hsize : size.toUInt32.toNat < pitch.toNat * info.height.toNat) (fd : Int) :
    ¬ (info.handle fd { pitch, size }).Holds := by
  intro hholds
  have hbytes : layout.bytes info.width.toNat info.height.toNat pitch.toNat ≤ size.toUInt32.toNat :=
    hholds layout hlayout
  have hluma := first_plane_le layout info.width.toNat info.height.toNat pitch.toNat
  have hmax : info.height.toNat * pitch.toNat ≤
      info.height.toNat * max pitch.toNat (info.width.toNat * layout.bytesPerPixel) :=
    Nat.mul_le_mul_left _ (le_max_left _ _)
  linarith

theorem not_holds_of_width (hreq : info.request = some req)
    (hheight : info.height ≠ 0) (hwidth : ¬ info.width.toNat + 7 < 2 ^ 32) :
    ({ pitch := 0, size := 0 } : Dumb).Meets req ∧ ¬ (info.handle 0 { pitch := 0, size := 0 }).Holds := by
  obtain ⟨layout, hlayout⟩ := layout_of_request hreq
  obtain rfl : req = _ := Option.some.inj (hreq.symm.trans (request_eq hlayout))
  have hlt : info.width.toNat < 2 ^ 32 := info.width.toNat_lt
  have hasked : (alignUp info.width 8).toNat = 0 := by
    rw [alignUp_toNat _ (by decide), show (8 : UInt32).toNat = 8 from rfl]
    omega
  refine ⟨⟨by simp only [hasked]; simp, by simp⟩, fun hholds => ?_⟩
  have hbytes : layout.bytes info.width.toNat info.height.toNat 0 ≤ 0 := hholds layout hlayout
  have hluma := first_plane_le layout info.width.toNat info.height.toNat 0
  have hrow : 0 < info.width.toNat * layout.bytesPerPixel :=
    Nat.mul_pos (by omega) (layout_bytesPerPixel hlayout).1
  have hrows : 0 < info.height.toNat := by
    refine Nat.pos_of_ne_zero fun hzero => hheight (UInt32.toNat_inj.mp hzero)
  have hpixels : 0 < info.height.toNat * max 0 (info.width.toNat * layout.bytesPerPixel) :=
    Nat.mul_pos hrows (lt_max_of_lt_right hrow)
  omega

theorem exists_short (hreq : info.request = some req) (hanswer : ∃ d : Dumb, d.Meets req ∧ d.size.toNat < 2 ^ 32)
    (hfits : ¬ info.Fits) : ∃ d : Dumb, d.Meets req ∧ d.size.toNat < 2 ^ 32 ∧ ¬ (info.handle 0 d).Holds := by
  have hheight : info.height ≠ 0 := fun hzero => hfits (.inl hzero)
  by_cases hwidth : info.width.toNat + 7 < 2 ^ 32
  · obtain ⟨layout, hlayout⟩ := layout_of_request hreq
    have hrows : ¬ layout.RowsFit info.height.toNat := fun hrows =>
      hfits (.inr ⟨hwidth, fun other hother => Option.some.inj (hlayout.symm.trans hother) ▸ hrows⟩)
    obtain ⟨d, hd, hsize⟩ := hanswer
    obtain ⟨pitch, hpos, hpitch, hsmall⟩ := exists_pitch hd hsize
    obtain rfl : req = _ := Option.some.inj (hreq.symm.trans (request_eq hlayout))
    have hasked := rows_of_not_fit hrows
    set rows := (alignUp (layout.rows info.height) 2).toNat with hrowsEq
    have hto : (UInt64.ofNat (pitch.toNat * rows)).toNat = pitch.toNat * rows :=
      UInt64.toNat_ofNat_of_lt' (lt_trans hsmall (by decide))
    have hto32 : (UInt64.ofNat (pitch.toNat * rows)).toUInt32.toNat = pitch.toNat * rows := by
      rw [UInt64.toNat_toUInt32, hto, Nat.mod_eq_of_lt hsmall]
    refine ⟨{ pitch, size := .ofNat (pitch.toNat * rows) }, ⟨hpitch, hto.ge⟩, hto.trans_lt hsmall, ?_⟩
    exact not_holds_of_rows hlayout (hto32.trans_lt (Nat.mul_lt_mul_of_pos_left hasked hpos)) 0
  · obtain ⟨hmeets, hholds⟩ := not_holds_of_width hreq hheight hwidth
    exact ⟨_, hmeets, by decide, hholds⟩

theorem exists_truncated (hreq : info.request = some req) (hanswer : ∃ d : Dumb, d.Meets req ∧ d.size.toNat < 2 ^ 32)
    (hheight : info.height ≠ 0) : ∃ d : Dumb, d.Meets req ∧ ¬ (info.handle 0 d).Holds := by
  obtain ⟨layout, hlayout⟩ := layout_of_request hreq
  obtain ⟨d, hd, hsize⟩ := hanswer
  obtain ⟨pitch, hpos, hpitch, hsmall⟩ := exists_pitch hd hsize
  have hrows : 0 < info.height.toNat :=
    Nat.pos_of_ne_zero fun hzero => hheight (UInt32.toNat_inj.mp hzero)
  have hsize64 : pitch.toNat * req.height.toNat ≤ (0x100000000 : UInt64).toNat :=
    le_of_lt hsmall
  refine ⟨{ pitch, size := 0x100000000 }, ⟨hpitch, hsize64⟩, not_holds_of_rows hlayout ?_ 0⟩
  exact Nat.mul_pos hpos hrows

/-- For a supported format and a size that the kernel can allocate in less than `2 ^ 32` bytes: each buffer of less
than `2 ^ 32` bytes holds its image just if the image has no rows or its width and its rows can be rounded up in 32
bits. Of an image with rows, the size is reported wrong for some buffer of more bytes. -/
theorem reported_size_iff {info : AllocInfo} {req : DumbRequest} (hreq : info.request = some req)
    (hanswer : ∃ d : Dumb, d.Meets req ∧ d.size.toNat < 2 ^ 32) :
    ((∀ a b, gbmAllocMem a info = .ok b →
        (∀ d ∈ a.dumb, d.Meets req ∧ d.size.toNat < 2 ^ 32) → b.Holds) ↔ info.Fits) ∧
      (info.height ≠ 0 →
        ∃ a b, gbmAllocMem a info = .ok b ∧ (∀ d ∈ a.dumb, d.Meets req) ∧ ¬ b.Holds) := by
  refine ⟨⟨fun hall => by_contra fun hfits => ?_, fun hfits a b hok hd => ?_⟩, fun hheight => ?_⟩
  · obtain ⟨d, hmeets, hsize, hholds⟩ := exists_short hreq hanswer hfits
    refine hholds (hall _ _ (gbmAllocMem_of_request hreq d) fun d' hd' => ?_)
    cases hd'
    exact ⟨hmeets, hsize⟩
  · obtain ⟨d, hdumb, rfl⟩ := gbmAllocMem_ok hok
    obtain ⟨hmeets, hsize⟩ := hd d hdumb
    exact holds_of_fits hreq hfits hmeets hsize a.fd
  · obtain ⟨d, hmeets, hholds⟩ := exists_truncated hreq hanswer hheight
    refine ⟨_, _, gbmAllocMem_of_request hreq d, fun d' hd' => ?_, hholds⟩
    cases hd'
    exact hmeets

/-- A picture of 1920 by 1080 pixels in NV12, in a buffer of exactly the rows that are asked for. -/
theorem reported_size_of_full_hd :
    ∃ b, gbmAllocMem { dumb := some ⟨1920, 3110400⟩ } { width := 1920, height := 1080, format := .ycbcr420Sp } = .ok b ∧
      b.Holds := by
  have hmeets : (⟨1920, 3110400⟩ : Dumb).Meets ⟨1920, 1620, 8⟩ := ⟨by decide, by decide⟩
  have hreq : ({ width := 1920, height := 1080, format := .ycbcr420Sp } : AllocInfo).request =
      some ⟨1920, 1620, 8⟩ := by decide
  refine ⟨_, rfl, (reported_size_iff hreq ⟨_, hmeets, by decide⟩).1.mpr ?_
    { dumb := some ⟨1920, 3110400⟩ } _ rfl fun d hd => ?_⟩
  · refine .inr ⟨by decide, fun layout hlayout => ?_⟩
    cases hlayout
    show 1080 * 6 < 2 ^ 32
    decide
  · cases hd
    exact ⟨hmeets, by decide⟩

/-- An NV12 picture of 715827883 rows, for which two rows are asked. -/
theorem reported_size_short :
    (⟨8, 16⟩ : Dumb).Meets ⟨8, 2, 8⟩ ∧
      ({ width := 8, height := 715827883, format := .ycbcr420Sp } : AllocInfo).request = some ⟨8, 2, 8⟩ ∧
      ∃ b, gbmAllocMem { dumb := some ⟨8, 16⟩ } { width := 8, height := 715827883, format := .ycbcr420Sp } = .ok b ∧
        ¬ b.Holds := by
  refine ⟨⟨by decide, by decide⟩, by decide, _, rfl, fun hholds => ?_⟩
  exact absurd (hholds .semiPlanar420 rfl) (by decide)

end Amlogic.Display
