import Amlogic.Display.Format

/-!
# Graphics buffers (`display_gralloc/hi_gbm.cpp`, `display_gralloc/display_gralloc_gbm.cpp`)

`GbmAllocMem` asks the kernel for a dumb buffer and reports its pitch and size in a buffer handle. The code computes
in `uint32_t` throughout; so does the model. The answers of the allocator and of the kernel are `GbmAnswers`.
-/

namespace Amlogic.Display

/-- The DRM formats of `GetFormatInfo`. -/
inductive DrmFormat where
  | rgbx8888 | rgba8888 | bgrx8888 | bgra8888 | rgb888 | rgb565 | bgrx4444 | bgra4444 | rgba4444 | rgbx4444
  | bgrx5551 | bgra5551 | nv12 | nv21 | nv16 | nv61 | yuv420 | yvu420 | yuv422 | yvu422
  deriving DecidableEq

structure PlaneLayoutInfo where
  numPlanes : Nat
  radio : List UInt32

def yuv420SPLayout : PlaneLayoutInfo := { numPlanes := 2, radio := [4, 2] }

def yuv420PLayout : PlaneLayoutInfo := { numPlanes := 3, radio := [4, 1, 1] }

def yuv422SPLayout : PlaneLayoutInfo := { numPlanes := 2, radio := [4, 4] }

def yuv422PLayout : PlaneLayoutInfo := { numPlanes := 3, radio := [4, 2, 2] }

structure FormatInfo where
  format : DrmFormat
  bitsPerPixel : UInt32
  planes : Option PlaneLayoutInfo

def fmtInfos : List FormatInfo :=
  [⟨.rgbx8888, 32, none⟩, ⟨.rgba8888, 32, none⟩, ⟨.bgrx8888, 32, none⟩, ⟨.bgra8888, 32, none⟩,
    ⟨.rgb888, 24, none⟩, ⟨.rgb565, 16, none⟩, ⟨.bgrx4444, 16, none⟩, ⟨.bgra4444, 16, none⟩,
    ⟨.rgba4444, 16, none⟩, ⟨.rgbx4444, 16, none⟩, ⟨.bgrx5551, 16, none⟩, ⟨.bgra5551, 16, none⟩,
    ⟨.nv12, 8, some yuv420SPLayout⟩, ⟨.nv21, 8, some yuv420SPLayout⟩,
    ⟨.nv16, 8, some yuv422SPLayout⟩, ⟨.nv61, 8, some yuv422SPLayout⟩,
    ⟨.yuv420, 8, some yuv420PLayout⟩, ⟨.yvu420, 8, some yuv420PLayout⟩,
    ⟨.yuv422, 8, some yuv422PLayout⟩, ⟨.yvu422, 8, some yuv422PLayout⟩]

def getFormatInfo (format : DrmFormat) : Option FormatInfo := fmtInfos.find? (·.format = format)

def maxPlanes : Nat := 3

def alignUp (x a : UInt32) : UInt32 := (x + (a - 1)) / a * a

def divRoundUp (n d : UInt32) : UInt32 := (n + d - 1) / d

/-- The sum over the planes in `AdjustStrideFromFormat`. -/
def PlaneLayoutInfo.sum (planes : PlaneLayoutInfo) : UInt32 :=
  ((planes.radio.take (min planes.numPlanes maxPlanes)).drop 1).foldl (· + ·) (planes.radio.headD 0)

def adjustStrideFromFormat (format : DrmFormat) (height : UInt32) : UInt32 :=
  match (getFormatInfo format).bind (·.planes) with
  | some planes => if 0 < planes.sum then divRoundUp (height * planes.sum) (planes.radio.headD 0) else height
  | none => height

/-- The part of `drm_mode_create_dumb` that the caller fills in. -/
structure DumbRequest where
  width : UInt32
  height : UInt32
  bpp : UInt32
  deriving DecidableEq

/-- The part of `drm_mode_create_dumb` that the kernel fills in. -/
structure Dumb where
  pitch : UInt32
  size : UInt64
  deriving DecidableEq

def heightAlign : UInt32 := 2

def widthAlign : UInt32 := 8

/-- The request of `hdi_gbm_bo_create`. -/
def createDumb (width height : UInt32) (info : FormatInfo) : DumbRequest where
  height := alignUp (adjustStrideFromFormat info.format height) heightAlign
  width := alignUp width widthAlign
  bpp := info.bitsPerPixel

structure GbmBo where
  width : UInt32
  height : UInt32
  stride : UInt32
  size : UInt32

/-- The answers of the allocator and of the kernel. -/
structure GbmAnswers where
  manager : Bool := true
  calloc : Bool := true
  dumb : Option Dumb
  fd : Int := 0
  malloc : Bool := true
  memset : Bool := true

/-- `gbm_bo.size` is a `uint32_t`, `drm_mode_create_dumb.size` a 64-bit number. -/
def initGbmBo (width height : UInt32) (dumb : Dumb) : GbmBo where
  width
  height
  stride := dumb.pitch
  size := dumb.size.toUInt32

def hdiGbmBoCreate (a : GbmAnswers) (width height : UInt32) (format : DrmFormat) : Option GbmBo :=
  match getFormatInfo format with
  | none => none
  | some _ => if a.calloc then a.dumb.map (initGbmBo width height) else none

def convertTable : List (DrmFormat × PixelFormat) :=
  [(.rgbx8888, .rgbx8888), (.rgba8888, .rgba8888), (.rgb888, .rgb888), (.rgb565, .bgr565),
    (.bgrx4444, .bgrx4444), (.bgra4444, .bgra4444), (.rgba4444, .rgba4444), (.rgbx4444, .rgbx4444),
    (.bgrx5551, .bgrx5551), (.bgra5551, .bgra5551), (.bgrx8888, .bgrx8888), (.bgra8888, .bgra8888),
    (.nv12, .ycbcr420Sp), (.nv21, .ycrcb420Sp), (.yuv420, .ycbcr420P), (.yvu420, .ycrcb420P),
    (.nv16, .ycbcr422Sp), (.nv61, .ycrcb422Sp), (.yuv422, .ycbcr422P), (.yvu422, .ycrcb422P)]

/-- The loop does not stop at a match: the last one counts. -/
def convertFormatToDrm (fmtIn : PixelFormat) : Option DrmFormat :=
  convertTable.foldl (fun fmtOut entry => if entry.2 = fmtIn then some entry.1 else fmtOut) none

structure AllocInfo where
  width : UInt32
  height : UInt32
  usage : Nat := 0
  format : PixelFormat

/-- The part of `BufferHandle` that describes the picture, as `InitBufferHandle` fills it in. -/
structure BufferHandle where
  fd : Int
  width : UInt32
  stride : UInt32
  height : UInt32
  size : UInt32
  usage : Nat
  format : PixelFormat

def initBufferHandle (bo : GbmBo) (fd : Int) (info : AllocInfo) : BufferHandle where
  fd
  stride := bo.stride
  width := bo.width
  height := bo.height
  usage := info.usage
  format := info.format
  size := bo.size

/-- The error codes of `GbmAllocMem`. -/
inductive GrallocError where
  | notSupport | invalidParam | noMemory | badFd | failure
  deriving DecidableEq

def gbmAllocMem (a : GbmAnswers) (info : AllocInfo) : Except GrallocError BufferHandle :=
  match convertFormatToDrm info.format with
  | none => .error .notSupport
  | some drmFmt =>
    if ¬ a.manager then .error .invalidParam
    else match hdiGbmBoCreate a info.width info.height drmFmt with
      | none => .error .noMemory
      | some bo =>
        if a.fd < 0 then .error .badFd
        else if ¬ a.malloc then .error .failure
        else if ¬ a.memset then .error .failure
        else .ok (initBufferHandle bo a.fd info)

/-- The request that `GbmAllocMem` makes for a format it supports. -/
def AllocInfo.request (info : AllocInfo) : Option DumbRequest :=
  ((convertFormatToDrm info.format).bind getFormatInfo).map (createDumb info.width info.height)

/-! ## What an image takes -/

/-- A plane of an image in memory: rows of `rowBytes` bytes of pixels, `stride` bytes apart. -/
structure Plane where
  rowBytes : Nat
  stride : Nat
  rows : Nat

/-- A plane takes all of its rows, each with its stride, and never less than its pixels. -/
def Plane.bytes (p : Plane) : Nat := p.rows * max p.stride p.rowBytes

/-- How a format lays out its pixels: one plane of some bytes per pixel, or a plane of luma with chroma planes of half
the width, in pairs of bytes (semi-planar) or in two planes, of half or all of the height. -/
inductive ImageLayout where
  | packed (bytesPerPixel : Nat)
  | semiPlanar420
  | planar420
  | semiPlanar422
  | planar422

/-- The formats that can be allocated. -/
def PixelFormat.layout : PixelFormat → Option ImageLayout
  | .rgbx8888 | .rgba8888 | .bgrx8888 | .bgra8888 => some (.packed 4)
  | .rgb888 => some (.packed 3)
  | .bgr565 | .rgbx4444 | .rgba4444 | .bgrx4444 | .bgra4444 | .bgrx5551 | .bgra5551 => some (.packed 2)
  | .ycbcr420Sp | .ycrcb420Sp => some .semiPlanar420
  | .ycbcr420P | .ycrcb420P => some .planar420
  | .ycbcr422Sp | .ycrcb422Sp => some .semiPlanar422
  | .ycbcr422P | .ycrcb422P => some .planar422
  | _ => none

/-- The planes of an image: chroma rows of a planar format are half a stride apart. -/
def ImageLayout.planes (width height stride : Nat) : ImageLayout → List Plane
  | .packed bytes => [⟨width * bytes, stride, height⟩]
  | .semiPlanar420 => [⟨width, stride, height⟩, ⟨2 * ((width + 1) / 2), stride, (height + 1) / 2⟩]
  | .planar420 =>
    [⟨width, stride, height⟩, ⟨(width + 1) / 2, stride / 2, (height + 1) / 2⟩,
      ⟨(width + 1) / 2, stride / 2, (height + 1) / 2⟩]
  | .semiPlanar422 => [⟨width, stride, height⟩, ⟨2 * ((width + 1) / 2), stride, height⟩]
  | .planar422 =>
    [⟨width, stride, height⟩, ⟨(width + 1) / 2, stride / 2, height⟩, ⟨(width + 1) / 2, stride / 2, height⟩]

def ImageLayout.bytes (width height stride : Nat) (layout : ImageLayout) : Nat :=
  ((layout.planes width height stride).map Plane.bytes).sum

/-- The size that a handle reports holds an image of the width, height, stride and format that it reports. -/
def BufferHandle.Holds (b : BufferHandle) : Prop :=
  ∀ layout, b.format.layout = some layout →
    layout.bytes b.width.toNat b.height.toNat b.stride.toNat ≤ b.size.toNat

end Amlogic.Display
