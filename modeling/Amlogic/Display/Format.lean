import Mathlib

/-!
# Pixel formats of the display (`display_gralloc/display_gralloc_gbm.cpp`, `display_device/hdi_drm_composition.cpp`)
-/

namespace Amlogic.Display

/-- The pixel formats that `GetPixelFmtStr` knows. -/
inductive PixelFormat where
  | clut8 | clut1 | clut4 | rgb565 | rgba5658 | rgbx4444 | rgba4444 | rgb444 | rgbx5551 | rgba5551 | rgb555
  | rgbx8888 | rgba8888 | rgb888 | bgr565 | bgrx4444 | bgra4444 | bgrx5551 | bgra5551 | bgrx8888 | bgra8888
  | yuv422I | ycbcr422Sp | ycrcb422Sp | ycbcr420Sp | ycrcb420Sp | ycbcr422P | ycrcb422P | ycbcr420P | ycrcb420P
  | yuyv422Pkg | uyvy422Pkg | yvyu422Pkg | vyuy422Pkg | butt
  deriving DecidableEq

/-- The set of formats in `IsAmVideoLayer`. -/
def videoFormats : List PixelFormat :=
  [.yuv422I, .ycbcr422Sp, .ycrcb422Sp, .ycbcr420Sp, .ycrcb420Sp, .ycbcr422P, .ycrcb422P, .ycbcr420P, .ycrcb420P,
    .yuyv422Pkg, .uyvy422Pkg, .yvyu422Pkg, .vyuy422Pkg]

end Amlogic.Display
