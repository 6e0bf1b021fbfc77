import Emelex.Engine.Error
import Emelex.Lib.AspectRatio
import Emelex.Lib.CheckedNat
import Emelex.Lib.Checks
import Mathlib.Algebra.Order.Round

/-!
# The size of an image for the vision tower (`engine/media/image.rs`)

Floats are real numbers; `is_finite` always holds of them.

* `computeTargetSize` — the size of the resized image, a multiple of the alignment on both sides.
* `preprocessImageBytes` — an encoded image to the tensor of its pixels.

What the decoder and the resizer give is a parameter, `Codec`; the resized image has the size that
was asked for.

Principal results: `targetSides_spec`, `computeTargetSize_eq`, `resize_never_refuses`.
-/

set_option autoImplicit false

namespace Emelex

open Checks Checked AspectRatio

namespace Image

def MAX_ENCODED_MEDIA_BYTES : Nat := 128 * 2 ^ 20
def MIN_SOFT_TOKENS : Int := 40
def MAX_IMAGE_DIMENSION : Nat := 8192
def MAX_DECODED_IMAGE_PIXELS : Nat := 32 * 2 ^ 20
def MAX_IMAGE_DECODE_ALLOC_BYTES : Nat := 256 * 2 ^ 20
def MAX_PROCESSED_IMAGE_PIXELS : Nat := 16 * 2 ^ 20
def MAX_PATCH_SIZE : Int := 256
def MAX_POOLING_KERNEL_SIZE : Int := 16
def MAX_SOFT_TOKENS : Int := 16384
def MAX_ASPECT_RATIO : Nat := 200

/-! ## Machine integers -/

/-- `i32::checked_mul`. -/
def checkedMulI32 (a b : Int) : Option Int :=
  if -2 ^ 31 ≤ a * b ∧ a * b < 2 ^ 31 then some (a * b) else none

/-- `u64::try_from`. -/
def tryFromI32 (a : Int) : Option Nat := if 0 ≤ a then some a.toNat else none

/-- `i32::try_from`. -/
def tryFromU32 (a : Nat) : Option Int := if a < 2 ^ 31 then some a else none

/-! ## Checks -/

def validateEncodedImageLen (length : Nat) : Except Error Unit :=
  ensure (length ≤ MAX_ENCODED_MEDIA_BYTES)
    (Error.model s!"encoded image exceeds {MAX_ENCODED_MEDIA_BYTES} byte limit")

def validateSourceDimensions (width height : Nat) : Except Error Unit := do
  ensure (width ≠ 0 ∧ height ≠ 0) (Error.model "decoded image dimensions must be positive")
  ensure (width ≤ MAX_IMAGE_DIMENSION ∧ height ≤ MAX_IMAGE_DIMENSION)
    (Error.model s!"decoded image exceeds {MAX_IMAGE_DIMENSION} pixel dimension limit")
  let pixels ← required (Error.model "decoded image area overflow")
    (checkedMul (2 ^ 64) width height)
  ensure (pixels ≤ MAX_DECODED_IMAGE_PIXELS)
    (Error.model s!"decoded image exceeds {MAX_DECODED_IMAGE_PIXELS} pixel limit")
  let short := min width height
  let long := max width height
  ensure (long ≤ min (short * MAX_ASPECT_RATIO) (2 ^ 32 - 1))
    (Error.model s!"decoded image aspect ratio exceeds { MAX_ASPECT_RATIO}:1")

def validateModelGeometry (patchSize minSoftTokens maxSoftTokens poolingKernelSize : Int) :
    Except Error Unit := do
  ensure (1 ≤ patchSize ∧ patchSize ≤ MAX_PATCH_SIZE)
    (Error.model s!"image patch size must be within 1..={MAX_PATCH_SIZE}")
  ensure (1 ≤ poolingKernelSize ∧ poolingKernelSize ≤ MAX_POOLING_KERNEL_SIZE)
    (Error.model s!"image pooling kernel must be within 1..={MAX_POOLING_KERNEL_SIZE}")
  ensure (0 < minSoftTokens ∧ minSoftTokens ≤ maxSoftTokens ∧ maxSoftTokens ≤ MAX_SOFT_TOKENS)
    (Error.model
      s!"image soft-token budget must satisfy 1 <= min <= max <= {MAX_SOFT_TOKENS}")

def validateGeometry (height width : Nat)
    (patchSize minSoftTokens maxSoftTokens poolingKernelSize : Int) : Except Error Unit := do
  validateSourceDimensions width height
  validateModelGeometry patchSize minSoftTokens maxSoftTokens poolingKernelSize

/-! ## The target size -/

section

variable (align : ℝ)

/-- `round_by`; a positive half is rounded up. -/
noncomputable def roundBy (x : ℝ) : ℝ := round (x / align) * align

noncomputable def floorBy (x : ℝ) : ℝ := ⌊x / align⌋ * align

noncomputable def ceilBy (x : ℝ) : ℝ := ⌈x / align⌉ * align

/-- `h_bar` and `w_bar`. -/
noncomputable def targetSides (minPixels maxPixels h w : ℝ) : ℝ × ℝ :=
  let hBar := max (roundBy align h) align
  let wBar := max (roundBy align w) align
  if hBar * wBar > maxPixels then
    let beta := Real.sqrt (h * w / maxPixels)
    (max (floorBy align (h / beta)) align, max (floorBy align (w / beta)) align)
  else if hBar * wBar < minPixels then
    let beta := Real.sqrt (minPixels / (h * w))
    (max (ceilBy align (h * beta)) align, max (ceilBy align (w * beta)) align)
  else (hBar, wBar)

end

/-- The target width and height. -/
noncomputable def computeTargetSize (height width : Nat)
    (patchSize minSoftTokens maxSoftTokens poolingKernelSize : Int) : Except Error (Nat × Nat) := do
  validateGeometry height width patchSize minSoftTokens maxSoftTokens poolingKernelSize
  let alignI32 ← required (Error.model "image alignment overflow")
    (checkedMulI32 patchSize poolingKernelSize)
  let alignU64 ← required (Error.model "image alignment must be positive") (tryFromI32 alignI32)
  let patchAreaU64 ← required (Error.model "image aligned patch area overflow")
    (checkedMul (2 ^ 64) alignU64 alignU64)
  let maxTokens ← required (Error.model "image soft-token budget must be positive")
    (tryFromI32 maxSoftTokens)
  let configuredMaxPixels ← required (Error.model "image pixel budget overflow")
    (checkedMul (2 ^ 64) maxTokens patchAreaU64)
  let minTokens ← required (Error.model "image minimum soft-token budget must be positive")
    (tryFromI32 minSoftTokens)
  let minPixelsU64 ← required (Error.model "image minimum pixel budget overflow")
    (checkedMul (2 ^ 64) minTokens patchAreaU64)
  ensure (minPixelsU64 ≤ MAX_PROCESSED_IMAGE_PIXELS)
    (Error.model (s!"image minimum geometry needs {minPixelsU64} processed pixels, exceeding " ++
      s!"{MAX_PROCESSED_IMAGE_PIXELS}"))
  let maxPixelsU64 := min configuredMaxPixels MAX_PROCESSED_IMAGE_PIXELS
  let align : ℝ := alignI32
  let patchArea := align * align
  let minPixels := minSoftTokens * patchArea
  let maxPixels : ℝ := maxPixelsU64
  let sides := targetSides align minPixels maxPixels height width
  ensure (align ≤ sides.1 ∧ align ≤ sides.2 ∧ sides.1 ≤ 4294967295 ∧ sides.2 ≤ 4294967295)
    (Error.model "image resize produced invalid dimensions")
  let targetH := ⌊sides.1⌋₊
  let targetW := ⌊sides.2⌋₊
  let targetPixels ← required (Error.model "processed image area overflow")
    (checkedMul (2 ^ 64) targetH targetW)
  ensure (targetPixels ≠ 0 ∧ minPixelsU64 ≤ targetPixels ∧ targetPixels ≤ maxPixelsU64 ∧
      targetPixels ≤ MAX_PROCESSED_IMAGE_PIXELS ∧ targetH % alignU64 = 0 ∧ targetW % alignU64 = 0)
    (Error.model s!"image resize produced unsafe {targetW}x{targetH} geometry")
  return (targetW, targetH)

/-! ## Preprocessing -/

/-- Where a call may find itself cancelled. -/
inductive Checkpoint where
  | start
  | decoded
  | resized
  | row (y : Nat)
  | rows

/-- The limits the decoder is given. -/
structure Limits where
  maxImageWidth : Nat
  maxImageHeight : Nat
  maxAlloc : Nat

/-- The image library; pixels are given by column, row and channel. -/
structure Codec (Reader Picture : Type) where
  withGuessedFormat : List UInt8 → Except String Reader
  decode : Limits → Reader → Except String Picture
  dimensions : Picture → Nat × Nat
  toRgb8 : Picture → Nat → Nat → Nat → UInt8
  resizeExact : Picture → Nat → Nat → Nat → Nat → Nat → UInt8

/-- A tensor of `f32`. -/
structure Tensor where
  values : List Rat
  shape : List Int

structure ProcessedImage where
  pixelValues : Tensor
  patchH : Int
  patchW : Int
  numSoftTokens : Int

section

variable {Reader Picture : Type} (codec : Codec Reader Picture) (cancelled : Checkpoint → Bool)

def checkpoint (place : Checkpoint) : Except Error Unit :=
  ensure (cancelled place = false) Error.cancelled

/-- `rgb_to_chw_array`, of an image of this size. -/
def rgbToChwArray (width height : Nat) (pixel : Nat → Nat → Nat → UInt8) : Except Error Tensor := do
  let pixels ← required (Error.model "processed image area overflow")
    (checkedMul (2 ^ 64) width height)
  ensure (pixels ≤ MAX_PROCESSED_IMAGE_PIXELS)
    (Error.model s!"processed image exceeds {MAX_PROCESSED_IMAGE_PIXELS} pixel limit")
  let _ ← required (Error.model "processed image tensor size overflow")
    (checkedMul (2 ^ 64) pixels 3)
  (List.range height).forM fun y =>
    if y % 64 = 0 then checkpoint cancelled (.row y) else .ok ()
  -- the value at `c * pixels + y * width + x`
  let chw := (List.range 3).flatMap fun c => (List.range height).flatMap fun y =>
    (List.range width).map fun x => ((pixel x y c).toNat : Rat) / 255
  let height ← required (Error.model "processed image height exceeds i32") (tryFromU32 height)
  let width ← required (Error.model "processed image width exceeds i32") (tryFromU32 width)
  checkpoint cancelled .rows
  return { values := chw, shape := [1, 3, height, width] }

/-- The end of it: the grid of patches, and the soft tokens. -/
def processedImage (pixelValues : Tensor) (targetW targetH : Nat)
    (patchSize maxSoftTokens poolingKernelSize : Int) : Except Error ProcessedImage := do
  let height ← required (Error.model "processed image height exceeds i32") (tryFromU32 targetH)
  let width ← required (Error.model "processed image width exceeds i32") (tryFromU32 targetW)
  let patchH := height.tdiv patchSize
  let patchW := width.tdiv patchSize
  let patchCount ← required (Error.model "processed image patch count overflow")
    (checkedMulI32 patchH patchW)
  let poolArea ← required (Error.model "image pooling area overflow")
    (checkedMulI32 poolingKernelSize poolingKernelSize)
  let numSoftTokens := patchCount.tdiv poolArea
  ensure (MIN_SOFT_TOKENS ≤ numSoftTokens ∧ numSoftTokens ≤ maxSoftTokens)
    (Error.model (s!"processed image needs {numSoftTokens} soft tokens, outside " ++
      s!"{MIN_SOFT_TOKENS}..={maxSoftTokens}"))
  return { pixelValues, patchH, patchW, numSoftTokens }

def limits : Limits where
  maxImageWidth := MAX_IMAGE_DIMENSION
  maxImageHeight := MAX_IMAGE_DIMENSION
  maxAlloc := MAX_IMAGE_DECODE_ALLOC_BYTES

/-- `preprocess_image_bytes_cancellable`. -/
noncomputable def preprocessImageBytes (data : List UInt8)
    (patchSize maxSoftTokens poolingKernelSize : Int) : Except Error ProcessedImage := do
  checkpoint cancelled .start
  validateEncodedImageLen data.length
  validateModelGeometry patchSize MIN_SOFT_TOKENS maxSoftTokens poolingKernelSize
  let reader ← (codec.withGuessedFormat data).mapError fun e =>
    Error.model s!"failed to inspect image: {e}"
  let img ← (codec.decode limits reader).mapError fun e =>
    Error.model s!"failed to decode image: {e}"
  checkpoint cancelled .decoded
  let (origW, origH) := codec.dimensions img
  validateSourceDimensions origW origH
  let (targetW, targetH) ←
    computeTargetSize origH origW patchSize MIN_SOFT_TOKENS maxSoftTokens poolingKernelSize
  let resized :=
    if targetH = origH ∧ targetW = origW then codec.toRgb8 img
    else codec.resizeExact img targetW targetH
  checkpoint cancelled .resized
  let pixelValues ← rgbToChwArray cancelled targetW targetH resized
  processedImage pixelValues targetW targetH patchSize maxSoftTokens poolingKernelSize

end

/-! ## The sides in whole units -/

section sides

variable {align h w : ℝ}

theorem clamp_eq (halign : 0 < align) (k : ℤ) :
    max ((k : ℝ) * align) align = ((max k 1).toNat : ℝ) * align := by
  have hcast : ((max k 1).toNat : ℝ) = max (k : ℝ) 1 := by
    have hnat : ((max k 1).toNat : ℤ) = max k 1 :=
      Int.toNat_of_nonneg (le_trans (by decide) (le_max_right k 1))
    exact_mod_cast congrArg (Int.cast (R := ℝ)) hnat
  rw [hcast, max_mul_of_nonneg _ _ halign.le, one_mul]

theorem one_le_clamp (k : ℤ) : 1 ≤ (max k 1).toNat := by
  have hle := le_max_right k 1
  omega

/-- Where the side is not below one unit the clamp does nothing. -/
theorem clamp_cast {k : ℤ} (hk : 1 ≤ k) : ((max k 1).toNat : ℝ) = k := by
  have hnat : ((max k 1).toNat : ℤ) = k := by
    rw [max_eq_left hk]
    exact Int.toNat_of_nonneg (by omega)
  exact_mod_cast congrArg (Int.cast (R := ℝ)) hnat

/-- What the target sides are, in units of the alignment: enough for the fewest soft tokens, and
within the pixels allowed. -/
structure Fits (align minPixels maxPixels : ℝ) (sides : ℝ × ℝ) (m n : ℕ) : Prop where
  height : sides.1 = m * align
  width : sides.2 = n * align
  height_pos : 1 ≤ m
  width_pos : 1 ≤ n
  lower : minPixels ≤ m * n * (align * align)
  upper : m * n * (align * align) ≤ maxPixels

/-- Shrinking: both sides stay at least a unit long, and a quarter of the area is left. -/
theorem shrunk_fits {maxPixels : ℝ} (halign : 0 < align) (hh : 0 < h) (hw : 0 < w)
    (hratio : h ≤ 200 * w) (hratio' : w ≤ 200 * h) (hmax : 200 * (align * align) ≤ maxPixels) :
    ∃ m n, Fits align (40 * (align * align)) maxPixels
      (max (floorBy align (h / Real.sqrt (h * w / maxPixels))) align,
        max (floorBy align (w / Real.sqrt (h * w / maxPixels))) align) m n := by
  have hmaxPos : 0 < maxPixels := lt_of_lt_of_le (by positivity) hmax
  have hbeta : 0 < Real.sqrt (h * w / maxPixels) := Real.sqrt_pos.2 (by positivity)
  have harea := shrunk_mul_shrunk hh hw hmaxPos
  generalize Real.sqrt (h * w / maxPixels) = beta at hbeta harea ⊢
  have hx : 0 < h / beta / align := by positivity
  have hy : 0 < w / beta / align := by positivity
  have hxy : h / beta / align ≤ 200 * (w / beta / align) := by
    rw [← mul_div_assoc, ← mul_div_assoc]
    gcongr
  have hyx : w / beta / align ≤ 200 * (h / beta / align) := by
    rw [← mul_div_assoc, ← mul_div_assoc]
    gcongr
  have hprod : h / beta / align * (w / beta / align) * (align * align) = maxPixels := by
    rw [← harea]
    field_simp
  have hunits : 200 ≤ h / beta / align * (w / beta / align) := by
    refine le_of_mul_le_mul_right ?_ (by positivity : 0 < align * align)
    rw [hprod]
    exact hmax
  unfold floorBy
  generalize h / beta / align = x at *
  generalize w / beta / align = y at *
  have hx1 : 1 ≤ x := one_le_of_ratio (by norm_num) hx hyx (by rw [mul_comm]; exact hunits)
  have hy1 : 1 ≤ y := one_le_of_ratio (by norm_num) hy hxy hunits
  have hm : ((max ⌊x⌋ 1).toNat : ℝ) = ⌊x⌋ := clamp_cast (Int.le_floor.2 (by exact_mod_cast hx1))
  have hn : ((max ⌊y⌋ 1).toNat : ℝ) = ⌊y⌋ := clamp_cast (Int.le_floor.2 (by exact_mod_cast hy1))
  have hlower := div_four_lt_floor_mul_floor hx1 hy1
  have hupper := floor_mul_floor_le hx.le hy.le
  refine ⟨_, _, clamp_eq halign _, clamp_eq halign _, one_le_clamp _, one_le_clamp _, ?_, ?_⟩
  · rw [hm, hn]
    exact mul_le_mul_of_nonneg_right (by linarith) (by positivity)
  · rw [hm, hn, ← hprod]
    exact mul_le_mul_of_nonneg_right hupper (by positivity)

/-- Growing: no more than a strip on two sides is added to the least area. -/
theorem grown_fits {maxPixels : ℝ} (halign : 0 < align) (hh : 0 < h) (hw : 0 < w)
    (hratio : h ≤ 200 * w) (hratio' : w ≤ 200 * h) (hmax : 200 * (align * align) ≤ maxPixels) :
    ∃ m n, Fits align (40 * (align * align)) maxPixels
      (max (ceilBy align (h * Real.sqrt (40 * (align * align) / (h * w)))) align,
        max (ceilBy align (w * Real.sqrt (40 * (align * align) / (h * w)))) align) m n := by
  have hmin : 0 < 40 * (align * align) := by positivity
  have hbeta : 0 < Real.sqrt (40 * (align * align) / (h * w)) := Real.sqrt_pos.2 (by positivity)
  have harea := grown_mul_grown hh hw hmin
  generalize Real.sqrt (40 * (align * align) / (h * w)) = beta at hbeta harea ⊢
  have hx : 0 < h * beta / align := by positivity
  have hy : 0 < w * beta / align := by positivity
  have hxy : h * beta / align ≤ 200 * (w * beta / align) := by
    rw [← mul_div_assoc, ← mul_assoc]
    gcongr
  have hyx : w * beta / align ≤ 200 * (h * beta / align) := by
    rw [← mul_div_assoc, ← mul_assoc]
    gcongr
  have hprod : h * beta / align * (w * beta / align) = 40 := by
    rw [div_mul_div_comm, harea]
    field_simp
  unfold ceilBy
  generalize h * beta / align = x at *
  generalize w * beta / align = y at *
  have hsum : x + y ≤ 90 + 7 :=
    add_le_of_ratio hx hy (by norm_num) (by norm_num) hxy hyx (by rw [hprod]; norm_num)
      (by rw [hprod]; norm_num)
  have hm : ((max ⌈x⌉ 1).toNat : ℝ) = ⌈x⌉ := clamp_cast (Int.ceil_pos.2 hx)
  have hn : ((max ⌈y⌉ 1).toNat : ℝ) = ⌈y⌉ := clamp_cast (Int.ceil_pos.2 hy)
  have hlower := le_ceil_mul_ceil hx.le hy.le
  have hupper := ceil_mul_ceil_lt hx hy
  refine ⟨_, _, clamp_eq halign _, clamp_eq halign _, one_le_clamp _, one_le_clamp _, ?_, ?_⟩
  · rw [hm, hn]
    exact mul_le_mul_of_nonneg_right (by linarith) (by positivity)
  · rw [hm, hn]
    refine le_trans (mul_le_mul_of_nonneg_right ?_ (by positivity)) hmax
    linarith

theorem targetSides_spec {maxPixels : ℝ} (halign : 0 < align) (hh : 0 < h) (hw : 0 < w)
    (hratio : h ≤ 200 * w) (hratio' : w ≤ 200 * h) (hmax : 200 * (align * align) ≤ maxPixels) :
    ∃ m n, Fits align (40 * (align * align)) maxPixels
      (targetSides align (40 * (align * align)) maxPixels h w) m n := by
  unfold targetSides
  dsimp only
  split_ifs with hlarge hsmall
  · exact shrunk_fits halign hh hw hratio hratio' hmax
  · exact grown_fits halign hh hw hratio hratio' hmax
  · unfold roundBy at hlarge hsmall ⊢
    rw [clamp_eq halign, clamp_eq halign] at hlarge hsmall
    refine ⟨_, _, clamp_eq halign _, clamp_eq halign _, one_le_clamp _, one_le_clamp _, ?_, ?_⟩
    · rw [mul_mul_mul_comm]
      exact not_lt.1 hsmall
    · rw [mul_mul_mul_comm]
      exact not_lt.1 hlarge

end sides

/-! ## What is accepted -/

structure SourceDimensions (width height : Nat) : Prop where
  width_pos : 0 < width
  height_pos : 0 < height
  ratio : height ≤ 200 * width
  ratio' : width ≤ 200 * height

theorem validateSourceDimensions_ok {width height : Nat}
    (h : validateSourceDimensions width height = .ok ()) : SourceDimensions width height := by
  unfold validateSourceDimensions at h
  simp only [bind_eq_ok, ensure_eq_ok, required_eq_ok] at h
  obtain ⟨_, ⟨hwidth, hheight⟩, _, -, _, -, _, -, hratio⟩ := h
  unfold MAX_ASPECT_RATIO at hratio
  exact ⟨by omega, by omega, by omega, by omega⟩

/-- A geometry in which the greatest aspect ratio fits. -/
structure ModelGeometry (patchSize maxSoftTokens poolingKernelSize : Nat) : Prop where
  patch_pos : 1 ≤ patchSize
  patch_le : patchSize ≤ 256
  pooling_pos : 1 ≤ poolingKernelSize
  pooling_le : poolingKernelSize ≤ 16
  tokens_ge : 200 ≤ maxSoftTokens
  tokens_le : maxSoftTokens ≤ 16384
  pixels : 200 * (patchSize * poolingKernelSize * (patchSize * poolingKernelSize)) ≤
    MAX_PROCESSED_IMAGE_PIXELS

theorem validateModelGeometry_ok {patchSize maxSoftTokens poolingKernelSize : Int}
    (h : validateModelGeometry patchSize MIN_SOFT_TOKENS maxSoftTokens poolingKernelSize = .ok ())
    (htokens : ( MAX_ASPECT_RATIO : Int) ≤ maxSoftTokens)
    (hpixels : MAX_ASPECT_RATIO *
      (patchSize * poolingKernelSize * (patchSize * poolingKernelSize)) ≤
        (MAX_PROCESSED_IMAGE_PIXELS : Int)) :
    ∃ p m k : Nat, patchSize = p ∧ maxSoftTokens = m ∧ poolingKernelSize = k ∧
      ModelGeometry p m k := by
  unfold validateModelGeometry at h
  simp only [bind_eq_ok, ensure_eq_ok] at h
  obtain ⟨_, ⟨hpatch, hpatch'⟩, _, ⟨hpooling, hpooling'⟩, -, -, htokens'⟩ := h
  unfold MAX_PATCH_SIZE at hpatch'
  unfold MAX_POOLING_KERNEL_SIZE at hpooling'
  unfold MAX_SOFT_TOKENS at htokens'
  unfold MAX_ASPECT_RATIO at htokens hpixels
  obtain ⟨p, rfl⟩ := Int.eq_ofNat_of_zero_le (show 0 ≤ patchSize by omega)
  obtain ⟨m, rfl⟩ := Int.eq_ofNat_of_zero_le (show 0 ≤ maxSoftTokens by omega)
  obtain ⟨k, rfl⟩ := Int.eq_ofNat_of_zero_le (show 0 ≤ poolingKernelSize by omega)
  exact ⟨p, m, k, rfl, rfl, rfl, by omega, by omega, by omega, by omega, by omega, by omega,
    by exact_mod_cast hpixels⟩

theorem checkedMulI32_cast {a b : Nat} (h : a * b < 2 ^ 31) :
    checkedMulI32 a b = some ((a * b : Nat) : Int) := by
  unfold checkedMulI32
  rw [← Nat.cast_mul, if_pos (by omega)]

theorem tryFromI32_cast (a : Nat) : tryFromI32 a = some a := by
  unfold tryFromI32
  rw [if_pos (Int.natCast_nonneg a), Int.toNat_natCast]

/-- The target size, in units of the alignment. -/
theorem computeTargetSize_eq {p k tokens width height : Nat} (hgeometry : ModelGeometry p tokens k)
    (haccepted : validateModelGeometry p MIN_SOFT_TOKENS tokens k = .ok ())
    (hsource : validateSourceDimensions width height = .ok ()) :
    ∃ m n : Nat, 1 ≤ m ∧ 1 ≤ n ∧ 40 ≤ m * n ∧ m * n ≤ tokens ∧
      m * n * (p * k * (p * k)) ≤ MAX_PROCESSED_IMAGE_PIXELS ∧
      computeTargetSize height width p MIN_SOFT_TOKENS tokens k =
        .ok (n * (p * k), m * (p * k)) := by
  obtain ⟨hwidth, hheight, hratio, hratio'⟩ := validateSourceDimensions_ok hsource
  obtain ⟨hpatch, hpatch', hpooling, hpooling', htokens, htokens', hpixels⟩ := hgeometry
  have halignPos : 1 ≤ p * k := Nat.mul_pos hpatch hpooling
  have halignLe : p * k ≤ 256 * 16 := Nat.mul_le_mul hpatch' hpooling'
  have hgeometry : validateGeometry height width p MIN_SOFT_TOKENS tokens k = .ok () := by
    unfold validateGeometry
    rw [hsource]
    exact haccepted
  have halign := checkedMulI32_cast (show p * k < 2 ^ 31 by omega)
  generalize p * k = align at halign halignPos halignLe hpixels ⊢
  have harea : align * align ≤ 256 * 16 * (256 * 16) := Nat.mul_le_mul halignLe halignLe
  have hareaPos : 1 ≤ align * align := Nat.mul_pos halignPos halignPos
  have hconfigured : tokens * (align * align) ≤ 16384 * (256 * 16 * (256 * 16)) :=
    Nat.mul_le_mul htokens' harea
  have hconfigured' : 200 * (align * align) ≤ tokens * (align * align) :=
    Nat.mul_le_mul_right _ htokens
  generalize hmaxPixels : min (tokens * (align * align)) MAX_PROCESSED_IMAGE_PIXELS = maxPixels
  have hmax : 200 * (align * align) ≤ maxPixels := hmaxPixels ▸ le_min hconfigured' hpixels
  obtain ⟨m, n, hsides⟩ := @targetSides_spec align height width maxPixels
    (by exact_mod_cast halignPos) (by exact_mod_cast hheight) (by exact_mod_cast hwidth)
    (by exact_mod_cast hratio) (by exact_mod_cast hratio') (by exact_mod_cast hmax)
  have hlower : 40 * (align * align) ≤ m * n * (align * align) := by exact_mod_cast hsides.lower
  have hupper : m * n * (align * align) ≤ maxPixels := by exact_mod_cast hsides.upper
  have htokensUpper : m * n * (align * align) ≤ tokens * (align * align) :=
    hupper.trans (hmaxPixels ▸ min_le_left _ _)
  have hpixelsUpper : m * n * (align * align) ≤ MAX_PROCESSED_IMAGE_PIXELS :=
    hupper.trans (hmaxPixels ▸ min_le_right _ _)
  refine ⟨m, n, hsides.height_pos, hsides.width_pos, Nat.le_of_mul_le_mul_right hlower hareaPos,
    Nat.le_of_mul_le_mul_right htokensUpper hareaPos, hpixelsUpper, ?_⟩
  have heq : targetSides ((align : ℤ) : ℝ)
      ((MIN_SOFT_TOKENS : ℝ) * (((align : ℤ) : ℝ) * ((align : ℤ) : ℝ)))
      ((min (tokens * (align * align)) MAX_PROCESSED_IMAGE_PIXELS : ℕ) : ℝ) height width =
        (((m * align : ℕ) : ℝ), ((n * align : ℕ) : ℝ)) := by
    have hmin : (MIN_SOFT_TOKENS : ℝ) = 40 := by norm_num [MIN_SOFT_TOKENS]
    rw [hmaxPixels, hmin, Int.cast_natCast]
    push_cast
    exact Prod.ext hsides.height hsides.width
  have hproduct : m * align * (n * align) = m * n * (align * align) := Nat.mul_mul_mul_comm _ _ _ _
  have hheightLe : m * align ≤ m * align * (n * align) :=
    Nat.le_mul_of_pos_right _ (Nat.mul_pos hsides.width_pos halignPos)
  have hwidthLe : n * align ≤ m * align * (n * align) :=
    Nat.le_mul_of_pos_left _ (Nat.mul_pos hsides.height_pos halignPos)
  have hheightGe : align ≤ m * align := Nat.le_mul_of_pos_left _ hsides.height_pos
  have hwidthGe : align ≤ n * align := Nat.le_mul_of_pos_left _ hsides.width_pos
  unfold MAX_PROCESSED_IMAGE_PIXELS at hpixelsUpper hpixels
  unfold computeTargetSize
  simp only [bind_eq_ok, required_eq_ok, ensure_eq_ok, pure_eq_ok]
  refine ⟨(), hgeometry, _, halign, _, tryFromI32_cast _, _,
    checkedMul_eq_some.2 ⟨by omega, rfl⟩, _, tryFromI32_cast _, _,
    checkedMul_eq_some.2 ⟨by omega, rfl⟩, 40, rfl, _, checkedMul_eq_some.2 ⟨by omega, rfl⟩, (),
    hpixelsUpper.trans' hlower, ?_⟩
  rw [heq]
  simp only [Nat.floor_natCast, Int.cast_natCast]
  refine ⟨(), ⟨by exact_mod_cast hheightGe, by exact_mod_cast hwidthGe, ?_, ?_⟩, _,
    checkedMul_eq_some.2 ⟨?_, rfl⟩, (), ⟨?_, ?_, ?_, ?_, Nat.mul_mod_left _ _,
      Nat.mul_mod_left _ _⟩, trivial⟩
  · exact_mod_cast (show m * align ≤ 4294967295 by omega)
  · exact_mod_cast (show n * align ≤ 4294967295 by omega)
  · omega
  · omega
  · rw [hproduct]
    exact hlower
  · rw [hproduct, hmaxPixels]
    exact hupper
  · rw [hproduct]
    exact hpixelsUpper

/-! ## What preprocessing gives -/

section preprocess

variable {Reader Picture : Type} {codec : Codec Reader Picture} {cancelled : Checkpoint → Bool}

theorem gives_checkpoint {failure : Error → Prop} (hcancelled : failure .cancelled)
    (place : Checkpoint) : Gives (fun _ => True) failure (checkpoint cancelled place) :=
  (gives_ensure fun _ => hcancelled).imp (fun _ _ => trivial) fun _ => id

theorem tryFromU32_eq {a : Nat} (h : a < 2 ^ 31) : tryFromU32 a = some (a : Int) := if_pos h

theorem gives_rgbToChwArray {failure : Error → Prop} (hcancelled : failure .cancelled)
    {width height : Nat} (pixel : Nat → Nat → Nat → UInt8)
    (hpixels : width * height ≤ MAX_PROCESSED_IMAGE_PIXELS) (hwidth : width < 2 ^ 31)
    (hheight : height < 2 ^ 31) :
    Gives (fun tensor => tensor.shape = [1, 3, (height : Int), (width : Int)]) failure
      (rgbToChwArray cancelled width height pixel) := by
  have hpixels' := hpixels
  unfold MAX_PROCESSED_IMAGE_PIXELS at hpixels'
  unfold rgbToChwArray
  refine Gives.bind_ok (required_eq_ok.2 (checkedMul_eq_some.2 ⟨by omega, rfl⟩)) ?_
  refine Gives.bind (gives_ensure fun hnot => absurd hpixels hnot) fun _ _ => ?_
  refine Gives.bind_ok (required_eq_ok.2 (checkedMul_eq_some.2 ⟨by omega, rfl⟩)) ?_
  refine Gives.bind (gives_forM fun y _ => ?_) fun _ _ => ?_
  · split
    · exact gives_checkpoint hcancelled _
    · exact .ok trivial
  refine Gives.bind_ok (required_eq_ok.2 (tryFromU32_eq hheight)) ?_
  refine Gives.bind_ok (required_eq_ok.2 (tryFromU32_eq hwidth)) ?_
  exact Gives.bind (gives_checkpoint hcancelled _) fun _ _ => .ok rfl

/-- Why preprocessing fails: it was cancelled, or there is no admissible picture. -/
inductive Refusal (codec : Codec Reader Picture) (data : List UInt8) : Error → Prop
  | cancelled : Refusal codec data .cancelled
  | encoded {error : Error} (h : validateEncodedImageLen data.length = .error error) :
    Refusal codec data error
  | inspect {text : String} (h : codec.withGuessedFormat data = .error text) :
    Refusal codec data (.model s!"failed to inspect image: {text}")
  | decode {reader : Reader} {text : String} (h : codec.withGuessedFormat data = .ok reader)
    (hdecode : codec.decode limits reader = .error text) :
    Refusal codec data (.model s!"failed to decode image: {text}")
  | dimensions {reader : Reader} {picture : Picture} {error : Error}
    (h : codec.withGuessedFormat data = .ok reader)
    (hdecode : codec.decode limits reader = .ok picture)
    (hdimensions : validateSourceDimensions (codec.dimensions picture).1
      (codec.dimensions picture).2 = .error error) : Refusal codec data error

/-- A grid of patches that pools into whole soft tokens, within the budget. -/
structure Pooled (patchSize maxSoftTokens poolingKernelSize : Int) (image : ProcessedImage) :
    Prop where
  shape : image.pixelValues.shape = [1, 3, image.patchH * patchSize, image.patchW * patchSize]
  patchH_pos : 0 < image.patchH
  patchW_pos : 0 < image.patchW
  patchH_dvd : poolingKernelSize ∣ image.patchH
  patchW_dvd : poolingKernelSize ∣ image.patchW
  area : image.numSoftTokens * (poolingKernelSize * poolingKernelSize) =
    image.patchH * image.patchW
  tokens : MIN_SOFT_TOKENS ≤ image.numSoftTokens ∧ image.numSoftTokens ≤ maxSoftTokens

/-- Each side is within the area. -/
theorem sides_lt {p k tokens m n : Nat} (hgeometry : ModelGeometry p tokens k) (hm : 1 ≤ m)
    (hn : 1 ≤ n) (hpixels : m * n * (p * k * (p * k)) ≤ MAX_PROCESSED_IMAGE_PIXELS) :
    m * (p * k) < 2 ^ 31 ∧ n * (p * k) < 2 ^ 31 := by
  have halign : 1 ≤ p * k := Nat.mul_pos hgeometry.patch_pos hgeometry.pooling_pos
  have hlt : MAX_PROCESSED_IMAGE_PIXELS < 2 ^ 31 := by decide
  rw [← Nat.mul_mul_mul_comm] at hpixels
  constructor
  · exact lt_of_le_of_lt ((Nat.le_mul_of_pos_right _ (Nat.mul_pos hn halign)).trans hpixels) hlt
  · exact lt_of_le_of_lt ((Nat.le_mul_of_pos_left _ (Nat.mul_pos hm halign)).trans hpixels) hlt

theorem gives_processedImage {failure : Error → Prop} {p k tokens m n : Nat}
    (hgeometry : ModelGeometry p tokens k) (hm : 1 ≤ m) (hn : 1 ≤ n) (hlower : 40 ≤ m * n)
    (hupper : m * n ≤ tokens)
    (hpixels : m * n * (p * k * (p * k)) ≤ MAX_PROCESSED_IMAGE_PIXELS) {tensor : Tensor}
    (hshape : tensor.shape = [1, 3, ((m * (p * k) : Nat) : Int), ((n * (p * k) : Nat) : Int)]) :
    Gives (Pooled p tokens k) failure
      (processedImage tensor (n * (p * k)) (m * (p * k)) p tokens k) := by
  have hp := hgeometry.patch_pos
  have hk := hgeometry.pooling_pos
  obtain ⟨hheight, hwidth⟩ := sides_lt hgeometry hm hn hpixels
  have hpatches : m * k * (n * k) ≤ m * n * (p * k * (p * k)) := by
    rw [Nat.mul_mul_mul_comm m k n k]
    exact Nat.mul_le_mul_left _ (Nat.mul_le_mul (Nat.le_mul_of_pos_left k hp)
      (Nat.le_mul_of_pos_left k hp))
  have hpooling : k * k ≤ 16 * 16 := Nat.mul_le_mul hgeometry.pooling_le hgeometry.pooling_le
  have hcount : checkedMulI32 (m * k : Nat) (n * k : Nat) = some ((m * k * (n * k) : Nat) : Int) :=
    checkedMulI32_cast (lt_of_le_of_lt (hpatches.trans hpixels) (by decide))
  have hpool : checkedMulI32 k k = some ((k * k : Nat) : Int) := checkedMulI32_cast (by omega)
  have hgrid : ∀ a : Nat, ((a * (p * k) : Nat) : Int).tdiv p = ((a * k : Nat) : Int) := by
    intro a
    rw [← Int.ofNat_tdiv, Nat.mul_left_comm, Nat.mul_div_cancel_left _ hp]
  have hsoft : ((m * k * (n * k) : Nat) : Int).tdiv ((k * k : Nat) : Int) = (m * n : Nat) := by
    rw [← Int.ofNat_tdiv, Nat.mul_mul_mul_comm, Nat.mul_div_cancel _ (Nat.mul_pos hk hk)]
  have hbudget : MIN_SOFT_TOKENS ≤ ((m * n : Nat) : Int) ∧ ((m * n : Nat) : Int) ≤ tokens :=
    ⟨Nat.cast_le.2 hlower, Nat.cast_le.2 hupper⟩
  unfold processedImage
  refine Gives.bind_ok (required_eq_ok.2 (tryFromU32_eq hheight)) ?_
  refine Gives.bind_ok (required_eq_ok.2 (tryFromU32_eq hwidth)) ?_
  simp only [hgrid]
  refine Gives.bind_ok (required_eq_ok.2 hcount) ?_
  refine Gives.bind_ok (required_eq_ok.2 hpool) ?_
  simp only [hsoft]
  refine Gives.bind (gives_ensure fun hnot => absurd hbudget hnot) fun _ _ => ?_
  refine .ok ⟨?_, Int.natCast_pos.2 (Nat.mul_pos hm hk), Int.natCast_pos.2 (Nat.mul_pos hn hk),
    Int.natCast_dvd_natCast.2 (Nat.dvd_mul_left k m),
    Int.natCast_dvd_natCast.2 (Nat.dvd_mul_left k n), ?_, hbudget⟩
  · rw [hshape]
    push_cast
    rw [mul_assoc, mul_assoc, mul_comm (k : Int) p]
  · push_cast
    ring

theorem gives_preprocessImageBytes (data : List UInt8) {p k tokens : Nat}
    (hgeometry : ModelGeometry p tokens k)
    (haccepted : validateModelGeometry p MIN_SOFT_TOKENS tokens k = .ok ()) :
    Gives (Pooled p tokens k) (Refusal codec data)
      (preprocessImageBytes codec cancelled data p tokens k) := by
  unfold preprocessImageBytes
  refine Gives.bind (gives_checkpoint .cancelled _) fun _ _ => ?_
  refine Gives.bind ((gives_self _).imp (fun _ => id) fun _ => .encoded) fun _ _ => ?_
  refine Gives.bind_ok haccepted ?_
  refine Gives.bind (gives_mapError fun _ => .inspect) fun reader hreader => ?_
  refine Gives.bind (gives_mapError fun _ => .decode hreader) fun picture hpicture => ?_
  refine Gives.bind (gives_checkpoint .cancelled _) fun _ _ => ?_
  refine Gives.bind ((gives_self _).imp (fun _ => id) fun _ => .dimensions hreader hpicture)
    fun _ hdimensions => ?_
  obtain ⟨m, n, hm, hn, hlower, hupper, hpixels, htarget⟩ :=
    computeTargetSize_eq hgeometry haccepted hdimensions
  refine Gives.bind_ok htarget ?_
  obtain ⟨hheight, hwidth⟩ := sides_lt hgeometry hm hn hpixels
  have harea : n * (p * k) * (m * (p * k)) ≤ MAX_PROCESSED_IMAGE_PIXELS := by
    rw [Nat.mul_mul_mul_comm, Nat.mul_comm n m]
    exact hpixels
  refine Gives.bind (gives_checkpoint .cancelled _) fun _ _ => ?_
  refine Gives.bind (gives_rgbToChwArray .cancelled _ harea hwidth hheight) fun tensor hshape => ?_
  exact gives_processedImage hgeometry hm hn hlower hupper hpixels hshape

end preprocess

/-- In a geometry that the greatest aspect ratio fits, no accepted size is refused: there is a
target size, aligned and within both budgets, and preprocessing fails only where it is cancelled or
has no admissible picture. -/
theorem resize_never_refuses (patchSize maxSoftTokens poolingKernelSize : Int)
    (haccepted : validateModelGeometry patchSize MIN_SOFT_TOKENS maxSoftTokens
      poolingKernelSize = .ok ())
    (htokens : ( MAX_ASPECT_RATIO : Int) ≤ maxSoftTokens)
    (hpixels : MAX_ASPECT_RATIO *
      (patchSize * poolingKernelSize * (patchSize * poolingKernelSize)) ≤
        (MAX_PROCESSED_IMAGE_PIXELS : Int)) :
    (∀ width height : Nat, validateSourceDimensions width height = .ok () →
      ∃ targetW targetH tokens : Nat,
        computeTargetSize height width patchSize MIN_SOFT_TOKENS maxSoftTokens
          poolingKernelSize = .ok (targetW, targetH) ∧
        0 < targetW ∧ 0 < targetH ∧
        patchSize * poolingKernelSize ∣ targetW ∧ patchSize * poolingKernelSize ∣ targetH ∧
        targetW * targetH = tokens *
          (patchSize * poolingKernelSize * (patchSize * poolingKernelSize)) ∧
        MIN_SOFT_TOKENS ≤ tokens ∧ (tokens : Int) ≤ maxSoftTokens ∧
        targetW * targetH ≤ MAX_PROCESSED_IMAGE_PIXELS) ∧
    ∀ {Reader Picture : Type} (codec : Codec Reader Picture) (cancelled : Checkpoint → Bool)
      (data : List UInt8),
      Gives (Pooled patchSize maxSoftTokens poolingKernelSize) (Refusal codec data)
        (preprocessImageBytes codec cancelled data patchSize maxSoftTokens poolingKernelSize) := by
  obtain ⟨p, tokens, k, rfl, rfl, rfl, hgeometry⟩ :=
    validateModelGeometry_ok haccepted htokens hpixels
  constructor
  · intro width height hsource
    obtain ⟨m, n, hm, hn, hlower, hupper, hpixels, htarget⟩ :=
      computeTargetSize_eq hgeometry haccepted hsource
    have halign : 0 < p * k := Nat.mul_pos hgeometry.patch_pos hgeometry.pooling_pos
    have harea : n * (p * k) * (m * (p * k)) = m * n * (p * k * (p * k)) := by
      rw [Nat.mul_mul_mul_comm, Nat.mul_comm n m]
    exact ⟨n * (p * k), m * (p * k), m * n, htarget, Nat.mul_pos hn halign,
      Nat.mul_pos hm halign, by exact_mod_cast Nat.dvd_mul_left _ _,
      by exact_mod_cast Nat.dvd_mul_left _ _, by exact_mod_cast harea, Nat.cast_le.2 hlower,
      Nat.cast_le.2 hupper, by rw [harea]; exact hpixels⟩
  · exact fun codec cancelled data => gives_preprocessImageBytes data hgeometry haccepted

/-- The vision tower's own geometry, at the greatest aspect ratio. -/
theorem resize_longest :
    ∃ targetW targetH tokens : Nat,
      computeTargetSize 40 8000 16 MIN_SOFT_TOKENS 280 3 = .ok (targetW, targetH) ∧
      0 < targetW ∧ 0 < targetH ∧ (16 * 3 : Int) ∣ targetW ∧ (16 * 3 : Int) ∣ targetH ∧
      targetW * targetH = tokens * (16 * 3 * (16 * 3) : Int) ∧
      MIN_SOFT_TOKENS ≤ tokens ∧ (tokens : Int) ≤ 280 ∧
      targetW * targetH ≤ MAX_PROCESSED_IMAGE_PIXELS :=
  (resize_never_refuses 16 280 3 (by decide) (by decide) (by decide)).1 8000 40 (by decide)

end Image

end Emelex
