import PixelFlow.Raster.Convolution
import PixelFlow.Proofs.Raster.Single
import Mathlib.Data.List.Forall2

/-!
# Sharpening in integers

The weights of the sharpening kernel are whole numbers and its samples are bytes, so that single
precision computes with integers only, and every place that the kernel reads is in the raster.

* `Raster.reach`, `Raster.guardedTaps`: a kernel's places in machine integers, read with a check.
* `Raster.guardedTaps_eq`: the check never fails, whatever the size of the raster.
* `Raster.stages`: all the numbers that come up while samples are added.
* **`Raster.isWhole_stages`**: with whole weights of small size they all are integers.
* **`Raster.sharpen_exact`**: sharpening is the cross filter of the integers, cut down to bytes.
-/

namespace PixelFlow.Raster

open Single

/-! ## Places -/

/-- The coordinate that the row or column `i` of a kernel reads around `x`, in machine integers: a
signed sum of 64 bits, kept between zero and the last coordinate of the side. -/
def reach (side x i : Nat) : UInt32 :=
  let last := Int64.ofNat (side - 1)
  let sum := Int64.ofNat x + Int64.ofNat i - 1
  (if sum < 0 then 0 else if last < sum then last else sum).toUInt64.toUInt32

/-- The coordinate is the nearest one of the side: no sum overflows. -/
theorem toNat_reach {side x i : Nat} (hside : side < 2 ^ 32) (hx : x < side) (hi : i < 2 ^ 32) :
    (reach side x i).toNat = min ((x : Int) + i - 1).toNat (side - 1) := by
  have exact {n : Nat} (h : n < 2 ^ 33) : (Int64.ofNat n).toInt = n :=
    Int64.toInt_ofNat_of_lt (by omega)
  have sum : (Int64.ofNat x + Int64.ofNat i - 1).toInt = (x : Int) + i - 1 := by
    have one : (1 : Int64).toInt = 1 := by decide
    have inner : (Int64.ofNat x + Int64.ofNat i).toInt = (x : Int) + i := by
      rw [Int64.toInt_add, exact (by omega), exact (by omega),
        Int.bmod_eq_of_le_mul_two (by omega) (by omega)]
    rw [Int64.toInt_sub, inner, one, Int.bmod_eq_of_le_mul_two (by omega) (by omega)]
  have cut {v : Int64} {n : Nat} (h : v.toInt = n) (hn : n < 2 ^ 32) :
      v.toUInt64.toUInt32.toNat = n := by
    have natural : 0 ≤ v := Int64.le_iff_toInt_le.2 (by rw [h]; exact Int.natCast_nonneg n)
    rw [UInt64.toNat_toUInt32, Int64.toNat_toUInt64_of_le natural, ← Int64.toNat_toInt, h,
      Int.toNat_natCast, Nat.mod_eq_of_lt hn]
  have zero : (0 : Int64).toInt = 0 := rfl
  rw [reach]
  simp only [Int64.lt_iff_toInt_lt, sum, zero, exact (n := side - 1) (by omega)]
  split
  · rw [cut (n := 0) zero (by omega)]
    omega
  split
  · rw [cut (n := side - 1) (exact (by omega)) (by omega)]
    omega
  · rw [cut (n := x + i - 1) (by omega) (by omega)]
    omega

/-- The pixel at a place, if it is one of the raster. -/
def pixel? (r : Raster) (x y : UInt32) : Option Pixel :=
  if x.toNat < r.width ∧ y.toNat < r.height then some (r.pixel x.toNat y.toNat) else none

/-- The samples under a kernel and their weights, as far as the places that the kernel reads in
machine integers are in the raster. -/
def guardedTaps {α : Type} (kernel : List (List α)) (r : Raster) (channel : Pixel → UInt8)
    (x y : Nat) : List (Option (UInt8 × α)) :=
  kernel.zipIdx.flatMap fun (row, j) => row.zipIdx.map fun (w, i) =>
    (r.pixel? (reach r.width x i) (reach r.height y j)).map fun p => (channel p, w)

/-- The sides fit 32 bits. -/
structure Fits (r : Raster) : Prop where
  width : r.width < 2 ^ 32
  height : r.height < 2 ^ 32

theorem pixel?_reach {r : Raster} (fits : r.Fits) {x y i j : Nat} (hx : x < r.width)
    (hy : y < r.height) (hi : i < 2 ^ 32) (hj : j < 2 ^ 32) :
    r.pixel? (reach r.width x i) (reach r.height y j) =
      some (r.clamped ((x : Int) + i - 1) ((y : Int) + j - 1)) := by
  rw [pixel?, toNat_reach fits.width hx hi, toNat_reach fits.height hy hj, if_pos (by omega)]
  rfl

/-- **A kernel of three rows and columns reads only pixels of the raster.** -/
theorem guardedTaps_eq {α : Type} {kernel : List (List α)} (rows : kernel.length = 3)
    (columns : ∀ row ∈ kernel, row.length = 3) {r : Raster} (fits : r.Fits)
    (channel : Pixel → UInt8) {x y : Nat} (hx : x < r.width) (hy : y < r.height) :
    guardedTaps kernel r channel x y = (taps kernel r channel x y).map some := by
  rw [guardedTaps, taps, List.map_flatMap]
  refine List.flatMap_congr fun (row, j) hrow => ?_
  rw [List.map_map]
  refine List.map_congr_left fun (w, i) hw => ?_
  have hj : j < 3 := rows ▸ (List.mem_zipIdx' hrow).1
  have hi : i < 3 := columns row (List.fst_mem_of_mem_zipIdx hrow) ▸ (List.mem_zipIdx' hw).1
  simp only [pixel?_reach fits hx hy (i := i) (j := j) (by omega) (by omega)]
  rfl

/-! ## Sums -/

/-- The numbers that come up while samples are added to a sum: the sum so far, the next sample, and
the sample times its weight. -/
def stages (sum : Float32) : List (UInt8 × Float32) → List Float32
  | [] => [sum]
  | tap :: rest => sum :: tap.1.toFloat32 :: tap.1.toFloat32 * tap.2 :: stages (tapped sum tap) rest

/-- The sum of samples times weights, in integers. -/
def total (taps : List (UInt8 × Int)) : Int := (taps.map fun (s, v) => s.toNat * v).sum

/-- How far a sum of samples times weights can be from zero. -/
def span (taps : List (UInt8 × Int)) : Nat := (taps.map fun (_, v) => 255 * v.natAbs).sum

/-- The same samples, with weights that stand for the same integers. -/
def Weighs : List (UInt8 × Float32) → List (UInt8 × Int) → Prop :=
  List.Forall₂ fun t u => t.1 = u.1 ∧ IsWhole t.2 u.2

theorem natAbs_tap_le (s : UInt8) (v : Int) : ((s.toNat : Int) * v).natAbs ≤ 255 * v.natAbs := by
  rw [Int.natAbs_mul, Int.natAbs_natCast]
  exact Nat.mul_le_mul_right _ (Nat.le_of_lt_succ s.toNat_lt)

/-- **Samples with whole weights add up in integers,** as long as the weights are so small that no
sum can reach `2 ^ 24`. -/
theorem isWhole_stages {taps : List (UInt8 × Float32)} {whole : List (UInt8 × Int)}
    (weighs : Weighs taps whole) {sum : Float32} {z : Int} (hz : IsWhole sum z)
    (room : z.natAbs + span whole < 2 ^ 24) :
    (∀ v ∈ stages sum taps, ∃ a, IsWhole v a) ∧
      IsWhole (taps.foldl tapped sum) (z + total whole) := by
  induction weighs generalizing sum z with
  | nil => simpa [stages, total] using ⟨⟨z, hz⟩, hz⟩
  | @cons t u taps whole same _ ih =>
    obtain ⟨s, w⟩ := t
    obtain ⟨_, v⟩ := u
    obtain ⟨rfl, hw⟩ := same
    have bound := natAbs_tap_le s v
    -- what the first sample takes of the room is what its product can add to the sum
    have room : z.natAbs + (255 * v.natAbs + span whole) < 2 ^ 24 := room
    have product : IsWhole (s.toFloat32 * w) (s.toNat * v) :=
      (IsWhole.ofUInt8 s).mul hw (by omega)
    have next : IsWhole (tapped sum (s, w)) (z + s.toNat * v) := hz.add product (by omega)
    obtain ⟨before, after⟩ := ih next (by omega)
    refine ⟨?_, ?_⟩
    · intro f hf
      simp only [stages, List.mem_cons] at hf
      rcases hf with rfl | rfl | rfl | hf
      · exact ⟨z, hz⟩
      · exact ⟨s.toNat, .ofUInt8 s⟩
      · exact ⟨s.toNat * v, product⟩
      · exact before f hf
    · rw [Int.add_assoc] at after
      exact after

/-! ## Bytes -/

/-- An integer cut down to a byte. -/
def byte (z : Int) : UInt8 := .ofNat (min (max z 0) 255).toNat

theorem byte_toNat (b : UInt8) : byte b.toNat = b := by
  have := b.toNat_lt
  have kept : (min (max (b.toNat : Int) 0) 255).toNat = b.toNat := by omega
  rw [byte, kept, UInt8.ofNat_toNat]

theorem isWhole_zero : IsWhole 0 0 := ⟨by decide, .positive, rfl, rfl⟩

/-- **Rounding leaves an integer as it is, up to the ends of the bytes.** -/
theorem nearestByte_eq {x : Float32} {z : Int} (h : IsWhole x z) : nearestByte x = byte z := by
  have greatest : IsWhole 255 255 := ⟨by decide, .positive, rfl, rfl⟩
  simp only [nearestByte, greatest.lt_iff h, isWhole_zero.lt_iff h, byte]
  split
  · have cut : (min (max z 0) 255).toNat = 255 := by omega
    rw [cut]
    rfl
  split
  · have doubled : (x + x).toUInt16.toNat = (z + z).toNat :=
      (h.add h (by omega)).toNat_toUInt16 (by omega) (by omega)
    rw [doubled]
    congr 1
    omega
  · have cut : (min (max z 0) 255).toNat = 0 := by omega
    rw [cut]
    rfl

/-! ## The cross filter -/

/-- The weights of the sharpening kernel as integers. -/
def crossKernel : List (List Int) := [[0, -1, 0], [-1, 5, -1], [0, -1, 0]]

/-- Five times a sample less its four neighbours. Beyond the edge the nearest sample stands in. -/
def cross (r : Raster) (channel : Pixel → UInt8) (x y : Int) : Int :=
  let p (x y : Int) : Int := (channel (r.clamped x y)).toNat
  5 * p x y - p (x - 1) y - p (x + 1) y - p x (y - 1) - p x (y + 1)

theorem total_crossKernel (r : Raster) (channel : Pixel → UInt8) (x y : Nat) :
    total (taps crossKernel r channel x y) = r.cross channel x y := by
  have middle (n : Nat) : (n : Int) + (1 : Nat) - 1 = n := by omega
  have next (n : Nat) : (n : Int) + (2 : Nat) - 1 = n + 1 := by omega
  have previous (n : Nat) : (n : Int) + (0 : Nat) - 1 = n - 1 := by omega
  simp only [total, taps, crossKernel, cross, List.zipIdx, List.flatMap_cons, List.map_cons,
    List.flatMap_nil, List.map_nil, List.cons_append, List.nil_append, List.sum_cons, List.sum_nil,
    Nat.zero_add, Nat.reduceAdd, middle, next, previous]
  omega

theorem weighs_crossKernel (r : Raster) (channel : Pixel → UInt8) (x y : Nat) :
    Weighs (taps sharpenKernel r channel x y) (taps crossKernel r channel x y) := by
  have less : IsWhole (-1) (-1) := ⟨by decide, .negative, rfl, rfl⟩
  have five : IsWhole 5 5 := ⟨by decide, .positive, rfl, rfl⟩
  exact .cons ⟨rfl, isWhole_zero⟩ <| .cons ⟨rfl, less⟩ <| .cons ⟨rfl, isWhole_zero⟩ <|
    .cons ⟨rfl, less⟩ <| .cons ⟨rfl, five⟩ <| .cons ⟨rfl, less⟩ <|
    .cons ⟨rfl, isWhole_zero⟩ <| .cons ⟨rfl, less⟩ <| .cons ⟨rfl, isWhole_zero⟩ .nil

theorem span_crossKernel (r : Raster) (channel : Pixel → UInt8) (x y : Nat) :
    span (taps crossKernel r channel x y) = 255 * 9 := by
  simp [span, taps, crossKernel, List.zipIdx]

/-- The sharpening sums are those of the cross filter, and so is all that comes up on the way. -/
theorem isWhole_convolved (r : Raster) (channel : Pixel → UInt8) (x y : Nat) :
    (∀ v ∈ stages 0 (taps sharpenKernel r channel x y), ∃ a, IsWhole v a) ∧
      IsWhole (convolved sharpenKernel r channel x y) (r.cross channel x y) := by
  have sums := isWhole_stages (weighs_crossKernel r channel x y) isWhole_zero
    (by rw [span_crossKernel]; decide)
  rwa [total_crossKernel, Int.zero_add] at sums

/-- Where the samples of a channel are all the same, the cross filter leaves them. -/
theorem cross_of_uniform {r : Raster} {channel : Pixel → UInt8} {c : UInt8}
    (uniform : ∀ x < r.width, ∀ y < r.height, channel (r.pixel x y) = c) {x y : Nat}
    (hx : x < r.width) (hy : y < r.height) : r.cross channel x y = c.toNat := by
  have same (a b : Int) : channel (r.clamped a b) = c :=
    uniform _ (by omega) _ (by omega)
  simp only [cross, same]
  omega

/-- The pixel at the place of an index is the one that is stored there. -/
theorem pixel_of_index (r : Raster) {k : Nat} (hk : k < r.pixels.size) :
    r.pixel (k % r.width) (k / r.width) = r.pixels[k] := by
  have inside : k < r.width * r.height := r.size_pixels ▸ hk
  have pos : 0 < r.width := Nat.pos_of_ne_zero fun h => by simp [h] at inside
  have place : k / r.width * r.width + k % r.width = k := Nat.div_add_mod' k r.width
  rw [pixel, dif_pos ⟨Nat.mod_lt _ pos, Nat.div_lt_of_lt_mul inside⟩]
  simp only [place]

/-- A raster is determined by its sides and the pixels at its places. -/
theorem eq_of_pixel {r s : Raster} (width : r.width = s.width) (height : r.height = s.height)
    (same : ∀ x < s.width, ∀ y < s.height, r.pixel x y = s.pixel x y) : r = s := by
  have sizes : r.pixels.size = s.pixels.size := by
    rw [r.size_pixels, s.size_pixels, width, height]
  have pixels : r.pixels = s.pixels := by
    refine Array.ext sizes fun k hk hk' => ?_
    have inside : k < s.width * s.height := s.size_pixels ▸ hk'
    have pos : 0 < s.width := Nat.pos_of_ne_zero fun h => by simp [h] at inside
    rw [← r.pixel_of_index hk, ← s.pixel_of_index hk', width]
    exact same _ (Nat.mod_lt _ pos) _ (Nat.div_lt_of_lt_mul inside)
  obtain ⟨_, _, _, _⟩ := r
  obtain ⟨_, _, _, _⟩ := s
  rw [mk.injEq]
  exact ⟨width, height, pixels⟩

/-- **Sharpening is the cross filter of the integers.** On a raster of any size, empty and narrow
ones among them, it reads only pixels of the raster, all numbers that come up in single precision
are integers below `2 ^ 24`, and each color channel becomes five times its sample less the four
neighbours, cut down to a byte, while the alpha channel stays. A raster whose color channels are
uniform stays as it is. -/
theorem sharpen_exact (r : Raster) (fits : r.Fits) :
    r.sharpen.width = r.width ∧ r.sharpen.height = r.height ∧
    (∀ x < r.width, ∀ y < r.height,
      (∀ channel : Pixel → UInt8,
        guardedTaps sharpenKernel r channel x y = (taps sharpenKernel r channel x y).map some ∧
        (∀ v ∈ stages 0 (taps sharpenKernel r channel x y),
          ∃ z : Int, z.natAbs < 2 ^ 24 ∧ value? v = some (z : ℚ)) ∧
        value? (convolved sharpenKernel r channel x y) = some (r.cross channel x y : ℚ)) ∧
      r.sharpen.pixel x y =
        ⟨byte (r.cross (·.red) x y), byte (r.cross (·.green) x y), byte (r.cross (·.blue) x y),
          (r.pixel x y).alpha⟩) ∧
    ((∃ red green blue, ∀ x < r.width, ∀ y < r.height,
        (r.pixel x y).red = red ∧ (r.pixel x y).green = green ∧ (r.pixel x y).blue = blue) →
      r.sharpen = r) := by
  have pixels (x) (hx : x < r.width) (y) (hy : y < r.height) : r.sharpen.pixel x y =
      ⟨byte (r.cross (·.red) x y), byte (r.cross (·.green) x y), byte (r.cross (·.blue) x y),
        (r.pixel x y).alpha⟩ := by
    rw [sharpen, convolve3x3, pixel_ofFn _ hx hy]
    simp only [nearestByte_eq (isWhole_convolved r _ x y).2]
  refine ⟨rfl, rfl, fun x hx y hy => ⟨fun channel => ⟨?_, ?_, ?_⟩, pixels x hx y hy⟩, ?_⟩
  · exact guardedTaps_eq rfl (by decide) fits channel hx hy
  · intro v hv
    obtain ⟨z, hz⟩ := (isWhole_convolved r channel x y).1 v hv
    exact ⟨z, hz.small, hz.value?⟩
  · exact (isWhole_convolved r channel x y).2.value?
  · rintro ⟨red, green, blue, uniform⟩
    refine eq_of_pixel rfl rfl fun x hx y hy => ?_
    have kept (channel : Pixel → UInt8) {c : UInt8}
        (same : ∀ x < r.width, ∀ y < r.height, channel (r.pixel x y) = c) :
        byte (r.cross channel x y) = channel (r.pixel x y) := by
      rw [cross_of_uniform same hx hy, byte_toNat, same x hx y hy]
    rw [pixels x hx y hy, kept (·.red) fun x hx y hy => (uniform x hx y hy).1,
      kept (·.green) fun x hx y hy => (uniform x hx y hy).2.1,
      kept (·.blue) fun x hx y hy => (uniform x hx y hy).2.2]

/-- A raster of three columns and two rows, with steps in red and green. -/
def steps : Raster :=
  ofFn 3 2 fun x y => ⟨.ofNat (40 * x), .ofNat (200 * y), 7, .ofNat (x + y)⟩

/-- In its lower right corner the step in green is too high for a byte. -/
theorem sharpen_exact_corner : steps.Fits ∧ steps.sharpen.pixel 2 1 = ⟨120, 255, 7, 3⟩ := by
  have fits : steps.Fits := ⟨by decide, by decide⟩
  refine ⟨fits, ?_⟩
  rw [((sharpen_exact steps fits).2.2.1 2 (by decide) 1 (by decide)).2]
  decide

end PixelFlow.Raster
