import Mathlib

/-!
# Whole numbers in single precision

Numbers of single precision have 24 significant bits, so that sums and products of whole numbers
below `2 ^ 24` come out exactly.

* `Single.value?`: the rational number that a number of single precision stands for.
* `Single.IsWhole`: a number stands for an integer below `2 ^ 24`, in normal form.
* `Single.roundWithAccuracy_eq`, `Single.normalize_eq`: rounding leaves such integers alone.
* `Single.unpack_pack`: their normal form survives its encoding.
* **`IsWhole.add`**, **`IsWhole.mul`**: sums and products are exact.
* **`IsWhole.lt_iff`**, `IsWhole.toNat_toUInt16`: comparing and cutting down as for integers.
-/

namespace PixelFlow.Single

open Float.Model (Format UnpackedFloat totalExponent)
open Float.Model.UnpackedFloat (Sign ExtendedMantissa shiftToExponent shiftToTargetExponent
  roundWithAccuracy decreaseExponent roundToInt packComponents unpackMantissa_packComponents
  unpackExponent_packComponents unpackSign_packComponents)

/-- The rational number that a number stands for; none if it is infinite or not a number. -/
def value? (x : Float32) : Option ℚ :=
  match x.toModel.unpack with
  | .notANumber | .infinity _ => none
  | .zero _ => some 0
  | .finite s m e _ => some ((s.apply m : ℤ) * 2 ^ e)

/-! ## The normal form -/

/-- The places between the highest bit of a whole number and the 24th one. -/
def gap (n : Nat) : Nat := 23 - n.log2

theorem log2_le {n : Nat} (hn : n < 2 ^ 24) : n.log2 ≤ 23 := by
  rcases Nat.eq_zero_or_pos n with rfl | pos
  · simp
  · exact Nat.le_of_lt_succ ((Nat.log2_lt pos.ne').2 hn)

theorem log2_add_gap {n : Nat} (hn : n < 2 ^ 24) : n.log2 + gap n = 23 := by
  have := log2_le hn
  unfold gap
  omega

theorem log2_mul_two_pow {n : Nat} (pos : 0 < n) (k : Nat) : (n * 2 ^ k).log2 = n.log2 + k := by
  have nonzero : n * 2 ^ k ≠ 0 := (Nat.mul_pos pos (Nat.two_pow_pos k)).ne'
  refine (Nat.log2_eq_iff nonzero).2 ⟨?_, ?_⟩
  · rw [Nat.pow_add]
    exact Nat.mul_le_mul_right _ (Nat.log2_self_le pos.ne')
  · rw [Nat.add_right_comm, Nat.pow_add]
    exact Nat.mul_lt_mul_of_pos_right Nat.lt_log2_self (Nat.two_pow_pos k)

/-- The whole number of a sign and a magnitude, with 24 significant bits. -/
def whole (s : Sign) (n : Nat) : UnpackedFloat :=
  if h : n = 0 then .zero s
  else .finite s (n * 2 ^ gap n) (-gap n)
    (Nat.mul_pos (Nat.pos_of_ne_zero h) (Nat.two_pow_pos _))

@[simp]
theorem whole_zero (s : Sign) : whole s 0 = .zero s := rfl

theorem whole_pos {s : Sign} {n : Nat} (pos : 0 < n) :
    whole s n = .finite s (n * 2 ^ gap n) (-gap n) (Nat.mul_pos pos (Nat.two_pow_pos _)) :=
  dif_neg pos.ne'

/-- The number stands for an integer below `2 ^ 24`. Zero may bear either sign. -/
structure IsWhole (x : Float32) (z : Int) : Prop where
  small : z.natAbs < 2 ^ 24
  unpack : ∃ s : Sign, s.apply z.natAbs = z ∧ x.toModel.unpack = whole s z.natAbs

/-! ## Rounding -/

theorem targetExponent_eq {n : Nat} (pos : 0 < n) (hn : n < 2 ^ 24) (k : Nat) :
    Format.binary32.targetExponent (totalExponent (n * 2 ^ k) (-k)) = -gap n := by
  have bits := log2_add_gap hn
  have least : Format.binary32.minExponent = -149 := by decide
  have digits : Format.binary32.mantissaBits = 24 := rfl
  rw [Format.targetExponent, totalExponent, log2_mul_two_pow pos, least, digits]
  omega

/-- A right shift that only drops zeros is exact. -/
theorem repeat_shiftRightOne (m k : Nat) :
    k.repeat ExtendedMantissa.shiftRightOne ⟨m * 2 ^ k, false, false⟩ = ⟨m, false, false⟩ := by
  induction k generalizing m with
  | zero => simp [Nat.repeat]
  | succ k ih =>
    rw [Nat.repeat, Nat.pow_succ, Nat.mul_comm (2 ^ k), ← Nat.mul_assoc, ih]
    simp [ExtendedMantissa.shiftRightOne]

theorem shiftToTargetExponent_eq {n k : Nat} (pos : 0 < n) (hn : n < 2 ^ 24) (hk : gap n ≤ k) :
    shiftToTargetExponent Format.binary32 (n * 2 ^ k) (-k) .exact =
      (⟨n * 2 ^ gap n, false, false⟩, -(gap n : Int)) := by
  have shift : ((-gap n : Int) - -k).toNat = k - gap n := by omega
  have split : n * 2 ^ k = n * 2 ^ gap n * 2 ^ (k - gap n) := by
    rw [Nat.mul_assoc, ← Nat.pow_add, Nat.add_sub_cancel' hk]
  rw [shiftToTargetExponent, targetExponent_eq pos hn, shiftToExponent, shift]
  refine Prod.ext ?_ (by simp only; omega)
  show (k - gap n).repeat ExtendedMantissa.shiftRightOne ⟨n * 2 ^ k, false, false⟩ = _
  rw [split, repeat_shiftRightOne]

/-- **Rounding leaves whole numbers below `2 ^ 24` alone.** -/
theorem roundWithAccuracy_eq (s : Sign) {n k : Nat} (pos : 0 < n) (hn : n < 2 ^ 24)
    (hk : gap n ≤ k) :
    roundWithAccuracy Format.binary32 s (n * 2 ^ k) (-k) .exact = whole s n := by
  have kept : (⟨n * 2 ^ gap n, false, false⟩ : ExtendedMantissa).roundedMantissa =
      n * 2 ^ gap n := rfl
  simp only [roundWithAccuracy, shiftToTargetExponent_eq pos hn hk, kept,
    shiftToTargetExponent_eq pos hn (le_refl (gap n))]
  rw [dif_neg (Nat.mul_pos pos (Nat.two_pow_pos _)).ne', whole_pos pos]

theorem round_eq (s : Sign) {n : Nat} (pos : 0 < n) (hn : n < 2 ^ 24) (k : Nat) :
    UnpackedFloat.round Format.binary32 s (n * 2 ^ k) (-k) = whole s n := by
  have shift : ((-k : Int) - -gap n).toNat = gap n - k := by omega
  have widened : n * 2 ^ k * 2 ^ (gap n - k) = n * 2 ^ max k (gap n) := by
    rw [Nat.mul_assoc, ← Nat.pow_add]
    congr 2
    omega
  have exponent : (-k : Int) - (gap n - k : Nat) = -(max k (gap n) : Nat) := by omega
  rw [UnpackedFloat.round, targetExponent_eq pos hn, decreaseExponent, shift]
  simp only [Nat.shiftLeft_eq, widened, exponent]
  exact roundWithAccuracy_eq s pos hn (Nat.le_max_right ..)

/-- The integers below `2 ^ 24` are the whole numbers, and zero is positive. -/
theorem normalize_eq {z : Int} (small : z.natAbs < 2 ^ 24) (k : Nat) :
    ∃ s : Sign, s.apply z.natAbs = z ∧
      UnpackedFloat.normalize Format.binary32 (z * 2 ^ k) (-k) .positive = whole s z.natAbs := by
  have factor : (0 : Int) < 2 ^ k := Int.pow_pos (by decide)
  have magnitude {a : Int} (pos : 0 < a) (same : a.natAbs = z.natAbs) :
      (a * 2 ^ k).toNat = z.natAbs * 2 ^ k := by
    have natural : ((2 : Int) ^ k).toNat = 2 ^ k := Int.toNat_natCast (2 ^ k)
    rw [Int.toNat_mul pos.le factor.le, natural, ← same]
    congr 1
    omega
  rcases lt_trichotomy z 0 with neg | rfl | pos
  · refine ⟨.negative, by simp only [Sign.apply]; omega, ?_⟩
    have below : compare (z * 2 ^ k) 0 = .lt :=
      compare_lt_iff_lt.2 (Int.mul_neg_of_neg_of_pos neg factor)
    rw [UnpackedFloat.normalize, below]
    simp only [← Int.neg_mul, magnitude (Int.neg_pos_of_neg neg) (Int.natAbs_neg z)]
    exact round_eq _ (by omega) small k
  · exact ⟨.positive, rfl, by simp [UnpackedFloat.normalize]⟩
  · refine ⟨.positive, by simp only [Sign.apply]; omega, ?_⟩
    have above : compare (z * 2 ^ k) 0 = .gt := compare_gt_iff_gt.2 (Int.mul_pos pos factor)
    rw [UnpackedFloat.normalize, above]
    simp only [magnitude pos rfl]
    exact round_eq _ (by omega) small k

/-! ## Encoding -/

/-- The highest bit, which an encoding leaves out, is set again. -/
theorem toNat_implicit {m : Nat} (above : 2 ^ 23 ≤ m) (below : m < 2 ^ 24) :
    (1#1 ++ BitVec.ofNat 23 m).toNat = m := by
  rw [BitVec.toNat_append, ← Nat.shiftLeft_add_eq_or_of_lt (BitVec.isLt _), BitVec.toNat_ofNat,
    Nat.shiftLeft_eq]
  simp only [BitVec.toNat_ofNat]
  omega

/-- **The normal form of a whole number survives its encoding.** -/
theorem unpack_pack (s : Sign) {n : Nat} (hn : n < 2 ^ 24) :
    (Float32.Model.pack (whole s n)).unpack = whole s n := by
  rcases Nat.eq_zero_or_pos n with rfl | pos
  · cases s <;> rfl
  have bits := log2_add_gap hn
  have digits : (n * 2 ^ gap n).log2 = 23 := (log2_mul_two_pow pos _).trans bits
  have bias : Format.binary32.exponentBias = 127 := rfl
  have packed : UnpackedFloat.pack Format.binary32 (whole s n) =
      packComponents Format.binary32 s (.ofNat _ (n.log2 + 127)) (.ofNat _ (n * 2 ^ gap n)) := by
    have biased : ((-gap n : Int) + (127 : Nat) + (23 : Nat)).toNat = n.log2 + 127 := by omega
    have wide : 23 + 1 = Format.binary32.mantissaBits := rfl
    rw [whole_pos pos, UnpackedFloat.pack]
    simp only [bias, biased, digits]
    rw [if_neg (by omega), if_pos wide]
  have magnitude : (1#1 ++ BitVec.ofNat 23 (n * 2 ^ gap n)).toNat = n * 2 ^ gap n := by
    have nonzero : n * 2 ^ gap n ≠ 0 := (Nat.mul_pos pos (Nat.two_pow_pos _)).ne'
    obtain ⟨above, below⟩ := (Nat.log2_eq_iff nonzero).1 digits
    exact toNat_implicit above below
  have exponent : (BitVec.ofNat 8 (n.log2 + 127)).toNat = n.log2 + 127 :=
    Nat.mod_eq_of_lt (by omega)
  -- the exponent field lies strictly between its least and its greatest value
  have finite : BitVec.ofNat 8 (n.log2 + 127) ≠ -1#_ := fun same => by
    have := exponent.symm.trans (congrArg BitVec.toNat same)
    simp at this
    omega
  have normal : BitVec.ofNat 8 (n.log2 + 127) ≠ 0#_ := fun same => by
    have := exponent.symm.trans (congrArg BitVec.toNat same)
    simp at this
  have unbiased : ((n.log2 + 127 : Nat) : Int) - ((127 : Nat) + (23 : Nat)) = -gap n := by omega
  show UnpackedFloat.unpack Format.binary32 (UnpackedFloat.pack Format.binary32 (whole s n)) = _
  rw [packed, UnpackedFloat.unpack]
  simp only [unpackMantissa_packComponents, unpackExponent_packComponents,
    unpackSign_packComponents, Sign.ofBitVec_toBitVec, if_neg finite, if_neg normal, magnitude,
    exponent, bias, unbiased, whole_pos pos]

/-! ## Operations on the normal form -/

theorem apply_mul (s : Sign) (a b : Int) : s.apply (a * b) = s.apply a * b := by
  cases s <;> simp [Sign.apply]

theorem apply_sign_mul (s t : Sign) (a b : Int) :
    (s * t).apply (a * b) = s.apply a * t.apply b := by
  cases s <;> cases t
  · exact (neg_mul_neg a b).symm
  · exact (neg_mul a b).symm
  · exact (mul_neg a b).symm
  · rfl

theorem natAbs_apply (s : Sign) (n : Nat) : (s.apply n).natAbs = n := by
  cases s <;> simp [Sign.apply]

theorem decreaseExponent_eq (n : Nat) {k : Nat} (hk : gap n ≤ k) :
    (decreaseExponent (n * 2 ^ gap n) (-gap n) (-k)).1 = n * 2 ^ k := by
  have shift : ((-gap n : Int) - -k).toNat = k - gap n := by omega
  rw [decreaseExponent, shift, Nat.shiftLeft_eq, Nat.mul_assoc, ← Nat.pow_add,
    Nat.add_sub_cancel' hk]

/-- **A sum of whole numbers is exact.** -/
theorem add_whole (s t : Sign) (m n : Nat) (small : (s.apply m + t.apply n).natAbs < 2 ^ 24) :
    ∃ u : Sign, u.apply (s.apply m + t.apply n).natAbs = s.apply m + t.apply n ∧
      UnpackedFloat.add Format.binary32 (whole s m) (whole t n) =
        whole u (s.apply m + t.apply n).natAbs := by
  rcases Nat.eq_zero_or_pos m with rfl | hm <;> rcases Nat.eq_zero_or_pos n with rfl | hn
  · cases s <;> cases t <;> first | exact ⟨.negative, rfl, rfl⟩ | exact ⟨.positive, rfl, rfl⟩
  · have zero : s.apply ((0 : Nat) : Int) = 0 := by cases s <;> rfl
    refine ⟨t, ?_, ?_⟩ <;> rw [zero, Int.zero_add, natAbs_apply]
    rw [whole_zero, whole_pos hn]
    rfl
  · have zero : t.apply ((0 : Nat) : Int) = 0 := by cases t <;> rfl
    refine ⟨s, ?_, ?_⟩ <;> rw [zero, Int.add_zero, natAbs_apply]
    rw [whole_zero, whole_pos hm]
    rfl
  · -- the sum is formed with the lesser exponent, which is that of the smaller number
    have least : min (-gap m : Int) (-gap n) = -(max (gap m) (gap n) : Nat) := by omega
    obtain ⟨u, hu, rounded⟩ := normalize_eq small (max (gap m) (gap n))
    refine ⟨u, hu, ?_⟩
    rw [whole_pos hm, whole_pos hn, UnpackedFloat.add]
    simp only [least, decreaseExponent_eq m (Nat.le_max_left ..),
      decreaseExponent_eq n (Nat.le_max_right ..)]
    rw [← rounded, Int.add_mul, ← apply_mul, ← apply_mul]
    push_cast
    rfl

/-- **A product of whole numbers is exact.** -/
theorem mul_whole (s t : Sign) (m n : Nat) (small : m * n < 2 ^ 24) :
    UnpackedFloat.mul Format.binary32 (whole s m) (whole t n) = whole (s * t) (m * n) := by
  rcases Nat.eq_zero_or_pos m with rfl | hm <;> rcases Nat.eq_zero_or_pos n with rfl | hn
  · rfl
  · rw [whole_zero, whole_pos hn, UnpackedFloat.mul, Nat.zero_mul, whole_zero]
  · rw [whole_zero, whole_pos hm, UnpackedFloat.mul, Nat.mul_zero, whole_zero]
  · have factors : m * 2 ^ gap m * (n * 2 ^ gap n) = m * n * 2 ^ (gap m + gap n) := by
      rw [Nat.pow_add]
      ac_rfl
    have digits : m.log2 + n.log2 ≤ (m * n).log2 := by
      refine (Nat.le_log2 (Nat.mul_pos hm hn).ne').2 ?_
      rw [Nat.pow_add]
      exact Nat.mul_le_mul (Nat.log2_self_le hm.ne') (Nat.log2_self_le hn.ne')
    have reach : gap (m * n) ≤ gap m + gap n := by
      unfold gap
      omega
    rw [whole_pos hm, whole_pos hn, UnpackedFloat.mul, factors,
      ← roundWithAccuracy_eq _ (Nat.mul_pos hm hn) small reach]
    congr 1
    omega

/-- The number with more bits is the greater one. -/
theorem log2_le_log2 {m n : Nat} (hm : 0 < m) (le : m ≤ n) : m.log2 ≤ n.log2 :=
  (Nat.le_log2 (hm.trans_le le).ne').2 ((Nat.log2_self_le hm.ne').trans le)

theorem compare_magnitude_lt {m n : Nat} (hm : 0 < m) (hn : n < 2 ^ 24) (less : m < n) :
    (compare (-gap m : Int) (-gap n)).then (compare (m * 2 ^ gap m) (n * 2 ^ gap n)) = .lt := by
  have := log2_add_gap (less.trans hn)
  have := log2_add_gap hn
  -- the exponents decide unless both numbers have the same number of bits
  rcases (log2_le_log2 hm less.le).lt_or_eq with fewer | same
  · have exponents : (-gap m : Int) < -gap n := by omega
    rw [compare_lt_iff_lt.2 exponents]
    rfl
  · have places : gap m = gap n := by omega
    rw [places, compare_eq_iff_eq.2 rfl, Ordering.eq_then, compare_lt_iff_lt]
    exact Nat.mul_lt_mul_of_pos_right less (Nat.two_pow_pos _)

theorem compare_magnitude {m n : Nat} (hm : 0 < m) (hn : 0 < n) (hm' : m < 2 ^ 24)
    (hn' : n < 2 ^ 24) :
    (compare (-gap m : Int) (-gap n)).then (compare (m * 2 ^ gap m) (n * 2 ^ gap n)) =
      compare m n := by
  rcases lt_trichotomy m n with less | rfl | greater
  · rw [compare_magnitude_lt hm hn' less, compare_lt_iff_lt.2 less]
  · simp
  · have swapped := congrArg Ordering.swap (compare_magnitude_lt hn hm' greater)
    rw [Ordering.swap_then, Std.OrientedOrd.eq_swap.symm, Std.OrientedOrd.eq_swap.symm] at swapped
    rw [swapped, compare_gt_iff_gt.2 greater]
    rfl

/-- **Whole numbers compare as the integers do.** -/
theorem lt_whole (s t : Sign) {m n : Nat} (hm : m < 2 ^ 24) (hn : n < 2 ^ 24) :
    (whole s m).lt (whole t n) = true ↔ s.apply m < t.apply n := by
  rcases Nat.eq_zero_or_pos m with rfl | pm <;> rcases Nat.eq_zero_or_pos n with rfl | pn
  · cases s <;> cases t <;> decide
  · rw [whole_zero, whole_pos pn]
    cases s <;> cases t <;> simp [UnpackedFloat.lt, UnpackedFloat.compare, Sign.apply] <;> omega
  · rw [whole_zero, whole_pos pm]
    cases s <;> cases t <;> simp [UnpackedFloat.lt, UnpackedFloat.compare, Sign.apply] <;> omega
  · have magnitudes := compare_magnitude pm pn hm hn
    rw [whole_pos pm, whole_pos pn, UnpackedFloat.lt]
    cases s <;> cases t <;> simp only [UnpackedFloat.compare, Sign.apply, magnitudes]
    · rw [Option.some_beq_some, beq_iff_eq, Ordering.swap_eq_lt, compare_gt_iff_gt]
      omega
    · simp
      omega
    · simp
    · rw [Option.some_beq_some, beq_iff_eq, compare_lt_iff_lt]
      omega

theorem toInt_whole (least greatest : Int) (s : Sign) {n : Nat} (hn : n < 2 ^ 24) :
    (whole s n).toInt least greatest = s.apply n := by
  rcases Nat.eq_zero_or_pos n with rfl | pos
  · cases s <;> rfl
  have kept : ((-gap n : Int) - 0).toNat = 0 := by omega
  have shift : ((0 : Int) - (-gap n - (0 : Nat))).toNat = gap n := by omega
  rw [whole_pos pos, UnpackedFloat.toInt, roundToInt, decreaseExponent, kept]
  simp only [shift, Nat.shiftLeft_zero, shiftToExponent]
  have dropped := repeat_shiftRightOne n (gap n)
  exact congrArg (fun em => s.apply (ExtendedMantissa.mantissa em)) dropped

/-! ## Whole numbers -/

namespace IsWhole

variable {x y : Float32} {a b z : Int}

/-- What comes out of an operation as a whole number is encoded as one. -/
theorem of_pack {u : UnpackedFloat} (small : z.natAbs < 2 ^ 24)
    (h : ∃ s : Sign, s.apply z.natAbs = z ∧ u = whole s z.natAbs) :
    IsWhole ⟨.pack u⟩ z := by
  obtain ⟨s, sign, rfl⟩ := h
  exact ⟨small, s, sign, unpack_pack s small⟩

theorem value? (h : IsWhole x z) : Single.value? x = some (z : ℚ) := by
  obtain ⟨small, s, sign, unpack⟩ := h
  rw [Single.value?, unpack]
  rcases Nat.eq_zero_or_pos z.natAbs with none | pos
  · rw [none, whole_zero, Int.natAbs_eq_zero.1 none]
    rfl
  · rw [whole_pos pos]
    have scaled : (s.apply (z.natAbs * 2 ^ gap z.natAbs : Nat) : Int) = z * 2 ^ gap z.natAbs := by
      rw [Nat.cast_mul, apply_mul, sign]
      push_cast
      rfl
    simp only [scaled]
    push_cast
    rw [mul_assoc, zpow_neg, zpow_natCast, mul_inv_cancel₀ (pow_ne_zero _ (by decide)), mul_one]

theorem ofUInt8 (n : UInt8) : IsWhole n.toFloat32 n.toNat := by
  have small : (n.toNat : Int).natAbs < 2 ^ 24 := by
    have := n.toNat_lt
    omega
  obtain ⟨s, sign, rounded⟩ := normalize_eq small 0
  refine of_pack small ⟨s, sign, ?_⟩
  rw [← rounded, pow_zero, mul_one]
  rfl

theorem add (hx : IsWhole x a) (hy : IsWhole y b) (small : (a + b).natAbs < 2 ^ 24) :
    IsWhole (x + y) (a + b) := by
  obtain ⟨-, s, sa, ux⟩ := hx
  obtain ⟨-, t, tb, uy⟩ := hy
  have sum := add_whole s t a.natAbs b.natAbs (by rwa [sa, tb])
  rw [sa, tb, ← ux, ← uy] at sum
  exact of_pack small sum

theorem mul (hx : IsWhole x a) (hy : IsWhole y b) (small : (a * b).natAbs < 2 ^ 24) :
    IsWhole (x * y) (a * b) := by
  obtain ⟨-, s, sa, ux⟩ := hx
  obtain ⟨-, t, tb, uy⟩ := hy
  have magnitude : (a * b).natAbs = a.natAbs * b.natAbs := Int.natAbs_mul a b
  refine of_pack small ⟨s * t, ?_, ?_⟩
  · rw [magnitude, Nat.cast_mul, apply_sign_mul, sa, tb]
  · rw [ux, uy, mul_whole s t _ _ (magnitude ▸ small), magnitude]

theorem lt_iff (hx : IsWhole x a) (hy : IsWhole y b) : x < y ↔ a < b := by
  obtain ⟨smallX, s, sa, ux⟩ := hx
  obtain ⟨smallY, t, tb, uy⟩ := hy
  have compared := lt_whole s t smallX smallY
  rw [sa, tb, ← ux, ← uy] at compared
  rw [← compared]
  show decide (x.toModel.unpack.lt y.toModel.unpack = true) = true ↔ _
  rw [decide_eq_true_iff]

theorem toNat_toUInt16 (hx : IsWhole x z) (nonneg : 0 ≤ z) (below : z < 2 ^ 16) :
    x.toUInt16.toNat = z.toNat := by
  obtain ⟨small, s, sign, ux⟩ := hx
  have whole := toInt_whole 0 (UInt16.size - 1) s small
  rw [sign, ← ux] at whole
  show (UInt16.ofNatClamp (x.toModel.unpack.toInt 0 (UInt16.size - 1)).toNat).toNat = _
  have fits : z.toNat < UInt16.size := by
    rw [show UInt16.size = 2 ^ 16 from rfl]
    omega
  rw [whole, UInt16.ofNatClamp_eq_ofNat _ fits, UInt16.toNat_ofNat_of_lt' fits]

end IsWhole

end PixelFlow.Single
