import PixelFlow.Number
import Mathlib.Data.Nat.Bitwise

/-!
# Comparing numbers

Comparisons go through the values that the bits of numbers stand for. An infinite number lies beyond
every finite one, and what is not a number lies nowhere.

* `Number.toNat_unpackExponent`: the exponent bits that a comparison sees.
* `Number.seen_of_not_isFinite`: what a comparison makes of a number that is not finite.
* **`Number.isFinite_of_le`**: what lies between two finite numbers is finite.
* `Number.round?_isSome`: finite numbers are those that can be rounded.
-/

namespace PixelFlow.Number

open Float.Model (Format UnpackedFloat)

/-- The value that comparisons see. -/
def seen (x : Number) : UnpackedFloat := x.toFloat.toModel.unpack

theorem le_eq (x y : Number) : x.le y = x.seen.le y.seen := by
  show decide (decide (x.seen.le y.seen = true) = true) = x.seen.le y.seen
  rw [Bool.decide_eq_true, Bool.decide_eq_true]

theorem toNat_unpackExponent (x : Number) :
    (@UnpackedFloat.unpackExponent Format.binary64 x.bits.toBitVec).toNat =
      x.exponentBits := by
  rw [exponentBits, UInt64.toNat_and, UInt64.toNat_shiftRight]
  show (x.bits.toBitVec.toNat >>> 52) % 2 ^ 11 = _
  exact (Nat.and_two_pow_sub_one_eq_mod _ 11).symm

/-- A number that is not finite is seen as infinite or as no number. -/
theorem seen_of_not_isFinite {x : Number} (h : x.isFinite = false) :
    x.seen = .notANumber ∨ ∃ s, x.seen = .infinity s := by
  have ones : @UnpackedFloat.unpackExponent Format.binary64 x.bits.toBitVec = -1#_ := by
    refine BitVec.eq_of_toNat_eq (x.toNat_unpackExponent.trans ?_)
    simpa [isFinite] using h
  have read : UnpackedFloat.unpack Format.binary64 x.bits.toBitVec = .notANumber ∨
      ∃ s, UnpackedFloat.unpack Format.binary64 x.bits.toBitVec = .infinity s := by
    delta UnpackedFloat.unpack
    dsimp only
    rw [if_pos ones]
    split
    · exact .inr ⟨_, rfl⟩
    · exact .inl rfl
  have packed : x.seen = UnpackedFloat.unpack Format.binary64 (UnpackedFloat.pack Format.binary64
      (UnpackedFloat.unpack Format.binary64 x.bits.toBitVec)) := rfl
  rcases read with e | ⟨s, e⟩
  · exact .inl (by rw [packed, e]; rfl)
  · exact .inr ⟨s, by rw [packed, e]; cases s <;> rfl⟩

/-- Numbers that are seen as zero or as a finite value. -/
def Bounded (x : Number) : Prop :=
  (∃ s, x.seen = .zero s) ∨ ∃ s m e h, x.seen = .finite s m e h

/-- **What lies between two bounds is finite.** -/
theorem isFinite_of_le {x least greatest : Number} (hl : least.Bounded) (hg : greatest.Bounded)
    (above : least.le x = true) (below : x.le greatest = true) : x.isFinite = true := by
  by_contra h
  rw [le_eq] at above below
  rcases seen_of_not_isFinite (by simpa using h) with e | ⟨s, e⟩
  · rw [e] at below
    cases below
  · rw [e] at above below
    cases s with
    | positive =>
      rcases hg with ⟨t, e⟩ | ⟨t, m, k, h, e⟩ <;> rw [e] at below <;> cases t <;> cases below
    | negative =>
      rcases hl with ⟨t, e⟩ | ⟨t, m, k, h, e⟩ <;> rw [e] at above <;> cases t <;> cases above

/-- Finite numbers are those that can be rounded. -/
theorem round?_isSome (x : Number) : x.round?.isSome = x.isFinite := by
  rw [round?, form]
  cases x.isFinite with
  | true =>
    rw [if_pos rfl]
    by_cases h : x.exponentBits = 0
    · rw [if_pos h]; rfl
    · rw [if_neg h]; rfl
  | false =>
    rw [if_neg Bool.false_ne_true]
    by_cases h : x.fractionBits = 0
    · rw [if_pos h]; rfl
    · rw [if_neg h]; rfl

end PixelFlow.Number
