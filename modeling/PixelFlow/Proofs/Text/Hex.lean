import PixelFlow.Text.Hex
import Mathlib.Algebra.Group.Nat.Defs
import Mathlib.Data.List.Induction

/-!
# Hexadecimal digits, read and written

The digits of a number are read as that number as long as there are enough of them, and what is read
is written with the same digits, up to their case.

* `hexDigit?_eq_some_iff`: the characters that are digits.
* **`hexValue?_map_hexDigits`**: reading what is written, in either case.
* **`map_toUpper_hexDigits`**: writing what is read; `lt_of_hexValue?`: how great it is.
-/

namespace PixelFlow.Text

variable {c d : Char} {cs : List Char} {n v : Nat}

/-! ## Single digits -/

theorem toNat_lt_of_hexDigit? (h : hexDigit? c = some v) : c.toNat < 128 := by
  have bound {z : Char} (hz : z.toNat < 128) (hc : c ≤ z) : c.toNat < 128 :=
    Nat.lt_of_le_of_lt (UInt32.le_iff_toNat_le.1 hc) hz
  unfold hexDigit? at h
  split at h
  · next hc => exact bound (by decide) hc.2
  · split at h
    · next hc => exact bound (by decide) hc.2
    · split at h
      · next hc => exact bound (by decide) hc.2
      · cases h

/-- **A digit is that of its value, in either case.** -/
theorem hexDigit?_eq_some_iff :
    hexDigit? c = some v ↔ v < 16 ∧ (c = Nat.digitChar v ∨ c = (Nat.digitChar v).toUpper) := by
  constructor
  · intro h
    have ascii : ∀ n < 128, ∀ v ∈ hexDigit? (Char.ofNat n), v < 16 ∧
        (Char.ofNat n = Nat.digitChar v ∨ Char.ofNat n = (Nat.digitChar v).toUpper) := by
      decide +kernel
    have := ascii c.toNat (toNat_lt_of_hexDigit? h)
    rw [Char.ofNat_toNat] at this
    exact this v h
  · have digits : ∀ v < 16, hexDigit? (Nat.digitChar v) = some v ∧
        hexDigit? (Nat.digitChar v).toUpper = some v := by
      decide +kernel
    rintro ⟨hv, rfl | rfl⟩
    · exact (digits v hv).1
    · exact (digits v hv).2

theorem lt_of_hexDigit? (h : hexDigit? c = some v) : v < 16 := (hexDigit?_eq_some_iff.1 h).1

/-- Two spellings of a digit are the same in upper case. -/
theorem toUpper_digitChar (h : hexDigit? c = some v) : (Nat.digitChar v).toUpper = c.toUpper := by
  have twice : ∀ v < 16, (Nat.digitChar v).toUpper = (Nat.digitChar v).toUpper.toUpper := by decide
  obtain ⟨hv, rfl | rfl⟩ := hexDigit?_eq_some_iff.1 h
  · rfl
  · exact twice v hv

/-! ## Many digits -/

theorem hexValue?_concat (cs : List Char) (c : Char) : hexValue? (cs ++ [c]) =
    (hexValue? cs).bind fun n => (hexDigit? c).map (16 * n + ·) := by
  rw [hexValue?, List.foldlM_append]
  refine congrArg (Option.bind (hexValue? cs)) (funext fun n => ?_)
  simp

theorem hexValue?_pair : hexValue? [c, d] =
    (hexDigit? c).bind fun a => (hexDigit? d).map (16 * a + ·) := by
  have single : hexValue? [c] = hexDigit? c := by
    rw [← List.nil_append [c], hexValue?_concat]
    simp [hexValue?]
  rw [← single, ← hexValue?_concat]
  rfl

/-- **The digits of a number are read as the number**, up to what there is no digit for. -/
theorem hexValue?_map_hexDigits {f : Char → Char}
    (hf : ∀ v < 16, hexDigit? (f (Nat.digitChar v)) = some v) (w n : Nat) :
    hexValue? ((hexDigits w n).map f) = some (n % 16 ^ w) := by
  induction w generalizing n with
  | zero => simp [hexDigits, hexValue?, Nat.mod_one]
  | succ w ih =>
    rw [hexDigits, List.map_append, List.map_singleton, hexValue?_concat, ih, Option.bind_some,
      hf _ (Nat.mod_lt n (by decide)), Option.map_some, Nat.pow_succ, Nat.mul_comm (16 ^ w),
      Nat.mod_mul, Nat.add_comm]

/-- **What is read is written with the same digits**, up to their case. -/
theorem map_toUpper_hexDigits (h : hexValue? cs = some n) :
    (hexDigits cs.length n).map Char.toUpper = cs.map Char.toUpper := by
  induction cs using List.reverseRecOn generalizing n with
  | nil => rfl
  | append_singleton cs c ih =>
    rw [hexValue?_concat] at h
    obtain ⟨m, hm, h⟩ := Option.bind_eq_some_iff.1 h
    obtain ⟨v, hv, rfl⟩ := Option.map_eq_some_iff.1 h
    have := lt_of_hexDigit? hv
    rw [List.length_append, List.length_singleton, hexDigits, show (16 * m + v) / 16 = m by omega,
      show (16 * m + v) % 16 = v by omega, List.map_append, List.map_append, ih hm,
      List.map_singleton, List.map_singleton, toUpper_digitChar hv]

theorem lt_of_hexValue? (h : hexValue? cs = some n) : n < 16 ^ cs.length := by
  induction cs using List.reverseRecOn generalizing n with
  | nil =>
    obtain rfl := Option.some.inj h
    decide
  | append_singleton cs c ih =>
    rw [hexValue?_concat] at h
    obtain ⟨m, hm, h⟩ := Option.bind_eq_some_iff.1 h
    obtain ⟨v, hv, rfl⟩ := Option.map_eq_some_iff.1 h
    have := ih hm
    have := lt_of_hexDigit? hv
    rw [List.length_append, List.length_singleton, Nat.pow_succ]
    omega

end PixelFlow.Text
