/-!
# Rounding a quotient

`roundDiv` rounds `num / den` to a neighbouring whole number. It is exact, so that texts of numbers
depend on no floating-point operation.

* `twoPow`, `tenPow`: the scales of binary and of decimal places.
* `roundDiv_near`: the result is within half a unit of the quotient.
* `roundDiv_of_dvd`: a whole quotient is kept.
-/

namespace PixelFlow.Decimal

/-- Two to the power `k`. -/
def twoPow (k : Nat) : Nat := Nat.pow 2 k

/-- Ten to the power `k`. -/
def tenPow (k : Nat) : Nat := Nat.pow 10 k

theorem twoPow_pos (k : Nat) : 0 < twoPow k := Nat.pow_pos (by decide)

theorem tenPow_pos (k : Nat) : 0 < tenPow k := Nat.pow_pos (by decide)

/-- Where a quotient half way between two whole numbers goes. -/
inductive Tie
  | toEven
  | up
deriving DecidableEq, Repr

/-- The whole number nearest to `num / den`. -/
def roundDiv (tie : Tie) (num den : Nat) : Nat :=
  let whole := num / den
  let twice := 2 * (num % den)
  if twice < den then whole
  else if den < twice then whole + 1
  else match tie with
    | .toEven => whole + whole % 2
    | .up => whole + 1

theorem roundDiv_eq_or (tie : Tie) (num den : Nat) :
    roundDiv tie num den = num / den ∨ roundDiv tie num den = num / den + 1 := by
  simp only [roundDiv]
  split
  · exact .inl rfl
  · split
    · exact .inr rfl
    · cases tie with
      | up => exact .inr rfl
      | toEven => rcases Nat.mod_two_eq_zero_or_one (num / den) with h | h <;> simp [h]

theorem roundDiv_of_dvd (tie : Tie) {num den : Nat} (hd : 0 < den) (h : den ∣ num) :
    roundDiv tie num den = num / den := by
  simp [roundDiv, Nat.mod_eq_zero_of_dvd h, hd]

/-- Twice the error is at most the divisor. -/
theorem roundDiv_near (tie : Tie) (num : Nat) {den : Nat} (hd : 0 < den) :
    2 * num ≤ 2 * (den * roundDiv tie num den) + den ∧
      2 * (den * roundDiv tie num den) ≤ 2 * num + den := by
  have hm := Nat.div_add_mod num den
  have hl := Nat.mod_lt num hd
  have key : ∀ w, w = num / den ∧ 2 * (num % den) ≤ den ∨
      w = num / den + 1 ∧ den ≤ 2 * (num % den) →
      2 * num ≤ 2 * (den * w) + den ∧ 2 * (den * w) ≤ 2 * num + den := by
    rintro w (⟨rfl, h⟩ | ⟨rfl, h⟩)
    · omega
    · rw [Nat.mul_add, Nat.mul_one]; omega
  refine key _ ?_
  simp only [roundDiv]
  split
  · exact .inl ⟨rfl, by omega⟩
  · split
    · exact .inr ⟨rfl, by omega⟩
    · cases tie with
      | up => exact .inr ⟨rfl, by omega⟩
      | toEven =>
        rcases Nat.mod_two_eq_zero_or_one (num / den) with h | h
        · exact .inl ⟨by simp [h], by omega⟩
        · exact .inr ⟨by simp [h], by omega⟩

end PixelFlow.Decimal
