import PixelFlow.Text.Hex

/-!
# Identifiers

An identifier is a number of 128 bits in text: thirty-two hexadecimal digits in five groups, of
which the first eight are its short form. Numbers beyond that range exist so that minting never
runs out.

* **`Uuid.mint_injective`**: identifiers minted from different stamps or numbers differ.
* `Uuid.ofText?`: the identifier of a text in one of the four accepted spellings.
-/

namespace PixelFlow

structure Uuid where
  value : Nat
deriving DecidableEq, Hashable, Repr, Inhabited

namespace Uuid

/-- Two numbers in one: the pairs with greatest part `n` fill the numbers from `n * n` on. -/
def paired (a b : Nat) : Nat := if a < b then b * b + a else a * a + a + b

theorem sq_le_paired (a b : Nat) : max a b * max a b ≤ paired a b := by
  unfold paired
  split
  · rw [Nat.max_eq_right (by omega)]; omega
  · rw [Nat.max_eq_left (by omega)]; omega

theorem paired_lt (a b : Nat) : paired a b < (max a b + 1) * (max a b + 1) := by
  unfold paired
  split
  · rw [Nat.max_eq_right (by omega), Nat.add_mul, Nat.mul_add]; omega
  · rw [Nat.max_eq_left (by omega), Nat.add_mul, Nat.mul_add]; omega

theorem paired_injective {a b c d : Nat} (h : paired a b = paired c d) : a = c ∧ b = d := by
  have hm : max a b = max c d := by
    have := sq_le_paired a b; have := sq_le_paired c d
    have := paired_lt a b; have := paired_lt c d
    rcases Nat.lt_trichotomy (max a b) (max c d) with hlt | heq | hlt
    · have := Nat.mul_le_mul (Nat.succ_le_of_lt hlt) (Nat.succ_le_of_lt hlt)
      simp only [Nat.succ_eq_add_one] at this; omega
    · exact heq
    · have := Nat.mul_le_mul (Nat.succ_le_of_lt hlt) (Nat.succ_le_of_lt hlt)
      simp only [Nat.succ_eq_add_one] at this; omega
  unfold paired at h
  split at h <;> split at h
  · have : b = d := by omega
    subst this; omega
  · have : b = c := by omega
    subst this; omega
  · have : a = d := by omega
    subst this; omega
  · have : a = c := by omega
    subst this; omega

/-- The identifier with number `index` among those of one stamp. Its short form tells the first
2³² of them apart. -/
def mint (stamp index : Nat) : Uuid := ⟨paired stamp index * 0x1000000000000000000000000⟩

theorem mint_injective {s i t j : Nat} (h : mint s i = mint t j) : s = t ∧ i = j := by
  simp only [mint, mk.injEq] at h
  exact paired_injective (Nat.eq_of_mul_eq_mul_right (by decide) h)

/-- Whether the number has no more than 128 bits. -/
def Fits (u : Uuid) : Prop := u.value < 0x100000000000000000000000000000000

instance (u : Uuid) : Decidable u.Fits := inferInstanceAs (Decidable (_ < _))

/-- The thirty-two digits. -/
def digits (u : Uuid) : List Char := Text.hexDigits 32 u.value

/-- Split a list into groups of the given sizes. -/
def groups {α : Type} : List Nat → List α → List (List α)
  | [], _ => []
  | n :: ns, l => l.take n :: groups ns (l.drop n)

def text (u : Uuid) : String :=
  "-".intercalate ((groups [8, 4, 4, 4, 12] u.digits).map String.ofList)

def short (u : Uuid) : String := String.ofList (u.digits.take 8)

/-- The identifier of thirty-two digits of either case. -/
def ofDigits? (cs : List Char) : Option Uuid :=
  if cs.length = 32 then (Text.hexValue? cs).map mk else none

/-- The digits of the hyphenated spelling. -/
def unhyphenated? (cs : List Char) : Option (List Char) :=
  match groups [8, 1, 4, 1, 4, 1, 4, 1, 12] cs with
  | [a, ['-'], b, ['-'], c, ['-'], d, ['-'], e] => some (a ++ b ++ c ++ d ++ e)
  | _ => none

/-- The identifier of a text: plain digits, or the hyphenated spelling, alone, in braces or after
`urn:uuid:` in letters of either case. -/
def ofText? (s : String) : Option Uuid :=
  let cs := s.toList
  match cs.length with
  | 32 => ofDigits? cs
  | 36 => unhyphenated? cs >>= ofDigits?
  | 38 =>
    if cs.head? = some '\x7b' ∧ cs.getLast? = some '\x7d' then
      unhyphenated? (cs.drop 1).dropLast >>= ofDigits?
    else none
  | 45 =>
    if (cs.take 9).map Char.toLower = "urn:uuid:".toList then
      unhyphenated? (cs.drop 9) >>= ofDigits?
    else none
  | _ => none

end Uuid

end PixelFlow
