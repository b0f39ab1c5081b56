import PixelFlow.Uuid
import PixelFlow.Proofs.Text.Hex

/-!
# Identifiers, read and written

* `Uuid.groups_append`: a list is cut where the sizes of its parts say.
* **`Uuid.ofText?_text`**: the text of an identifier of 128 bits is read as the identifier.
-/

namespace PixelFlow.Uuid

theorem groups_append {α : Type} {n : Nat} (ns : List Nat) {a : List α} (h : a.length = n)
    (l : List α) : groups (n :: ns) (a ++ l) = a :: groups ns l := by
  rw [groups, List.take_left' h, List.drop_left' h]

theorem groups_length {α : Type} (l : List α) : groups [l.length] l = [l] := by
  rw [groups, groups, List.take_length]

/-- Thirty-two digits in their five parts. -/
structure Parts (cs a b c d e : List Char) : Prop where
  append : cs = a ++ (b ++ (c ++ (d ++ e)))
  first : a.length = 8
  second : b.length = 4
  third : c.length = 4
  fourth : d.length = 4
  fifth : e.length = 12

theorem exists_parts {cs : List Char} (h : cs.length = 32) : ∃ a b c d e, Parts cs a b c d e := by
  refine ⟨cs.take 8, (cs.drop 8).take 4, ((cs.drop 8).drop 4).take 4,
    (((cs.drop 8).drop 4).drop 4).take 4, (((cs.drop 8).drop 4).drop 4).drop 4, ?_, ?_, ?_, ?_, ?_,
    ?_⟩
  · simp only [List.take_append_drop]
  all_goals simp [h]

namespace Parts

variable {cs a b c d e : List Char}

theorem groups_eq (p : Parts cs a b c d e) : groups [8, 4, 4, 4, 12] cs = [a, b, c, d, e] := by
  rw [p.append, groups_append _ p.first, groups_append _ p.second, groups_append _ p.third,
    groups_append _ p.fourth, ← p.fifth, groups_length]

/-- The five parts with hyphens between them. -/
def hyphenated (a b c d e : List Char) : List Char :=
  a ++ (['-'] ++ (b ++ (['-'] ++ (c ++ (['-'] ++ (d ++ (['-'] ++ e)))))))

theorem unhyphenated?_eq (p : Parts cs a b c d e) :
    unhyphenated? (hyphenated a b c d e) = some cs := by
  have hyphen : ['-'].length = 1 := rfl
  have cut : groups [8, 1, 4, 1, 4, 1, 4, 1, 12] (hyphenated a b c d e) =
      [a, ['-'], b, ['-'], c, ['-'], d, ['-'], e] := by
    rw [hyphenated, groups_append _ p.first, groups_append _ hyphen, groups_append _ p.second,
      groups_append _ hyphen, groups_append _ p.third, groups_append _ hyphen,
      groups_append _ p.fourth, groups_append _ hyphen, ← p.fifth, groups_length]
  rw [unhyphenated?, cut, p.append]
  simp only [List.append_assoc]

theorem length_hyphenated (p : Parts cs a b c d e) : (hyphenated a b c d e).length = 36 := by
  simp only [hyphenated, List.length_append, p.first, p.second, p.third, p.fourth, p.fifth,
    List.length_singleton, Nat.reduceAdd]

end Parts

theorem ofDigits?_digits {u : Uuid} (h : u.Fits) : ofDigits? u.digits = some u := by
  have digit : ∀ v < 16, Text.hexDigit? (id (Nat.digitChar v)) = some v := by decide
  have read := Text.hexValue?_map_hexDigits digit 32 u.value
  rw [List.map_id, Nat.mod_eq_of_lt (show u.value < 16 ^ 32 from h)] at read
  rw [ofDigits?, digits, if_pos (Text.length_hexDigits 32 u.value), read]
  rfl

/-- **The text of an identifier is read as the identifier.** -/
theorem ofText?_text {u : Uuid} (h : u.Fits) : ofText? u.text = some u := by
  obtain ⟨a, b, c, d, e, p⟩ := exists_parts (Text.length_hexDigits 32 u.value)
  have spelled : u.text.toList = Parts.hyphenated a b c d e := by
    rw [text, digits, p.groups_eq, String.toList_intercalate]
    simp [List.intercalate, Parts.hyphenated]
  rw [ofText?, spelled]
  simp only [p.length_hyphenated, p.unhyphenated?_eq]
  rw [Option.bind_eq_bind, Option.bind_some]
  exact ofDigits?_digits h

end PixelFlow.Uuid
