import PixelFlow.Color.Hex
import PixelFlow.Proofs.Text.Hex

/-!
# The bytes of a color's text

A color is read from bytes that are taken two by two, but a text has characters, each of which is
one to four bytes. So what is read is told by how the next characters fall on the next two bytes: two
characters of one byte, one of two bytes, or one that goes on behind them.

* `Text.utf8`: the bytes of characters; `Color.Encodes`: those of a single one.
* `Color.channel?_eq`: a pair of bytes reads as the characters that they begin.
* **`Color.pairs_induction`**: the ways in which characters fall on pairs of bytes.
* **`Color.channelsOf_pair`**, **`Color.channelsOf_wide`**, **`Color.channelsOf_long`**,
  **`Color.channelsOf_late`**: what is read in each of them.
-/

namespace PixelFlow

namespace Text

/-- The bytes of characters. -/
def utf8 (cs : List Char) : List UInt8 := cs.flatMap String.utf8EncodeChar

@[simp] theorem utf8_nil : utf8 [] = [] := rfl

theorem utf8_cons (c : Char) (cs : List Char) :
    utf8 (c :: cs) = String.utf8EncodeChar c ++ utf8 cs := List.flatMap_cons

/-- The bytes of a text are those of its characters. -/
theorem toUTF8_eq (s : String) : s.toUTF8.data.toList = utf8 s.toList := by
  rw [String.toUTF8_eq_toByteArray, ← String.utf8Encode_toList, List.utf8Encode,
    List.toList_data_toByteArray, utf8]

theorem length_utf8 (s : String) : (utf8 s.toList).length = s.utf8ByteSize := by
  rw [← toUTF8_eq, Array.length_toList]
  rfl

theorem length_utf8_cons (c : Char) (cs : List Char) :
    (utf8 (c :: cs)).length = c.utf8Size + (utf8 cs).length := by
  rw [utf8_cons, List.length_append, String.length_utf8EncodeChar]

end Text

namespace Color

open Text

variable {b x y : UInt8} {rest xs ys : List UInt8} {c d : Char} {cs : List Char} {n v : Nat}

theorem unmarked_eq (s : String) : unmarked s = utf8 (s.toList.dropWhile (· == '#')) := by
  rw [unmarked, toUTF8_eq, String.toList_ofList]

/-! ## Single characters -/

theorem isContinuation_iff : isContinuation b ↔ 128 ≤ b.toNat ∧ b.toNat < 192 := by
  simp [isContinuation, UInt8.le_iff_toNat_le, UInt8.lt_iff_toNat_lt]

/-- **The bytes of a character**: the first of them, from which it is seen whether the character is
a digit or a plus sign, and those that continue it. -/
structure Encodes (c : Char) (x : UInt8) (rest : List UInt8) : Prop where
  bytes : String.utf8EncodeChar c = x :: rest
  opens : isContinuation x = false
  continues : ∀ b ∈ rest, isContinuation b
  digit : byteDigit? x = hexDigit? c
  plus : x = 0x2b ↔ c = '+'

/-- A character of one byte. -/
theorem encodes_of_le (h : c.toNat ≤ 127) : Encodes c (.ofNat c.toNat) [] := by
  have hn : (UInt8.ofNat c.toNat).toNat = c.toNat := by
    rw [UInt8.toNat_ofNat']
    exact Nat.mod_eq_of_lt (by omega)
  refine ⟨?_, ?_, nofun, ?_, ?_⟩
  · rw [String.utf8EncodeChar]
    exact if_pos h
  · rw [← Bool.not_eq_true, isContinuation_iff, hn]
    omega
  · rw [byteDigit?, if_pos, hn, Char.ofNat_toNat]
    rw [UInt8.lt_iff_toNat_lt, hn]
    exact Nat.lt_succ_of_le h
  · rw [← UInt8.toNat_inj, hn, ← Char.toNat_inj]
    rfl

/-- A character of several bytes is no digit and no plus sign. -/
theorem encodes_of_lt (h : 127 < c.toNat) (hb : String.utf8EncodeChar c = x :: rest)
    (hx : 192 ≤ x.toNat) (hr : ∀ b ∈ rest, 128 ≤ b.toNat ∧ b.toNat < 192) :
    Encodes c x rest where
  bytes := hb
  opens := by
    rw [← Bool.not_eq_true, isContinuation_iff]
    omega
  continues b hm := isContinuation_iff.2 (hr b hm)
  digit := by
    have none : hexDigit? c = none := Option.eq_none_iff_forall_ne_some.2 fun v hv => by
      have := toNat_lt_of_hexDigit? hv
      omega
    rw [none, byteDigit?, if_neg]
    rw [UInt8.lt_iff_toNat_lt]
    show ¬ x.toNat < 128
    omega
  plus := by
    constructor
    · rintro rfl
      exact absurd hx (by decide)
    · rintro rfl
      exact absurd h (by decide)

theorem exists_encodes (c : Char) : ∃ x rest, Encodes c x rest := by
  by_cases h : c.val.toNat ≤ 127
  · exact ⟨_, _, encodes_of_le h⟩
  · have opening {n : Nat} (h₁ : 192 ≤ n) (h₂ : n < 256) : 192 ≤ (UInt8.ofNat n).toNat := by
      rw [UInt8.toNat_ofNat', Nat.mod_eq_of_lt h₂]
      exact h₁
    have continuing (n : Nat) : 128 ≤ (UInt8.ofNat (n % 64 + 128)).toNat ∧
        (UInt8.ofNat (n % 64 + 128)).toNat < 192 := by
      rw [UInt8.toNat_ofNat', Nat.mod_eq_of_lt (by omega)]
      omega
    have hb := String.utf8EncodeChar.eq_1 c
    rw [if_neg h] at hb
    have h : 127 < c.toNat := Nat.lt_of_not_le h
    -- Two, three and four bytes.
    split at hb
    · refine ⟨_, _, encodes_of_lt h hb (opening (by omega) (by omega)) ?_⟩
      simp only [List.forall_mem_cons, continuing, List.not_mem_nil, false_implies, implies_true,
        and_self]
    · split at hb
      · refine ⟨_, _, encodes_of_lt h hb (opening (by omega) (by omega)) ?_⟩
        simp only [List.forall_mem_cons, continuing, List.not_mem_nil, false_implies, implies_true,
          and_self]
      · refine ⟨_, _, encodes_of_lt h hb (opening (by omega) (by omega)) ?_⟩
        simp only [List.forall_mem_cons, continuing, List.not_mem_nil, false_implies, implies_true,
          and_self]

theorem Encodes.length (h : Encodes c x rest) : rest.length + 1 = c.utf8Size := by
  rw [← String.length_utf8EncodeChar, h.bytes, List.length_cons]

theorem exists_encodes_one (h : c.utf8Size = 1) : ∃ x, Encodes c x [] := by
  obtain ⟨x, rest, e⟩ := exists_encodes c
  obtain rfl := List.length_eq_zero_iff.1 (Nat.succ.inj (e.length.trans h))
  exact ⟨x, e⟩

theorem exists_encodes_two (h : c.utf8Size = 2) : ∃ x y, Encodes c x [y] := by
  obtain ⟨x, rest, e⟩ := exists_encodes c
  obtain ⟨y, rfl⟩ := List.length_eq_one_iff.1 (Nat.succ.inj (e.length.trans h))
  exact ⟨x, y, e⟩

theorem Encodes.utf8_cons (h : Encodes c x rest) (cs : List Char) :
    utf8 (c :: cs) = x :: (rest ++ utf8 cs) := by
  rw [Text.utf8_cons, h.bytes, List.cons_append]

/-- No character begins with a byte that continues one. -/
theorem opens_utf8 (cs : List Char) : (utf8 cs).head?.any isContinuation = false := by
  cases cs with
  | nil => rfl
  | cons c cs =>
    obtain ⟨x, rest, h⟩ := exists_encodes c
    rw [h.utf8_cons]
    exact h.opens

theorem utf8Size_of_hexDigit? (h : hexDigit? c = some v) : c.utf8Size = 1 :=
  (encodes_of_le (Nat.le_of_lt_succ (toNat_lt_of_hexDigit? h))).length.symm

/-! ## Pairs -/

/-- A plus sign reads as a zero. -/
def unsign (c : Char) : Char := if c = '+' then '0' else c

/-- **A pair of bytes reads as the characters that they begin.** -/
theorem channel?_eq (hc : Encodes c x xs) (hd : Encodes d y ys) :
    channel? x y = (hexValue? [unsign c, d]).map .ofNat := by
  rw [channel?, hexValue?_pair, hc.digit, hd.digit, unsign]
  by_cases h : c = '+'
  · rw [if_pos (hc.plus.2 h), if_pos h, show hexDigit? '0' = some 0 from rfl, Option.bind_some,
      Option.map_map]
    simp only [Function.comp_def, Nat.mul_zero, Nat.zero_add]
  · rw [if_neg (mt hc.plus.1 h), if_neg h]
    cases hexDigit? c <;> cases hexDigit? d <;> rfl

/-- A pair that a character of several bytes begins is no number. -/
theorem channel?_wide (hc : Encodes c x xs) (h : c.utf8Size ≠ 1) (y : UInt8) :
    channel? x y = none := by
  have digit : hexDigit? c = none := Option.eq_none_iff_forall_ne_some.2 fun v hv =>
    h (utf8Size_of_hexDigit? hv)
  have plus : c ≠ '+' := by
    rintro rfl
    exact h rfl
  rw [channel?, if_neg (mt hc.plus.1 plus), hc.digit, digit]
  rfl

/-- **The ways in which characters fall on pairs of bytes**: two of one byte make a pair, and so
does one of two bytes; one of more bytes does not end with a pair, and neither does one of several
bytes behind one of a single byte. At the end, one byte may be left. -/
@[elab_as_elim]
theorem pairs_induction {p : List Char → Prop} (nil : p []) (single : ∀ c, c.utf8Size = 1 → p [c])
    (pair : ∀ c d cs, c.utf8Size = 1 → d.utf8Size = 1 → p cs → p (c :: d :: cs))
    (wide : ∀ c cs, c.utf8Size = 2 → p (c :: cs))
    (long : ∀ c cs, 2 < c.utf8Size → p (c :: cs))
    (late : ∀ c d cs, c.utf8Size = 1 → d.utf8Size ≠ 1 → p (c :: d :: cs)) : ∀ cs, p cs
  | [] => nil
  | c :: cs => by
    have := c.utf8Size_pos
    by_cases h₁ : c.utf8Size = 1
    · match cs with
      | [] => exact single c h₁
      | d :: cs =>
        by_cases hd : d.utf8Size = 1
        · exact pair c d cs h₁ hd (pairs_induction nil single pair wide long late cs)
        · exact late c d cs h₁ hd
    · by_cases h₂ : c.utf8Size = 2
      · exact wide c cs h₂
      · exact long c cs (by omega)

/-- Two characters of one byte are read, and then the others. -/
theorem channelsOf_pair (hc : c.utf8Size = 1) (hd : d.utf8Size = 1) (cs : List Char) :
    channelsOf (utf8 (c :: d :: cs)) =
      match hexValue? [unsign c, d] with
      | none => .error .digit
      | some n => (channelsOf (utf8 cs)).map (.ofNat n :: ·) := by
  obtain ⟨x, ec⟩ := exists_encodes_one hc
  obtain ⟨y, ed⟩ := exists_encodes_one hd
  rw [ec.utf8_cons, ed.utf8_cons, List.nil_append, List.nil_append, channelsOf, opens_utf8,
    channel?_eq ec ed]
  cases hexValue? [unsign c, d] <;> rfl

/-- A character of two bytes is no number. -/
theorem channelsOf_wide (hc : c.utf8Size = 2) (cs : List Char) :
    channelsOf (utf8 (c :: cs)) = .error .digit := by
  obtain ⟨x, y, ec⟩ := exists_encodes_two hc
  rw [ec.utf8_cons, List.cons_append, List.nil_append, channelsOf, opens_utf8,
    channel?_wide ec (by omega)]
  rfl

/-- There is no cut before a byte that continues a character. -/
theorem channelsOf_cut (h : isContinuation b) (rest : List UInt8) :
    channelsOf (x :: y :: b :: rest) = .error .cut := by
  rw [channelsOf, List.head?_cons, Option.any_some, h]
  rfl

/-- A character of more than two bytes is cut behind the second one. -/
theorem channelsOf_long (hc : 2 < c.utf8Size) (cs : List Char) :
    channelsOf (utf8 (c :: cs)) = .error .cut := by
  obtain ⟨x, xs, ec⟩ := exists_encodes c
  have hl := ec.length
  match xs, ec with
  | y :: z :: xs, ec =>
    rw [ec.utf8_cons]
    exact channelsOf_cut (ec.continues z (by simp)) _
  | [y], _ => exact absurd hl (Nat.ne_of_lt hc)
  | [], _ => exact absurd hl (Nat.ne_of_lt (Nat.lt_of_succ_lt hc))

/-- A character of several bytes behind one of a single byte is cut behind its first one. -/
theorem channelsOf_late (hc : c.utf8Size = 1) (hd : d.utf8Size ≠ 1) (cs : List Char) :
    channelsOf (utf8 (c :: d :: cs)) = .error .cut := by
  obtain ⟨x, ec⟩ := exists_encodes_one hc
  obtain ⟨y, ys, ed⟩ := exists_encodes d
  match ys, ed with
  | z :: ys, ed =>
    rw [ec.utf8_cons, ed.utf8_cons]
    exact channelsOf_cut (ed.continues z (by simp)) _
  | [], ed => exact absurd ed.length.symm hd

end Color

end PixelFlow
