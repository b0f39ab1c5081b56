import PixelFlow.Proofs.Color.Bytes
import Mathlib.Algebra.Group.Nat.Even

/-!
# Hexadecimal colors, read and written

The text of a color has one mark and two digits for each channel. A reader passes over any number of
marks and takes a plus sign at the start of a pair for a zero; apart from that it accepts what is
written, in either case and with or without the digits of an opaque color, and nothing else.

* `Color.Octets`: the numbers that digits stand for, two by two.
* `Color.Spells`: the digits of a color; `Color.shown`: those that are written.
* **`Color.ofHex_eq_ok_iff`**: which texts are read, and as which color.
* `Color.Reading`, **`Color.ofHex_reading`**: the same for marks and digits, with what is written of
  the color, and against the form `#RRGGBB` or `#RRGGBBAA`.
* `Color.not_reads_documented`: texts of another form that are read.
* **`Color.ofHex_hex`**: what is written is read as the color.
-/

namespace PixelFlow.Color

open Text

variable {c : Color} {cs ds : List Char} {vs : List UInt8}

/-! ## Octets -/

/-- Both characters of a pair that is a number are digits. -/
theorem hexDigit?_of_pair {high low : Char} {n : Nat} (h : hexValue? [high, low] = some n) :
    (∃ a, hexDigit? high = some a) ∧ ∃ b, hexDigit? low = some b := by
  rw [hexValue?_pair] at h
  obtain ⟨a, ha, h⟩ := Option.bind_eq_some_iff.1 h
  obtain ⟨b, hb, _⟩ := Option.map_eq_some_iff.1 h
  exact ⟨⟨a, ha⟩, b, hb⟩

/-- **The numbers of eight bits that digits stand for, two by two.** -/
inductive Octets : List Char → List UInt8 → Prop
  | nil : Octets [] []
  | cons {high low : Char} {n : Nat} {ds : List Char} {vs : List UInt8}
      (pair : hexValue? [high, low] = some n) (rest : Octets ds vs) :
      Octets (high :: low :: ds) (.ofNat n :: vs)

/-- Characters with a zero for each plus sign at the start of a pair. -/
def unsigned : List Char → List Char
  | high :: low :: cs => unsign high :: low :: unsigned cs
  | cs => cs

namespace Octets

theorem length (h : Octets ds vs) : ds.length = 2 * vs.length := by
  induction h with
  | nil => rfl
  | cons _ _ ih => simp only [List.length_cons, ih, Nat.mul_add]

theorem digits (h : Octets ds vs) : ∀ d ∈ ds, ∃ v, hexDigit? d = some v := by
  induction h with
  | nil => exact fun d hd => (List.not_mem_nil hd).elim
  | cons pair _ ih =>
    obtain ⟨high, low⟩ := hexDigit?_of_pair pair
    simp only [List.forall_mem_cons]
    exact ⟨high, low, ih⟩

/-- Digits have no plus sign. -/
theorem plus_notMem (h : Octets ds vs) : '+' ∉ ds := fun hm => by
  obtain ⟨v, hv⟩ := h.digits _ hm
  exact nomatch (hv : none = some v)

end Octets

/-- A character that reads as a digit at one place of a pair at least. -/
def SignedDigit (c : Char) : Prop := c = '+' ∨ ∃ v, hexDigit? c = some v

theorem SignedDigit.utf8Size {c : Char} (h : SignedDigit c) : c.utf8Size = 1 := by
  rcases h with rfl | ⟨v, hv⟩
  · rfl
  · exact utf8Size_of_hexDigit? hv

theorem SignedDigit.ne_mark {c : Char} (h : SignedDigit c) : c ≠ '#' := by
  rintro rfl
  rcases h with h | ⟨v, hv⟩
  · exact absurd h (by decide)
  · exact nomatch (hv : none = some v)

theorem unsigned_of_notMem (h : '+' ∉ cs) : unsigned cs = cs := by
  fun_induction unsigned cs with
  | case1 high low cs ih =>
    simp only [List.mem_cons, not_or] at h
    rw [ih h.2.2, unsign, if_neg (Ne.symm h.1)]
  | case2 => rfl

theorem length_unsigned (cs : List Char) : (unsigned cs).length = cs.length := by
  fun_induction unsigned cs with
  | case1 high low cs ih => rw [List.length_cons, List.length_cons, ih, List.length_cons,
      List.length_cons]
  | case2 => rfl

/-- What reads as digits has digits and plus signs only. -/
theorem signedDigit_of_octets (h : Octets (unsigned cs) vs) : ∀ c ∈ cs, SignedDigit c := by
  fun_induction unsigned cs generalizing vs with
  | case1 high low cs ih =>
    obtain _ | ⟨pair, rest⟩ := h
    obtain ⟨⟨a, ha⟩, hb⟩ := hexDigit?_of_pair pair
    have first : SignedDigit high := by
      unfold unsign at ha
      split at ha
      · next hp => exact .inl hp
      · exact .inr ⟨a, ha⟩
    simp only [List.forall_mem_cons]
    exact ⟨first, .inr hb, ih rest⟩
  | case2 cs short =>
    cases h with
    | nil => exact fun c hc => (List.not_mem_nil hc).elim
    | cons => exact (short _ _ _ rfl).elim

theorem length_utf8_of_octets (h : Octets (unsigned cs) vs) :
    (utf8 cs).length = 2 * vs.length := by
  have single : ∀ c ∈ cs, (String.utf8EncodeChar c).length = 1 := fun c hc => by
    rw [String.length_utf8EncodeChar]
    exact (signedDigit_of_octets h c hc).utf8Size
  rw [← h.length, length_unsigned, utf8, List.length_flatMap, List.map_congr_left single,
    List.map_const', List.sum_replicate_nat, Nat.mul_one]

/-- **The bytes of characters are read iff they are digits but for plus signs**, as what the digits
stand for. -/
theorem channelsOf_eq_ok_iff (he : Even (utf8 cs).length) :
    channelsOf (utf8 cs) = .ok vs ↔ Octets (unsigned cs) vs := by
  induction cs using pairs_induction generalizing vs with
  | nil =>
    constructor
    · intro h
      obtain rfl := Except.ok.inj h
      exact .nil
    · intro h
      cases h
      rfl
  | single c hc =>
    rw [length_utf8_cons, hc] at he
    exact absurd he (by decide)
  | pair c d cs hc hd ih =>
    have he : Even (utf8 cs).length := by
      rw [length_utf8_cons, length_utf8_cons, hc, hd] at he
      obtain ⟨k, hk⟩ := he
      exact ⟨k - 1, by omega⟩
    rw [channelsOf_pair hc hd, unsigned]
    constructor
    · intro h
      split at h
      · cases h
      · next n hn =>
        cases hr : channelsOf (utf8 cs) with
        | error f =>
          rw [hr] at h
          cases h
        | ok ws =>
          rw [hr] at h
          obtain rfl := Except.ok.inj h
          exact .cons hn ((ih he).1 hr)
    · rintro (_ | ⟨hn, hr⟩)
      rw [hn, (ih he).2 hr]
      rfl
  | wide c cs hc =>
    rw [channelsOf_wide hc]
    refine ⟨nofun, fun h => ?_⟩
    have := (signedDigit_of_octets h c (by simp)).utf8Size
    omega
  | long c cs hc =>
    rw [channelsOf_long hc]
    refine ⟨nofun, fun h => ?_⟩
    have := (signedDigit_of_octets h c (by simp)).utf8Size
    omega
  | late c d cs hc hd =>
    rw [channelsOf_late hc hd]
    exact ⟨nofun, fun h => absurd (signedDigit_of_octets h d (by simp)).utf8Size hd⟩

/-! ## Reading -/

/-- **The color that digits spell**: two of them for each channel, and those of an opaque one may be
left out. -/
def Spells (ds : List Char) (c : Color) : Prop :=
  Octets ds c.channels ∨ c.alpha = 255 ∧ Octets ds (c.channels.take 3)

/-- Eight digits, or six for an opaque color. -/
theorem Spells.octets (h : Spells ds c) : ∃ vs, Octets ds vs ∧ vs ≠ [] := by
  rcases h with h | ⟨_, h⟩
  · exact ⟨_, h, List.cons_ne_nil _ _⟩
  · exact ⟨_, h, List.cons_ne_nil _ _⟩

/-- **A text is read iff digits follow its marks, but for plus signs**, and as the color that the
digits spell. -/
theorem ofHex_eq_ok_iff (s : String) (c : Color) :
    ofHex s = .ok c ↔ Spells (unsigned (s.toList.dropWhile (· == '#'))) c := by
  rw [ofHex, unmarked_eq]
  generalize s.toList.dropWhile (· == '#') = cs
  constructor
  · intro h
    split at h
    · next hl =>
      have he : Even (utf8 cs).length := by
        rcases hl with hl | hl <;> rw [hl] <;> decide
      cases hr : channelsOf (utf8 cs) with
      | error f =>
        rw [hr] at h
        cases h
      | ok vs =>
        have ho := (channelsOf_eq_ok_iff he).1 hr
        rw [hr] at h
        simp only [bind, Except.bind] at h
        split at h
        · obtain rfl := Except.ok.inj h
          exact .inr ⟨rfl, ho⟩
        · obtain rfl := Except.ok.inj h
          exact .inl ho
        · cases h
    · cases h
  · rintro (h | ⟨ha, h⟩)
    · have hl : (utf8 cs).length = 8 := length_utf8_of_octets h
      rw [if_pos (.inr hl), (channelsOf_eq_ok_iff (hl ▸ by decide)).2 h]
      rfl
    · have hl : (utf8 cs).length = 6 := length_utf8_of_octets h
      rw [if_pos (.inl hl), (channelsOf_eq_ok_iff (hl ▸ by decide)).2 h]
      obtain ⟨r, g, b, a⟩ := c
      obtain rfl : a = 255 := ha
      rfl

/-- Marks in front of digits are passed over, and no others. -/
theorem dropWhile_marks (n : Nat) (h : Spells (unsigned ds) c) :
    (List.replicate n '#' ++ ds).dropWhile (· == '#') = ds := by
  obtain ⟨vs, ho, _⟩ := h.octets
  rw [List.dropWhile_append_of_pos fun a ha => by simp [List.eq_of_mem_replicate ha]]
  refine List.dropWhile_beq_eq_self_of_head?_ne fun hm => ?_
  exact (signedDigit_of_octets ho _ (List.mem_of_mem_head? hm)).ne_mark rfl

/-- A text is its marks and what follows them. -/
theorem exists_marks (s : String) : ∃ n, s.toList =
    List.replicate n '#' ++ s.toList.dropWhile (· == '#') := by
  refine ⟨(s.toList.takeWhile (· == '#')).length, ?_⟩
  have marks : ∀ a ∈ s.toList.takeWhile (· == '#'), a = '#' := fun a ha =>
    eq_of_beq (List.all_eq_true.1 List.all_takeWhile a ha)
  rw [← List.eq_replicate_of_mem marks, List.takeWhile_append_dropWhile]

/-- **A text is read iff it is any number of marks and digits but for plus signs.** -/
theorem ofHex_eq_ok_iff_marks (s : String) (c : Color) : ofHex s = .ok c ↔
    ∃ n ds, s.toList = List.replicate n '#' ++ ds ∧ Spells (unsigned ds) c := by
  rw [ofHex_eq_ok_iff]
  constructor
  · intro h
    obtain ⟨n, hn⟩ := exists_marks s
    exact ⟨n, _, hn, h⟩
  · rintro ⟨n, ds, hs, h⟩
    rw [hs, dropWhile_marks n h]
    exact h

/-- **A text of the form `#RRGGBB` or `#RRGGBBAA`**, with or without the mark. -/
def Documented (s : String) (c : Color) : Prop :=
  ∃ ds, (s.toList = ds ∨ s.toList = '#' :: ds) ∧ Spells ds c

/-- Of what is read, that form has what has no plus sign and no second mark. -/
theorem documented_iff (s : String) (c : Color) : Documented s c ↔
    ofHex s = .ok c ∧ '+' ∉ s.toList ∧ ¬ ['#', '#'] <+: s.toList := by
  rw [ofHex_eq_ok_iff_marks]
  constructor
  · rintro ⟨ds, hs, h⟩
    obtain ⟨vs, ho, hne⟩ := h.octets
    have same : unsigned ds = ds := unsigned_of_notMem ho.plus_notMem
    have plain : ∀ d ∈ ds, d ≠ '#' := fun d hd => (signedDigit_of_octets (same ▸ ho) d hd).ne_mark
    rcases hs with hs | hs
    · refine ⟨⟨0, ds, hs, same.symm ▸ h⟩, hs ▸ ho.plus_notMem, ?_⟩
      rw [hs]
      rintro ⟨t, rfl⟩
      exact plain '#' (by simp) rfl
    · refine ⟨⟨1, ds, hs, same.symm ▸ h⟩, ?_, ?_⟩
      · rw [hs]
        simpa using ho.plus_notMem
      · rw [hs]
        rintro ⟨t, ht⟩
        obtain rfl := (List.cons.inj ht).2
        exact plain '#' (by simp) rfl
  · rintro ⟨⟨n, ds, hs, h⟩, plus, marks⟩
    have plus : '+' ∉ ds := fun hm => plus (hs ▸ List.mem_append_right _ hm)
    rw [unsigned_of_notMem plus] at h
    match n with
    | 0 => exact ⟨ds, .inl hs, h⟩
    | 1 => exact ⟨ds, .inr hs, h⟩
    | n + 2 => exact absurd ⟨List.replicate n '#' ++ ds, hs.symm⟩ marks

/-! ## Writing -/

/-- The digits that are written for a channel. -/
def channelDigits (v : UInt8) : List Char := (hexDigits 2 v.toNat).map Char.toUpper

theorem length_channelDigits (v : UInt8) : (channelDigits v).length = 2 := by
  rw [channelDigits, List.length_map, length_hexDigits]

theorem toList_hex (c : Color) : c.hex.toList =
    '#' :: (if c.alpha = 255 then c.channels.take 3 else c.channels).flatMap channelDigits := by
  have digits (v : UInt8) : (channelHex v).toList = channelDigits v := String.toList_ofList
  rw [hex, String.toList_append, String.toList_join, List.flatMap_map]
  simp only [digits]
  rfl

theorem hexValue?_channelDigits (v : UInt8) : hexValue? (channelDigits v) = some v.toNat := by
  have fits : v.toNat < 16 ^ 2 := v.toNat_lt
  rw [channelDigits, hexValue?_map_hexDigits fun d hd => hexDigit?_eq_some_iff.2 ⟨hd, .inr rfl⟩,
    Nat.mod_eq_of_lt fits]

/-- **What is written for channels is read as them.** -/
theorem octets_channelDigits (vs : List UInt8) : Octets (vs.flatMap channelDigits) vs := by
  induction vs with
  | nil => exact .nil
  | cons v vs ih =>
    have first := Octets.cons (hexValue?_channelDigits v) ih
    rw [UInt8.ofNat_toNat] at first
    exact first

/-- **Digits are those that are written for what they stand for**, but for their case. -/
theorem Octets.map_toUpper (h : Octets ds vs) :
    ds.map Char.toUpper = vs.flatMap channelDigits := by
  induction h with
  | nil => rfl
  | @cons high low n ds vs pair _ ih =>
    have hn : (UInt8.ofNat n).toNat = n := UInt8.toNat_ofNat_of_lt' (lt_of_hexValue? pair)
    have first : [high, low].map Char.toUpper = channelDigits (.ofNat n) := by
      rw [channelDigits, hn]
      exact (map_toUpper_hexDigits pair).symm
    rw [List.flatMap_cons, ← ih, ← first]
    rfl

/-- Digits in upper case, without those of an opaque last channel. -/
def shown (ds : List Char) : List Char :=
  let upper := ds.map Char.toUpper
  if upper.drop 6 = ['F', 'F'] then upper.take 6 else upper

theorem channelDigits_eq_iff {v : UInt8} : channelDigits v = ['F', 'F'] ↔ v = 255 := by
  constructor
  · intro h
    have hv := hexValue?_channelDigits v
    rw [h] at hv
    exact UInt8.toNat_inj.1 (Option.some.inj hv).symm
  · rintro rfl
    decide

/-- **A color is written with the digits that spell it**, in upper case and without those of an
opaque last channel. -/
theorem Spells.hex (h : Spells ds c) : c.hex = String.ofList ('#' :: shown ds) := by
  have six : ((c.channels.take 3).flatMap channelDigits).length = 6 := by
    simp [channels, length_channelDigits]
  have eight : c.channels.flatMap channelDigits =
      (c.channels.take 3).flatMap channelDigits ++ channelDigits c.alpha := by
    simp [channels]
  have written : c.hex.toList = '#' :: shown ds := by
    rw [toList_hex, shown]
    rcases h with h | ⟨ha, h⟩
    · rw [h.map_toUpper, eight, List.drop_left' six, List.take_left' six]
      simp only [channelDigits_eq_iff]
      split
      · rfl
      · rw [eight]
    · rw [h.map_toUpper, if_pos ha, List.drop_of_length_le (Nat.le_of_eq six)]
      rfl
  rw [← written, String.ofList_toList]

/-- What is written for a color spells it. -/
theorem spells_hex (c : Color) : ∃ ds, c.hex.toList = '#' :: ds ∧ Spells ds c := by
  refine ⟨_, c.toList_hex, ?_⟩
  split
  · next ha => exact .inr ⟨ha, octets_channelDigits _⟩
  · exact .inl (octets_channelDigits _)

/-! ## What is read of a text, and what is written for a color -/

/-- **What is read of a text.** -/
structure Reading (s : String) : Prop where
  /-- A text that is read is any number of marks and digits, in which a plus sign may stand for a
  zero at the start of a pair; and the color is written with one mark and these digits. -/
  read : ∀ c, ofHex s = .ok c → ∃ n ds, s.toList = List.replicate n '#' ++ ds ∧
    Spells (unsigned ds) c ∧ c.hex = String.ofList ('#' :: shown (unsigned ds))
  /-- Every such text is read. -/
  accepts : ∀ n ds c, s.toList = List.replicate n '#' ++ ds → Spells (unsigned ds) c →
    ofHex s = .ok c
  /-- A text without a plus sign and without a second mark is read iff it has the form `#RRGGBB` or
  `#RRGGBBAA`, with or without the mark; no other text has that form. -/
  documented : ∀ c, Documented s c ↔
    ofHex s = .ok c ∧ '+' ∉ s.toList ∧ ¬ ['#', '#'] <+: s.toList

/-- **What a text is read as, and what is written of that**, for any text. -/
theorem ofHex_reading (s : String) : Reading s where
  read c h := by
    obtain ⟨n, ds, hs, h⟩ := (ofHex_eq_ok_iff_marks s c).1 h
    exact ⟨n, ds, hs, h, h.hex⟩
  accepts n ds c hs h := (ofHex_eq_ok_iff_marks s c).2 ⟨n, ds, hs, h⟩
  documented := documented_iff s

/-- **Texts of another form that are read**: with plus signs, and with two marks. -/
theorem not_reads_documented :
    (ofHex "#+1+2+3" = .ok ⟨1, 2, 3, 255⟩ ∧ ¬ Documented "#+1+2+3" ⟨1, 2, 3, 255⟩) ∧
    (ofHex "##704214" = .ok sepia ∧ ¬ Documented "##704214" sepia) := by
  have plus : ¬ Documented "#+1+2+3" ⟨1, 2, 3, 255⟩ := fun h =>
    ((documented_iff _ _).1 h).2.1 (by decide)
  have marks : ¬ Documented "##704214" sepia := fun h =>
    ((documented_iff _ _).1 h).2.2 (by decide)
  exact ⟨⟨by decide +kernel, plus⟩, by decide +kernel, marks⟩

/-- **What is written for a color is read as the color**, so no two colors are written alike. -/
theorem ofHex_hex : (∀ c : Color, ofHex c.hex = .ok c) ∧ Function.Injective hex := by
  have read (c : Color) : ofHex c.hex = .ok c := by
    obtain ⟨ds, hs, h⟩ := c.spells_hex
    exact ((documented_iff _ _).1 ⟨ds, .inr hs, h⟩).1
  refine ⟨read, fun c d h => ?_⟩
  have := read c
  rw [h, read d] at this
  exact (Except.ok.inj this).symm

end PixelFlow.Color
