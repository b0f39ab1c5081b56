import PixelFlow.Proofs.Color.Bytes

/-!
# The slices of a color's text

A color is read from slices of its text, two bytes each. A slice can be taken only where it begins
and ends between characters; but whether a text is long enough is told by its bytes, not by its
characters. So a text with characters of several bytes may be cut inside one of them, and then
nothing is read and no fault is told.

* `Color.slice?`: the bytes between two offsets; `Color.ofSlices`: reading slice by slice.
* **`Color.channelsOf_eq_channelsFrom`**, **`Color.ofHex_eq_ofSlices`**: this is how a color is read.
* `Color.Torn`: characters that a slice ends in; **`Color.channelsOf_eq_cut_iff`**.
* `Color.Slicing`, **`Color.ofHex_slicing`**: which texts are cut inside a character.
* `Color.not_returns`: one that is.
-/

namespace PixelFlow.Color

open Text

variable {c d : Char} {cs pre post : List Char}

/-! ## Slices -/

/-- The bytes of a text between two offsets, if both are in the text and between characters. -/
def slice? (t : String) (i j : Nat) : Option (List UInt8) :=
  if i ≤ j ∧ String.Pos.Raw.isValid t ⟨i⟩ ∧ String.Pos.Raw.isValid t ⟨j⟩ then
    some ((t.toUTF8.data.toList.drop i).take (j - i))
  else none

/-- A text without the marks in front of it. -/
def trimmed (s : String) : String := .ofList (s.toList.dropWhile (· == '#'))

/-- The channel that a slice of a text stands for. -/
def channelAt (t : String) (i j : Nat) : Except HexFault UInt8 :=
  match slice? t i j with
  | none => throw .cut
  | some bytes => match bytes with
    | [high, low] => match channel? high low with
      | none => throw .digit
      | some v => return v
    | _ => throw .digit

/-- The color of a text without marks, slice by slice. -/
def ofSlices (t : String) : Except HexFault Color :=
  match t.utf8ByteSize with
  | 6 => return ⟨← channelAt t 0 2, ← channelAt t 2 4, ← channelAt t 4 6, 255⟩
  | 8 => return ⟨← channelAt t 0 2, ← channelAt t 2 4, ← channelAt t 4 6, ← channelAt t 6 8⟩
  | n => throw (.length n)

theorem utf8_append (cs ds : List Char) : utf8 (cs ++ ds) = utf8 cs ++ utf8 ds :=
  List.flatMap_append

theorem isValid_iff (cs : List Char) (n : Nat) : String.Pos.Raw.isValid (.ofList cs) ⟨n⟩ ↔
    ∃ i, n = (utf8 (cs.take i)).length := by
  rw [String.Pos.Raw.isValid_eq_true_iff, String.Pos.Raw.isValid_ofList]
  simp only [← length_utf8, String.toList_ofList]

/-- Offsets in a text that follows another one are counted from its end. -/
theorem isValid_append (pre post : List Char) (n : Nat) :
    String.Pos.Raw.isValid (.ofList (pre ++ post)) ⟨(utf8 pre).length + n⟩ ↔
      String.Pos.Raw.isValid (.ofList post) ⟨n⟩ := by
  rw [isValid_iff, isValid_iff]
  constructor
  · rintro ⟨i, hi⟩
    by_cases h : i ≤ pre.length
    · -- No offset before the end of `pre` is counted from there, but its end itself is.
      refine ⟨0, ?_⟩
      have split : (utf8 pre).length = (utf8 (pre.take i)).length + (utf8 (pre.drop i)).length := by
        rw [← List.length_append, ← utf8_append, List.take_append_drop]
      rw [List.take_append_of_le_length h] at hi
      rw [List.take_zero, utf8_nil, List.length_nil]
      omega
    · refine ⟨i - pre.length, ?_⟩
      rw [List.take_append, List.take_of_length_le (by omega), utf8_append,
        List.length_append] at hi
      omega
  · rintro ⟨j, rfl⟩
    refine ⟨pre.length + j, ?_⟩
    rw [List.take_length_add_append, utf8_append, List.length_append]

/-- **A slice behind a text is that of what follows the text.** -/
theorem slice?_append (pre post : List Char) (n : Nat) :
    slice? (.ofList (pre ++ post)) (utf8 pre).length ((utf8 pre).length + n) =
      slice? (.ofList post) 0 n := by
  have first := isValid_append pre post 0
  have last := isValid_append pre post n
  rw [Nat.add_zero] at first
  have bytes : (String.ofList (pre ++ post)).toUTF8.data.toList.drop (utf8 pre).length =
      (String.ofList post).toUTF8.data.toList.drop 0 := by
    rw [toUTF8_eq, toUTF8_eq, String.toList_ofList, String.toList_ofList, utf8_append,
      List.drop_left, List.drop_zero]
  simp only [slice?, first, last, bytes, Nat.le_add_right, Nat.zero_le, Nat.add_sub_cancel_left,
    Nat.sub_zero]

theorem channelAt_of_slice {t : String} {i j : Nat} {x y : UInt8}
    (h : slice? t i j = some [x, y]) : channelAt t i j =
      match channel? x y with
      | none => .error .digit
      | some v => .ok v := by
  rw [channelAt, h]
  rfl

theorem channelAt_append (pre post : List Char) (n : Nat) :
    channelAt (.ofList (pre ++ post)) (utf8 pre).length ((utf8 pre).length + n) =
      channelAt (.ofList post) 0 n := by
  rw [channelAt, slice?_append, channelAt]

/-! ## The first slice -/

/-- A slice from the front of a text, up to the end of a character. -/
theorem slice?_zero (cs : List Char) (i : Nat) :
    slice? (.ofList cs) 0 (utf8 (cs.take i)).length = some (utf8 (cs.take i)) := by
  rw [slice?, if_pos ⟨Nat.zero_le _, (isValid_iff _ _).2 ⟨0, rfl⟩, (isValid_iff _ _).2 ⟨i, rfl⟩⟩,
    toUTF8_eq, String.toList_ofList, List.drop_zero, Nat.sub_zero]
  nth_rewrite 2 [← List.take_append_drop i cs]
  rw [utf8_append, List.take_left]

theorem channelAt_pair (hc : c.utf8Size = 1) (hd : d.utf8Size = 1) (cs : List Char) :
    channelAt (.ofList (c :: d :: cs)) 0 2 =
      match hexValue? [unsign c, d] with
      | none => .error .digit
      | some n => .ok (.ofNat n) := by
  obtain ⟨x, ec⟩ := exists_encodes_one hc
  obtain ⟨y, ed⟩ := exists_encodes_one hd
  have slice : slice? (.ofList (c :: d :: cs)) 0 2 = some [x, y] := by
    have := slice?_zero (c :: d :: cs) 2
    rw [List.take_succ_cons, List.take_succ_cons, List.take_zero, ec.utf8_cons,
      ed.utf8_cons] at this
    exact this
  rw [channelAt_of_slice slice, channel?_eq ec ed]
  cases hexValue? [unsign c, d] <;> rfl

theorem channelAt_wide (hc : c.utf8Size = 2) (cs : List Char) :
    channelAt (.ofList (c :: cs)) 0 2 = .error .digit := by
  obtain ⟨x, y, ec⟩ := exists_encodes_two hc
  have slice : slice? (.ofList (c :: cs)) 0 2 = some [x, y] := by
    have := slice?_zero (c :: cs) 1
    rw [List.take_succ_cons, List.take_zero, ec.utf8_cons] at this
    exact this
  rw [channelAt_of_slice slice, channel?_wide ec (by omega)]

/-- No slice ends where no character does. -/
theorem channelAt_cut (h : ∀ i, (utf8 (cs.take i)).length ≠ 2) :
    channelAt (.ofList cs) 0 2 = .error .cut := by
  rw [channelAt, slice?, if_neg]
  · rfl
  · rintro ⟨_, _, hv⟩
    obtain ⟨i, hi⟩ := (isValid_iff cs 2).1 hv
    exact h i hi.symm

theorem channelAt_long (hc : 2 < c.utf8Size) (cs : List Char) :
    channelAt (.ofList (c :: cs)) 0 2 = .error .cut := by
  refine channelAt_cut fun i => ?_
  match i with
  | 0 => exact Nat.zero_ne_add_one 1
  | i + 1 =>
    rw [List.take_succ_cons, length_utf8_cons]
    omega

theorem channelAt_late (hc : c.utf8Size = 1) (hd : d.utf8Size ≠ 1) (cs : List Char) :
    channelAt (.ofList (c :: d :: cs)) 0 2 = .error .cut := by
  have := d.utf8Size_pos
  refine channelAt_cut fun i => ?_
  match i with
  | 0 => exact Nat.zero_ne_add_one 1
  | 1 =>
    rw [List.take_succ_cons, List.take_zero, length_utf8_cons, utf8_nil, List.length_nil]
    omega
  | i + 2 =>
    rw [List.take_succ_cons, List.take_succ_cons, length_utf8_cons, length_utf8_cons]
    omega

/-! ## All slices -/

/-- The channels of the slices of two bytes from an offset on. -/
def channelsFrom (t : String) : Nat → Nat → Except HexFault (List UInt8)
  | _, 0 => return []
  | i, k + 1 => return (← channelAt t i (i + 2)) :: (← channelsFrom t (i + 2) k)

/-- **The bytes of characters are read as the slices that they make behind a text.** -/
theorem channelsOf_eq_channelsFrom (pre cs : List Char) (k : Nat)
    (hk : (utf8 cs).length = 2 * k) :
    channelsOf (utf8 cs) = channelsFrom (.ofList (pre ++ cs)) (utf8 pre).length k := by
  -- An even number of bytes, if any, has a first slice; where it is no number, the others are not
  -- looked at on either side.
  induction cs using pairs_induction generalizing pre k with
  | nil =>
    obtain rfl : k = 0 := by
      rw [utf8_nil, List.length_nil] at hk
      omega
    rfl
  | single c hc =>
    rw [length_utf8_cons, hc, utf8_nil, List.length_nil] at hk
    omega
  | pair c d cs hc hd ih =>
    rw [length_utf8_cons, length_utf8_cons, hc, hd] at hk
    obtain _ | k := k
    · omega
    have next := ih (pre ++ [c, d]) k (by omega)
    have size : (utf8 (pre ++ [c, d])).length = (utf8 pre).length + 2 := by
      rw [utf8_append, List.length_append, length_utf8_cons, length_utf8_cons, hc, hd, utf8_nil,
        List.length_nil]
    rw [List.append_assoc, size] at next
    rw [channelsOf_pair hc hd, channelsFrom, channelAt_append, channelAt_pair hc hd, next]
    cases hexValue? [unsign c, d] with
    | none => rfl
    | some n => rfl
  | wide c cs hc =>
    rw [length_utf8_cons, hc] at hk
    obtain _ | k := k
    · omega
    rw [channelsOf_wide hc, channelsFrom, channelAt_append, channelAt_wide hc]
    rfl
  | long c cs hc =>
    rw [length_utf8_cons] at hk
    obtain _ | k := k
    · omega
    rw [channelsOf_long hc, channelsFrom, channelAt_append, channelAt_long hc]
    rfl
  | late c d cs hc hd =>
    rw [length_utf8_cons, hc] at hk
    obtain _ | k := k
    · omega
    rw [channelsOf_late hc hd, channelsFrom, channelAt_append, channelAt_late hc hd]
    rfl

/-- **A color is read slice by slice.** -/
theorem ofHex_eq_ofSlices (s : String) : ofHex s = ofSlices (trimmed s) := by
  rw [ofHex, unmarked_eq, ofSlices, ← length_utf8, trimmed, String.toList_ofList]
  generalize s.toList.dropWhile (· == '#') = cs
  have slices (k : Nat) (hk : (utf8 cs).length = 2 * k) := channelsOf_eq_channelsFrom [] cs k hk
  by_cases six : (utf8 cs).length = 6
  · rw [if_pos (.inl six), slices 3 six, six]
    simp only [channelsFrom, List.nil_append, utf8_nil, List.length_nil]
    cases channelAt (.ofList cs) 0 2 <;> cases channelAt (.ofList cs) 2 4 <;>
      cases channelAt (.ofList cs) 4 6 <;> rfl
  · by_cases eight : (utf8 cs).length = 8
    · rw [if_pos (.inr eight), slices 4 eight, eight]
      simp only [channelsFrom, List.nil_append, utf8_nil, List.length_nil]
      cases channelAt (.ofList cs) 0 2 <;> cases channelAt (.ofList cs) 2 4 <;>
        cases channelAt (.ofList cs) 4 6 <;> cases channelAt (.ofList cs) 6 8 <;> rfl
    · rw [if_neg (not_or.2 ⟨six, eight⟩)]
      split
      · exact absurd ‹_› six
      · exact absurd ‹_› eight
      · rfl

/-! ## Characters that a slice ends in -/

/-- **Characters that are read as pairs until a slice ends inside of one**: a character of more than
two bytes does not end with the slice that it begins, and one of several bytes does not end with a
slice that another character begins. -/
inductive Torn : List Char → Prop
  | long {c : Char} {cs : List Char} (size : 2 < c.utf8Size) : Torn (c :: cs)
  | late {c d : Char} {cs : List Char} (first : c.utf8Size = 1) (second : d.utf8Size ≠ 1) :
      Torn (c :: d :: cs)
  | next {c d : Char} {cs : List Char} {n : Nat} (first : c.utf8Size = 1)
      (pair : hexValue? [unsign c, d] = some n) (rest : Torn cs) : Torn (c :: d :: cs)

theorem channelsOf_eq_cut_iff (cs : List Char) :
    channelsOf (utf8 cs) = .error .cut ↔ Torn cs := by
  induction cs using pairs_induction with
  | nil => exact ⟨nofun, nofun⟩
  | single c hc =>
    obtain ⟨x, ec⟩ := exists_encodes_one hc
    rw [ec.utf8_cons]
    refine ⟨nofun, fun h => ?_⟩
    cases h
    omega
  | pair c d cs hc hd ih =>
    rw [channelsOf_pair hc hd]
    constructor
    · intro h
      split at h
      · cases h
      · next n hn =>
        refine .next hc hn (ih.1 ?_)
        cases hr : channelsOf (utf8 cs) with
        | error f =>
          rw [hr] at h
          exact congrArg Except.error (Except.error.inj h)
        | ok vs =>
          rw [hr] at h
          cases h
    · intro h
      cases h with
      | long size => omega
      | late _ second => exact absurd hd second
      | next _ pair rest =>
        rw [pair, ih.2 rest]
        rfl
  | wide c cs hc =>
    rw [channelsOf_wide hc]
    refine ⟨nofun, fun h => ?_⟩
    cases h <;> omega
  | long c cs hc => exact iff_of_true (channelsOf_long hc cs) (.long hc)
  | late c d cs hc hd => exact iff_of_true (channelsOf_late hc hd cs) (.late hc hd)

/-- A slice ends in a character of several bytes. -/
theorem Torn.exists_wide (h : Torn cs) : ∃ c ∈ cs, c.utf8Size ≠ 1 := by
  induction h with
  | @long c cs size => exact ⟨c, List.mem_cons_self, by omega⟩
  | @late c d cs _ second => exact ⟨d, List.mem_cons_of_mem c List.mem_cons_self, second⟩
  | next _ _ _ ih =>
    obtain ⟨e, he, wide⟩ := ih
    exact ⟨e, List.mem_cons_of_mem _ (List.mem_cons_of_mem _ he), wide⟩

theorem ofHex_eq_cut_iff (s : String) : ofHex s = .error .cut ↔
    ((trimmed s).utf8ByteSize = 6 ∨ (trimmed s).utf8ByteSize = 8) ∧ Torn (trimmed s).toList := by
  rw [ofHex, unmarked_eq, ← length_utf8, trimmed, String.toList_ofList, ← channelsOf_eq_cut_iff]
  generalize s.toList.dropWhile (· == '#') = cs
  by_cases even : (utf8 cs).length = 6 ∨ (utf8 cs).length = 8
  · rw [if_pos even]
    cases channelsOf (utf8 cs) with
    | error f => exact ⟨fun h => ⟨even, congrArg _ (Except.error.inj h)⟩,
        fun h => congrArg _ (Except.error.inj h.2)⟩
    | ok vs =>
      simp only [bind, Except.bind]
      refine ⟨fun h => ?_, nofun⟩
      split at h <;> cases h
  · rw [if_neg even]
    exact ⟨nofun, fun h => absurd h.1 even⟩

/-- **Whether the slices of a text are where characters begin and end.** -/
structure Slicing (s : String) : Prop where
  /-- A color is read from slices of two bytes of what follows the marks, in order. -/
  slices : ofHex s = ofSlices (trimmed s)
  /-- One of them ends inside a character, and nothing is read or told, iff there are six or eight
  bytes and, behind pairs that are read, a character that a slice ends in. -/
  fails : ofHex s = .error .cut ↔
    ((trimmed s).utf8ByteSize = 6 ∨ (trimmed s).utf8ByteSize = 8) ∧ Torn (trimmed s).toList
  /-- So a text whose characters have one byte each is read, or its fault is told. -/
  plain : (∀ c ∈ s.toList, c.utf8Size = 1) → ofHex s ≠ .error .cut

/-- **Which texts are cut inside a character**, whatever characters they have. -/
theorem ofHex_slicing (s : String) : Slicing s where
  slices := ofHex_eq_ofSlices s
  fails := ofHex_eq_cut_iff s
  plain single h := by
    obtain ⟨c, hc, wide⟩ := ((ofHex_eq_cut_iff s).1 h).2.exists_wide
    rw [trimmed, String.toList_ofList] at hc
    exact wide (single c (List.dropWhile_subset _ hc))

/-- **A text whose first slice ends inside a character**, though it has six bytes. -/
theorem not_returns : ofHex "#1é234" = .error .cut ∧ slice? "1é234" 0 2 = none := by
  decide +kernel

end PixelFlow.Color
