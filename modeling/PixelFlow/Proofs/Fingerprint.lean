import PixelFlow.Cache
import PixelFlow.Proofs.Value
import Mathlib

/-!
# Fingerprints tell everything apart

Every part of a fingerprint says where it ends, so that a sequence of parts can be taken apart in
one way only. Hence the key of a compute determines its parameters in their order and its inputs by
their names, where images are determined up to their revisions.

* `Fingerprint.Splits`: what follows a part, and the part, can be read off.
* `Fingerprint.Splits.flatMap`: so can the parts of a list of known length.
* **`CacheKey.of_inj`**: equal keys come from equal variants, parameters and inputs.
-/

namespace PixelFlow

namespace Fingerprint

variable {α β : Type} {f : α → Fingerprint} {r : α → α → Prop}

/-- What stands for related things, and only that, can be split off from the front. -/
def Splits (f : α → Fingerprint) (r : α → α → Prop) : Prop :=
  ∀ a b s t, f a ++ s = f b ++ t → r a b ∧ s = t

/-- What has always the same length can be split off. -/
theorem Splits.of_length {k : Nat} (hl : ∀ a, (f a).length = k) (hr : ∀ a b, f a = f b → r a b) :
    Splits f r := by
  intro a b s t h
  obtain ⟨hab, hst⟩ := List.append_inj h (by rw [hl, hl])
  exact ⟨hr a b hab, hst⟩

/-- Two parts behind one another can be split off together. -/
theorem Splits.pair {g : β → Fingerprint} {q : β → β → Prop} (hf : Splits f r) (hg : Splits g q) :
    Splits (fun e : α × β => f e.1 ++ g e.2) fun x y => r x.1 y.1 ∧ q x.2 y.2 := by
  intro x y s t h
  rw [List.append_assoc, List.append_assoc] at h
  obtain ⟨h₁, h⟩ := hf _ _ _ _ h
  obtain ⟨h₂, hst⟩ := hg _ _ _ _ h
  exact ⟨⟨h₁, h₂⟩, hst⟩

/-! ## Lists -/

theorem Splits.flatMap (h : Splits f r) : ∀ (l m : List α) (s t : Fingerprint),
    l.length = m.length → l.flatMap f ++ s = m.flatMap f ++ t → List.Forall₂ r l m ∧ s = t
  | [], [], s, t, _, e => ⟨.nil, e⟩
  | a :: l, b :: m, s, t, hl, e => by
    simp only [List.flatMap_cons, List.append_assoc] at e
    obtain ⟨hab, e⟩ := h a b _ _ e
    obtain ⟨hlm, e⟩ := h.flatMap l m s t (Nat.succ.inj hl) e
    exact ⟨.cons hab hlm, e⟩

/-! ## Numbers and lengths -/

theorem length_littleEndian (k n : Nat) : (littleEndian k n).length = k := by
  induction k generalizing n with
  | zero => rfl
  | succ k ih => rw [littleEndian, List.length_cons, ih]

theorem littleEndian_inj {k m n : Nat} (hm : m < 256 ^ k) (hn : n < 256 ^ k)
    (h : littleEndian k m = littleEndian k n) : m = n := by
  induction k generalizing m n with
  | zero => omega
  | succ k ih =>
    rw [littleEndian, littleEndian, List.cons.injEq] at h
    have hd : m / 256 = n / 256 := by
      rw [Nat.pow_succ] at hm hn
      exact ih (Nat.div_lt_of_lt_mul (by omega)) (Nat.div_lt_of_lt_mul (by omega)) h.2
    have := congrArg UInt8.toNat h.1
    simp only [UInt8.toNat_ofNat'] at this
    omega

theorem word_inj {m n : Nat} (hm : m < UInt64.size) (hn : n < UInt64.size) {s t : Fingerprint}
    (h : word m ++ s = word n ++ t) : m = n ∧ s = t := by
  obtain ⟨e, hst⟩ := List.append_inj h (by rw [word, word, length_littleEndian, length_littleEndian])
  exact ⟨littleEndian_inj hm hn e, hst⟩

/-- A text of bytes ends where a byte comes that is not in it. -/
theorem closed_inj {x : UInt8} {l m s t : Fingerprint} (hl : x ∉ l) (hm : x ∉ m)
    (h : l ++ x :: s = m ++ x :: t) : l = m ∧ s = t := by
  induction l generalizing m with
  | nil =>
    cases m with
    | nil => exact ⟨rfl, (List.cons.inj h).2⟩
    | cons b m =>
      obtain ⟨rfl, _⟩ := List.cons.inj h
      exact (hm (by simp)).elim
  | cons a l ih =>
    cases m with
    | nil =>
      obtain ⟨rfl, _⟩ := List.cons.inj h
      exact (hl (by simp)).elim
    | cons b m =>
      obtain ⟨rfl, h'⟩ := List.cons.inj h
      obtain ⟨e, hst⟩ := ih (fun hx => hl (by simp [hx])) (fun hx => hm (by simp [hx])) h'
      exact ⟨by rw [e], hst⟩

theorem splits_count : Splits count (· = ·) := by
  have hs : UInt64.size = 18446744073709551616 := rfl
  intro m n s t h
  unfold count at h
  split at h
  · next hm =>
    split at h
    · next hn => exact word_inj (by omega) (by omega) h
    · rw [List.append_assoc, List.append_assoc] at h
      have := (word_inj (by omega) (by omega) h).1
      omega
  · next hm =>
    split at h
    · rw [List.append_assoc, List.append_assoc] at h
      have := (word_inj (by omega) (by omega) h).1
      omega
    · simp only [List.append_assoc, List.singleton_append] at h
      obtain ⟨_, h⟩ := word_inj (by omega) (by omega) h
      obtain ⟨e, hst⟩ := closed_inj (by simp [List.mem_replicate]) (by simp [List.mem_replicate]) h
      exact ⟨by simpa using congrArg List.length e, hst⟩

/-- A list that opens with its length can be split off. -/
theorem Splits.list (h : Splits f r) :
    Splits (fun l : List α => count l.length ++ l.flatMap f) (List.Forall₂ r) := by
  intro l m s t e
  rw [List.append_assoc, List.append_assoc] at e
  obtain ⟨hl, e⟩ := splits_count _ _ _ _ e
  exact h.flatMap l m s t hl e

theorem splits_number : Splits number (· = ·) := by
  refine .of_length (k := 8) (fun x => length_littleEndian ..) fun x y h => ?_
  have hx := x.bits.toNat_lt
  have hy := y.bits.toNat_lt
  have := littleEndian_inj (by omega) (by omega) h
  cases x; cases y
  exact congrArg Number.mk (UInt64.toNat_inj.1 this)

theorem splits_channels : Splits Color.channels (· = ·) := by
  refine .of_length (k := 4) (fun _ => rfl) fun c d h => ?_
  simp only [Color.channels, List.cons.injEq, and_true] at h
  cases c; cases d
  simp_all

/-! ## Texts and identifiers -/

/-- The greatest byte is no part of a character. -/
theorem ff_notMem_utf8EncodeChar (c : Char) : (0xff : UInt8) ∉ String.utf8EncodeChar c := by
  rw [String.utf8EncodeChar]
  generalize c.val.toNat = v
  have ne : ∀ k < 0xff, (0xff : UInt8) ≠ UInt8.ofNat k := fun k hk e => by
    have := congrArg UInt8.toNat e
    rw [UInt8.toNat_ofNat', Nat.mod_eq_of_lt (by omega)] at this
    exact absurd this (by simp; omega)
  simp only [apply_ite (fun l : List UInt8 => (0xff : UInt8) ∉ l), List.mem_cons, List.not_mem_nil,
    or_false, not_or]
  split
  · exact ne _ (by omega)
  split
  · exact ⟨ne _ (by omega), ne _ (by omega)⟩
  split
  · exact ⟨ne _ (by omega), ne _ (by omega), ne _ (by omega)⟩
  · exact ⟨ne _ (by omega), ne _ (by omega), ne _ (by omega), ne _ (by omega)⟩

theorem ff_notMem_toUTF8 (s : String) : (0xff : UInt8) ∉ s.toUTF8.data.toList := by
  rw [String.toUTF8_eq_toByteArray, ← String.utf8Encode_toList, List.utf8Encode,
    List.toList_data_toByteArray]
  intro h
  obtain ⟨c, _, hc⟩ := List.mem_flatMap.1 h
  exact ff_notMem_utf8EncodeChar c hc

theorem splits_text : Splits text (· = ·) := by
  intro a b s t h
  simp only [text, List.append_assoc, List.singleton_append] at h
  obtain ⟨e, hst⟩ := closed_inj (ff_notMem_toUTF8 a) (ff_notMem_toUTF8 b) h
  exact ⟨String.toByteArray_inj.1 (ByteArray.ext (Array.toList_inj.1 e)), hst⟩

/-- The width of an identifier leaves room for all of it. -/
theorem value_lt_uuidWidth (u : Uuid) : u.value < 256 ^ uuidWidth u := by
  have h : u.value < 2 ^ (u.value.log2 + 1) := Nat.lt_log2_self
  refine Nat.lt_of_lt_of_le h ?_
  rw [show 256 = 2 ^ 8 from rfl, ← Nat.pow_mul]
  refine Nat.pow_le_pow_right (by omega) ?_
  unfold uuidWidth
  omega

theorem splits_uuid : Splits uuid (· = ·) := by
  intro u v s t h
  rw [uuid, uuid, List.append_assoc, List.append_assoc] at h
  obtain ⟨hw, h⟩ := splits_count _ _ _ _ h
  obtain ⟨e, hst⟩ := List.append_inj h (by simp only [List.length_reverse, length_littleEndian, hw])
  refine ⟨?_, hst⟩
  rw [List.reverse_inj, hw] at e
  have := littleEndian_inj (hw ▸ value_lt_uuidWidth u) (value_lt_uuidWidth v) e
  cases u; cases v
  exact congrArg Uuid.mk this

/-! ## Values -/

/-- A tag splits off what stands behind it. -/
theorem tagged_inj {m n : Nat} (hm : m < 256) (hn : n < 256) {l l' s t : Fingerprint}
    (h : (word m ++ l) ++ s = (word n ++ l') ++ t) : m = n ∧ l ++ s = l' ++ t := by
  have hs : UInt64.size = 18446744073709551616 := rfl
  rw [List.append_assoc, List.append_assoc] at h
  exact word_inj (by omega) (by omega) h

theorem splits_value : Splits Value.fingerprint (Value.Match fun i j => i.revision = j.revision) := by
  intro v w s t h
  cases v <;> cases w <;> obtain ⟨e, h⟩ := tagged_inj (by decide) (by decide) h <;> try cases e
  · obtain ⟨e, hst⟩ := splits_uuid _ _ _ _ h
    exact ⟨.image e, hst⟩
  · obtain ⟨rfl, hst⟩ := splits_number _ _ _ _ h
    exact ⟨.number _, hst⟩
  · obtain ⟨rfl, hst⟩ := splits_channels _ _ _ _ h
    exact ⟨.color _, hst⟩

theorem splits_integer : Splits (fun n : Int64 => littleEndian 8 n.toUInt64.toNat) (· = ·) := by
  refine .of_length (k := 8) (fun _ => length_littleEndian ..) fun m n h => ?_
  have hm := m.toUInt64.toNat_lt
  have hn := n.toUInt64.toNat_lt
  have := littleEndian_inj (by omega) (by omega) h
  cases m; cases n
  exact congrArg Int64.ofUInt64 (UInt64.toNat_inj.1 this)

theorem splits_boolean : Splits (fun b : Bool => [if b then 1 else 0]) (· = ·) :=
  .of_length (k := 1) (fun _ => rfl) (by decide)

theorem splits_paramValue : Splits ParamValue.fingerprint (· = ·) := by
  intro v w s t h
  cases v <;> cases w <;> obtain ⟨e, h⟩ := tagged_inj (by decide) (by decide) h <;> try cases e
  · obtain ⟨rfl, hst⟩ := splits_number _ _ _ _ h
    exact ⟨rfl, hst⟩
  · obtain ⟨rfl, hst⟩ := splits_integer _ _ _ _ h
    exact ⟨rfl, hst⟩
  · obtain ⟨rfl, hst⟩ := splits_text _ _ _ _ h
    exact ⟨rfl, hst⟩
  · obtain ⟨rfl, hst⟩ := splits_boolean _ _ _ _ h
    exact ⟨rfl, hst⟩
  · obtain ⟨rfl, hst⟩ := splits_channels _ _ _ _ h
    exact ⟨rfl, hst⟩

end Fingerprint

open Fingerprint

/-! ## Parameters, inputs and keys -/

theorem splits_parameters : Splits Parameters.fingerprint (· = ·) := by
  intro p q s t h
  obtain ⟨e, hst⟩ := (splits_text.pair splits_paramValue).list p.entries q.entries s t h
  refine ⟨Table.ext (List.forall₂_eq_eq_eq ▸ e.imp fun x y h => ?_), hst⟩
  exact Prod.ext h.1 h.2

/-- The order of the names does not matter for look-ups. -/
theorem lookup_sortedByName {α : Type} (t : Table String α) (name : String) :
    Table.lookup name (sortedByName t.entries) = t.get? name := by
  have hp : (sortedByName t.entries).Perm t.entries := List.mergeSort_perm ..
  refine Option.ext fun v => ?_
  rw [Table.lookup_eq_some_iff ((hp.map _).nodup_iff.2 t.nodup), hp.mem_iff,
    Table.get?_eq_some_iff]

theorem inputsFingerprint_inj {s t : Table String Value}
    (h : inputsFingerprint s = inputsFingerprint t) (name : String) :
    Option.Rel (Value.Match fun i j => i.revision = j.revision) (s.get? name) (t.get? name) := by
  have length : ∀ t : Table String Value, (sortedByName t.entries).length = t.size := fun t =>
    (List.mergeSort_perm ..).length_eq
  rw [inputsFingerprint, inputsFingerprint, ← length, ← length] at h
  obtain ⟨e, _⟩ := (splits_text.pair splits_value).list (sortedByName s.entries)
    (sortedByName t.entries) [] [] (by simpa using h)
  rw [← lookup_sortedByName, ← lookup_sortedByName t]
  exact Table.lookup_rel e name

/-- **Equal keys come from one variant, the same parameters and the same inputs.** Images are the
same in that they have the same revision. -/
theorem CacheKey.of_inj {v w : String} {p q : Parameters} {s t : Table String Value}
    (h : CacheKey.of v p s = .of w q t) : v = w ∧ p = q ∧ ∀ name,
      Option.Rel (Value.Match fun i j => i.revision = j.revision) (s.get? name) (t.get? name) := by
  obtain ⟨hv, hf⟩ := CacheKey.mk.inj h
  obtain ⟨hp, hi⟩ := splits_parameters p q _ _ hf
  exact ⟨hv, hp, inputsFingerprint_inj hi⟩

end PixelFlow
