import PixelFlow.Proofs.Table
import PixelFlow.Value
import Mathlib.Data.Option.Basic

/-!
# Values up to their images

Numbers and colors are what they are, but an image has a revision that has nothing to do with what
it shows. Two values match if they are equal apart from images, which are related in a given way.

* `Image.Alike`: the images show the same.
* **`Value.Match`**: values that are equal apart from images.
* `Value.Match.eq`: if the images are equal, so are the values.
* `Value.Agree`: values, or their absence, that are equal apart from revisions.
-/

namespace PixelFlow

/-- The images show the same, whatever their revisions are. -/
def Image.Alike (i j : Image) : Prop := i.metadata = j.metadata ∧ i.picture = j.picture

theorem Image.Alike.symm {i j : Image} (h : i.Alike j) : j.Alike i := ⟨h.1.symm, h.2.symm⟩

theorem Image.Alike.trans {i j k : Image} (h : i.Alike j) (h' : j.Alike k) : i.Alike k :=
  ⟨h.1.trans h'.1, h.2.trans h'.2⟩

/-- The values are equal, or they are images that are related. -/
inductive Value.Match (r : Image → Image → Prop) : Value → Value → Prop
  | image {i j : Image} (h : r i j) : Match r (.image i) (.image j)
  | number (x : Number) : Match r (.number x) (.number x)
  | color (c : Color) : Match r (.color c) (.color c)

namespace Value

variable {r s : Image → Image → Prop} {v w : Value}

theorem Match.mono (h : v.Match r w) (hrs : ∀ i j, v = .image i → w = .image j → r i j → s i j) :
    v.Match s w := by
  cases h with
  | image h => exact .image (hrs _ _ rfl rfl h)
  | number x => exact .number x
  | color c => exact .color c

theorem Match.eq (h : v.Match r w) (hr : ∀ i j, v = .image i → w = .image j → r i j → i = j) :
    v = w := by
  cases h with
  | image h => rw [hr _ _ rfl rfl h]
  | number x => rfl
  | color c => rfl

theorem Match.of_eq (h : ∀ i, v = .image i → r i i) : v.Match r v := by
  cases v with
  | image i => exact .image (h i rfl)
  | number x => exact .number x
  | color c => exact .color c

/-- The values are the same, apart from the revisions of images. -/
abbrev Agree : Option Value → Option Value → Prop := Option.Rel (Match Image.Alike)

namespace Agree

variable {v w x : Option Value}

theorem refl (v : Option Value) : Agree v v := by
  cases v with
  | none => exact .none
  | some v => exact .some (.of_eq fun _ _ => ⟨rfl, rfl⟩)

theorem symm (h : Agree v w) : Agree w v := by
  cases h with
  | none => exact .none
  | some h =>
    refine .some ?_
    cases h with
    | image h => exact .image h.symm
    | number x => exact .number x
    | color c => exact .color c

theorem trans (h : Agree v w) (h' : Agree w x) : Agree v x := by
  cases h with
  | none => exact h'
  | some h =>
    cases h' with
    | some h' =>
      refine .some ?_
      cases h with
      | image h =>
        cases h' with
        | image h' => exact .image (h.trans h')
      | number x => exact h'
      | color c => exact h'

end Agree

end Value

end PixelFlow
