import PixelFlow.Builtin.Arithmetic
import PixelFlow.Builtin.Blur
import PixelFlow.Builtin.Constant
import PixelFlow.Builtin.Picture
import PixelFlow.Builtin.Tone
import PixelFlow.Text.Search

/-!
# The registry of variants

A registry holds variants by the identifiers in their metadata and, beside them, an index from
categories to identifiers. A later registration replaces an earlier one of the same identifier and
comes last.

* `Registry.register`, `Registry.unregister`: the changes, which keep both indexes in step.
* `Registry.search`, `Registry.groupedByCategory`: what a palette shows.
* `Registry.builtin`: the eight variants that come with the library.
-/

namespace PixelFlow

structure Registry where
  variants : Table String Variant
  categories : Table Category (List String)

namespace Registry

def empty : Registry := ⟨∅, ∅⟩

/-- The identifiers, in the order of their registration. -/
def ids (r : Registry) : List String := r.variants.keys

def variant? (r : Registry) (id : String) : Option Variant := r.variants.get? id

def metadata? (r : Registry) (id : String) : Option NodeMetadata :=
  (r.variant? id).map (·.metadata)

def contains (r : Registry) (id : String) : Bool := r.variants.contains id

def size (r : Registry) : Nat := r.variants.size

/-- The identifiers that the index lists under a category. -/
def idsOf (r : Registry) (c : Category) : List String := (r.categories.get? c).getD []

/-- Remove a variant from both indexes. -/
def unregister (r : Registry) (id : String) : Registry :=
  match r.variants.get? id with
  | none => r
  | some v =>
    { variants := r.variants.erase id
      categories := r.categories.modify v.metadata.category (·.filter (· ≠ id)) }

/-- Add a variant; an earlier one of the same identifier is removed first. -/
def register (r : Registry) (v : Variant) : Registry :=
  let r := r.unregister v.metadata.id
  { variants := r.variants.insert v.metadata.id v
    categories :=
      r.categories.insert v.metadata.category (r.idsOf v.metadata.category ++ [v.metadata.id]) }

/-- The identifiers of the variants that show a text in their identifier, name or description,
whatever its case. -/
def search (r : Registry) (query : String) : List String :=
  let query := Text.lowercase query
  let shows (m : NodeMetadata) :=
    Text.foundIn query m.id || Text.foundIn query m.name || Text.foundIn query m.description
  (r.variants.values.filter fun v => shows v.metadata).map (·.metadata.id)

/-- Add the metadata of a variant to those of its category. -/
def collect (t : Table Category (List NodeMetadata)) (v : Variant) :
    Table Category (List NodeMetadata) :=
  t.insert v.metadata.category ((t.get? v.metadata.category).getD [] ++ [v.metadata])

/-- All metadata by category, in the order in which the categories first occur, and in each of
them by name. -/
def groupedByCategory (r : Registry) : Table Category (List NodeMetadata) :=
  (r.variants.values.foldl collect ∅).map (·.mergeSort fun a b => a.name ≤ b.name)

def builtin : Registry :=
  [Builtin.imageSource, Builtin.imageOutput, Builtin.blur, Builtin.brightness, Builtin.sepia,
   Builtin.number, Builtin.color, Builtin.math].foldl register empty

end Registry

end PixelFlow
