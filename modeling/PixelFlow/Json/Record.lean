import PixelFlow.Json.Basic
import PixelFlow.Table

/-!
# Records and alternatives as JSON

A record is an object with a member for each field; it may also be read from an array of the
fields in order. An alternative is written by its name alone, as an object whose one member has
its name, or as a pair of a tag and a payload.

* `Json.record?`: the fields of a record.
* `Json.case?`, `Json.bareCase?`: an alternative by its name.
* **`Json.tagged?`**: an alternative by a tag beside its payload.
-/

namespace PixelFlow.Json

/-- The fields of a record. -/
abbrev Fields := Table String Json

/-- Entries as a table, unless a key is repeated. -/
def distinctFields? (entries : List (String × Json)) : Option Fields :=
  if h : (entries.map Prod.fst).Nodup then some ⟨entries, h⟩ else none

/-- The fields of an object whose names are asked for; others are skipped. -/
def members? (names : List String) : Json → Option Fields
  | object members => distinctFields? (members.filter fun m => m.1 ∈ names)
  | _ => none

/-- The fields of a record from an object or from an array. The fields that have a default come
last and may be missing at the end of an array. -/
def record? (required defaulted : List String) (j : Json) : Option Fields :=
  match j with
  | array items =>
    let names := required ++ defaulted
    if required.length ≤ items.length ∧ items.length ≤ names.length then
      distinctFields? (names.zip items)
    else none
  | j => members? (required ++ defaulted) j

namespace Fields

/-- A field that must be there. -/
def field? {α : Type} (f : Fields) (name : String) (decode : Json → Option α) : Option α :=
  f.get? name >>= decode

/-- A field that may be absent or `null`. -/
def optional? {α : Type} (f : Fields) (name : String) (decode : Json → Option α) :
    Option (Option α) :=
  match f.get? name with
  | none => some none
  | some j => option? decode j

/-- A field with a default. -/
def defaulted? {α : Type} (f : Fields) (name : String) (default : α) (decode : Json → Option α) :
    Option α :=
  match f.get? name with
  | none => some default
  | some j => decode j

end Fields

/-! ## Alternatives by name -/

/-- The name of an alternative, and its payload if it has one. -/
def case? : Json → Option (String × Option Json)
  | text s => some (s, none)
  | object [(name, payload)] => some (name, some payload)
  | _ => none

/-- The name of an alternative without a payload, which may be written as `null`. -/
def bareCase? (j : Json) : Option String :=
  match case? j with
  | some (name, none) | some (name, some null) => some name
  | _ => none

/-- Read an alternative among those that have a name and no payload. -/
def choice? {α : Type} (choices : List α) (name : α → String) (j : Json) : Option α := do
  let s ← bareCase? j
  choices.find? fun a => name a == s

def ofCase (name : String) (payload : Json) : Json := object [(name, payload)]

/-! ## Alternatives by tag -/

def ofTagged (tag content name : String) (payload : Json) : Json :=
  object [(tag, text name), (content, payload)]

/-- The name in the tag, and the payload if there is one. In an array the tag is a plain text. A
payload in front of its tag has to be readable in all its parts. -/
def tagged? (tag content : String) : Json → Option (String × Option Json)
  | array [text name, payload] => some (name, some payload)
  | object members =>
    match members.filter fun m => m.1 = tag ∨ m.1 = content with
    | [(k, j)] => if k = tag then (bareCase? j).map fun s => (s, none) else none
    | [(k, j), (k', j')] =>
      if k = tag ∧ k' = content then (bareCase? j).map fun s => (s, some j')
      else if k = content ∧ k' = tag ∧ j.isReadable then
        (bareCase? j').map fun s => (s, some j)
      else none
    | _ => none
  | _ => none

end PixelFlow.Json
