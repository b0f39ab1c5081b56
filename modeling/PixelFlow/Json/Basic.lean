import PixelFlow.Number

/-!
# JSON trees

A document is a tree. Objects keep their members in order, with repeated keys, so that a reader of
records can refuse a repetition.

* `Json`: the trees, with a leaf for what is well formed and yet has no value.
* `Json.isReadable`: whether no such leaf occurs.
* `Json.ofNumber`, `Json.number?`: numbers; those that are not finite are written as `null`.
-/

namespace PixelFlow

inductive Json
  | null
  | boolean (b : Bool)
  /-- A number that was written as an integer. -/
  | integer (n : Int)
  | decimal (x : Number)
  | text (s : String)
  | array (items : List Json)
  | object (members : List (String × Json))
  /-- A well-formed part that has no value, such as a number beyond all bounds. It may be skipped
  and cannot be read. -/
  | unreadable
deriving BEq, Repr, Inhabited

namespace Json

mutual

/-- Whether every part of a tree has a value. -/
def isReadable : Json → Bool
  | unreadable => false
  | array items => areReadable items
  | object members => haveReadableValues members
  | _ => true

def areReadable : List Json → Bool
  | [] => true
  | j :: rest => j.isReadable && areReadable rest

def haveReadableValues : List (String × Json) → Bool
  | [] => true
  | (_, j) :: rest => j.isReadable && haveReadableValues rest

end

/-! ## Leaves -/

def ofNumber (x : Number) : Json := if x.isFinite then decimal x else null

def number? : Json → Option Number
  | decimal x => some x
  | integer n => some (.ofInt n)
  | _ => none

def integer? : Json → Option Int
  | integer n => some n
  | _ => none

/-- An integer from zero up to but not including a bound. -/
def below? (bound : Nat) : Json → Option Nat
  | integer n => if 0 ≤ n ∧ n < bound then some n.toNat else none
  | _ => none

def text? : Json → Option String
  | text s => some s
  | _ => none

def boolean? : Json → Option Bool
  | boolean b => some b
  | _ => none

/-! ## Lists and optional values -/

def ofList {α : Type} (encode : α → Json) (l : List α) : Json := array (l.map encode)

def list? {α : Type} (decode : Json → Option α) : Json → Option (List α)
  | array items => items.mapM decode
  | _ => none

def ofOption {α : Type} (encode : α → Json) : Option α → Json
  | none => null
  | some a => encode a

def option? {α : Type} (decode : Json → Option α) : Json → Option (Option α)
  | null => some none
  | j => (decode j).map some

end Json

end PixelFlow
