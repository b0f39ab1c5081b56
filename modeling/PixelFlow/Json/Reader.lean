import PixelFlow.Json.Token

/-!
# Reading JSON texts

Tokens are read one after the other; containers that are still open lie on a stack. A container
that lies too deep is unreadable, though its text must be well formed.

* `Reader.step`: one token.
* **`Json.ofText?`**: the tree of a text.
-/

namespace PixelFlow

namespace Reader

/-- A container that is still open, with its parts so far, last one first. -/
inductive Open
  | array (items : List Json)
  /-- An object, the name of a member whose value is to come, and whether all names are
  readable. -/
  | object (members : List (String × Json)) (name : Option String) (named : Bool)
deriving Repr

/-- What may come next. -/
inductive Want
  /-- A value. -/
  | value
  /-- A value, or the end of an array that is empty so far. -/
  | valueOrEnd
  /-- The name of a member. -/
  | name
  /-- The name of a member, or the end of an object that is empty so far. -/
  | nameOrEnd
  /-- The colon after a name. -/
  | colon
  /-- A comma or the end of the innermost container. -/
  | commaOrEnd
  /-- Nothing more. -/
  | nothing
deriving DecidableEq, Repr

structure State where
  stack : List Open
  want : Want
  /-- The tree, once it is complete. -/
  result : Json

def initial : State := ⟨[], .value, .null⟩

/-- How many containers may lie within each other. -/
def depthLimit : Nat := 127

/-- Hand a complete value to the innermost container. -/
def receive (stack : List Open) (j : Json) : State :=
  match stack with
  | [] => ⟨[], .nothing, j⟩
  | .array items :: stack => ⟨.array (j :: items) :: stack, .commaOrEnd, .null⟩
  | .object members name named :: stack =>
    ⟨.object ((name.getD "", j) :: members) none named :: stack, .commaOrEnd, .null⟩

/-- Hand a container on, which lay within the ones of the stack. -/
def close (stack : List Open) (j : Json) : State :=
  receive stack (if stack.length < depthLimit then j else .unreadable)

/-- Take the name of a member. -/
def takeName (stack : List Open) (name : Option String) : Option State :=
  match stack with
  | .object members _ named :: stack =>
    some ⟨.object members name (named && name.isSome) :: stack, .colon, .null⟩
  | _ => none

/-- The value that a quoted text stands for. -/
def textOf : Option String → Json
  | some s => .text s
  | none => .unreadable

/-- The value that an object stands for. -/
def objectOf (members : List (String × Json)) (named : Bool) : Json :=
  if named then .object members.reverse else .unreadable

def step (s : State) : Token → Option State
  | .leaf j =>
    if s.want = .value ∨ s.want = .valueOrEnd then some (receive s.stack j) else none
  | .quoted text =>
    match s.want with
    | .value | .valueOrEnd => some (receive s.stack (textOf text))
    | .name | .nameOrEnd => takeName s.stack text
    | _ => none
  | .mark '[' =>
    if s.want = .value ∨ s.want = .valueOrEnd then some ⟨.array [] :: s.stack, .valueOrEnd, .null⟩
    else none
  | .mark '\x7b' =>
    if s.want = .value ∨ s.want = .valueOrEnd then
      some ⟨.object [] none true :: s.stack, .nameOrEnd, .null⟩
    else none
  | .mark ']' =>
    match s.stack with
    | .array items :: stack =>
      if s.want = .valueOrEnd ∨ s.want = .commaOrEnd then some (close stack (.array items.reverse))
      else none
    | _ => none
  | .mark '\x7d' =>
    match s.stack with
    | .object members _ named :: stack =>
      if s.want = .nameOrEnd ∨ s.want = .commaOrEnd then some (close stack (objectOf members named))
      else none
    | _ => none
  | .mark ',' =>
    match s.want, s.stack with
    | .commaOrEnd, .array _ :: _ => some { s with want := .value }
    | .commaOrEnd, .object _ _ _ :: _ => some { s with want := .name }
    | _, _ => none
  | .mark ':' => if s.want = .colon then some { s with want := .value } else none
  | .mark _ => none

end Reader

/-- The tree of a text that is one JSON value with blanks around it. -/
def Json.ofText? (s : String) : Option Json := do
  let final ← (← Token.scan s.toList).foldlM Reader.step Reader.initial
  if final.want = .nothing then return final.result else none

end PixelFlow
