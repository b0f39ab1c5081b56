import PixelFlow.Builtin.Arithmetic
import PixelFlow.Builtin.Blur
import PixelFlow.Proofs.Fills
import PixelFlow.Proofs.Parameter

/-!
# Methods by name

Two variants compute by a method that a parameter names. The compute reads the name in any case of
the letters A to Z, but the constraint on the parameter compares it with the names as they are. So
the check lets a method through only if the compute can read it, and not always if it can.

* `MethodNames`: the methods of a variant, and how their names are read.
* `MethodNames.mem_names_iff`: the options are the names that are read and have no capital letter.
* `MethodGuarded`: whether the check lets a text through, and what the compute then makes of it.
* **`Builtin.methods_guarded`**: both variants.
* `Builtin.not_methodsAgree`: names that are refused although the compute reads them.
-/

namespace PixelFlow

/-- A text that is to be one of several is compared with them as they are. -/
theorem ParameterDefinition.check_oneOf {d : ParameterDefinition} {options : List String}
    {s : String} (hd : d.constraints = [.oneOf options]) :
    d.check (.text s) = if s ∈ options then .ok () else .error (.notAnOption s options) :=
  check_single hd _

/-- What passes is one of the texts. -/
theorem ParameterDefinition.of_check_oneOf {d : ParameterDefinition} {options : List String}
    {v : ParamValue} (hd : d.constraints = [.oneOf options]) (hv : d.check v = .ok ()) :
    ∃ s ∈ options, v = .text s := by
  cases v with
  | text s =>
    rw [check_oneOf hd] at hv
    split at hv
    · next hs => exact ⟨s, hs, rfl⟩
    · cases hv
  | _ =>
    rw [check_single hd] at hv
    cases hv

/-- **The methods of a variant by their names**: its first parameter is one of the names, which have
no capital letter, and a text is read as the method whose name it is in lower case. -/
structure MethodNames {α : Type} (v : Variant) (all : List α) (name : α → String)
    (ofName : String → Except String α) : Prop where
  parameter : ∃ default description others,
    v.metadata.parameters = ⟨"method", default, description, [.oneOf (all.map name)]⟩ :: others ∧
      ∀ d ∈ others, d.name ≠ "method"
  read : ∀ s m, ofName s = .ok m ↔ m ∈ all ∧ name m = Text.asciiLowercase s
  lowercase : ∀ m, Text.asciiLowercase (name m) = name m

/-- **Whether the check lets a text through as the method, and what the compute makes of it.** -/
structure MethodGuarded {α : Type} (v : Variant) (all : List α) (name : α → String)
    (ofName : String → Except String α) (unknown : String → String) (id : NodeId)
    (ps : Parameters) (s : String) : Prop where
  /-- It is let through if it can be read and has no capital letter. -/
  accepted : v.metadata.checkParameters id (ps.insert "method" (.text s)) = .ok () ↔
    (Text.asciiLowercase s = s ∧ ∃ m, ofName s = .ok m) ∧
      v.metadata.checkParameters id (ps.erase "method") = .ok ()
  /-- Else it is refused with the names of the methods. -/
  refused : ¬ (Text.asciiLowercase s = s ∧ ∃ m, ofName s = .ok m) →
    v.metadata.checkParameters id (ps.insert "method" (.text s)) =
      .error (.invalidParameter id "method"
        (Constraint.Violation.notAnOption s (all.map name)).message)
  /-- It can be read if the check lets it through in lower case. -/
  read : (∃ m, ofName s = .ok m) ↔ Text.asciiLowercase s ∈ all.map name
  /-- The compute goes on with the method that is read, and fails if there is none. -/
  computed : ∀ c : Context, c.parameters.get? "method" = some (.text s) →
    Builtin.methodParameter ofName unknown c =
      match ofName s with
      | .ok m => .ok (m, c)
      | .error other => .error (.error (c.invalidParameter "method" (unknown other)))

/-- The check lets a method through just where the compute can read it. -/
def MethodsAgree {α : Type} (v : Variant) (ofName : String → Except String α) : Prop :=
  ∀ (id : NodeId) (ps : Parameters) (s : String),
    v.metadata.checkParameters id (ps.erase "method") = .ok () →
    (v.metadata.checkParameters id (ps.insert "method" (.text s)) = .ok () ↔
      ∃ m, ofName s = .ok m)

namespace MethodNames

variable {α : Type} {v : Variant} {all : List α} {name : α → String}
  {ofName : String → Except String α} {s : String}

theorem read_iff (h : MethodNames v all name ofName) :
    (∃ m, ofName s = .ok m) ↔ Text.asciiLowercase s ∈ all.map name := by
  simp only [h.read, List.mem_map]

/-- **The options are the names that are read and have no capital letter.** -/
theorem mem_names_iff (h : MethodNames v all name ofName) :
    s ∈ all.map name ↔ Text.asciiLowercase s = s ∧ ∃ m, ofName s = .ok m := by
  rw [h.read_iff]
  constructor
  · intro hs
    obtain ⟨m, _, rfl⟩ := List.mem_map.1 hs
    rw [h.lowercase]
    exact ⟨rfl, hs⟩
  · rintro ⟨hl, hs⟩
    exact hl ▸ hs

/-- The check of a text as the method, and then that of all other parameters. -/
theorem checkParameters_insert (h : MethodNames v all name ofName) (id : NodeId) (ps : Parameters)
    (s : String) : v.metadata.checkParameters id (ps.insert "method" (.text s)) =
      if s ∈ all.map name then v.metadata.checkParameters id (ps.erase "method")
      else .error (.invalidParameter id "method"
        (Constraint.Violation.notAnOption s (all.map name)).message) := by
  obtain ⟨default, description, others, hp, distinct⟩ := h.parameter
  have rest : ∀ d ∈ others, (ps.insert "method" (.text s)).get? d.name =
      (ps.erase "method").get? d.name := fun d hd => by
    rw [Table.get?_insert, Table.get?_erase, if_neg (distinct d hd).symm,
      if_neg (distinct d hd).symm]
  have gone : (ps.erase "method").get? "method" = none := by rw [Table.get?_erase, if_pos rfl]
  rw [NodeMetadata.checkParameters, NodeMetadata.checkParameters, hp, List.forM, List.forM,
    Table.get?_insert_self, gone, forM_congr fun d hd => by rw [rest d hd]]
  dsimp only
  rw [ParameterDefinition.check_oneOf rfl]
  split <;> rfl

theorem guarded (h : MethodNames v all name ofName) (unknown : String → String) (id : NodeId)
    (ps : Parameters) (s : String) : MethodGuarded v all name ofName unknown id ps s where
  accepted := by
    rw [h.checkParameters_insert, ← h.mem_names_iff]
    split
    · next hs => exact (and_iff_right hs).symm
    · next hs => exact ⟨fun e => (nomatch e), fun e => (hs e.1).elim⟩
  refused hs := by rw [h.checkParameters_insert, if_neg (mt h.mem_names_iff.1 hs)]
  read := h.read_iff
  computed c hs := by
    have text : c.text "method" = .ok s := Context.typedParameter_of_get? hs rfl
    rw [Builtin.methodParameter, Compute.ask_eq, text]
    show Except.mapError _ (match ofName s with | .ok m => _ | .error other => _) >>= _ = _
    cases ofName s <;> rfl

/-- A method that is read but not written in lower case is refused. -/
theorem not_agree (h : MethodNames v all name ofName) {m : α} (hm : m ∈ all)
    (hs : name m = Text.asciiLowercase s) (capital : Text.asciiLowercase s ≠ s) :
    ¬ MethodsAgree v ofName := by
  intro agree
  have others : v.metadata.checkParameters default ((∅ : Parameters).erase "method") = .ok () :=
    NodeMetadata.checkParameters_ok_iff.2 fun _ _ _ h => nomatch h
  have accepted := (agree default ∅ s others).2 ⟨m, (h.read s m).2 ⟨hm, hs⟩⟩
  rw [h.checkParameters_insert] at accepted
  split at accepted
  · next listed => exact capital (h.mem_names_iff.1 listed).1
  · cases accepted

end MethodNames

namespace Builtin

theorem mathNames : MethodNames math MathMethod.all MathMethod.name MathMethod.ofName where
  parameter := ⟨_, _, [], rfl, fun _ hd => (List.not_mem_nil hd).elim⟩
  read s m := by
    have all : m ∈ MathMethod.all := by cases m <;> decide
    rw [MathMethod.ofName, and_iff_right all]
    generalize Text.asciiLowercase s = t
    split <;> cases m <;> simp_all [MathMethod.name, eq_comm]
  lowercase m := by cases m <;> decide

theorem blurNames : MethodNames blur BlurMethod.all BlurMethod.name BlurMethod.ofName where
  parameter := ⟨_, _, _, rfl, by decide⟩
  read s m := by
    have all : m ∈ BlurMethod.all := by cases m <;> decide
    rw [BlurMethod.ofName, and_iff_right all]
    generalize Text.asciiLowercase s = t
    split <;> cases m <;> simp_all [BlurMethod.name, eq_comm]
  lowercase m := by cases m <;> decide

/-- **The check lets a text through to the compute of either variant if the compute can read it as
a method and it has no capital letter**; so what is let through can be read, and what can be read is
let through in lower case. The arithmetic has no other parameter. -/
theorem methods_guarded (id : NodeId) (ps : Parameters) (s : String) :
    MethodGuarded math MathMethod.all MathMethod.name MathMethod.ofName MathMethod.unknown id ps s ∧
    math.metadata.checkParameters id (ps.erase "method") = .ok () ∧
    MethodGuarded blur BlurMethod.all BlurMethod.name BlurMethod.ofName BlurMethod.unknown id ps
      s := by
  refine ⟨mathNames.guarded _ id ps s, ?_, blurNames.guarded _ id ps s⟩
  refine NodeMetadata.checkParameters_ok_iff.2 fun d hd v hv => ?_
  obtain rfl := List.mem_singleton.1 hd
  rw [Table.get?_erase, if_pos rfl] at hv
  cases hv

/-- **The name of a method in capital letters is refused although the compute reads it.** -/
theorem not_methodsAgree :
    ¬ MethodsAgree math MathMethod.ofName ∧ ¬ MethodsAgree blur BlurMethod.ofName :=
  ⟨mathNames.not_agree (s := "MULTIPLY") (m := .multiply) (by decide) (by decide) (by decide),
    blurNames.not_agree (s := "BOX") (m := .box) (by decide) (by decide) (by decide)⟩

end Builtin

end PixelFlow
