import PixelFlow.Proofs.Method
import PixelFlow.Proofs.Number
import PixelFlow.Proofs.Typed

/-!
# How built-in computes fail

A compute asks for parameters that the check before it has passed and for inputs that have the types
of their sinks. So nearly nothing is left that can go wrong: an image may be without its pixels, and
a number at a sink, which nobody has checked, may be infinite or no number at all.

* `NodeMetadata.Supplied`, `Node.Poised`: a node whose compute may begin.
* `Builtin.fault?`: what is wrong with its inputs; `Outcome.Due`: the outcome that is due to them.
* `Node.Poised.asksNumber`, `Node.Poised.asksMethod`, …: questions that have an answer.
* `Builtin.due_blur`, `Builtin.due_brightness`, …: the computes one after the other.
* **`Builtin.fails_due`**: they fail just where something is wrong with the inputs.
-/

namespace PixelFlow

open Compute

/-- Each sink has a value of its type, or has none and is optional. -/
def NodeMetadata.Supplied (m : NodeMetadata) (inputs : Table String Value) : Prop :=
  ∀ s ∈ m.sinks, match inputs.get? s.name with
    | some v => v.type = s.type
    | none => s.isOptional = true

/-- A node of a built-in variant as it comes, with all defaults. -/
structure Node.Stock (n : Node) : Prop where
  builtin : n.variant ∈ Registry.builtin.variants.values
  ports : n.OfVariant
  defaults : n.parameters = n.metadata.defaultParameters

/-- A node of a built-in variant with any parameters that may stand for the defaults. -/
structure Node.Regular (n : Node) : Prop where
  builtin : n.variant ∈ Registry.builtin.variants.values
  ports : n.OfVariant
  equipped : n.Equipped

/-- **The compute of a node of the variant may begin**: the parameters have passed, and the sinks
have what they need. -/
structure Node.Poised (n : Node) (v : Variant) (inputs : Table String Value) : Prop where
  variant : n.variant = v
  regular : n.Regular
  passed : n.metadata.checkParameters n.id n.parameters = .ok ()
  supplied : n.metadata.Supplied inputs

/-- **What is wrong with the inputs of a node**: the amount of a brightness is not finite, or the
image that a filter is to change has no pixels. -/
def Builtin.fault? (n : Node) (inputs : Table String Value) : Option ComputeError :=
  let amount := (inputs.get? "amount").bind (·.number?)
  let image := (inputs.get? "image").bind (·.image?)
  if n.metadata.id = "brightness" ∧ amount.any (!·.isFinite) then
    some (.invalidParameter n.id "amount" "must be finite")
  else if n.metadata.id ∈ ["blur", "brightness", "sepia"] ∧ image.any (·.picture.isNone) then
    some (.processing n.id "Image has no data")
  else none

/-- **The outcome is due**: the error tells what is wrong with the inputs, or nothing is wrong with
them and all declared outputs are there, with their types. -/
def Outcome.Due (n : Node) (inputs : Table String Value) (o : Outcome) : Prop :=
  match Builtin.fault? n inputs with
  | some e => o = .error e
  | none => ∃ t, o = .ok t ∧ n.variant.declared.Fills t

/-- If the node is to blur by the bell curve, the curve can be made for every deviation that the
check lets through. -/
def Node.Curved (n : Node) : Prop :=
  n.parameters.get? "method" = some (.text "gaussian") → ∀ x : Number,
    (Number.ofDecimal false 1 (-1)).le x = true → x.le 50 = true →
      BlurMethod.sigmaFault? x.toFloat.toFloat32 = none

theorem Node.Stock.regular {n : Node} (h : n.Stock) : n.Regular := by
  have names : ∀ v ∈ Registry.builtin.variants.values,
      (v.metadata.parameters.map (·.name)).Nodup := by decide
  exact ⟨h.builtin, h.ports, Node.equipped_of_defaults (names _ h.builtin) h.defaults⟩

theorem Node.enduring_regular : Node.Enduring Node.Regular where
  congr h hv hq hp := ⟨hv ▸ h.builtin, h.ports.congr hv hq, h.equipped.congr hv hp⟩
  set h hl := ⟨h.builtin, h.ports, h.equipped.insertMany hl⟩

/-! ## Questions that have an answer -/

/-- A number that has passed a range is in it. -/
theorem ParameterDefinition.of_check_range {d : ParameterDefinition} {least greatest x : Number}
    {w : ParamValue} (hd : d.constraints = [.range least greatest]) (hw : d.check w = .ok ())
    (hx : w.number? = some x) : least.le x = true ∧ x.le greatest = true := by
  rw [check_single hd, Constraint.check, hx] at hw
  dsimp only at hw
  split at hw
  · next within => exact Bool.and_eq_true_iff.1 within
  · cases hw

namespace Node.Poised

variable {n : Node} {v : Variant} {inputs : Table String Value} {stamp : Nat} {files : FileStore}

theorem metadata (h : n.Poised v inputs) : n.metadata = v.metadata :=
  congrArg Variant.metadata h.variant

section Parameters

variable (h : n.Poised v inputs) (name : String) {d : ParameterDefinition}
  (hd : v.metadata.parameter? name = some d)

include h hd

/-- A parameter has a value that may stand for its default and has passed. -/
theorem parameter : ∃ w, n.parameters.get? name = some w ∧ d.default.sameKind w = true ∧
    d.check w = .ok () := by
  have hm : d ∈ n.metadata.parameters := h.metadata ▸ List.mem_of_find?_eq_some hd
  have hn : d.name = name := by simpa using List.find?_some hd
  obtain ⟨w, hw, hk⟩ := h.regular.equipped.value d hm
  exact ⟨w, hn ▸ hw, hk, NodeMetadata.checkParameters_ok_iff.1 h.passed d hm w hw⟩

theorem asksNumber (hk : d.default.kind = .number) : ∃ w x, w.number? = some x ∧
    d.check w = .ok () ∧ (n.context inputs stamp files).number name = .ok x := by
  obtain ⟨w, hw, hs, hc⟩ := h.parameter name hd
  obtain ⟨x, hx⟩ : ∃ x, w.number? = some x := by
    rw [ParamValue.sameKind, hk] at hs
    cases w <;> first | exact ⟨_, rfl⟩ | cases hs
  exact ⟨w, x, hx, hc, Context.typedParameter_of_get? hw hx⟩

theorem asksColor (hk : d.default.kind = .color) :
    ∃ x, (n.context inputs stamp files).color name = .ok x := by
  obtain ⟨w, hw, hs, _⟩ := h.parameter name hd
  rw [ParamValue.sameKind, hk] at hs
  cases w <;> first | exact ⟨_, Context.typedParameter_of_get? hw rfl⟩ | cases hs

end Parameters

/-- The method that has passed is read. -/
theorem asksMethod {α : Type} {all : List α} {name : α → String}
    {ofName : String → Except String α} (h : n.Poised v inputs)
    (names : MethodNames v all name ofName) (unknown : String → String) :
    ∃ m, n.parameters.get? "method" = some (.text (name m)) ∧
      Builtin.methodParameter ofName unknown (n.context inputs stamp files) =
        .ok (m, n.context inputs stamp files) := by
  obtain ⟨_, _, _, hp, _⟩ := names.parameter
  obtain ⟨w, hw, _, hc⟩ := h.parameter "method" (by rw [NodeMetadata.parameter?, hp]; rfl)
  obtain ⟨s, hs, rfl⟩ := ParameterDefinition.of_check_oneOf rfl hc
  obtain ⟨lower, m, hm⟩ := names.mem_names_iff.1 hs
  have hname : name m = s := ((names.read s m).1 hm).2.trans lower
  refine ⟨m, hname ▸ hw, ?_⟩
  rw [(names.guarded unknown n.id n.parameters s).computed _ hw, hm]

section Inputs

variable (h : n.Poised v inputs) {s : PortSpec} (hs : s ∈ v.metadata.sinks)

include h hs

/-- What is at a sink has its type. -/
theorem type_eq {w : Value} (hw : inputs.get? s.name = some w) : w.type = s.type := by
  have := h.supplied s (h.metadata ▸ hs)
  rwa [hw] at this

/-- A sink that is not optional has a value. -/
theorem input (hr : s.isOptional = false) : ∃ w, inputs.get? s.name = some w ∧ w.type = s.type := by
  cases hw : inputs.get? s.name with
  | some w => exact ⟨w, rfl, h.type_eq hs hw⟩
  | none =>
    have := h.supplied s (h.metadata ▸ hs)
    rw [hw] at this
    exact absurd (hr.symm.trans this) Bool.false_ne_true

theorem image (ht : s.type = .image) (hr : s.isOptional = false) :
    ∃ i, inputs.get? s.name = some (.image i) := by
  obtain ⟨w, hw, hwt⟩ := h.input hs hr
  rw [ht] at hwt
  cases w <;> first | exact ⟨_, hw⟩ | cases hwt

theorem asksInput (ht : s.type = .number) (hr : s.isOptional = false) :
    ∃ x, (n.context inputs stamp files).inputNumber s.name = .ok x := by
  obtain ⟨w, hw, hwt⟩ := h.input hs hr
  rw [ht] at hwt
  cases w <;> first | exact ⟨_, Context.typedInput_of_get? hw rfl⟩ | cases hwt

end Inputs

/-! ## The end of a compute -/

/-- **A compute that sets its only output** has the outcome that is due, if nothing is wrong. -/
theorem due_sets (h : n.Poised v inputs) (hf : Builtin.fault? n inputs = none) {c' : Context}
    {output : String} {w : Value}
    (hc : v.compute (n.context inputs stamp files) = setOutput output w c')
    (hd : v.declared = Table.ofList [(output, w.type)]) (ho : c'.outputs = ∅)
    (same : c'.declared = (n.context inputs stamp files).declared) :
    Outcome.Due n inputs (v.run (n.context inputs stamp files)) := by
  have declared : (n.context inputs stamp files).declared = n.variant.declared :=
    h.regular.ports.declared
  have ends : v.run (n.context inputs stamp files) = .ok (Table.insert ∅ output w) := by
    rw [run_eq, hc, conclude_setOutput ho]
    rw [same, declared, h.variant, hd]
  have fills := (Builtin.abides v (h.variant ▸ h.regular.builtin)).fills_run rfl ends
  rw [Outcome.Due, hf]
  exact ⟨_, ends, declared ▸ fills⟩

/-- **A filter that has asked for all but its image** fails if the image has no pixels, and goes on
to its end otherwise. -/
theorem due_filter (h : n.Poised v inputs) (hid : v.metadata.id ∈ ["blur", "brightness", "sepia"])
    (hs : .sink "image" .image "Input image" ∈ v.metadata.sinks)
    (hd : v.declared = Table.ofList [("result", .image)])
    (amount : ¬ (n.metadata.id = "brightness" ∧
      ((inputs.get? "amount").bind (·.number?)).any (!·.isFinite)))
    {k : Raster → Compute Unit}
    (hc : v.compute (n.context inputs stamp files) =
      (Builtin.inputRaster "image" >>= k) (n.context inputs stamp files))
    (hk : ∀ r, ∃ r', k r (n.context inputs stamp files) =
      Builtin.outputRaster "result" r' (n.context inputs stamp files)) :
    Outcome.Due n inputs (v.run (n.context inputs stamp files)) := by
  obtain ⟨i, hi⟩ : ∃ i, inputs.get? "image" = some (.image i) := h.image hs rfl rfl
  cases hp : i.picture with
  | none =>
    have fault : Builtin.fault? n inputs = some (.processing n.id "Image has no data") := by
      rw [Builtin.fault?, if_neg amount, hi, if_pos ⟨h.metadata ▸ hid, by simp [Value.image?, hp]⟩]
    rw [Outcome.Due, fault, run_eq, hc, bind_of_error (inputRaster_of_none hi hp)]
    rfl
  | some p =>
    have fault : Builtin.fault? n inputs = none := by
      rw [Builtin.fault?, if_neg amount, hi, if_neg]
      simp [Value.image?, hp]
    obtain ⟨r', hr⟩ := hk p.raster
    rw [bind_of_ok (inputRaster_of_get? hi hp), hr, Builtin.outputRaster,
      bind_of_ok (m := newImage r'.picture none) rfl] at hc
    exact h.due_sets fault hc hd rfl rfl

end Node.Poised

/-! ## One compute after the other -/

namespace Builtin

variable {n : Node} {inputs : Table String Value} {stamp : Nat} {files : FileStore}

/-- Only filters have faults. -/
theorem fault?_of_not_filter (h : n.metadata.id ∉ ["blur", "brightness", "sepia"]) :
    fault? n inputs = none := by
  rw [fault?, if_neg fun e => h (by simp [e.1]), if_neg fun e => h e.1]

theorem due_number (h : n.Poised number inputs) :
    Outcome.Due n inputs (number.run (n.context inputs stamp files)) := by
  obtain ⟨_, x, _, _, asked⟩ := h.asksNumber "value" rfl rfl
  have done : number.compute (n.context inputs stamp files) = _ := bind_of_ok (ask_of_ok asked)
  exact h.due_sets (fault?_of_not_filter (h.metadata ▸ by decide)) done rfl rfl rfl

theorem due_color (h : n.Poised color inputs) :
    Outcome.Due n inputs (color.run (n.context inputs stamp files)) := by
  obtain ⟨x, asked⟩ := h.asksColor "color" rfl rfl
  have done : color.compute (n.context inputs stamp files) = _ := bind_of_ok (ask_of_ok asked)
  exact h.due_sets (fault?_of_not_filter (h.metadata ▸ by decide)) done rfl rfl rfl

theorem due_math (h : n.Poised math inputs) :
    Outcome.Due n inputs (math.run (n.context inputs stamp files)) := by
  obtain ⟨m, _, method⟩ := h.asksMethod mathNames MathMethod.unknown
  obtain ⟨x, first⟩ := h.asksInput (s := .sink "a" .number "First operand") (by decide) rfl rfl
  obtain ⟨y, second⟩ := h.asksInput (s := .sink "b" .number "Second operand") (by decide) rfl rfl
  have done : math.compute (n.context inputs stamp files) = _ :=
    (bind_of_ok method).trans ((bind_of_ok (ask_of_ok first)).trans (bind_of_ok (ask_of_ok second)))
  exact h.due_sets (fault?_of_not_filter (h.metadata ▸ by decide)) done rfl rfl rfl

/-- An image is passed on with its pixels or without. -/
theorem due_imageOutput (h : n.Poised imageOutput inputs) :
    Outcome.Due n inputs (imageOutput.run (n.context inputs stamp files)) := by
  obtain ⟨i, hi⟩ := h.image (s := .sink "image" .image "Image to display") (by decide) rfl rfl
  have asked : (n.context inputs stamp files).inputImage "image" = .ok i :=
    Context.typedInput_of_get? hi rfl
  have done : imageOutput.compute (n.context inputs stamp files) = _ :=
    bind_of_ok (ask_of_ok asked)
  exact h.due_sets (fault?_of_not_filter (h.metadata ▸ by decide)) done rfl rfl rfl

theorem due_blur (h : n.Poised blur inputs) (curved : n.Curved) :
    Outcome.Due n inputs (blur.run (n.context inputs stamp files)) := by
  obtain ⟨m, hm, method⟩ := h.asksMethod blurNames BlurMethod.unknown
  obtain ⟨_, x, hx, passed, asked⟩ := h.asksNumber "sigma" rfl rfl
  obtain ⟨above, below⟩ := ParameterDefinition.of_check_range rfl passed hx
  have filtered : ∀ r, ∃ r', m.filtered x.toFloat.toFloat32 r = .ok r' := by
    intro r
    cases m with
    | gaussian => exact ⟨_, by rw [BlurMethod.filtered, curved hm x above below]⟩
    | _ => exact ⟨_, rfl⟩
  have begun : blur.compute (n.context inputs stamp files) = _ :=
    (bind_of_ok method).trans (bind_of_ok (ask_of_ok asked))
  refine h.due_filter (by decide) (by decide) rfl
    (fun e => absurd (h.metadata ▸ e.1) (by decide)) begun fun r => ?_
  obtain ⟨r', hr⟩ := filtered r
  exact ⟨r', by rw [hr]⟩

/-- The amount of a brightness is not finite only if it comes from the input. -/
theorem asks_amount (h : n.Poised brightness inputs) : ∃ x,
    (if (n.context inputs stamp files).hasInput "amount" then
      (n.context inputs stamp files).inputNumber "amount"
      else (n.context inputs stamp files).number "amount") = .ok x ∧
    ((inputs.get? "amount").bind (·.number?)).any (!·.isFinite) = !x.isFinite := by
  have given : (n.context inputs stamp files).hasInput "amount" = (inputs.get? "amount").isSome :=
    rfl
  cases hw : inputs.get? "amount" with
  | some w =>
    have ht : w.type = .number := h.type_eq (s := (PortSpec.sink "amount" .number
      "Overrides the amount parameter when connected").optional) (by decide) hw
    obtain ⟨x, rfl⟩ : ∃ x, w = .number x := by
      cases w <;> first | exact ⟨_, rfl⟩ | cases ht
    rw [given, hw]
    exact ⟨x, Context.typedInput_of_get? hw rfl, rfl⟩
  | none =>
    obtain ⟨_, x, hx, passed, asked⟩ := h.asksNumber "amount" rfl rfl
    obtain ⟨above, below⟩ := ParameterDefinition.of_check_range rfl passed hx
    have finite : x.isFinite = true :=
      Number.isFinite_of_le (.inr ⟨_, _, _, _, rfl⟩) (.inr ⟨_, _, _, _, rfl⟩) above below
    rw [given, hw]
    exact ⟨x, asked, by rw [finite]; rfl⟩

theorem due_brightness (h : n.Poised brightness inputs) :
    Outcome.Due n inputs (brightness.run (n.context inputs stamp files)) := by
  obtain ⟨x, asked, wired⟩ := asks_amount h
  have begun : brightness.compute (n.context inputs stamp files) = _ :=
    bind_of_ok (ask_of_ok asked)
  cases hx : x.round? with
  | none =>
    have infinite : x.isFinite = false := by rw [← Number.round?_isSome, hx]; rfl
    have fault : fault? n inputs = some (.invalidParameter n.id "amount" "must be finite") := by
      rw [fault?, if_pos ⟨h.metadata ▸ rfl, by rw [wired, infinite]; rfl⟩]
    rw [Outcome.Due, fault, run_eq, begun, hx]
    rfl
  | some k =>
    have finite : x.isFinite = true := by rw [← Number.round?_isSome, hx]; rfl
    refine h.due_filter (by decide) (by decide) rfl
      (fun e => ?_) (by rw [begun, hx]) fun r => ⟨_, rfl⟩
    rw [wired, finite] at e
    cases e.2

theorem due_sepia (h : n.Poised sepia inputs) :
    Outcome.Due n inputs (sepia.run (n.context inputs stamp files)) := by
  have tone : ∃ x, (if (n.context inputs stamp files).hasInput "tone" then
      (n.context inputs stamp files).inputColor "tone" else .ok .sepia) = .ok x := by
    have given : (n.context inputs stamp files).hasInput "tone" = (inputs.get? "tone").isSome := rfl
    cases hw : inputs.get? "tone" with
    | some w =>
      have ht : w.type = .color := h.type_eq (s := (PortSpec.sink "tone" .color
        "Tone color").withDefault (.color .sepia)) (by decide) hw
      rw [given, hw]
      cases w <;> first | exact ⟨_, Context.typedInput_of_get? hw rfl⟩ | cases ht
    | none => exact ⟨.sepia, by rw [given, hw]; rfl⟩
  obtain ⟨tone, first⟩ := tone
  obtain ⟨_, x, _, _, second⟩ := h.asksNumber "intensity" rfl rfl
  have begun : sepia.compute (n.context inputs stamp files) = _ :=
    (bind_of_ok (ask_of_ok first)).trans (bind_of_ok (ask_of_ok second))
  exact h.due_filter (by decide) (by decide) rfl
    (fun e => absurd (h.metadata ▸ e.1) (by decide)) begun fun r => ⟨_, rfl⟩

/-- **Every compute that may begin has the outcome that is due**, if it reads no file. -/
theorem due {v : Variant} (h : n.Poised v inputs) (source : v.metadata.id ≠ "image_source")
    (curved : n.Curved) : Outcome.Due n inputs (v.run (n.context inputs stamp files)) := by
  have hv := Registry.mem_builtin.1 (h.variant ▸ h.regular.builtin)
  simp only [List.mem_cons, List.not_mem_nil, or_false] at hv
  rcases hv with rfl | rfl | rfl | rfl | rfl | rfl | rfl | rfl
  · exact absurd rfl source
  · exact due_imageOutput h
  · exact due_blur h curved
  · exact due_brightness h
  · exact due_sepia h
  · exact due_number h
  · exact due_color h
  · exact due_math h

/-- A blur comes in and is set to sharpen; what is not a parameter of it is refused. -/
def sharpening : List Edit :=
  [.addFresh (.new blur 0),
   .setParameters ⟨.mint 0 0⟩ (.ofList [("sigma", .integer 3), ("method", .text "sharpen")]),
   .setParameters ⟨.mint 0 0⟩ (.ofList [("radius", .number 1)])]

/-- The blur after the edits. -/
def sharpener : Node :=
  { Node.new blur 0 with
    parameters := .ofList [("method", .text "sharpen"), ("sigma", .integer 3)] }

end Builtin

end PixelFlow
