import PixelFlow.CommandLine.Pipeline
import PixelFlow.Proofs.Engine.Snapshot
import PixelFlow.Proofs.Fills
import PixelFlow.Proofs.Parameter

/-!
# What the stages of a pipeline come to

What a pipeline is to yield can be told without an engine: the picture at the path goes through the
chosen filters one after the other, and the first fault ends it. A node of a stage comes to just
this, whichever engine it is in.

* `Pipeline.read`, `Pipeline.blurred`, `Pipeline.brightened`, `Pipeline.toned`: the stages.
* **`Pipeline.composed`**: the stages that are chosen, one after the other.
* `Outcome.Yields`: an outcome is a picture at an output, or an error.
* **`Node.Opens`**, **`Node.Filters`**: a node comes to a picture, or to what is made of one.
* `Pipeline.opens_source`, `Pipeline.makes_blur`, …: the stages one after the other.
-/

namespace PixelFlow

open Wave Compute

namespace Pipeline

/-! ## Stages without an engine -/

/-- What can be a part of a pipeline. -/
inductive Part
  | source
  | blur
  | brightness
  | sepia
  | output
deriving DecidableEq, Repr

/-- The parts of a pipeline in their order. -/
def parts (o : PipelineOptions) : List Part :=
  [.source] ++ (o.blur.toList.map fun _ => .blur) ++
    (o.brightness.toList.map fun _ => .brightness) ++
    (o.sepia.toList.map fun _ => .sepia) ++ [.output]

/-- A parameter of a node has to be between two bounds. -/
def within (id : NodeId) (name : String) (least greatest x : Number) : Except ComputeError Unit :=
  if least.le x && x.le greatest then .ok ()
  else .error (.invalidParameter id name (Constraint.Violation.outside x least greatest).message)

/-- The picture at a path with an extension that is supported. -/
def read (load : Picture.Loader) (files : FileStore) (path : String) (id : NodeId) :
    Except ComputeError Picture := do
  if Text.allBlank path then
    throw (.invalidParameter id "path" Constraint.Violation.blank.message)
  let extension := Text.lowercase ((Path.extension? path).getD "")
  if extension ∉ Builtin.supportedExtensions then
    throw (.invalidParameter id "path" s!"unsupported image format '{extension}'")
  match load files path with
  | .ok p => return p
  | .error (.unreadable reason) => throw (.resource id path reason)
  | .error (.panic message) => throw (.panicked id message)

/-- A filter with the node in whose name it fails. -/
abbrev Filter := NodeId → Picture → Except ComputeError Picture

def blurred (m : BlurMethod) (sigma : Number) : Filter := fun id p => do
  within id "sigma" (.ofDecimal false 1 (-1)) 50 sigma
  match m.filtered sigma.toFloat.toFloat32 p.raster with
  | .ok r => return r.picture
  | .error message => throw (.panicked id message)

def brightened (amount : Number) : Filter := fun id p => do
  within id "amount" (.ofInt (-255)) (.ofInt 255) amount
  match amount.round? with
  | some n => return (p.raster.brightened (max (-255) (min 255 n))).picture
  | none => throw (.invalidParameter id "amount" "must be finite")

def toned (intensity : Number) : Filter := fun id p => do
  within id "intensity" 0 1 intensity
  return (p.raster.toned .sepia (Builtin.unitInterval intensity).toFloat.toFloat32).picture

/-- **The picture at a path, blurred, brightened and toned in this order, each only if it is
chosen**; or the fault of the first stage that fails, in the name of its node. -/
def composed (load : Picture.Loader) (files : FileStore) (path : String) (o : PipelineOptions)
    (names : Part → NodeId) : Except ComputeError Picture := do
  let p ← read load files path (names .source)
  let p ← o.blur.elim (pure p) fun m => blurred m (o.sigma.getD 2) (names .blur) p
  let p ← o.brightness.elim (pure p) fun x => brightened x (names .brightness) p
  o.sepia.elim (pure p) fun x => toned x (names .sepia) p

end Pipeline

/-! ## Nodes that take and give images -/

/-- What a node comes to on given inputs. -/
def Node.comesTo (n : Node) (inputs : Table String Value) (stamp : Nat) (files : FileStore) :
    Outcome := do
  n.metadata.checkParameters n.id n.parameters
  n.variant.run (n.context inputs stamp files)

theorem Graph.outcome?_of_inputs {g : Graph} {n : Node} {inputs : Table String Value}
    (hi : g.inputs n = .ok inputs) (files : FileStore) (stamp : Nat) :
    g.outcome? files n stamp = some (n.comesTo inputs stamp files) := by
  rw [outcome?, hi, Node.comesTo]
  dsimp only
  cases n.metadata.checkParameters n.id n.parameters <;> rfl

/-- The outcome is an image of the picture at the output of the node, or the error. -/
def Outcome.Yields (n : Node) (output : String) : Outcome → Except ComputeError Picture → Prop
  | .ok t, .ok p => ∃ q i, n.portNamed? output = some q ∧
      (outputsByPort n t).get? q.id = some (.image i) ∧ i.picture = some p
  | .error x, .error y => x = y
  | _, _ => False

/-- The inputs of a node that has an image at its first sink and no other links. -/
def Node.inputsOf (n : Node) (i : Image) : Table String Value :=
  n.sinks.tail.foldl (fun t p => p.default.elim t (t.insert p.name))
    (Table.insert ∅ "image" (.image i))

/-- The only source of the node gives out images. -/
def Node.Gives (n : Node) (output : String) : Prop := ∃ q, n.sources = [q] ∧
  n.portNamed? output = some q ∧ q.name = output ∧ q.type = .image

/-- The first sink of the node takes images, and it computes without a link into another. -/
def Node.Takes (n : Node) : Prop := ∃ p others, n.sinks = p :: others ∧
  n.portNamed? "image" = some p ∧ p.name = "image" ∧ p.type = .image ∧
    ∀ q ∈ others, q.isOptional = true ∧ q.name ≠ "image"

/-- **The node begins a chain**: it needs no input and comes to a picture or an error. -/
structure Node.Opens (n : Node) (output : String) (files : FileStore)
    (r : Except ComputeError Picture) : Prop where
  sinks : n.sinks = []
  gives : n.Gives output
  yields : ∀ stamp, (n.comesTo ∅ stamp files).Yields n output r

/-- **The node goes on with a chain**: it comes to what a filter makes of the picture that it
takes. -/
structure Node.Filters (n : Node) (output : String) (files : FileStore)
    (f : Picture → Except ComputeError Picture) : Prop where
  takes : n.Takes
  gives : n.Gives output
  yields : ∀ stamp i p, i.picture = some p →
    (n.comesTo (n.inputsOf i) stamp files).Yields n output (f p)

/-! ## Checks and computes -/

theorem Node.comesTo_eq {n : Node} {v : Variant} {check : Except ComputeError Unit}
    {m : Compute Unit} (hv : n.variant = v)
    (hc : v.metadata.checkParameters n.id n.parameters = check) (hm : v.compute = m)
    (inputs : Table String Value) (stamp : Nat) (files : FileStore) :
    n.comesTo inputs stamp files = (check >>= fun _ =>
      conclude (n.context inputs stamp files) (m (n.context inputs stamp files))) := by
  rw [comesTo, metadata, hv, hc, run_eq, hm]

/-- If all parameters but the last pass, the check is that of the last. -/
theorem NodeMetadata.checkParameters_concat {m : NodeMetadata} {id : NodeId} {ps : Parameters}
    (ds : List ParameterDefinition) {d : ParameterDefinition} (hm : m.parameters = ds ++ [d])
    (hds : ∀ d ∈ ds, ∃ v, ps.get? d.name = some v ∧ d.check v = .ok ()) {v : ParamValue}
    (hv : ps.get? d.name = some v) : m.checkParameters id ps =
      (d.check v).mapError fun reason => .invalidParameter id d.name reason.message := by
  rw [checkParameters, hm, List.forM_eq_forM]
  clear hm
  induction ds with
  | nil =>
    rw [List.nil_append, List.forM_cons, List.forM_nil, hv]
    dsimp only
    cases d.check v <;> rfl
  | cons d' ds ih =>
    obtain ⟨v', hv', hc⟩ := hds d' (by simp)
    rw [List.cons_append, List.forM_cons, hv']
    dsimp only
    rw [hc]
    exact ih fun d hd => hds d (by simp [hd])

/-- A number that is to be in a range is checked against it. -/
theorem Pipeline.check_range {d : ParameterDefinition} {least greatest x : Number} (id : NodeId)
    (hd : d.constraints = [.range least greatest]) :
    ((d.check (.number x)).mapError fun reason =>
      ComputeError.invalidParameter id d.name reason.message) =
        within id d.name least greatest x := by
  rw [ParameterDefinition.check_single hd, within, Constraint.check]
  dsimp only [ParamValue.number?]
  split <;> rfl

namespace Node.Gives

variable {n : Node} {output : String} (h : n.Gives output) {inputs : Table String Value}
  {stamp : Nat} {files : FileStore} {c : Context} {p : Picture}

include h

theorem declared :
    (Table.ofList (n.sources.map fun p => (p.name, p.type)) : Table String PortType) =
      Table.ofList [(output, .image)] := by
  obtain ⟨q, hs, _, hn, ht⟩ := h
  rw [hs, List.map_singleton, hn, ht]

/-- **A compute that sets its output to an image yields the picture of that image.** -/
theorem yields_setOutput {c' : Context} (ho : c'.outputs = ∅)
    (hd : c'.declared = Table.ofList [(output, .image)]) {i : Image} (hp : i.picture = some p) :
    Outcome.Yields n output (conclude c (setOutput output (.image i) c')) (.ok p) := by
  rw [conclude_setOutput ho hd]
  obtain ⟨q, hs, hq, hn, _⟩ := h
  refine ⟨q, i, hq, ?_, hp⟩
  rw [outputsByPort, hs]
  show (Table.ofList (List.filterMap _ [(output, Value.image i)])).get? q.id = _
  simp only [List.filterMap_cons, List.find?_cons, hn, beq_self_eq_true, Option.map_some,
    List.filterMap_nil]
  exact Table.get?_insert_self ..

/-- So does one that sets it to a new image. -/
theorem yields_newImage (origin : Option String) :
    Outcome.Yields n output (conclude c ((do setOutput output (.image (← newImage p origin)))
      (n.context inputs stamp files))) (.ok p) := by
  rw [bind_of_ok (m := newImage p origin) rfl]
  refine h.yields_setOutput ?_ ?_ rfl
  · rfl
  · exact h.declared

end Node.Gives

namespace Pipeline

variable {n : Node} {inputs : Table String Value} {stamp : Nat} {i : Image} {p : Picture}

/-! ## One stage after the other -/

/-- **A source comes to the picture at its path.** -/
theorem yields_source (load : Picture.Loader) (files : FileStore) {path : String}
    (hv : n.variant = Builtin.imageSourceOf load) (gives : n.Gives "image")
    (hp : n.parameters.get? "path" = some (.text path)) :
    (n.comesTo inputs stamp files).Yields n "image" (read load files path n.id) := by
  have check : (Builtin.imageSourceOf load).metadata.checkParameters n.id n.parameters =
      if Text.allBlank path then
        .error (.invalidParameter n.id "path" Constraint.Violation.blank.message)
      else .ok () := by
    rw [NodeMetadata.checkParameters_concat [] rfl (fun _ h => nomatch h) hp]
    show Except.mapError _ ((if Text.allBlank path then _ else _) >>= fun _ => _) = _
    split <;> rfl
  have asked : (n.context inputs stamp files).text "path" = .ok path :=
    Context.typedParameter_of_get? hp rfl
  rw [Node.comesTo_eq hv check (m := Builtin.imageSourceCompute load) rfl,
    Builtin.imageSourceCompute, bind_of_ok (ask_of_ok asked), read]
  dsimp only
  by_cases hb : Text.allBlank path = true
  · rw [if_pos hb, if_pos hb]
    exact rfl
  rw [if_neg hb, if_neg hb]
  by_cases he : Text.lowercase ((Path.extension? path).getD "") ∉ Builtin.supportedExtensions
  · rw [if_pos he, if_pos he]
    exact rfl
  rw [if_neg he, if_neg he, bind_of_ok (m := get) rfl]
  have files_eq : (n.context inputs stamp files).files = files := rfl
  rw [files_eq]
  cases load files path with
  | ok p => exact gives.yields_newImage (some path)
  | error failure =>
    cases failure with
    | unreadable reason => exact rfl
    | panic message => exact rfl

/-- **A blur comes to the blurred picture.** -/
theorem yields_blur {m : BlurMethod} {sigma : Number} {files : FileStore}
    (hv : n.variant = Builtin.blur) (gives : n.Gives "result")
    (hm : n.parameters.get? "method" = some (.text m.name))
    (hs : n.parameters.get? "sigma" = some (.number sigma))
    (hi : inputs.get? "image" = some (.image i)) (hp : i.picture = some p) :
    (n.comesTo inputs stamp files).Yields n "result" (blurred m sigma n.id p) := by
  have method : ∀ d, d ∈ [(⟨"method", .text "box", "Kernel to apply",
      [.oneOf (BlurMethod.all.map (·.name))]⟩ : ParameterDefinition)] →
      ∃ v, n.parameters.get? d.name = some v ∧ d.check v = .ok () := by
    intro d hd
    rw [List.mem_singleton.1 hd]
    exact ⟨_, hm, by cases m <;> rfl⟩
  have check : Builtin.blur.metadata.checkParameters n.id n.parameters =
      within n.id "sigma" (.ofDecimal false 1 (-1)) 50 sigma :=
    (NodeMetadata.checkParameters_concat _ rfl method hs).trans (check_range n.id rfl)
  have named : BlurMethod.ofName m.name = .ok m := by cases m <;> rfl
  have asked : Builtin.methodParameter BlurMethod.ofName BlurMethod.unknown
      (n.context inputs stamp files) = .ok (m, n.context inputs stamp files) := by
    have text : (n.context inputs stamp files).text "method" = .ok m.name :=
      Context.typedParameter_of_get? hm rfl
    refine ask_of_ok ?_
    simp only [text, named, bind, Except.bind, pure, Except.pure]
  have deviation : (n.context inputs stamp files).number "sigma" = .ok sigma :=
    Context.typedParameter_of_get? hs rfl
  rw [Node.comesTo_eq hv check (m := Builtin.blurCompute) rfl, Builtin.blurCompute, blurred,
    bind_of_ok asked, bind_of_ok (ask_of_ok deviation), bind_of_ok (inputRaster_of_get? hi hp)]
  cases within n.id "sigma" (.ofDecimal false 1 (-1)) 50 sigma with
  | error x => exact rfl
  | ok u =>
    cases m.filtered sigma.toFloat.toFloat32 p.raster with
    | ok r => exact gives.yields_newImage none
    | error message => exact rfl

/-- **A change of brightness comes to the picture that is changed.** -/
theorem yields_brightness {amount : Number} {files : FileStore}
    (hv : n.variant = Builtin.brightness) (gives : n.Gives "result")
    (ha : n.parameters.get? "amount" = some (.number amount))
    (hi : inputs.get? "image" = some (.image i)) (hn : inputs.get? "amount" = none)
    (hp : i.picture = some p) :
    (n.comesTo inputs stamp files).Yields n "result" (brightened amount n.id p) := by
  have check : Builtin.brightness.metadata.checkParameters n.id n.parameters =
      within n.id "amount" (.ofInt (-255)) (.ofInt 255) amount :=
    (NodeMetadata.checkParameters_concat [] rfl (fun _ h => nomatch h) ha).trans
      (check_range n.id rfl)
  have asked : (if (n.context inputs stamp files).hasInput "amount" then
      (n.context inputs stamp files).inputNumber "amount"
      else (n.context inputs stamp files).number "amount") = .ok amount := by
    have absent : (n.context inputs stamp files).hasInput "amount" = false := by
      show (inputs.get? "amount").isSome = false
      rw [hn]
      rfl
    rw [absent, if_neg Bool.false_ne_true]
    exact Context.typedParameter_of_get? ha rfl
  rw [Node.comesTo_eq hv check (m := Builtin.brightnessCompute) rfl, Builtin.brightnessCompute,
    brightened, bind_of_ok (ask_of_ok asked)]
  cases within n.id "amount" (.ofInt (-255)) (.ofInt 255) amount with
  | error x => exact rfl
  | ok u =>
    cases amount.round? with
    | none => exact rfl
    | some k =>
      have image : Builtin.inputRaster "image" (n.context inputs stamp files) =
          .ok (p.raster, n.context inputs stamp files) := inputRaster_of_get? hi hp
      show Outcome.Yields n "result" (conclude _ ((Builtin.inputRaster "image" >>= fun r =>
        Builtin.outputRaster "result" (r.brightened (max (-255) (min 255 k)))) _)) _
      rw [bind_of_ok image]
      exact gives.yields_newImage none

/-- **A toning comes to the toned picture**, in the tone that is the default. -/
theorem yields_sepia {intensity : Number} {files : FileStore}
    (hv : n.variant = Builtin.sepia) (gives : n.Gives "result")
    (hx : n.parameters.get? "intensity" = some (.number intensity))
    (hi : inputs.get? "image" = some (.image i)) (ht : inputs.get? "tone" = some (.color .sepia))
    (hp : i.picture = some p) :
    (n.comesTo inputs stamp files).Yields n "result" (toned intensity n.id p) := by
  have check : Builtin.sepia.metadata.checkParameters n.id n.parameters =
      within n.id "intensity" 0 1 intensity :=
    (NodeMetadata.checkParameters_concat [] rfl (fun _ h => nomatch h) hx).trans
      (check_range n.id rfl)
  have tone : (if (n.context inputs stamp files).hasInput "tone" then
      (n.context inputs stamp files).inputColor "tone" else .ok .sepia) = .ok .sepia := by
    have present : (n.context inputs stamp files).hasInput "tone" = true := by
      show (inputs.get? "tone").isSome = true
      rw [ht]
      rfl
    rw [present, if_pos rfl]
    exact Context.typedInput_of_get? ht rfl
  have asked : (n.context inputs stamp files).number "intensity" = .ok intensity :=
    Context.typedParameter_of_get? hx rfl
  rw [Node.comesTo_eq hv check (m := Builtin.sepiaCompute) rfl, Builtin.sepiaCompute, toned,
    bind_of_ok (ask_of_ok tone), bind_of_ok (ask_of_ok asked),
    bind_of_ok (inputRaster_of_get? hi hp)]
  cases within n.id "intensity" 0 1 intensity with
  | error x => exact rfl
  | ok u => exact gives.yields_newImage none

/-- **An output comes to the picture that it takes.** -/
theorem yields_output {files : FileStore} (hv : n.variant = Builtin.imageOutput)
    (gives : n.Gives "preview") (hi : inputs.get? "image" = some (.image i))
    (hp : i.picture = some p) :
    (n.comesTo inputs stamp files).Yields n "preview" (.ok p) := by
  have asked : (n.context inputs stamp files).inputImage "image" = .ok i :=
    Context.typedInput_of_get? hi rfl
  have check : Builtin.imageOutput.metadata.checkParameters n.id n.parameters = .ok () := rfl
  rw [Node.comesTo_eq hv check
    (m := do setOutput "preview" (.image (← ask (·.inputImage "image")))) rfl,
    bind_of_ok (ask_of_ok asked)]
  exact gives.yields_setOutput rfl gives.declared hp

/-! ## The stages of a chain -/

/-- All nodes of the stage go on with a chain by the filter. -/
def Stage.Makes (s : Stage) (files : FileStore) (f : Filter) : Prop :=
  ∀ stamp, (s.node stamp).Filters s.output files (f (s.node stamp).id)

theorem opens_source (load : Picture.Loader) (files : FileStore) (path : String) (stamp : Nat) :
    let n := (⟨Builtin.imageSourceOf load, [("path", .text path)], "image"⟩ : Stage).node stamp
    n.Opens "image" files (read load files path n.id) where
  sinks := rfl
  gives := ⟨_, rfl, rfl, rfl, rfl⟩
  yields _ := yields_source load files rfl ⟨_, rfl, rfl, rfl, rfl⟩ rfl

variable (files : FileStore)

theorem makes_blur (m : BlurMethod) (sigma : Option Number) :
    Stage.Makes ⟨Builtin.blur, ("method", .text m.name) :: sigma.toList.map fun x =>
      ("sigma", .number x), "result"⟩ files (blurred m (sigma.getD 2)) := by
  intro stamp
  cases sigma <;> exact
    { takes := ⟨_, [], rfl, rfl, rfl, rfl, fun _ h => nomatch h⟩
      gives := ⟨_, rfl, rfl, rfl, rfl⟩
      yields := fun _ i p => yields_blur rfl ⟨_, rfl, rfl, rfl, rfl⟩ rfl rfl rfl }

theorem makes_brightness (amount : Number) :
    Stage.Makes ⟨Builtin.brightness, [("amount", .number amount)], "result"⟩ files
      (brightened amount) := fun _ =>
  have other : "amount" ≠ "image" := by decide
  { takes := ⟨_, [_], rfl, rfl, rfl, rfl, List.forall_mem_singleton.2 ⟨rfl, other⟩⟩
    gives := ⟨_, rfl, rfl, rfl, rfl⟩
    yields := fun _ _ _ => yields_brightness rfl ⟨_, rfl, rfl, rfl, rfl⟩ rfl rfl rfl }

theorem makes_sepia (intensity : Number) :
    Stage.Makes ⟨Builtin.sepia, [("intensity", .number intensity)], "result"⟩ files
      (toned intensity) := fun _ =>
  have other : "tone" ≠ "image" := by decide
  { takes := ⟨_, [_], rfl, rfl, rfl, rfl, List.forall_mem_singleton.2 ⟨rfl, other⟩⟩
    gives := ⟨_, rfl, rfl, rfl, rfl⟩
    yields := fun _ _ _ => yields_sepia rfl ⟨_, rfl, rfl, rfl, rfl⟩ rfl rfl rfl }

theorem makes_output :
    Stage.Makes ⟨Builtin.imageOutput, [], "preview"⟩ files fun _ p => pure p := fun _ =>
  { takes := ⟨_, [], rfl, rfl, rfl, rfl, fun _ h => nomatch h⟩
    gives := ⟨_, rfl, rfl, rfl, rfl⟩
    yields := fun _ _ _ => yields_output rfl ⟨_, rfl, rfl, rfl, rfl⟩ rfl }

end Pipeline

end PixelFlow
