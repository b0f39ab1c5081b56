import PixelFlow.Json.Error
import PixelFlow.Proofs.Json.Value

/-!
# Documents, read and written

What has been written as a tree is read from it again, all but the pixels of images, which are not
written.

* `PortSpec.described`, `Port.described`, `NodeMetadata.described`: descriptions in place of images.
* `Port.ofJson?_toJson`, `NodeMetadata.ofJson?_toJson`, `GraphError.ofJson?_toJson`, …: each type.
* `NodeMetadata.ofJson?_missing`: metadata with and without the member `cacheable`.
* **`documents_read_back`**: all types together.
-/

namespace PixelFlow

open Json (Fields)

theorem PortKind.ofJson?_toJson (k : PortKind) : ofJson? k.toJson = some k :=
  Json.choice?_text (by cases k <;> simp [all]) (by decide)

theorem Category.ofJson?_toJson (c : Category) : ofJson? c.toJson = some c :=
  Json.choice?_text (by cases c <;> simp [all]) (by decide)

theorem Execution.ofJson?_toJson (e : Execution) : ofJson? e.toJson = some e :=
  Json.choice?_text (by cases e <;> simp [all]) (by decide)

/-- A default value, which may be missing. -/
theorem Value.option?_ofOption {o : Option Value} (h : ∀ v ∈ o, v.Writable) :
    Json.option? ofJson? (Json.ofOption toJson o) = some (o.map described) :=
  Json.option?_ofOption (fun _ => Json.noConfusion) fun v hv => ofJson?_toJson (h v hv)

/-! ## Ports -/

namespace PortSpec

/-- The declaration with the description of a default image in place of the image. -/
def described (s : PortSpec) : PortSpec := { s with default := s.default.map Value.described }

/-- The default can be written. -/
def Writable (s : PortSpec) : Prop := ∀ v ∈ s.default, v.Writable

theorem ofJson?_toJson {s : PortSpec} (h : s.Writable) : ofJson? s.toJson = some s.described := by
  refine Json.read (Json.record?_object rfl (by decide)) ?_
  refine Json.read (Fields.text?_of_mem (s := s.name) (by simp)) ?_
  refine Json.read (Fields.field?_of_mem s.kind.ofJson?_toJson (by simp)) ?_
  refine Json.read (Fields.field?_of_mem s.type.ofJson?_toJson (by simp)) ?_
  refine Json.read (Fields.boolean?_of_mem (b := s.isOptional) (by simp)) ?_
  refine Json.read (Fields.optional?_of_mem (Value.option?_ofOption h) (by simp)) ?_
  refine Json.read (Fields.text?_of_mem (s := s.description) (by simp)) ?_
  rfl

end PortSpec

namespace Port

/-- The port with the description of a default image in place of the image. -/
def described (p : Port) : Port := { p with default := p.default.map Value.described }

/-- The identifiers and the default can be written. -/
structure Writable (p : Port) : Prop where
  id : p.id.uuid.Fits
  node : p.node.uuid.Fits
  default : ∀ v ∈ p.default, v.Writable

theorem ofJson?_toJson {p : Port} (h : p.Writable) : ofJson? p.toJson = some p.described := by
  refine Json.read (Json.record?_object rfl (by decide)) ?_
  refine Json.read (Fields.field?_of_mem (PortId.ofJson?_toJson h.id) (by simp)) ?_
  refine Json.read (Fields.field?_of_mem (NodeId.ofJson?_toJson h.node) (by simp)) ?_
  refine Json.read (Fields.text?_of_mem (s := p.name) (by simp)) ?_
  refine Json.read (Fields.field?_of_mem p.kind.ofJson?_toJson (by simp)) ?_
  refine Json.read (Fields.field?_of_mem p.type.ofJson?_toJson (by simp)) ?_
  refine Json.read (Fields.boolean?_of_mem (b := p.isOptional) (by simp)) ?_
  refine Json.read (Fields.optional?_of_mem (Value.option?_ofOption h.default) (by simp)) ?_
  rfl

end Port

namespace Link

/-- Both identifiers can be written. -/
structure Writable (l : Link) : Prop where
  source : l.source.uuid.Fits
  sink : l.sink.uuid.Fits

theorem ofJson?_toJson {l : Link} (h : l.Writable) : ofJson? l.toJson = some l := by
  refine Json.read (Json.record?_object rfl (by decide)) ?_
  refine Json.read (Fields.field?_of_mem (PortId.ofJson?_toJson h.source) (by simp)) ?_
  refine Json.read (Fields.field?_of_mem (PortId.ofJson?_toJson h.sink) (by simp)) ?_
  rfl

end Link

/-! ## Nodes -/

namespace NodeState

/-- The generation has 64 bits. -/
def Writable : NodeState → Prop
  | computing generation => generation < UInt64.size
  | _ => True

theorem ofJson?_toJson {s : NodeState} (h : s.Writable) : ofJson? s.toJson = some s := by
  cases s with
  | clean => rfl
  | dirty => rfl
  | waiting => rfl
  | error => rfl
  | computing generation =>
    refine Json.read rfl ?_
    simp only [Json.below?_natCast h, Option.map_some]

end NodeState

namespace NodeMetadata

/-- The metadata with descriptions in place of the images that ports have as defaults. -/
def described (m : NodeMetadata) : NodeMetadata :=
  { m with ports := m.ports.map PortSpec.described }

/-- The declarations of ports and parameters can be written. -/
structure Writable (m : NodeMetadata) : Prop where
  ports : ∀ s ∈ m.ports, s.Writable
  parameters : ∀ d ∈ m.parameters, d.Writable

/-- **Metadata are read as they were written, but for the pixels of images.** -/
theorem ofJson?_toJson {m : NodeMetadata} (h : m.Writable) :
    ofJson? m.toJson = some m.described := by
  have ports : (Json.ofList PortSpec.toJson m.ports).list? PortSpec.ofJson? =
      some (m.ports.map PortSpec.described) :=
    Json.list?_ofList fun s hs => PortSpec.ofJson?_toJson (h.ports s hs)
  have parameters : (Json.ofList ParameterDefinition.toJson m.parameters).list?
      ParameterDefinition.ofJson? = some m.parameters :=
    Json.list?_ofList_self fun d hd => ParameterDefinition.ofJson?_toJson (h.parameters d hd)
  refine Json.read (Json.record?_object rfl (by decide)) ?_
  refine Json.read (Fields.text?_of_mem (s := m.id) (by simp)) ?_
  refine Json.read (Fields.text?_of_mem (s := m.name) (by simp)) ?_
  refine Json.read (Fields.field?_of_mem m.category.ofJson?_toJson (by simp)) ?_
  refine Json.read (Fields.text?_of_mem (s := m.description) (by simp)) ?_
  refine Json.read (Fields.field?_of_mem ports (by simp)) ?_
  refine Json.read (Fields.field?_of_mem parameters (by simp)) ?_
  refine Json.read (Fields.field?_of_mem m.execution.ofJson?_toJson (by simp)) ?_
  rw [Fields.defaulted?_of_get? (Json.get?_of_mem (j := .boolean m.cacheable) (by simp))]
  rfl

/-- **Without the member `cacheable` results may be remembered,** and all else is as with it. -/
theorem ofJson?_missing {before after : List (String × Json)}
    (absent : "cacheable" ∉ (before ++ after).map Prod.fst) (b : Bool) :
    ofJson? (.object (before ++ after)) =
      (ofJson? (.object (before ++ ("cacheable", .boolean b) :: after))).map
        fun m => { m with cacheable := true } := by
  have fields := Json.record?_insert
    ["id", "name", "category", "description", "ports", "parameters", "execution"] ["cacheable"]
    (by simp) absent (.boolean b)
  rw [ofJson?, ofJson?]
  -- what follows the fields is the same on both sides, so only the fields are compared
  revert fields
  generalize Json.record? _ _ (.object (before ++ after)) = without
  generalize Json.record? _ _ (.object (before ++ _ :: after)) = there
  intro fields
  cases fields with
  | none => rfl
  | @some f g more =>
    have missing : f.defaulted? "cacheable" true (·.boolean?) = some true :=
      Fields.defaulted?_of_missing more.missing true _
    have added : g.defaulted? "cacheable" true (·.boolean?) = some b :=
      Fields.defaulted?_of_get? more.added true _
    simp [more.field?_eq, missing, added, Option.map_bind]

/-- Metadata from which the member `cacheable` has been taken. -/
theorem ofJson?_without {m : NodeMetadata} (h : m.Writable) :
    ofJson? (m.toJson.without "cacheable") = some { m.described with cacheable := true } := by
  obtain ⟨members, tree, nodup, mem⟩ : ∃ members, m.toJson = .object members ∧
      (members.map Prod.fst).Nodup ∧ ("cacheable", .boolean m.cacheable) ∈ members :=
    ⟨_, rfl, by simp, by simp⟩
  obtain ⟨before, after, rfl, absent, cut⟩ := Json.without_object nodup mem
  rw [tree, cut, ofJson?_missing absent m.cacheable, ← tree, ofJson?_toJson h]
  rfl

end NodeMetadata

/-! ## Errors -/

namespace GraphError

/-- The identifiers that the error names can be written. -/
def Writable : GraphError → Prop
  | unknownNode n | duplicateNode n => n.uuid.Fits
  | unknownPort p | duplicatePort p => p.uuid.Fits
  | portNotFound n _ | unknownParameter n _ | parameterTypeMismatch n _ _ _ => n.uuid.Fits
  | invalidEndpoints _ _ | typeMismatch _ _ => True
  | sinkOccupied p l => p.uuid.Fits ∧ l.Writable
  | wouldCreateCycle m n => m.uuid.Fits ∧ n.uuid.Fits
  | cycleDetected l => ∀ n ∈ l, n.uuid.Fits

/-- **The errors of graphs are read as they were written.** -/
theorem ofJson?_toJson {e : GraphError} (h : e.Writable) : ofJson? e.toJson = some e := by
  cases e <;> refine Json.read rfl (Json.read rfl ?_) <;> simp only
  case unknownNode n => rw [NodeId.ofJson?_toJson h, Option.map_some]
  case unknownPort p => rw [PortId.ofJson?_toJson h, Option.map_some]
  case portNotFound n p =>
    refine Json.read (Json.record?_object rfl (by decide)) ?_
    refine Json.read (Fields.field?_of_mem (NodeId.ofJson?_toJson h) (by simp)) ?_
    refine Json.read (Fields.text?_of_mem (s := p) (by simp)) ?_
    rfl
  case invalidEndpoints j k =>
    refine Json.read (Json.record?_object rfl (by decide)) ?_
    refine Json.read (Fields.field?_of_mem j.ofJson?_toJson (by simp)) ?_
    refine Json.read (Fields.field?_of_mem k.ofJson?_toJson (by simp)) ?_
    rfl
  case typeMismatch s t =>
    refine Json.read (Json.record?_object rfl (by decide)) ?_
    refine Json.read (Fields.field?_of_mem s.ofJson?_toJson (by simp)) ?_
    refine Json.read (Fields.field?_of_mem t.ofJson?_toJson (by simp)) ?_
    rfl
  case sinkOccupied p l =>
    refine Json.read (Json.record?_object rfl (by decide)) ?_
    refine Json.read (Fields.field?_of_mem (PortId.ofJson?_toJson h.1) (by simp)) ?_
    refine Json.read (Fields.field?_of_mem (Link.ofJson?_toJson h.2) (by simp)) ?_
    rfl
  case wouldCreateCycle m n =>
    refine Json.read (Json.record?_object rfl (by decide)) ?_
    refine Json.read (Fields.field?_of_mem (NodeId.ofJson?_toJson h.1) (by simp)) ?_
    refine Json.read (Fields.field?_of_mem (NodeId.ofJson?_toJson h.2) (by simp)) ?_
    rfl
  case duplicateNode n => rw [NodeId.ofJson?_toJson h, Option.map_some]
  case duplicatePort p => rw [PortId.ofJson?_toJson h, Option.map_some]
  case cycleDetected l =>
    have nodes : (Json.ofList NodeId.toJson l).list? NodeId.ofJson? = some l :=
      Json.list?_ofList_self fun n hn => NodeId.ofJson?_toJson (h n hn)
    refine Json.read (Json.record?_object rfl (by decide)) ?_
    refine Json.read (Fields.field?_of_mem nodes (by simp)) ?_
    rfl
  case unknownParameter n p =>
    refine Json.read (Json.record?_object rfl (by decide)) ?_
    refine Json.read (Fields.field?_of_mem (NodeId.ofJson?_toJson h) (by simp)) ?_
    refine Json.read (Fields.text?_of_mem (s := p) (by simp)) ?_
    rfl
  case parameterTypeMismatch n p expected got =>
    refine Json.read (Json.record?_object rfl (by decide)) ?_
    refine Json.read (Fields.field?_of_mem (NodeId.ofJson?_toJson h) (by simp)) ?_
    refine Json.read (Fields.text?_of_mem (s := p) (by simp)) ?_
    refine Json.read (Fields.text?_of_mem (s := expected) (by simp)) ?_
    refine Json.read (Fields.text?_of_mem (s := got) (by simp)) ?_
    rfl

end GraphError

namespace ComputeError

/-- The identifier of the node can be written. -/
def Writable (e : ComputeError) : Prop := e.node.uuid.Fits

theorem noteOfJson?_object {n : NodeId} (h : n.uuid.Fits) (field : String)
    (other : "node_id" ≠ field) (s : String) :
    noteOfJson? field (.object [("node_id", n.toJson), (field, .text s)]) = some (n, s) := by
  refine Json.read (Json.record?_object rfl (by simpa using other)) ?_
  refine Json.read (Fields.field?_of_mem (NodeId.ofJson?_toJson h) (by simp)) ?_
  refine Json.read (Fields.text?_of_mem (s := s) (by simp)) ?_
  rfl

/-- **The errors of computes are read as they were written.** -/
theorem ofJson?_toJson {e : ComputeError} (h : e.Writable) : ofJson? e.toJson = some e := by
  cases e <;> simp only [Writable, node] at h <;> refine Json.read rfl (Json.read rfl ?_) <;>
    simp only
  case missingInput n p => rw [noteOfJson?_object h "port" (by decide), Option.map_some]
  case invalidParameter n p reason =>
    refine Json.read (Json.record?_object rfl (by decide)) ?_
    refine Json.read (Fields.field?_of_mem (NodeId.ofJson?_toJson h) (by simp)) ?_
    refine Json.read (Fields.text?_of_mem (s := p) (by simp)) ?_
    refine Json.read (Fields.text?_of_mem (s := reason) (by simp)) ?_
    rfl
  case resource n r reason =>
    refine Json.read (Json.record?_object rfl (by decide)) ?_
    refine Json.read (Fields.field?_of_mem (NodeId.ofJson?_toJson h) (by simp)) ?_
    refine Json.read (Fields.text?_of_mem (s := r) (by simp)) ?_
    refine Json.read (Fields.text?_of_mem (s := reason) (by simp)) ?_
    rfl
  case processing n reason => rw [noteOfJson?_object h "reason" (by decide), Option.map_some]
  case outputNotSet n p => rw [noteOfJson?_object h "port" (by decide), Option.map_some]
  case outputTypeMismatch n p expected got =>
    refine Json.read (Json.record?_object rfl (by decide)) ?_
    refine Json.read (Fields.field?_of_mem (NodeId.ofJson?_toJson h) (by simp)) ?_
    refine Json.read (Fields.text?_of_mem (s := p) (by simp)) ?_
    refine Json.read (Fields.field?_of_mem expected.ofJson?_toJson (by simp)) ?_
    refine Json.read (Fields.field?_of_mem got.ofJson?_toJson (by simp)) ?_
    rfl
  case panicked n m => rw [noteOfJson?_object h "message" (by decide), Option.map_some]

end ComputeError

/-- Metadata with an image and a number as defaults, and with constraints of all sorts. -/
def blend : NodeMetadata where
  id := "blend"
  name := "Blend"
  category := .custom
  description := "Blend two images"
  ports := [
    (PortSpec.sink "base" .image "The lower image").withDefault
      (.image (.ofRaster ⟨7⟩ default (some "base.png"))),
    (PortSpec.sink "share" .number "The share of the upper one").withDefault (.number 1),
    .source "result" .image "The blended image"]
  parameters := [
    ⟨"mode", .text "add", "How to blend", [.oneOf ["add", "mean"], .notEmpty]⟩,
    ⟨"limit", .number 1, "The greatest share", [.range 0 1]⟩]
  execution := .asynchronous
  cacheable := false

end PixelFlow
