import PixelFlow.Json.Parameter
import PixelFlow.Proofs.Json.Record
import PixelFlow.Proofs.Uuid

/-!
# Values and parameters, read and written

* `Value.described`: the value with an image's description in place of the image.
* `Value.Writable`, `ParamValue.Writable`, …: numbers are finite and identifiers have 128 bits.
* **`Value.ofJson?_toJson`**: a value is read as it was written, but for the pixels of images.
* **`ParamValue.ofJson?_toJson`**, **`Parameters.ofJson?_toJson`**: parameters, in their order.
* `Constraint.ofJson?_toJson`, `ParameterDefinition.ofJson?_toJson`: the declarations of parameters.
-/

namespace PixelFlow

open Json (Fields)

/-! ## Identifiers and types -/

theorem Uuid.ofJson?_toJson {u : Uuid} (h : u.Fits) : ofJson? u.toJson = some u := by
  rw [ofJson?, toJson, Json.text?, Option.bind_eq_bind, Option.bind_some, ofText?_text h]

theorem NodeId.ofJson?_toJson {n : NodeId} (h : n.uuid.Fits) : ofJson? n.toJson = some n :=
  congrArg (Option.map mk) (Uuid.ofJson?_toJson h)

theorem PortId.ofJson?_toJson {p : PortId} (h : p.uuid.Fits) : ofJson? p.toJson = some p :=
  congrArg (Option.map mk) (Uuid.ofJson?_toJson h)

theorem PortType.ofJson?_toJson (t : PortType) : ofJson? t.toJson = some t :=
  Json.choice?_text (by cases t <;> simp [all]) (by decide)

/-! ## Colors and images -/

theorem Color.channelOfJson?_channelToJson (c : UInt8) :
    channelOfJson? (channelToJson c) = some c := by
  rw [channelOfJson?, channelToJson, Json.below?_natCast c.toNat_lt, Option.map_some,
    UInt8.ofNat_toNat]

theorem Color.ofJson?_toJson (c : Color) : ofJson? c.toJson = some c := by
  refine Json.read (Json.record?_object rfl (by decide)) ?_
  refine Json.read (Fields.field?_of_mem (channelOfJson?_channelToJson c.red) (by simp)) ?_
  refine Json.read (Fields.field?_of_mem (channelOfJson?_channelToJson c.green) (by simp)) ?_
  refine Json.read (Fields.field?_of_mem (channelOfJson?_channelToJson c.blue) (by simp)) ?_
  refine Json.read (Fields.field?_of_mem (channelOfJson?_channelToJson c.alpha) (by simp)) ?_
  rfl

theorem ImageMetadata.sideOfJson?_sideToJson (n : UInt32) :
    sideOfJson? (sideToJson n) = some n := by
  rw [sideOfJson?, sideToJson, Json.below?_natCast n.toNat_lt_size, Option.map_some,
    UInt32.ofNat_toNat]

theorem ImageMetadata.ofJson?_toJson (m : ImageMetadata) : ofJson? m.toJson = some m := by
  have origin : Json.option? (·.text?) (Json.ofOption .text m.origin) = some m.origin := by
    cases m.origin <;> rfl
  refine Json.read (Json.record?_object rfl (by decide)) ?_
  refine Json.read (Fields.field?_of_mem (sideOfJson?_sideToJson m.width) (by simp)) ?_
  refine Json.read (Fields.field?_of_mem (sideOfJson?_sideToJson m.height) (by simp)) ?_
  refine Json.read (Fields.optional?_of_mem origin (by simp)) ?_
  rfl

/-- An image is read without its pixels. -/
theorem Image.ofJson?_toJson {i : Image} (h : i.revision.Fits) :
    ofJson? i.toJson = some i.described := by
  refine Json.read (Json.record?_object rfl (by decide)) ?_
  refine Json.read (Fields.field?_of_mem i.metadata.ofJson?_toJson (by simp)) ?_
  refine Json.read (Fields.field?_of_mem (Uuid.ofJson?_toJson h) (by simp)) ?_
  rfl

/-! ## Values -/

namespace Value

/-- The value with the description of an image in place of the image. -/
def described : Value → Value
  | image i => image i.described
  | v => v

/-- The value can be written. -/
def Writable : Value → Prop
  | image i => i.revision.Fits
  | number x => x.isFinite = true
  | color _ => True

theorem ofJson?_image (data : Json) :
    ofJson? (Json.ofTagged "type" "data" "Image" data) = (Image.ofJson? data).map image := by
  refine Json.read (Json.tagged?_ofTagged (by decide) _ _) ?_
  simp only [Option.bind_eq_bind, Option.bind_some]

/-- **A value is read as it was written, but for the pixels of an image.** -/
theorem ofJson?_toJson {v : Value} (h : v.Writable) : ofJson? v.toJson = some v.described := by
  cases v with
  | image i =>
    exact (ofJson?_image i.toJson).trans (congrArg (Option.map image) (Image.ofJson?_toJson h))
  | number x =>
    refine Json.read (Json.tagged?_ofTagged (by decide) _ _) ?_
    simp only [type, PortType.name, Option.bind_eq_bind, Option.bind_some]
    exact congrArg (Option.map number) (Json.number?_ofNumber h)
  | color c =>
    refine Json.read (Json.tagged?_ofTagged (by decide) _ _) ?_
    simp only [type, PortType.name, Option.bind_eq_bind, Option.bind_some]
    exact congrArg (Option.map color) c.ofJson?_toJson

end Value

/-! ## Parameters -/

namespace ParamValue

theorem wordOfJson?_integer (n : Int64) : wordOfJson? (.integer n.toInt) = some n := by
  refine Json.read rfl ?_
  rw [if_pos ⟨n.minValue_le_toInt, n.toInt_le⟩]
  exact congrArg some n.ofInt_toInt

/-- The value can be written. -/
def Writable : ParamValue → Prop
  | number x => x.isFinite = true
  | _ => True

/-- **A parameter value is read as it was written.** -/
theorem ofJson?_toJson {v : ParamValue} (h : v.Writable) : ofJson? v.toJson = some v := by
  cases v <;> refine Json.read (Json.tagged?_ofTagged (by decide) _ _) ?_ <;>
    simp only [Option.bind_eq_bind, Option.bind_some]
  case number x => exact congrArg (Option.map number) (Json.number?_ofNumber h)
  case integer n => exact congrArg (Option.map integer) (wordOfJson?_integer n)
  case text s => rfl
  case boolean b => rfl
  case color c => exact congrArg (Option.map color) c.ofJson?_toJson

end ParamValue

namespace Parameters

/-- All values can be written. -/
def Writable (p : Parameters) : Prop := ∀ v ∈ p.values, v.Writable

/-- **Parameters are read as they were written, in their order.** -/
theorem ofJson?_toJson {p : Parameters} (h : p.Writable) : ofJson? p.toJson = some p := by
  have entries : (p.entries.map fun e => (e.1, e.2.toJson)).mapM
      (fun e => (ParamValue.ofJson? e.2).map (e.1, ·)) = some (p.entries.map id) :=
    Json.mapM_map fun e he => by
      rw [ParamValue.ofJson?_toJson (h e.2 (List.mem_map_of_mem he))]
      rfl
  refine Json.read entries ?_
  rw [List.map_id, Table.ofList_entries]
  rfl

end Parameters

/-! ## Declarations -/

namespace Constraint

/-- The constraint can be written. -/
def Writable : Constraint → Prop
  | range least greatest => least.isFinite = true ∧ greatest.isFinite = true
  | _ => True

theorem ofJson?_toJson {c : Constraint} (h : c.Writable) : ofJson? c.toJson = some c := by
  cases c with
  | range least greatest =>
    refine Json.read (Json.tagged?_ofTagged (by decide) _ _) ?_
    simp only
    refine Json.read (Json.members?_object ["min", "max"] rfl (by decide)) ?_
    refine Json.read (Fields.field?_of_mem (Json.number?_ofNumber h.1) (by simp)) ?_
    refine Json.read (Fields.field?_of_mem (Json.number?_ofNumber h.2) (by simp)) ?_
    rfl
  | oneOf options =>
    have read : (Json.ofList Json.text options).list? (·.text?) = some options :=
      Json.list?_ofList_self fun _ _ => rfl
    refine Json.read (Json.tagged?_ofTagged (by decide) _ _) ?_
    simp only [read, Option.map_some]
  | notEmpty => rfl

end Constraint

namespace ParameterDefinition

/-- The default and the bounds of the constraints can be written. -/
structure Writable (d : ParameterDefinition) : Prop where
  default : d.default.Writable
  constraints : ∀ c ∈ d.constraints, c.Writable

theorem ofJson?_toJson {d : ParameterDefinition} (h : d.Writable) : ofJson? d.toJson = some d := by
  have constraints : (Json.ofList Constraint.toJson d.constraints).list? Constraint.ofJson? =
      some d.constraints :=
    Json.list?_ofList_self fun c hc => Constraint.ofJson?_toJson (h.constraints c hc)
  refine Json.read (Json.record?_object rfl (by decide)) ?_
  refine Json.read (Fields.text?_of_mem (s := d.name) (by simp)) ?_
  refine Json.read (Fields.field?_of_mem (ParamValue.ofJson?_toJson h.default) (by simp)) ?_
  refine Json.read (Fields.text?_of_mem (s := d.description) (by simp)) ?_
  refine Json.read (Fields.field?_of_mem constraints (by simp)) ?_
  rfl

end ParameterDefinition

end PixelFlow
