import Mathlib.Logic.Relation
import PixelFlow.Proofs.Builtin

/-!
# Computes set what was declared

A compute reaches its context by questions, by new images and by setting outputs, and none of these
changes which outputs are declared. Since all declared outputs are checked for at the end, a compute
that succeeds has set every one.

* `Compute.bind_of_ok`, `Compute.ask_of_ok`, `Compute.conclude_setOutput`: parts that succeed.
* `Compute.Abides`: a part of a compute that changes its context in these ways only.
* `Compute.Keeps`: a part of a compute that leaves the declared outputs alone.
* `Variant.Fills`: a compute that succeeds has set every declared output;
  **`Compute.Keeps.fills`**.
* **`Builtin.abides`**, **`Builtin.fills`**: all variants that come with the library do so.
-/

namespace PixelFlow

open Relation

/-- **A compute that succeeds has set every output that was declared to it**, as computes are meant
to: one value for each source port. -/
def Variant.Fills (v : Variant) : Prop :=
  ∀ c t, v.run c = .ok t → ∀ name ∈ c.declared.keys, t.contains name = true

/-- What changes a context: an output is set, or an image is made. -/
inductive Context.Access : Context → Context → Prop
  | output {c d : Context} {name : String} {v : Value} (h : c.setOutput name v = .ok d) : Access c d
  | image (c : Context) : Access c { c with made := c.made + 1 }

/-- An output that is set was declared with the type of its value. -/
theorem Context.setOutput_ok {c d : Context} {name : String} {v : Value}
    (h : c.setOutput name v = .ok d) : c.declared.get? name = some v.type ∧
      d = { c with outputs := c.outputs.insert name v } := by
  unfold setOutput at h
  split at h
  · cases h
  · next expected hd =>
    split at h
    · next ha =>
      cases h
      rw [hd, ← eq_of_beq ha]
      exact ⟨rfl, rfl⟩
    · cases h

theorem Context.Access.declared {c d : Context} (h : c.Access d) : d.declared = c.declared := by
  cases h with
  | output h => rw [(setOutput_ok h).2]
  | image => rfl

namespace Context

variable {α : Type} {c : Context} {name : String} {a : α}

theorem typedParameter_of_get? {reason : String} {view : ParamValue → Option α} {v : ParamValue}
    (h : c.parameters.get? name = some v) (hv : view v = some a) :
    c.typedParameter reason view name = .ok a := by
  rw [typedParameter, parameter, h]
  dsimp only [bind, Except.bind, pure, Except.pure]
  rw [hv]

theorem typedInput_of_get? {expected : PortType} {view : Value → Option α} {v : Value}
    (h : c.inputs.get? name = some v) (hv : view v = some a) :
    c.typedInput expected view name = .ok a := by
  rw [typedInput, input, h]
  dsimp only [bind, Except.bind, pure, Except.pure]
  rw [hv]

end Context

namespace Compute

variable {α β : Type}

/-- A sequence succeeds only if both of its parts do. -/
theorem of_bind_eq_ok {m : Compute α} {k : α → Compute β} {c c'' : Context} {b : β}
    (h : (m >>= k) c = .ok (b, c'')) : ∃ a c', m c = .ok (a, c') ∧ k a c' = .ok (b, c'') := by
  change (m c >>= fun x => k x.1 x.2) = .ok (b, c'') at h
  cases hm : m c with
  | error e =>
    rw [hm] at h
    cases h
  | ok x =>
    rw [hm] at h
    exact ⟨x.1, x.2, rfl, h⟩

/-- A question that is answered leaves the context as it is. -/
theorem of_ask_eq_ok {q : Context → Except ComputeError α} {c c' : Context} {a : α}
    (h : ask q c = .ok (a, c')) : q c = .ok a ∧ c' = c := by
  rw [ask_eq] at h
  cases hq : q c with
  | error e =>
    rw [hq] at h
    cases h
  | ok b =>
    rw [hq] at h
    cases h
    exact ⟨rfl, rfl⟩

theorem bind_of_ok {m : Compute α} {k : α → Compute β} {c c' : Context} {a : α}
    (h : m c = .ok (a, c')) : (m >>= k) c = k a c' := by
  show (m c >>= fun x => k x.1 x.2) = _
  rw [h]
  rfl

theorem bind_of_error {m : Compute α} {k : α → Compute β} {c : Context} {x : Interruption}
    (h : m c = .error x) : (m >>= k) c = .error x := by
  show (m c >>= fun x => k x.1 x.2) = _
  rw [h]
  rfl

theorem ask_of_ok {q : Context → Except ComputeError α} {c : Context} {a : α} (h : q c = .ok a) :
    ask q c = .ok (a, c) := by
  rw [ask_eq, h]
  rfl

theorem inputRaster_of_get? {c : Context} {name : String} {i : Image} {p : Picture}
    (h : c.inputs.get? name = some (.image i)) (hp : i.picture = some p) :
    Builtin.inputRaster name c = .ok (p.raster, c) := by
  have asked : c.inputImage name = .ok i := Context.typedInput_of_get? h rfl
  rw [Builtin.inputRaster, bind_of_ok (ask_of_ok asked), Image.raster, hp]
  rfl

theorem inputRaster_of_none {c : Context} {name : String} {i : Image}
    (h : c.inputs.get? name = some (.image i)) (hp : i.picture = none) :
    Builtin.inputRaster name c = .error (.error (c.processingError "Image has no data")) := by
  have asked : c.inputImage name = .ok i := Context.typedInput_of_get? h rfl
  rw [Builtin.inputRaster, bind_of_ok (ask_of_ok asked), Image.raster, hp]
  rfl

/-- The output that is set is the only one that is declared. -/
theorem conclude_setOutput {c c' : Context} {name : String} {v : Value} (ho : c'.outputs = ∅)
    (hd : c'.declared = Table.ofList [(name, v.type)]) :
    conclude c (setOutput name v c') = .ok (Table.insert ∅ name v) := by
  have declared : c'.declared.get? name = some v.type := by
    rw [hd]
    exact Table.get?_insert_self ..
  have set : c'.setOutput name v = .ok { c' with outputs := Table.insert ∅ name v } := by
    rw [Context.setOutput, declared, ho]
    exact if_pos (by simp [PortType.accepts])
  have done : (Table.insert ∅ name v : Table String Value).contains name = true := by
    rw [Table.contains, Table.get?_insert_self]
    rfl
  have keys : c'.declared.keys = [name] := by rw [hd]; rfl
  rw [setOutput, bind_of_ok (ask_of_ok set)]
  show Context.finish { c' with outputs := Table.insert ∅ name v } = _
  simp only [Context.finish, keys, List.find?_cons, done, Bool.not_true, List.find?_nil]

/-- **The compute changes its context by setting outputs and making images only.** -/
def Abides (m : Compute α) : Prop :=
  ∀ c a d, m c = .ok (a, d) → ReflTransGen Context.Access c d

theorem abides_pure (a : α) : Abides (pure a : Compute α) := by
  intro c b d h
  cases h
  exact .refl

theorem abides_get : Abides (get : Compute Context) := by
  intro c b d h
  cases h
  exact .refl

theorem abides_fail (e : ComputeError) : Abides (fail e : Compute α) := fun _ _ _ h => nomatch h

theorem abides_panic (message : Option String) : Abides (panic message : Compute α) :=
  fun _ _ _ h => nomatch h

theorem Abides.bind {m : Compute α} {k : α → Compute β} (hm : m.Abides) (hk : ∀ a, (k a).Abides) :
    Abides (m >>= k) := by
  intro c b d h
  obtain ⟨a, c', ha, hb⟩ := of_bind_eq_ok h
  exact (hm c a c' ha).trans (hk a c' b d hb)

theorem abides_ask (q : Context → Except ComputeError α) : Abides (ask q) := by
  intro c a d h
  rw [(of_ask_eq_ok h).2]

theorem abides_setOutput (name : String) (v : Value) : Abides (setOutput name v) := by
  intro c a d h
  obtain ⟨c', c₁, hask, hset⟩ := of_bind_eq_ok h
  obtain ⟨hs, rfl⟩ := of_ask_eq_ok hask
  cases hset
  exact .single (.output hs)

theorem abides_newImage (p : Picture) (origin : Option String) : Abides (newImage p origin) := by
  intro c a d h
  cases h
  exact .single (.image c)

/-- The declared outputs stay as they are. -/
def Keeps (m : Compute α) : Prop := ∀ c a c', m c = .ok (a, c') → c'.declared = c.declared

theorem declared_of_access {c d : Context} (h : ReflTransGen Context.Access c d) :
    d.declared = c.declared := by
  induction h with
  | refl => rfl
  | tail _ hd ih => exact hd.declared.trans ih

theorem Abides.keeps {m : Compute α} (h : m.Abides) : m.Keeps := fun c a d hm =>
  declared_of_access (h c a d hm)

/-- **A compute that leaves the declared outputs alone sets all of them.** -/
theorem Keeps.fills {v : Variant} (h : v.compute.Keeps) : v.Fills := by
  intro c t ht name hn
  unfold Variant.run at ht
  split at ht
  · next c' hc =>
    unfold Context.finish at ht
    split at ht
    · cases ht
    · next hf =>
      cases ht
      rw [← h c () c' hc] at hn
      simpa using List.find?_eq_none.1 hf name hn
  · cases ht
  · cases ht

end Compute

namespace Builtin

open Compute

theorem abides_inputRaster (name : String) : (inputRaster name).Abides := by
  refine (abides_ask _).bind fun i => ?_
  split
  · exact abides_pure _
  · exact abides_ask _

theorem abides_outputRaster (name : String) (r : Raster) : (outputRaster name r).Abides :=
  (abides_newImage _ _).bind fun _ => abides_setOutput _ _

theorem abides_blur : blur.compute.Abides := by
  refine (abides_ask _).bind fun m => (abides_ask _).bind fun s =>
    (abides_inputRaster _).bind fun r => ?_
  split
  · exact abides_outputRaster _ _
  · exact abides_panic _

theorem abides_brightness : brightness.compute.Abides := by
  refine (abides_ask _).bind fun x => ?_
  split
  · exact abides_ask _
  · exact (abides_inputRaster _).bind fun _ => abides_outputRaster _ _

theorem abides_sepia : sepia.compute.Abides :=
  (abides_ask _).bind fun _ => (abides_ask _).bind fun _ =>
    (abides_inputRaster _).bind fun _ => abides_outputRaster _ _

theorem abides_imageSource : imageSource.compute.Abides := by
  refine (abides_ask _).bind fun path => ?_
  dsimp only
  split
  on_goal 1 => refine (abides_ask _).bind fun _ => ?_
  all_goals
    refine abides_get.bind fun c => ?_
    split
    · exact abides_fail _
    · exact abides_panic _
    · exact (abides_newImage _ _).bind fun _ => abides_setOutput _ _

/-- **Every variant that comes with the library only sets outputs and makes images.** -/
theorem abides (v : Variant) (hv : Palette.builtin.variants v) : v.compute.Abides := by
  have hv := Registry.mem_builtin.1 hv
  have constant : ∀ {α : Type} (q : Context → Except ComputeError α) (name : String)
      (f : α → Value), Abides (ask q >>= fun a => setOutput name (f a)) := fun q name f =>
    (abides_ask q).bind fun _ => abides_setOutput _ _
  have math : math.compute.Abides := (abides_ask _).bind fun _ => (abides_ask _).bind fun _ =>
    (abides_ask _).bind fun _ => abides_setOutput _ _
  simp only [List.mem_cons, List.not_mem_nil, or_false] at hv
  rcases hv with rfl | rfl | rfl | rfl | rfl | rfl | rfl | rfl
  · exact abides_imageSource
  · exact constant _ _ _
  · exact abides_blur
  · exact abides_brightness
  · exact abides_sepia
  · exact constant _ _ _
  · exact constant _ _ _
  · exact math

/-- **Every variant that comes with the library sets all outputs that are declared.** -/
theorem fills (v : Variant) (hv : Palette.builtin.variants v) : v.Fills := (abides v hv).keeps.fills

end Builtin

end PixelFlow
