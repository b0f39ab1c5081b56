import PixelFlow.Proofs.Palette
import PixelFlow.Registry
import Mathlib.Data.List.Nodup

/-!
# Built-in computes are pure

Two runs of a compute on contexts that show the same go on in step: each question is answered in
the same way, or both runs end with the same error. A built-in compute asks first and sets one
output at its end.

* `InStep`: two answers that are related, or two errors that are the same for one node.
* `Compute.Concludes`: two runs whose outcomes match; **`InStep.bind`**: their parts in step.
* `Builtin.pure_blur`, …: the computes one after the other.
* **`Palette.builtin`**: the variants that come with the library are a palette.
-/

namespace PixelFlow

/-- An image that shows nothing, to stand for those of a compute that makes none. -/
def Image.blank : Image := ⟨⟨0, 0, none⟩, ⟨0⟩, none⟩

/-- The results are related, or both are errors, the same ones if the runs are of one node. -/
inductive InStep {ε α β : Type} (alike : Prop) (r : α → β → Prop) :
    Except ε α → Except ε β → Prop
  | ok {a : α} {b : β} (h : r a b) : InStep alike r (.ok a) (.ok b)
  | error {x y : ε} (h : alike → x = y) : InStep alike r (.error x) (.error y)

namespace InStep

variable {ε α β α' β' : Type} {alike : Prop} {r : α → β → Prop} {q : α' → β' → Prop}

theorem bind {x : Except ε α} {y : Except ε β} {f : α → Except ε α'} {g : β → Except ε β'}
    (h : InStep alike r x y) (hfg : ∀ a b, r a b → InStep alike q (f a) (g b)) :
    InStep alike q (x >>= f) (y >>= g) := by
  cases h with
  | ok h => exact hfg _ _ h
  | error h => exact .error h

end InStep

namespace Context

variable {given : Image → Image → Prop} {c d : Context}

theorem invalidParameter_congr (h : c.node = d.node) (name reason : String) :
    c.invalidParameter name reason = d.invalidParameter name reason := by
  rw [invalidParameter, invalidParameter, h]

theorem processingError_congr (h : c.node = d.node) (reason : String) :
    c.processingError reason = d.processingError reason := by
  rw [processingError, processingError, h]

section Like

variable (h : c.Like given d)

include h

theorem input_inStep (name : String) :
    InStep (c.node = d.node) (Value.Match given) (c.input name) (d.input name) := by
  have hi := h.inputs name
  unfold input
  generalize c.inputs.get? name = v at hi ⊢
  generalize d.inputs.get? name = w at hi ⊢
  cases hi with
  | none => exact .error fun e => by rw [e]
  | some hi => exact .ok hi

theorem hasInput_eq (name : String) : c.hasInput name = d.hasInput name := by
  have hi := h.inputs name
  unfold hasInput Table.contains
  generalize c.inputs.get? name = v at hi ⊢
  generalize d.inputs.get? name = w at hi ⊢
  cases hi <;> rfl

theorem typedInput_inStep {α : Type} {r : α → α → Prop} (expected : PortType)
    {view : Value → Option α}
    (hv : ∀ v w, Value.Match given v w → Option.Rel r (view v) (view w)) (name : String) :
    InStep (c.node = d.node) r (c.typedInput expected view name)
      (d.typedInput expected view name) := by
  refine (input_inStep h name).bind fun v w hvw => ?_
  have type : v.type = w.type := by cases hvw <;> rfl
  have hr := hv v w hvw
  generalize view v = x at hr ⊢
  generalize view w = y at hr ⊢
  cases hr with
  | none => exact .error fun e => type ▸ processingError_congr e _
  | some hr => exact .ok hr

theorem inputImage_inStep (name : String) :
    InStep (c.node = d.node) given (c.inputImage name) (d.inputImage name) :=
  typedInput_inStep h _ (fun v w hvw => by
    cases hvw with
    | image h => exact .some h
    | number => exact .none
    | color => exact .none) name

theorem inputNumber_inStep (name : String) :
    InStep (c.node = d.node) (· = ·) (c.inputNumber name) (d.inputNumber name) :=
  typedInput_inStep h _ (fun v w hvw => by
    cases hvw with
    | image => exact .none
    | number x => exact .some rfl
    | color => exact .none) name

theorem inputColor_inStep (name : String) :
    InStep (c.node = d.node) (· = ·) (c.inputColor name) (d.inputColor name) :=
  typedInput_inStep h _ (fun v w hvw => by
    cases hvw with
    | image => exact .none
    | number => exact .none
    | color x => exact .some rfl) name

theorem typedParameter_inStep {α : Type} (reason : String) (view : ParamValue → Option α)
    (name : String) : InStep (c.node = d.node) (· = ·) (c.typedParameter reason view name)
      (d.typedParameter reason view name) := by
  unfold typedParameter parameter
  rw [h.parameters]
  cases d.parameters.get? name with
  | none => exact .error fun e => invalidParameter_congr e _ _
  | some v =>
    dsimp only [bind, Except.bind]
    cases view v with
    | none => exact .error fun e => invalidParameter_congr e _ _
    | some a => exact .ok rfl

end Like

end Context

namespace Compute

/-- The outcome of a compute that began on a context, by how it ends. -/
def conclude (c : Context) : Except Interruption (Unit × Context) → Outcome
  | .ok (_, c') => c'.finish
  | .error (.error e) => .error e
  | .error (.panic message) => .error (.panicked c.node (message.getD "unknown panic"))

theorem ask_eq {α : Type} (q : Context → Except ComputeError α) (c : Context) :
    ask q c = (q c).mapError .error >>= fun a => .ok (a, c) := by
  show ask (fun _ => q c) c = _
  cases q c <;> rfl

theorem run_eq (v : Variant) (c : Context) : v.run c = conclude c (v.compute c) := by
  unfold Variant.run conclude
  split <;> simp_all

section Concludes

variable {given : Image → Image → Prop} {kept : Image → Prop} {c d : Context}

/-- The outcomes of two runs match. -/
def Concludes (given : Image → Image → Prop) (kept : Image → Prop) (c d : Context)
    (x y : Except Interruption (Unit × Context)) : Prop :=
  ∃ made : Nat → Image, Outcome.Match (Image.Counterpart given kept made c.stamp d.stamp)
    (c.node = d.node) (conclude c x) (conclude d y)

theorem concludes_error {x y : Interruption} (h : c.node = d.node → x = y) :
    Concludes given kept c d (.error x) (.error y) := by
  refine ⟨fun _ => .blank, ?_⟩
  have fails : ∀ (c : Context) (z : Interruption), ∃ e, conclude c (.error z) = .error e := by
    intro c z
    cases z <;> exact ⟨_, rfl⟩
  obtain ⟨e, he⟩ := fails c x
  obtain ⟨e', he'⟩ := fails d y
  -- The outcome depends on the context by its node only.
  have same : c.node = d.node → conclude c (.error x) = conclude d (.error x) := fun hn => by
    cases x with
    | error e => rfl
    | panic message => rw [conclude, conclude, hn]
  rw [he, he']
  refine .error fun hn => ?_
  have := same hn
  rw [he, h hn, he'] at this
  exact Except.error.inj this

/-- A value is set that the other run sets, or its counterpart. -/
theorem concludes_setOutput {c' d' : Context} (made : Nat → Image) {v w : Value} (name : String)
    (hv : v.Match (Image.Counterpart given kept made c.stamp d.stamp) w)
    (hc : c'.outputs = ∅ ∧ c'.node = c.node) (hd : d'.outputs = ∅ ∧ d'.node = d.node)
    (hdecl : c'.declared = d'.declared) :
    Concludes given kept c d (setOutput name v c') (setOutput name w d') := by
  have type : w.type = v.type := by cases hv <;> rfl
  have set : ∀ (c : Context) (v : Value), setOutput name v c =
      (c.setOutput name v).mapError .error >>= fun c' => .ok ((), c') := by
    intro c v
    show (ask (·.setOutput name v) c >>= fun x => Except.ok ((), x.1)) = _
    rw [ask_eq]
    cases c.setOutput name v <;> rfl
  rw [set, set, Context.setOutput, Context.setOutput, hdecl]
  cases d'.declared.get? name with
  | none =>
    refine concludes_error fun e => ?_
    exact congrArg _ (Context.processingError_congr (hc.2.trans (e.trans hd.2.symm)) _)
  | some expected =>
    have accepts : expected.accepts w = expected.accepts v := by
      rw [PortType.accepts, PortType.accepts, type]
    dsimp only
    rw [accepts]
    split
    · -- The one output is set in both runs; whether others are missing is the same question.
      refine ⟨made, ?_⟩
      have contains : ∀ k,
          (c'.outputs.insert name v).contains k = (d'.outputs.insert name w).contains k := by
        intro k
        rw [Table.contains, Table.contains, Table.get?_insert, Table.get?_insert, hc.1, hd.1]
        split <;> rfl
      show Outcome.Match _ _ (Context.finish _) (Context.finish _)
      unfold Context.finish
      simp only [contains]
      split
      · exact .error fun e => by rw [hc.2, hd.2, e]
      · refine .ok ?_
        rw [hc.1, hd.1]
        exact .cons ⟨rfl, hv⟩ .nil
    · refine concludes_error fun e => ?_
      rw [hc.2, hd.2, e, type]

/-- The runs have asked the same so far, and changed nothing. -/
def Asks {α β : Type} (c d : Context) (r : α → β → Prop) (m : Compute α) (m' : Compute β) : Prop :=
  InStep (c.node = d.node) (fun x y => r x.1 y.1 ∧ x.2 = c ∧ y.2 = d) (m c) (m' d)

theorem asks_ask {α β : Type} {r : α → β → Prop} {q : Context → Except ComputeError α}
    {q' : Context → Except ComputeError β} (h : InStep (c.node = d.node) r (q c) (q' d)) :
    Asks c d r (ask q) (ask q') := by
  unfold Asks
  rw [ask_eq, ask_eq]
  generalize q c = x at h ⊢
  generalize q' d = y at h ⊢
  cases h with
  | ok h => exact .ok ⟨h, rfl, rfl⟩
  | error h => exact .error fun e => congrArg _ (h e)

theorem asks_get : Asks c d (fun a b => a = c ∧ b = d) (get : Compute Context) get :=
  .ok ⟨⟨rfl, rfl⟩, rfl, rfl⟩

theorem Asks.bind {α β α' β' : Type} {r : α → β → Prop} {q : α' → β' → Prop} {m : Compute α}
    {m' : Compute β} {k : α → Compute α'} {k' : β → Compute β'} (h : Asks c d r m m')
    (hk : ∀ a b, r a b → Asks c d q (k a) (k' b)) : Asks c d q (m >>= k) (m' >>= k') := by
  refine InStep.bind h fun x y hxy => ?_
  obtain ⟨a, c'⟩ := x
  obtain ⟨b, d'⟩ := y
  obtain ⟨hab, rfl, rfl⟩ := hxy
  exact hk a b hab

theorem Asks.concludes {α β : Type} {r : α → β → Prop} {m : Compute α} {m' : Compute β}
    {k : α → Compute Unit} {k' : β → Compute Unit} (h : Asks c d r m m')
    (hk : ∀ a b, r a b → Concludes given kept c d (k a c) (k' b d)) :
    Concludes given kept c d ((m >>= k) c) ((m' >>= k') d) := by
  show Concludes given kept c d (m c >>= fun x => k x.1 x.2) (m' d >>= fun y => k' y.1 y.2)
  unfold Asks at h
  generalize m c = x at h ⊢
  generalize m' d = y at h ⊢
  cases h with
  | @ok x y h =>
    obtain ⟨a, c'⟩ := x
    obtain ⟨b, d'⟩ := y
    obtain ⟨hab, rfl, rfl⟩ := h
    exact hk a b hab
  | error h => exact concludes_error h

/-- A new image is the only output. -/
theorem concludes_newImage (hc : c.Opening) (hd : d.Opening) (hl : c.Like given d) (name : String)
    (p : Picture) (origin : Option String) : Concludes given kept c d
      ((do setOutput name (.image (← newImage p origin))) c)
      ((do setOutput name (.image (← newImage p origin))) d) := by
  refine concludes_setOutput (fun _ => .ofPicture ⟨0⟩ p origin) name (.image ?_)
    ⟨hc.outputs, rfl⟩ ⟨hd.outputs, rfl⟩ hl.declared
  rw [hc.made, hd.made]
  exact .made 0

/-- An image that was given is the only output. -/
theorem concludes_image (hc : c.Opening) (hd : d.Opening) (hl : c.Like given d) (name : String)
    {i j : Image} (h : given i j) : Concludes given kept c d (setOutput name (.image i) c)
      (setOutput name (.image j) d) :=
  concludes_setOutput (fun _ => i) name (.image (.given h)) ⟨hc.outputs, rfl⟩
    ⟨hd.outputs, rfl⟩ hl.declared

/-- A number or a color is the only output. -/
theorem concludes_plain (hc : c.Opening) (hd : d.Opening) (hl : c.Like given d) (name : String)
    {v : Value} (h : ∀ i, v ≠ .image i) : Concludes given kept c d (setOutput name v c)
      (setOutput name v d) :=
  concludes_setOutput (fun _ => .blank) name (.of_eq fun i e => (h i e).elim)
    ⟨hc.outputs, rfl⟩ ⟨hd.outputs, rfl⟩ hl.declared

/-- The answer to the last question is an error. -/
theorem concludes_throw {f : Context → ComputeError} (h : c.node = d.node → f c = f d) :
    Concludes given kept c d ((ask fun c => throw (f c)) c) ((ask fun c => throw (f c)) d) :=
  concludes_error fun e => congrArg Interruption.error (h e)

end Concludes

end Compute

theorem Variant.pure_of_concludes {kept : Image → Prop} {v : Variant}
    (h : ∀ {given : Image → Image → Prop} {c d : Context}, (∀ i j, given i j → i.Alike j) →
      c.Opening → d.Opening → c.Like given d →
        Compute.Concludes given kept c d (v.compute c) (v.compute d)) : v.Pure kept := by
  intro given c d hg hc hd hl
  rw [Compute.run_eq, Compute.run_eq]
  exact h hg hc hd hl

/-! ## One compute after the other -/

namespace Builtin

open Compute

variable {given : Image → Image → Prop} {kept : Image → Prop} {c d : Context}

theorem asks_inputRaster (hl : c.Like given d) (hg : ∀ i j, given i j → i.Alike j)
    (name : String) : Asks c d (· = ·) (inputRaster name) (inputRaster name) := by
  refine (asks_ask (Context.inputImage_inStep hl name)).bind fun i j hij => ?_
  rw [Image.raster, Image.raster, (hg i j hij).2]
  cases j.picture with
  | none => exact asks_ask (.error fun e => Context.processingError_congr e _)
  | some p => exact .ok ⟨rfl, rfl, rfl⟩

theorem asks_methodParameter (hl : c.Like given d) {α : Type} (ofName : String → Except String α)
    (unknown : String → String) :
    Asks c d (· = ·) (methodParameter ofName unknown) (methodParameter ofName unknown) := by
  refine asks_ask ((Context.typedParameter_inStep hl _ _ _).bind fun s t hst => ?_)
  subst hst
  cases ofName s with
  | ok m => exact .ok rfl
  | error other => exact .error fun e => Context.invalidParameter_congr e _ _

theorem pure_number : number.Pure kept := by
  refine Variant.pure_of_concludes fun _ hc hd hl => ?_
  refine (asks_ask (Context.typedParameter_inStep hl _ _ _)).concludes fun x y hxy => ?_
  subst hxy
  exact concludes_plain hc hd hl _ fun _ => Value.noConfusion

theorem pure_color : color.Pure kept := by
  refine Variant.pure_of_concludes fun _ hc hd hl => ?_
  refine (asks_ask (Context.typedParameter_inStep hl _ _ _)).concludes fun x y hxy => ?_
  subst hxy
  exact concludes_plain hc hd hl _ fun _ => Value.noConfusion

theorem pure_math : math.Pure kept := by
  refine Variant.pure_of_concludes fun _ hc hd hl => ?_
  refine (asks_methodParameter hl _ _).concludes fun m _ hm => ?_
  refine (asks_ask (Context.inputNumber_inStep hl _)).concludes fun x _ hx => ?_
  refine (asks_ask (Context.inputNumber_inStep hl _)).concludes fun y _ hy => ?_
  subst hm hx hy
  exact concludes_plain hc hd hl _ fun _ => Value.noConfusion

theorem pure_imageOutput : imageOutput.Pure kept := by
  refine Variant.pure_of_concludes fun _ hc hd hl => ?_
  refine (asks_ask (Context.inputImage_inStep hl _)).concludes fun i j hij => ?_
  exact concludes_image hc hd hl _ hij

theorem pure_blur : blur.Pure kept := by
  refine Variant.pure_of_concludes fun hg hc hd hl => ?_
  refine (asks_methodParameter hl _ _).concludes fun m _ hm => ?_
  refine (asks_ask (Context.typedParameter_inStep hl _ _ _)).concludes fun sigma _ hs => ?_
  refine (asks_inputRaster hl hg _).concludes fun r _ hr => ?_
  subst hm hs hr
  cases m.filtered sigma.toFloat.toFloat32 r with
  | ok filtered => exact concludes_newImage hc hd hl _ _ _
  | error message => exact concludes_error fun _ => rfl

theorem pure_brightness : brightness.Pure kept := by
  refine Variant.pure_of_concludes fun hg hc hd hl => ?_
  refine (asks_ask (r := (· = ·)) ?_).concludes fun x _ hx => ?_
  · rw [Context.hasInput_eq hl]
    split
    · exact Context.inputNumber_inStep hl _
    · exact Context.typedParameter_inStep hl _ _ _
  · subst hx
    cases x.round? with
    | none =>
      exact concludes_throw fun e => Context.invalidParameter_congr e _ _
    | some n =>
      refine (asks_inputRaster hl hg _).concludes fun r _ hr => ?_
      subst hr
      exact concludes_newImage hc hd hl _ _ _

theorem pure_sepia : sepia.Pure kept := by
  refine Variant.pure_of_concludes fun hg hc hd hl => ?_
  refine (asks_ask (r := (· = ·)) ?_).concludes fun tone _ ht => ?_
  · rw [Context.hasInput_eq hl]
    split
    · exact Context.inputColor_inStep hl _
    · exact .ok rfl
  · refine (asks_ask (Context.typedParameter_inStep hl _ _ _)).concludes fun x _ hx => ?_
    refine (asks_inputRaster hl hg _).concludes fun r _ hr => ?_
    subst ht hx hr
    exact concludes_newImage hc hd hl _ _ _

theorem pure_imageSource (load : Picture.Loader) : (imageSourceOf load).Pure kept := by
  refine Variant.pure_of_concludes fun hg hc hd hl => ?_
  refine (asks_ask (Context.typedParameter_inStep hl _ _ _)).concludes fun path _ hp => ?_
  subst hp
  dsimp only
  split
  · refine (asks_ask (r := fun _ _ => False) (.error fun e => ?_)).concludes fun _ _ h => h.elim
    exact Context.invalidParameter_congr e _ _
  · refine asks_get.concludes fun a b hab => ?_
    obtain ⟨rfl, rfl⟩ := hab
    rw [hl.files]
    cases load b.files path with
    | ok p => exact concludes_newImage hc hd hl _ _ _
    | error failure =>
      cases failure with
      | unreadable reason => exact concludes_error fun e => by rw [e]
      | panic message => exact concludes_error fun _ => rfl

end Builtin

/-! ## The palette -/

theorem Registry.mem_builtin {v : Variant} : v ∈ builtin.variants.values ↔
    v ∈ [Builtin.imageSource, Builtin.imageOutput, Builtin.blur, Builtin.brightness,
      Builtin.sepia, Builtin.number, Builtin.color, Builtin.math] := Iff.rfl

/-- **The variants that come with the library.** -/
def Palette.builtin : Palette where
  variants v := v ∈ Registry.builtin.variants.values
  images _ := False
  pure v hv := by
    rw [Registry.mem_builtin] at hv
    simp only [List.mem_cons, List.not_mem_nil, or_false] at hv
    rcases hv with rfl | rfl | rfl | rfl | rfl | rfl | rfl | rfl
    · exact Builtin.pure_imageSource _
    · exact Builtin.pure_imageOutput
    · exact Builtin.pure_blur
    · exact Builtin.pure_brightness
    · exact Builtin.pure_sepia
    · exact Builtin.pure_number
    · exact Builtin.pure_color
    · exact Builtin.pure_math
  unique v w hv hw e := by
    have nodup : (Registry.builtin.variants.values.map fun v => v.metadata.id).Nodup := by decide
    exact List.inj_on_of_nodup_map nodup hv hw e
  defaults v hv p hp i hi := by
    have none : ∀ p ∈ Registry.builtin.variants.values.flatMap fun v => v.metadata.ports,
        ¬ p.default.any (·.type == .image) := by decide
    refine none p (List.mem_flatMap.2 ⟨v, hv, hp⟩) ?_
    rw [hi]
    rfl
  distinct _ _ h := h.elim
  unminted _ h := h.elim

end PixelFlow
