import PixelFlow.Proofs.Fills

/-!
# Contexts and all that is called on them

A context is written in place, by the engine and by the compute that it is made for. Outputs may be
declared and set in any order, and a copy of a context goes its own way. What a context ends with is
read off the calls that it has seen. One thing escapes its checks: an output that is set is not
looked at again when its name is declared once more.

* `Context.setInPlace`: setting an output as a program that writes the context.
* `Context.typeOf`, `Context.valueOf`: the type and the value of a name, by the calls.
* `Context.Step`, `Context.desk`, `Context.histories`: contexts with their copies, and what each of
  them has seen.
* **`Context.finishes_desk`**: what every context ends with.
* `Context.not_wellTyped`: an output that is not of the type of its name.
-/

namespace PixelFlow.Context

/-! ## Calls -/

/-- Set an output in place: after an error, what was written stays. -/
def setInPlace (name : String) (v : Value) : EStateM ComputeError Context Unit := do
  match (← get).declared.get? name with
  | none => throw ((← get).processingError s!"'{name}' is not a declared output")
  | some expected =>
    if !expected.accepts v then throw (.outputTypeMismatch (← get).node name expected v.type)
    modify fun c => { c with outputs := c.outputs.insert name v }

/-- An output that is refused is not written. -/
theorem run_setInPlace (c : Context) (name : String) (v : Value) : (setInPlace name v).run c =
    match c.setOutput name v with
    | .ok d => .ok () d
    | .error x => .error x c := by
  rw [setInPlace, setOutput, EStateM.run_bind, EStateM.run_get]
  dsimp only
  cases hd : c.declared.get? name with
  | none => rfl
  | some expected =>
    dsimp only
    cases ha : expected.accepts v <;> rfl

inductive Call
  | addInput (name : String) (v : Value)
  | declare (name : String) (t : PortType)
  | set (name : String) (v : Value)

/-- What a call makes of a context. -/
def call (c : Context) : Call → Context
  | .addInput name v => c.addInput name v
  | .declare name t => c.declareOutput name t
  | .set name v =>
    match (setInPlace name v).run c with
    | .ok _ d => d
    | .error _ d => d

/-- What calls make of a context, the newest first. -/
def replay (c : Context) (h : List Call) : Context := h.foldr (fun k c => c.call k) c

/-- The type that a name is declared with. -/
def typeOf (name : String) : List Call → Option PortType
  | [] => none
  | .declare n t :: h => if n = name then some t else typeOf name h
  | _ :: h => typeOf name h

/-- The value of a name: the last one that was of the type that the name had at that time. -/
def valueOf (name : String) : List Call → Option Value
  | [] => none
  | .set n v :: h => if n = name ∧ typeOf name h = some v.type then some v else valueOf name h
  | _ :: h => valueOf name h

variable {c : Context} {name : String} {v : Value} {h newer older : List Call}

/-- An output is accepted exactly if it is of the type that its name is declared with. -/
theorem setOutput_eq_ok_iff {d : Context} : c.setOutput name v = .ok d ↔
    c.declared.get? name = some v.type ∧ d = { c with outputs := c.outputs.insert name v } := by
  refine ⟨setOutput_ok, ?_⟩
  rintro ⟨hd, rfl⟩
  rw [setOutput, hd]
  exact if_pos (beq_self_eq_true _)

theorem run_setInPlace_of_type (ht : c.declared.get? name = some v.type) :
    (setInPlace name v).run c = .ok () { c with outputs := c.outputs.insert name v } := by
  rw [run_setInPlace, setOutput_eq_ok_iff.2 ⟨ht, rfl⟩]

theorem run_setInPlace_of_ne (ht : c.declared.get? name ≠ some v.type) :
    ∃ x, (setInPlace name v).run c = .error x c := by
  rw [run_setInPlace]
  cases hs : c.setOutput name v with
  | ok d => exact absurd (setOutput_ok hs).1 ht
  | error x => exact ⟨x, rfl⟩

/-- What a call to set an output does, accepted or not. -/
theorem call_set (c : Context) (n : String) (v : Value) : c.call (.set n v) =
    if c.declared.get? n = some v.type then { c with outputs := c.outputs.insert n v } else c := by
  rw [call]
  by_cases ht : c.declared.get? n = some v.type
  · rw [run_setInPlace_of_type ht, if_pos ht]
  · obtain ⟨x, hx⟩ := run_setInPlace_of_ne ht
    rw [hx, if_neg ht]

/-! ## Declarations and values -/

theorem declared_replay (hd : c.declared = ∅) (h : List Call) (name : String) :
    (c.replay h).declared.get? name = typeOf name h := by
  induction h with
  | nil =>
    rw [replay, List.foldr_nil, hd]
    rfl
  | cons k h ih =>
    show ((c.replay h).call k).declared.get? name = _
    cases k with
    | addInput => exact ih
    | declare n t => exact (Table.get?_insert ..).trans (by rw [ih, typeOf])
    | set n v =>
      rw [call_set]
      split <;> exact ih

theorem outputs_replay (hd : c.declared = ∅) (ho : c.outputs = ∅) (h : List Call) (name : String) :
    (c.replay h).outputs.get? name = valueOf name h := by
  induction h with
  | nil =>
    rw [replay, List.foldr_nil, ho]
    rfl
  | cons k h ih =>
    show ((c.replay h).call k).outputs.get? name = _
    cases k with
    | addInput | declare => exact ih
    | set n v =>
      rw [call_set, declared_replay hd, valueOf]
      by_cases hn : n = name
      · subst hn
        simp only [true_and]
        split
        · exact Table.get?_insert_self ..
        · exact ih
      · have : ¬ (n = name ∧ typeOf name h = some v.type) := fun e => hn e.1
        rw [if_neg this]
        split
        · rw [Table.get?_insert, if_neg hn, ih]
        · exact ih

theorem typeOf_append (name : String) (newer older : List Call) :
    typeOf name (newer ++ older) = (typeOf name newer).or (typeOf name older) := by
  induction newer with
  | nil => rfl
  | cons k newer ih =>
    cases k with
    | addInput | set => exact ih
    | declare n t =>
      rw [List.cons_append, typeOf, typeOf]
      split
      · rfl
      · exact ih

/-- A name that has a value is declared. -/
theorem isSome_typeOf (hv : valueOf name h = some v) : (typeOf name h).isSome := by
  induction h with
  | nil => cases hv
  | cons k h ih =>
    cases k with
    | addInput => exact ih hv
    | declare n t =>
      rw [typeOf]
      split
      · rfl
      · exact ih hv
    | set n w =>
      rw [valueOf] at hv
      split at hv
      · next ha =>
        show (typeOf name h).isSome
        rw [ha.2]
        rfl
      · exact ih hv

/-- **The call that set a value**: it was accepted, and none for the same name has been since. -/
structure LastSet (name : String) (v : Value) (newer older : List Call) : Prop where
  accepted : typeOf name older = some v.type
  last : ∀ w x y, newer = x ++ .set name w :: y →
    typeOf name (y ++ .set name v :: older) ≠ some w.type

theorem exists_lastSet (hv : valueOf name h = some v) :
    ∃ newer older, h = newer ++ .set name v :: older ∧ LastSet name v newer older := by
  induction h with
  | nil => cases hv
  | cons k h ih =>
    -- A call that does not set the name with success comes after the one that did.
    have later (hk : ∀ w, k = .set name w → typeOf name h ≠ some w.type)
        (hv : valueOf name h = some v) :
        ∃ newer older, k :: h = newer ++ .set name v :: older ∧ LastSet name v newer older := by
      obtain ⟨newer, older, rfl, hl⟩ := ih hv
      refine ⟨k :: newer, older, rfl, hl.accepted, fun w x y e => ?_⟩
      cases x with
      | nil =>
        obtain ⟨rfl, rfl⟩ := List.cons.inj e
        exact hk w rfl
      | cons k' x => exact hl.last w x y (List.cons.inj e).2
    cases k with
    | addInput | declare => exact later (fun w e => nomatch e) hv
    | set n w =>
      rw [valueOf] at hv
      split at hv
      · next ha =>
        obtain ⟨rfl, ht⟩ := ha
        obtain rfl := Option.some.inj hv
        exact ⟨[], h, rfl, ht, fun w x y e => by simp at e⟩
      · next ha =>
        refine later (fun w' e ht => ha ?_) hv
        obtain ⟨rfl, rfl⟩ := Call.set.inj e
        exact ⟨rfl, ht⟩

/-- **A value is of the type of its name unless the name has been declared otherwise since.** -/
theorem LastSet.typeOf_eq_iff (hl : LastSet name v newer older) :
    typeOf name (newer ++ .set name v :: older) = some v.type ↔
      ∀ t, typeOf name newer = some t → t = v.type := by
  have older : typeOf name (.set name v :: older) = some v.type := hl.accepted
  rw [typeOf_append, older]
  cases typeOf name newer <;> simp

/-! ## The end -/

/-- **What a context ends with**, by the calls that it has seen. -/
structure Finishes (c : Context) (h : List Call) : Prop where
  /-- It ends well exactly when every declared name has been set with success. -/
  ok_iff : (∃ t, c.finish = .ok t) ↔ ∀ name, (typeOf name h).isSome → (valueOf name h).isSome
  /-- Then its outputs are the declared names, each with the value that was set last. -/
  outputs : ∀ t, c.finish = .ok t →
    ∀ name, t.get? name = valueOf name h ∧ (name ∈ t.keys ↔ (typeOf name h).isSome)
  /-- Else the error names one that is missing. -/
  missing : ∀ x, c.finish = .error x →
    ∃ name, x = .outputNotSet c.node name ∧ (typeOf name h).isSome ∧ valueOf name h = none
  /-- An output is of the type of its name unless that was declared otherwise since it was set. -/
  typed : ∀ t name v, c.finish = .ok t → t.get? name = some v →
    ∃ newer older, h = newer ++ .set name v :: older ∧ LastSet name v newer older ∧
      (typeOf name h = some v.type ↔ ∀ t, typeOf name newer = some t → t = v.type)
  /-- An output is refused exactly if its name is not declared with its type, and a context is as
  it was after a refusal. -/
  refused : ∀ name v, ((∃ x d, (setInPlace name v).run c = .error x d) ↔
    typeOf name h ≠ some v.type) ∧ ∀ x d, (setInPlace name v).run c = .error x d → d = c

theorem finish_eq_ok {t : Table String Value} (hf : c.finish = .ok t) :
    t = c.outputs ∧ ∀ name ∈ c.declared.keys, c.outputs.contains name = true := by
  rw [finish] at hf
  split at hf
  · cases hf
  · next hn =>
    refine ⟨(Except.ok.inj hf).symm, fun name hd => ?_⟩
    simpa using List.find?_eq_none.1 hn name hd

theorem finish_eq_error {x : ComputeError} (hf : c.finish = .error x) :
    ∃ name ∈ c.declared.keys, c.outputs.contains name = false ∧ x = .outputNotSet c.node name := by
  rw [finish] at hf
  split at hf
  · next name hn =>
    refine ⟨name, List.mem_of_find?_eq_some hn, ?_, (Except.error.inj hf).symm⟩
    simpa using List.find?_some hn
  · cases hf

/-- **Every sequence of calls on a new context.** -/
theorem finishes_replay (hd : c.declared = ∅) (ho : c.outputs = ∅) (h : List Call) :
    (c.replay h).Finishes h := by
  have declared := declared_replay hd h
  have outputs := outputs_replay hd ho h
  have mem (name : String) : name ∈ (c.replay h).declared.keys ↔ (typeOf name h).isSome := by
    rw [Table.mem_iff_isSome, declared]
  have contains (name : String) : (c.replay h).outputs.contains name = (valueOf name h).isSome := by
    rw [Table.contains, outputs]
  constructor
  case ok_iff =>
    constructor
    · rintro ⟨t, hf⟩ name hn
      rw [← contains]
      exact (finish_eq_ok hf).2 name ((mem name).2 hn)
    · intro all
      cases hf : (c.replay h).finish with
      | ok t => exact ⟨t, rfl⟩
      | error x =>
        obtain ⟨name, hn, hc, -⟩ := finish_eq_error hf
        rw [contains, all name ((mem name).1 hn)] at hc
        cases hc
  case outputs =>
    intro t hf name
    obtain ⟨rfl, all⟩ := finish_eq_ok hf
    refine ⟨outputs name, ?_⟩
    rw [← Table.contains_iff, contains]
    constructor
    · intro hv
      obtain ⟨v, hv⟩ := Option.isSome_iff_exists.1 hv
      exact isSome_typeOf hv
    · intro hn
      rw [← contains]
      exact all name ((mem name).2 hn)
  case missing =>
    intro x hf
    obtain ⟨name, hn, hc, rfl⟩ := finish_eq_error hf
    rw [contains, Option.isSome_eq_false_iff, Option.isNone_iff_eq_none] at hc
    exact ⟨name, rfl, (mem name).1 hn, hc⟩
  case typed =>
    intro t name v hf hv
    obtain ⟨rfl, -⟩ := finish_eq_ok hf
    obtain ⟨newer, older, rfl, hl⟩ := exists_lastSet ((outputs name).symm.trans hv)
    exact ⟨newer, older, rfl, hl, hl.typeOf_eq_iff⟩
  case refused =>
    intro name v
    rw [← declared]
    by_cases ht : (c.replay h).declared.get? name = some v.type
    · have := run_setInPlace_of_type ht
      simp [this, ht]
    · obtain ⟨x, hx⟩ := run_setInPlace_of_ne ht
      refine ⟨iff_of_true ⟨x, _, hx⟩ ht, fun y d hy => ?_⟩
      rw [hx] at hy
      cases hy
      rfl

/-! ## Copies -/

inductive Step
  /-- Call the context in a place. -/
  | call (place : Nat) (k : Call)
  /-- Copy the context in a place; the copy gets the next place. -/
  | clone (place : Nat)

/-- Do a step among things that take calls. -/
def Step.act {α : Type} (f : Call → α → α) (l : List α) : Step → List α
  | .call place k => l.modify place (f k)
  | .clone place => l ++ l[place]?.toList

/-- The contexts that come of one. -/
def desk (c : Context) (steps : List Step) : List Context :=
  steps.foldl (Step.act fun k c => c.call k) [c]

/-- What each of the contexts has seen, its original included up to the time of the copy. -/
def histories (steps : List Step) : List (List Call) := steps.foldl (Step.act List.cons) [[]]

/-- **Each context is made by its own calls.** -/
theorem desk_eq (c : Context) (steps : List Step) :
    c.desk steps = (histories steps).map c.replay := by
  have step (l : List (List Call)) (s : Step) :
      Step.act (fun k c => c.call k) (l.map c.replay) s =
        (Step.act List.cons l s).map c.replay := by
    cases s with
    | call place k =>
      refine List.ext_getElem? fun i => ?_
      simp only [Step.act, List.getElem?_modify, List.getElem?_map]
      cases l[i]? <;> split <;> rfl
    | clone place =>
      simp only [Step.act, List.map_append, List.getElem?_map]
      cases l[place]? <;> rfl
  have all (l : List (List Call)) : steps.foldl (Step.act fun k c => c.call k) (l.map c.replay) =
      (steps.foldl (Step.act List.cons) l).map c.replay := by
    induction steps generalizing l with
    | nil => rfl
    | cons s steps ih =>
      rw [List.foldl_cons, List.foldl_cons, step]
      exact ih _
  exact all [[]]

/-- **Whatever is called on a new context and on its copies**, each of them ends with what its own
calls make of it. -/
theorem finishes_desk (node : NodeId) (stamp : Nat) (files : FileStore) (ps : Parameters)
    (steps : List Step) :
    List.Forall₂ Finishes ({ Context.new node stamp files with parameters := ps }.desk steps)
      (histories steps) := by
  rw [desk_eq, List.forall₂_map_left_iff, List.forall₂_same]
  exact fun h _ => finishes_replay rfl rfl h

/-- All outputs that the context ends with are of the types of their names. -/
def WellTyped (c : Context) : Prop :=
  ∀ t name v, c.finish = .ok t → t.get? name = some v → c.declared.get? name = some v.type

/-- A name is declared, set, and declared with another type. -/
def redeclared : List Step :=
  [.call 0 (.declare "x" .number), .call 0 (.set "x" (.number 1)), .call 0 (.declare "x" .color)]

/-- **An output stays as it is when its name is declared anew**, and the end does not look at it. -/
theorem not_wellTyped :
    ¬ ∀ c ∈ (Context.new ⟨⟨0⟩⟩ 0 ⟨fun _ => .error "", fun _ => none⟩).desk redeclared,
      c.WellTyped := by
  intro all
  have := all _ (List.mem_singleton_self _) (.ofList [("x", .number 1)]) "x" (.number 1) rfl rfl
  cases this

end PixelFlow.Context
