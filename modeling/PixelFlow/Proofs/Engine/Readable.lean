import PixelFlow.Proofs.Engine.Sweep
import PixelFlow.Proofs.Parameter

/-!
# Parameters at dispatches

No dispatch and no delivery changes a parameter, and an edit sets only what is declared, to values
of the kind of the default. So the parameters of a node that came with its defaults are there at
each of its dispatches, and the getters of their kinds find them, with one exception: a number is
accepted in the place of an integer and is not read as one.

* `Engine.equips_act`: every action keeps the parameters of a node in place.
* `Engine.Untampered`: what comes in under an identifier has its defaults.
* `Engine.Readable`: the getters of the declared kinds find the parameters at all dispatches.
* **`Engine.read_run`**: what they come to in every run.
* `Engine.not_readable`: a run in which a number stands in the place of an integer.
-/

namespace PixelFlow

open Wave

namespace Engine

variable {e : Engine} {w : Wave} {a : Action} {id : NodeId}

/-- The wave that an action sets off finds the node equipped. -/
theorem equips_wave (hrest : e.AtRest) (h : e.graph.Holds id Node.Equipped) (ha : a.Admissible e)
    (hb : ∀ n ∈ e.inserted a, n.id = id → n.Equipped) (hw : e.wave? a = some w) :
    w.engine.graph.Sound ∧ w.engine.graph.Holds id Node.Equipped := by
  cases wave?_spec hrest ha hw with
  | edited change stamp ha _ hr hi =>
    exact ⟨(hrest.sound.perform ha hr).sound, h.perform Node.enduring_equipped (hi ▸ hb) hr⟩
  | @delivered _ taken left _ ht =>
    have hc := bare_collect (w := e.batch left) hrest.sound taken
    exact ⟨hrest.sound.of_bare hc, h.of_bare Node.enduring_equipped hc⟩

/-- **Every action keeps the node equipped**, and all that it dispatches finds it so. -/
theorem equips_act (hrest : e.AtRest) (h : e.graph.Holds id Node.Equipped) (ha : a.Admissible e)
    (hb : ∀ n ∈ e.inserted a, n.id = id → n.Equipped) :
    (e.act a).1.graph.Holds id Node.Equipped ∧
      ∀ d ∈ (e.wave? a).elim [] (·.dispatches), d.wave.engine.graph.Holds id Node.Equipped := by
  cases hw : e.wave? a with
  | none =>
    obtain ⟨hs, _, _⟩ := act_of_no_wave hw
    exact ⟨hs.graph ▸ h, fun _ hd => (List.not_mem_nil hd).elim⟩
  | some w =>
    obtain ⟨hg, hq⟩ := equips_wave hrest h ha hb hw
    obtain ⟨after, at'⟩ := dispatches_induction (J := fun e => e.graph.Holds id Node.Equipped) hg hq
      fun _ _ hd h => h.of_bare Node.enduring_equipped hd.bare
    rw [act_of_wave? hw]
    exact ⟨after, fun d hd => (at' d hd).2⟩

theorem equips_run (hrest : e.AtRest) (h : e.graph.Holds id Node.Equipped) (as : List Action)
    (ha : e.Admissible as) (hb : ∀ n ∈ e.insertions as, n.id = id → n.Equipped) :
    ∀ d ∈ e.dispatches as, d.wave.engine.graph.Holds id Node.Equipped := by
  induction as generalizing e with
  | nil => exact fun _ hd => (List.not_mem_nil hd).elim
  | cons a as ih =>
    obtain ⟨first, later⟩ := List.forall_mem_append.1 hb
    obtain ⟨h', dispatched⟩ := equips_act hrest h ha.1 first
    exact List.forall_mem_append.2 ⟨dispatched, ih (hrest.act ha.1) h' ha.2 later⟩

/-- **What comes in under the identifier has the defaults of its variant**, which names its
parameters apart. -/
def Untampered (e : Engine) (id : NodeId) (as : List Action) : Prop :=
  ∀ n ∈ e.insertions as, n.id = id →
    (n.metadata.parameters.map (·.name)).Nodup ∧ n.parameters = n.metadata.defaultParameters

/-- At every dispatch of the node the getters of the declared kinds find the parameters. -/
def Readable (e : Engine) (id : NodeId) (as : List Action) : Prop :=
  ∀ d ∈ e.dispatches as, d.node = id → ∀ n, d.wave.engine.graph.node? id = some n →
    ∀ p ∈ n.metadata.parameters, ∀ inputs stamp files, ∃ v,
      (n.context inputs stamp files).read p.name p.default.kind = .ok v

/-- **In every run the parameters of a node are in their places at each of its dispatches**, and the
getter of the kind of a default comes to the value that stands for it, to an integer as a number,
but to no number as an integer: all getters find their parameters just where no number stands in
the place of an integer. -/
theorem read_run (options : EngineOptions) (files : FileStore) (as : List Action) (id : NodeId)
    (ha : (new options files).Admissible as) (hu : (new options files).Untampered id as) :
    (∀ d ∈ (new options files).dispatches as, ∀ n, d.wave.engine.graph.node? id = some n →
      ∀ p ∈ n.metadata.parameters, ∃ v, n.parameters.get? p.name = some v ∧
        p.default.sameKind v = true ∧ ∀ inputs stamp files,
          (n.context inputs stamp files).read p.name p.default.kind =
            (n.context inputs stamp files).taken p.name p.default.kind v) ∧
    ((new options files).Readable id as ↔
      ∀ d ∈ (new options files).dispatches as, d.node = id → ∀ n,
        d.wave.engine.graph.node? id = some n → ∀ p ∈ n.metadata.parameters,
          p.default.kind = .integer → ∀ x, n.parameters.get? p.name ≠ some (.number x)) := by
  have equips := equips_run (atRest_new options files) (fun _ h => nomatch h) as ha
    fun n hn named => Node.equipped_of_defaults (hu n hn named).1 (hu n hn named).2
  have reads : ∀ d ∈ (new options files).dispatches as, ∀ n,
      d.wave.engine.graph.node? id = some n → ∀ p ∈ n.metadata.parameters, ∃ v,
        n.parameters.get? p.name = some v ∧ p.default.sameKind v = true ∧
          ∀ inputs stamp files, (n.context inputs stamp files).read p.name p.default.kind =
            (n.context inputs stamp files).taken p.name p.default.kind v := by
    intro d hd n hn p hp
    obtain ⟨v, hv, hk⟩ := (equips d hd n hn).value p hp
    exact ⟨v, hv, hk, fun _ _ _ => Context.read_eq hk hv⟩
  refine ⟨reads, fun readable d hd own n hn p hp hi x hx => ?_,
    fun whole d hd own n hn p hp inputs stamp files => ?_⟩
  · obtain ⟨v, hv, _, hr⟩ := reads d hd n hn p hp
    obtain ⟨w, hw⟩ := readable d hd own n hn p hp ∅ 0 files
    cases hv.symm.trans hx
    rw [hr, hi] at hw
    cases hw
  · obtain ⟨v, hv, _, hr⟩ := reads d hd n hn p hp
    rw [hr]
    exact Context.taken_ok fun hi x hx => whole d hd own n hn p hp hi x (hx ▸ hv)

namespace Counting

/-- Reads a whole number. -/
def whole : Variant where
  metadata :=
    { id := "whole"
      name := "Whole"
      category := .custom
      description := ""
      ports := []
      parameters := [⟨"count", .integer 1, "", []⟩, ⟨"factor", .number 1, "", []⟩]
      execution := .synchronous
      cacheable := false }
  compute := do let _ ← Compute.ask (·.integer "count")

/-- The node that comes in first. -/
def counter : NodeId := ⟨.mint 0 0⟩

def set (parameters : List (String × ParamValue)) : Action :=
  .edit (.setParameters counter (.ofList parameters))

/-- Integers are set, and a text is refused. -/
def recounted : List Action :=
  [.addVariant whole, set [("count", .integer 5), ("factor", .integer 2)],
   set [("count", .text "6")]]

/-- The count is set to a number. -/
def halved : List Action := [.addVariant whole, set [("count", .number 2)]]

/-- What the dispatches of a run find at the node. -/
def found (as : List Action) : List (NodeId × Option (NodeMetadata × Parameters)) :=
  ((new .standard Late.noFiles).dispatches as).map fun d =>
    (d.node, (d.wave.engine.graph.node? counter).map fun n => (n.metadata, n.parameters))

/-- A dispatch of the node that finds these parameters. -/
def finds (count factor : ParamValue) : NodeId × Option (NodeMetadata × Parameters) :=
  (counter, some (whole.metadata, .ofList [("count", count), ("factor", factor)]))

theorem found_recounted : found recounted =
    [finds (.integer 1) (.number 1), finds (.integer 5) (.integer 2)] := by cbv

theorem found_halved : found halved =
    [finds (.integer 1) (.number 1), finds (.number 2) (.number 1)] := by cbv

/-- The only node that comes in is new. -/
theorem untampered {as : List Action}
    (h : (new .standard Late.noFiles).insertions as = [.new whole 0]) :
    (new .standard Late.noFiles).Untampered counter as := by
  intro n hn _
  obtain rfl := List.mem_singleton.1 (h ▸ hn)
  exact ⟨by decide, rfl⟩

end Counting

open Counting in
/-- One count is set and another one is refused, and an integer is the factor. -/
theorem read_run_recounted :
    found recounted = [finds (.integer 1) (.number 1), finds (.integer 5) (.integer 2)] ∧
      (new .standard Late.noFiles).Readable counter recounted := by
  refine ⟨found_recounted, (read_run .standard Late.noFiles recounted counter
    (admissible_of_all_isPlain rfl) (untampered rfl)).2.2 fun d hd _ n hn p hp hi x hx => ?_⟩
  have seen : (d.node, some (n.metadata, n.parameters)) ∈ found recounted :=
    List.mem_map.2 ⟨d, hd, by rw [hn]; rfl⟩
  rw [found_recounted] at seen
  simp only [finds, List.mem_cons, Prod.mk.injEq, Option.some.injEq, List.not_mem_nil,
    or_false] at seen
  have parameter : p = ⟨"count", .integer 1, "", []⟩ := by
    have hm : n.metadata = whole.metadata := by rcases seen with h | h <;> exact h.2.1
    rw [hm] at hp
    simp only [whole, List.mem_cons, List.not_mem_nil, or_false] at hp
    rcases hp with rfl | rfl
    · rfl
    · cases hi
  subst parameter
  rcases seen with ⟨_, _, hp⟩ | ⟨_, _, hp⟩ <;> rw [hp] at hx <;> cases hx

open Counting in
/-- **A number is accepted for a parameter that is declared as an integer**, and at the next
dispatch its getter fails. -/
theorem not_readable : (new .standard Late.noFiles).Admissible halved ∧
    (new .standard Late.noFiles).Untampered counter halved ∧
    ¬ (new .standard Late.noFiles).Readable counter halved := by
  refine ⟨admissible_of_all_isPlain rfl, untampered rfl, fun readable => ?_⟩
  have last := congrArg (·[1]?) found_halved
  simp only [found, List.getElem?_map] at last
  obtain ⟨d, hd, h⟩ := Option.map_eq_some_iff.1 last
  obtain ⟨own, h⟩ := Prod.mk.inj h
  obtain ⟨n, hn, h⟩ := Option.map_eq_some_iff.1 h
  obtain ⟨hm, hp⟩ := Prod.mk.inj h
  obtain ⟨v, hv⟩ := readable d (List.mem_of_getElem? hd) own n hn ⟨"count", .integer 1, "", []⟩
    (hm ▸ List.mem_cons_self ..) ∅ 0 Late.noFiles
  have there : n.parameters.get? "count" = some (.number 2) := by
    rw [hp]
    rfl
  have failed := Context.read_eq (v := .integer 1) (c := n.context ∅ 0 Late.noFiles) rfl there
  cases failed.symm.trans hv

end Engine

end PixelFlow
