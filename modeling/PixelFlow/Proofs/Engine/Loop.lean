import PixelFlow.Builtin.Arithmetic
import PixelFlow.Builtin.Constant
import PixelFlow.Proofs.Engine.Sweep
import PixelFlow.Proofs.Graph.Workbench

/-!
# The scheduler as a loop

The scheduler passes over the graph until a pass dispatches nothing. Nothing in this bounds the
number of passes: a dispatch may make further nodes dirty. On a sound graph those come later in
the order, so the first pass leaves no node ready, and the second finds nothing to do.

* **`Wave.Loops`**: the loop without a bound, as a relation, with the dispatches of each pass.
* `Wave.Loops.unique`: it ends in one way at most; `Wave.exists_loops`: on a sound graph it ends.
* `Wave.passDispatches_sublist`, `Wave.pass_snd`: a pass dispatches some nodes of the order.
* **`Wave.schedule_once`**: what is dispatched, in which pass, and what is left dirty.
-/

namespace PixelFlow

open Relation

namespace Wave

/-- **Pass over the graph, in an order made anew each time, until a pass dispatches nothing.** The
list has the dispatches of each pass. A graph that cannot be ordered is left alone. -/
inductive Loops : Wave → List (List Dispatch) → Wave → Prop
  | unordered {w : Wave} {x : GraphError} (ho : w.engine.graph.topologicalOrder = .error x) :
    Loops w [] (w.note (.unordered x))
  | rest {w : Wave} {order : List NodeId} (ho : w.engine.graph.topologicalOrder = .ok order)
    (hp : (w.pass order).2 = false) : Loops w [w.passDispatches order] (w.pass order).1
  | again {w w' : Wave} {order : List NodeId} {later : List (List Dispatch)}
    (ho : w.engine.graph.topologicalOrder = .ok order) (hp : (w.pass order).2 = true)
    (hl : Loops (w.pass order).1 later w') : Loops w (w.passDispatches order :: later) w'

variable {w v v' : Wave} {ps ps' : List (List Dispatch)}

/-- **The loop ends in one way at most.** -/
theorem Loops.unique (h : w.Loops ps v) (h' : w.Loops ps' v') : ps = ps' ∧ v = v' := by
  induction h generalizing ps' with
  | unordered ho =>
    cases h' with
    | unordered ho' =>
      obtain rfl := Except.error.inj (ho.symm.trans ho')
      exact ⟨rfl, rfl⟩
    | rest ho' | again ho' => cases ho.symm.trans ho'
  | rest ho hp =>
    cases h' with
    | unordered ho' => cases ho.symm.trans ho'
    | rest ho' =>
      obtain rfl := Except.ok.inj (ho.symm.trans ho')
      exact ⟨rfl, rfl⟩
    | again ho' hp' =>
      obtain rfl := Except.ok.inj (ho.symm.trans ho')
      cases hp.symm.trans hp'
  | again ho hp _ ih =>
    cases h' with
    | unordered ho' => cases ho.symm.trans ho'
    | rest ho' hp' =>
      obtain rfl := Except.ok.inj (ho.symm.trans ho')
      cases hp.symm.trans hp'
    | again ho' _ hl' =>
      obtain rfl := Except.ok.inj (ho.symm.trans ho')
      obtain ⟨rfl, rfl⟩ := ih hl'
      exact ⟨rfl, rfl⟩

/-! ## One pass -/

/-- A pass dispatches nodes of the order, in this order. -/
theorem passDispatches_sublist (w : Wave) (order : List NodeId) :
    ((w.passDispatches order).map (·.node)).Sublist order := by
  induction order generalizing w with
  | nil => exact .slnil
  | cons id order ih =>
    rw [passDispatches]
    split
    · exact (ih _).cons_cons id
    · exact (ih _).cons id

/-- A pass tells whether it has dispatched anything. -/
theorem pass_snd (w : Wave) (order : List NodeId) :
    (w.pass order).2 = false ↔ w.passDispatches order = [] := by
  have key : ∀ (l : List NodeId) (w : Wave) (b : Bool), (l.foldl (fun x id =>
      if x.1.isReady id then (x.1.dispatch id, true) else (x.1, x.2)) (w, b)).2 = false ↔
        b = false ∧ w.passDispatches l = [] := by
    intro l
    induction l with
    | nil => exact fun w b => (and_iff_left rfl).symm
    | cons id l ih =>
      intro w b
      rw [List.foldl_cons, passDispatches]
      dsimp only
      split
      · rw [ih]
        simp
      · exact ih _ _
  exact (key order w false).trans (and_iff_right rfl)

/-! ## All passes -/

/-- **On a sound graph the loop ends**: the first pass does all, and a second, if there is one,
dispatches nothing. -/
theorem exists_loops (hg : w.engine.graph.Sound) : ∃ order later,
    w.engine.graph.topologicalOrder = .ok order ∧ (∀ ds ∈ later, ds = []) ∧
      w.Loops (w.passDispatches order :: later) w.schedule := by
  obtain ⟨order, ho, hs⟩ := hg.topologicalOrder
  have still := hg.of_bare (bare_visits hg order)
  obtain ⟨order', ho', -⟩ := still.topologicalOrder
  have quiet := pass_of_quiet (quiet_visits hg hs) order'
  rw [← pass_fst] at ho' quiet
  have none := (pass_snd _ order').1 (congrArg Prod.snd quiet)
  rw [schedule, passes, ho]
  dsimp only
  cases hp : (w.pass order).2 with
  | false =>
    rw [if_neg Bool.false_ne_true]
    exact ⟨order, [], rfl, fun _ h => (List.not_mem_nil h).elim, .rest ho hp⟩
  | true =>
    have last : (w.pass order).1.Loops [[]] (w.pass order).1 := by
      have := Loops.rest ho' (congrArg Prod.snd quiet)
      rwa [none, quiet] at this
    -- Whatever fuel is left for a second pass, it changes nothing.
    have second : passes w.engine.graph.nodes.size (w.pass order).1 = (w.pass order).1 := by
      cases w.engine.graph.nodes.size with
      | zero => rfl
      | succ fuel =>
        rw [passes, ho']
        dsimp only
        rw [quiet]
        rfl
    rw [if_pos rfl, second]
    exact ⟨order, [[]], rfl, fun ds h => List.mem_singleton.1 h, .again ho hp last⟩

/-- **From any state of an engine with a sound graph the loop ends, in one way.** It dispatches no
node twice, and nothing after its first pass; a node that is dirty at the end has an ancestor with
work left. -/
theorem schedule_once (w : Wave) (hg : w.engine.graph.Sound) : ∃ order later,
    w.engine.graph.topologicalOrder = .ok order ∧
      (∀ ps v, w.Loops ps v ↔ ps = w.passDispatches order :: later ∧ v = w.schedule) ∧
      ((w.passDispatches order).map (·.node)).Nodup ∧ (∀ ds ∈ later, ds = []) ∧
      ∀ b n, w.schedule.engine.graph.node? b = some n → n.state = .dirty →
        ∃ a m, TransGen w.schedule.engine.graph.Feeds a b ∧
          w.schedule.engine.graph.node? a = some m ∧
          (m.state = .dirty ∨ ∃ k, m.state = .computing k) := by
  obtain ⟨order, later, ho, hl, hloop⟩ := exists_loops hg
  refine ⟨order, later, ho, fun ps v => ⟨fun h => h.unique hloop, ?_⟩, ?_, hl, fun b n hn hd => ?_⟩
  · rintro ⟨rfl, rfl⟩
    exact hloop
  · obtain ⟨order', ho', hs⟩ := hg.topologicalOrder
    obtain rfl := Except.ok.inj (ho.symm.trans ho')
    exact hs.nodup.sublist (passDispatches_sublist w order)
  · by_contra hno
    refine quiet_schedule hg b ⟨⟨n, hn, hd⟩, fun a m ha hm => ?_⟩
    cases hs : m.state with
    | clean | waiting | error => rfl
    | dirty => exact (hno ⟨a, m, ha, hm, .inl hs⟩).elim
    | computing k => exact (hno ⟨a, m, ha, hm, .inr ⟨k, hs⟩⟩).elim

/-- A number that is one operand of a sum, whose other operand nothing feeds. -/
def halfSum : List Workbench.Move :=
  [.addVariant Builtin.number, .addVariant Builtin.math, .connect ⟨.mint 0 1⟩ ⟨.mint 1 1⟩]

/-- An engine whose nodes are all dirty. -/
def allDirty : Wave :=
  ⟨{ Engine.new .standard Engine.Late.noFiles with
      graph := (Workbench.empty.run halfSum).graph }, []⟩

/-- The number is computed at once, which makes the sum dirty again before its turn comes. -/
theorem schedule_once_allDirty : allDirty.engine.graph.Sound ∧ ∃ first later,
    allDirty.Loops (first :: later) allDirty.schedule ∧
      first.map (·.node) = [⟨.mint 0 0⟩, ⟨.mint 1 0⟩] ∧ ∀ ds ∈ later, ds = [] := by
  have sound : allDirty.engine.graph.Sound :=
    (Workbench.invariant_empty.run halfSum ⟨trivial, trivial, trivial, trivial⟩).sound
  have sorted : allDirty.engine.graph.topologicalOrder = .ok [⟨.mint 0 0⟩, ⟨.mint 1 0⟩] := by cbv
  have visited : (allDirty.passDispatches [⟨.mint 0 0⟩, ⟨.mint 1 0⟩]).map (·.node) =
      [⟨.mint 0 0⟩, ⟨.mint 1 0⟩] := by cbv
  obtain ⟨order, later, ho, hloop, -, hl, -⟩ := schedule_once allDirty sound
  obtain rfl := Except.ok.inj (sorted.symm.trans ho)
  exact ⟨sound, _, later, (hloop _ _).2 ⟨rfl, rfl⟩, visited, hl⟩

end Wave

end PixelFlow
