import PixelFlow.Builtin.Constant
import PixelFlow.Proofs.Graph.Fresh

/-!
# Graphs under any sequence of operations

A workbench is a graph together with the nodes that its user holds. Held nodes are new, renamed,
given parameters, or copied out of the graph as they are there, with their old ports; any of them
may be added at any time. What the graph refuses changes nothing.

* `Workbench.Move`, `Workbench.move`: the operations.
* `Workbench.Invariant`: the graph is sound, and held nodes are well-formed and known.
* **`Workbench.sound_run`**: the graph is sound after any sequence of moves.
-/

namespace PixelFlow

/-- A graph, the nodes that its user holds, and the stamp of the next identifiers. -/
structure Workbench where
  graph : Graph
  held : List Node
  stamp : Nat

namespace Workbench

/-- Held nodes are meant by their place among all that were held so far. -/
inductive Move
  | make (variant : Variant)
  | rename (held : Nat) (id : NodeId)
  | adjust (held : Nat) (name : String) (value : ParamValue)
  /-- Take a copy of a node of the graph. -/
  | copy (id : NodeId)
  | addVariant (variant : Variant)
  | add (held : Nat)
  | remove (id : NodeId)
  | connect (source sink : PortId)
  | connectNamed (fromNode : NodeId) (fromPort : String) (toNode : NodeId) (toPort : String)
  | disconnect (link : Link)
  | setParameters (id : NodeId) (parameters : Parameters)
  | clear

def empty : Workbench := ⟨.empty, [], 0⟩

/-- Hold one more node that is made from a held one. -/
def derive (b : Workbench) (k : Nat) (f : Node → Node) : Workbench :=
  { b with held := b.held ++ (b.held[k]?.map f).toList }

/-- Make an edit of the graph, unless it is refused. -/
def attempt (b : Workbench) (change : Edit) : Workbench :=
  match b.graph.perform change with
  | .ok r => { b with graph := r.graph }
  | .error _ => b

def move (b : Workbench) : Move → Workbench
  | .make v => { b with held := b.held ++ [.new v b.stamp], stamp := b.stamp + 1 }
  | .rename k id => b.derive k (·.withId id)
  | .adjust k name v => b.derive k (·.withParameter name v)
  | .copy id => { b with held := b.held ++ (b.graph.node? id).toList }
  | .addVariant v => { b.attempt (.addFresh (.new v b.stamp)) with stamp := b.stamp + 1 }
  | .add k =>
    match b.held[k]? with
    | some n => b.attempt (.add n)
    | none => b
  | .remove id => b.attempt (.remove id)
  | .connect source sink => b.attempt (.connect source sink)
  | .connectNamed m p n q => b.attempt (.connectNamed m p n q)
  | .disconnect l => b.attempt (.disconnect l)
  | .setParameters id ps => b.attempt (.setParameters id ps)
  | .clear => { b with graph := b.graph.clear }

def run (b : Workbench) (moves : List Move) : Workbench := moves.foldl move b

/-- Nobody guesses an identifier that is minted later. -/
def Move.Admissible (stamp : Nat) : Move → Prop
  | .rename _ id => id.uuid.Known stamp
  | _ => True

/-- All moves are admissible when their turn comes. -/
def Admissible (b : Workbench) : List Move → Prop
  | [] => True
  | m :: moves => m.Admissible b.stamp ∧ (b.move m).Admissible moves

/-! ## One move -/

structure Invariant (b : Workbench) : Prop where
  sound : b.graph.Sound
  known : b.graph.Known b.stamp
  held : ∀ n ∈ b.held, n.WellFormed ∧ n.Known b.stamp

variable {b : Workbench}

theorem invariant_empty : empty.Invariant :=
  ⟨Graph.sound_empty, Graph.known_empty 0, fun _ h => nomatch h⟩

theorem Invariant.hold (h : b.Invariant) {l : List Node} {stamp : Nat} (hs : b.stamp ≤ stamp)
    (hn : ∀ n ∈ l, n.WellFormed ∧ n.Known stamp) : Invariant ⟨b.graph, b.held ++ l, stamp⟩ := by
  refine ⟨h.sound, h.known.mono hs, fun n hm => ?_⟩
  rcases List.mem_append.1 hm with hm | hm
  · exact ⟨(h.held n hm).1, (h.held n hm).2.mono hs⟩
  · exact hn n hm

theorem Invariant.derive (h : b.Invariant) (k : Nat) {f : Node → Node}
    (hf : ∀ n, n.WellFormed → n.Known b.stamp → (f n).WellFormed ∧ (f n).Known b.stamp) :
    (b.derive k f).Invariant := by
  refine h.hold (Nat.le_refl _) fun n hn => ?_
  obtain ⟨m, hm, rfl⟩ := Option.map_eq_some_iff.1 (Option.mem_toList.1 hn)
  have := h.held m (List.mem_of_getElem? hm)
  exact hf m this.1 this.2

theorem Invariant.attempt (h : b.Invariant) (change : Edit) {stamp : Nat} (hs : b.stamp ≤ stamp)
    (ha : change.Admissible b.graph) (hn : ∀ n ∈ change.newcomers, n.Known stamp) :
    Invariant { b.attempt change with stamp := stamp } := by
  rw [Workbench.attempt]
  split
  · next r hr =>
    have hv := h.sound.perform ha hr
    exact ⟨hv.sound, hv.known (h.known.mono hs) hn, fun n hm =>
      ⟨(h.held n hm).1, (h.held n hm).2.mono hs⟩⟩
  · simpa using h.hold (l := []) hs fun _ h => nomatch h

/-- Edits that bring no node are always admissible. -/
theorem Invariant.attempt_old (h : b.Invariant) (change : Edit) (ha : change.Admissible b.graph)
    (hn : change.newcomers = []) : (b.attempt change).Invariant := by
  have := h.attempt change (Nat.le_refl _) ha fun n hm => by rw [hn] at hm; cases hm
  have e : (b.attempt change).stamp = b.stamp := by
    rw [Workbench.attempt]
    split <;> rfl
  rwa [← e] at this

/-- **Every move keeps the invariant.** -/
theorem Invariant.move (h : b.Invariant) (m : Move) (hm : m.Admissible b.stamp) :
    (b.move m).Invariant := by
  cases m with
  | make v =>
    refine h.hold (Nat.le_succ _) fun n hn => ?_
    rw [List.mem_singleton.1 hn]
    exact ⟨Node.new_wellFormed v _, Node.new_known v _⟩
  | rename k id => exact h.derive k fun n hw hk => ⟨hw.withId id, hk.withId hm⟩
  | adjust k name v =>
    exact h.derive k fun n hw hk => ⟨hw.withParameter name v, hk.withParameter name v⟩
  | copy id =>
    refine h.hold (Nat.le_refl _) fun n hn => ?_
    have hn := Option.mem_toList.1 hn
    exact ⟨h.sound.wellFormed hn, h.known _ n hn⟩
  | addVariant v =>
    obtain ⟨hi, hp⟩ := h.known.fresh h.sound v
    refine h.attempt _ (Nat.le_succ _) ⟨Node.new_wellFormed v _, hi, hp⟩ fun n hn => ?_
    rw [List.mem_singleton.1 hn]
    exact Node.new_known v _
  | add k =>
    rw [Workbench.move]
    split
    · next n hn =>
      obtain ⟨hw, hk⟩ := h.held n (List.mem_of_getElem? hn)
      have e : (b.attempt (.add n)).stamp = b.stamp := by
        rw [Workbench.attempt]
        split <;> rfl
      have := h.attempt (.add n) (Nat.le_refl _) hw fun m hm => by
        rw [List.mem_singleton.1 hm]
        exact hk
      rwa [← e] at this
    · exact h
  | remove id => exact h.attempt_old (.remove id) trivial rfl
  | connect source sink => exact h.attempt_old (.connect source sink) trivial rfl
  | connectNamed m p n q => exact h.attempt_old (.connectNamed m p n q) trivial rfl
  | disconnect l => exact h.attempt_old (.disconnect l) trivial rfl
  | setParameters id ps => exact h.attempt_old (.setParameters id ps) trivial rfl
  | clear => exact ⟨Graph.sound_empty, Graph.known_empty _, h.held⟩

theorem Invariant.run (h : b.Invariant) (moves : List Move) (hm : b.Admissible moves) :
    (b.run moves).Invariant := by
  induction moves generalizing b with
  | nil => exact h
  | cons m moves ih => exact ih (h.move m hm.1) hm.2

/-! ## All moves -/

/-- **Whatever is done to a graph, and whether or not it is refused, the nodes, owners, links and
incoming links of the graph agree, links are well-typed, and there is no cycle.** -/
theorem sound_run (moves : List Move) (h : empty.Admissible moves) :
    (empty.run moves).graph.Sound := (invariant_empty.run moves h).sound

/-- A node is added under a chosen name, copied, removed, and added again with its old port. -/
theorem sound_run_copied :
    let moves : List Move := [.make Builtin.number, .rename 0 ⟨⟨7⟩⟩, .add 1, .copy ⟨⟨7⟩⟩,
      .remove ⟨⟨7⟩⟩, .add 2]
    (empty.run moves).graph.nodeIds = [⟨⟨7⟩⟩] ∧ (empty.run moves).graph.Sound := by
  refine ⟨by decide +kernel, sound_run _ ⟨trivial, fun s i h => ?_, trivial, trivial, trivial,
    trivial, trivial⟩⟩
  rw [Uuid.mint, Uuid.mk.injEq] at h
  omega

end Workbench

end PixelFlow
