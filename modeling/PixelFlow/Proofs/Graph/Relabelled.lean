import PixelFlow.Builtin.Arithmetic
import PixelFlow.Proofs.Graph.Workbench
import Mathlib

/-!
# Nodes that are renamed behind the back of their ports

The owner of a port is kept twice: the graph records it, and the port names it. A node that gets
another name tells its ports, but the name can also be set by itself. Such a node may be added, its
ports then name another node than their owner, and the check for cycles looks in the wrong place.

* `Node.Faithful`: the ports of a node name it.
* `Workbench.Step`, `Workbench.steps`: moves, and names that are set by themselves.
* `Workbench.cycle_relabelled`: an accepted run that ends with a cycle.
* **`Workbench.owned_steps`**: which nodes may be added, and what holds if all added ones are such.
-/

namespace PixelFlow

open Relation

/-- The ports of the node name it as their own. -/
def Node.Faithful (n : Node) : Prop := ∀ p ∈ n.ports, p.node = n.id

namespace Workbench

/-- A move, or a new name for a held node that its ports do not learn of. -/
inductive Step
  | move (m : Move)
  | relabel (held : Nat) (id : NodeId)

def step (b : Workbench) : Step → Workbench
  | .move m => b.move m
  | .relabel k id => b.derive k ({ · with id := id })

def steps (b : Workbench) (l : List Step) : Workbench := l.foldl step b

/-- Nobody guesses an identifier that is minted later. -/
def Step.Admissible (stamp : Nat) : Step → Prop
  | .move m => m.Admissible stamp
  | .relabel _ id => id.uuid.Known stamp

/-- All steps are admissible when their turn comes. -/
def Permits (b : Workbench) : List Step → Prop
  | [] => True
  | s :: l => s.Admissible b.stamp ∧ (b.step s).Permits l

/-- Every node that is added names itself in its ports. -/
def Faithful (b : Workbench) : List Step → Prop
  | [] => True
  | s :: l => (∀ k n, s = .move (.add k) → b.held[k]? = some n → n.Faithful) ∧
      (b.step s).Faithful l

/-! ## A cycle -/

/-- A node gets a name and is added, and feeds another node that is to feed it. -/
def crossed (rename : Step) : List Step :=
  [.move (.make Builtin.math), rename, .move (.add 1), .move (.addVariant Builtin.math),
   .move (.connect ⟨.mint 0 3⟩ ⟨.mint 1 1⟩), .move (.connect ⟨.mint 1 3⟩ ⟨.mint 0 1⟩)]

theorem permits_crossed {rename : Step} (h : rename.Admissible 1) :
    empty.Permits (crossed rename) :=
  ⟨trivial, h, trivial, trivial, trivial, trivial, trivial⟩

theorem known_seven (stamp : Nat) : Uuid.Known stamp ⟨7⟩ := fun s i h => by
  rw [Uuid.mint, Uuid.mk.injEq] at h
  omega

/-- **If the name is set by itself, both links are made, a port names another node than its
owner, and there is a cycle.** -/
theorem cycle_relabelled : empty.Permits (crossed (.relabel 0 ⟨⟨7⟩⟩)) ∧
    let g := (empty.steps (crossed (.relabel 0 ⟨⟨7⟩⟩))).graph
    g.owner? ⟨.mint 0 1⟩ = some ⟨⟨7⟩⟩ ∧
      (g.port? ⟨.mint 0 1⟩).map (·.node) = some ⟨.mint 0 0⟩ ∧ TransGen g.Feeds ⟨⟨7⟩⟩ ⟨⟨7⟩⟩ := by
  have there : (empty.steps (crossed (.relabel 0 ⟨⟨7⟩⟩))).graph.successors ⟨⟨7⟩⟩ =
      [⟨.mint 1 0⟩] := by cbv
  have back : (empty.steps (crossed (.relabel 0 ⟨⟨7⟩⟩))).graph.successors ⟨.mint 1 0⟩ =
      [⟨⟨7⟩⟩] := by cbv
  refine ⟨permits_crossed (known_seven 1), by cbv, by cbv, ?_⟩
  exact .tail (.single (Graph.mem_successors.1 (there ▸ List.mem_singleton_self _)))
    (Graph.mem_successors.1 (back ▸ List.mem_singleton_self _))

/-! ## Faithful nodes -/

/-- What holds while held nodes may have any name. -/
structure Loose (b : Workbench) : Prop where
  graph : Invariant ⟨b.graph, [], b.stamp⟩
  held : ∀ n ∈ b.held, n.portIds.Nodup ∧ n.Known b.stamp

variable {b : Workbench}

theorem loose_empty : empty.Loose := ⟨invariant_empty, fun _ h => (List.not_mem_nil h).elim⟩

theorem Loose.hold (h : b.Loose) {l : List Node} {stamp : Nat} (hs : b.stamp ≤ stamp)
    (hn : ∀ n ∈ l, n.portIds.Nodup ∧ n.Known stamp) : Loose ⟨b.graph, b.held ++ l, stamp⟩ := by
  refine ⟨h.graph.hold (l := []) hs fun _ h => (List.not_mem_nil h).elim, fun n hm => ?_⟩
  rcases List.mem_append.1 hm with hm | hm
  · exact ⟨(h.held n hm).1, (h.held n hm).2.mono hs⟩
  · exact hn n hm

theorem Loose.derive (h : b.Loose) (k : Nat) {f : Node → Node}
    (hf : ∀ n, n.Known b.stamp → (f n).portIds = n.portIds ∧ (f n).Known b.stamp) :
    (b.derive k f).Loose := by
  refine h.hold (Nat.le_refl _) fun n hn => ?_
  obtain ⟨m, hm, rfl⟩ := Option.map_eq_some_iff.1 (Option.mem_toList.1 hn)
  obtain ⟨nodup, known⟩ := h.held m (List.mem_of_getElem? hm)
  obtain ⟨ports, known⟩ := hf m known
  exact ⟨ports ▸ nodup, known⟩

theorem attempt_eq (b : Workbench) (change : Edit) :
    b.attempt change = ⟨(b.attempt change).graph, b.held, b.stamp⟩ := by
  rw [attempt]
  split <;> rfl

theorem Loose.attempt (h : b.Loose) (change : Edit) {stamp : Nat} (hs : b.stamp ≤ stamp)
    (ha : change.Admissible b.graph) (hn : ∀ n ∈ change.newcomers, n.Known stamp) :
    Loose { b.attempt change with stamp := stamp } := by
  have hg := h.graph.attempt change hs ha hn
  have held : (b.attempt change).held = b.held := by rw [attempt_eq]
  refine ⟨?_, fun n hm => ?_⟩
  · rw [attempt_eq] at hg
    have same : (Workbench.attempt ⟨b.graph, [], b.stamp⟩ change).graph =
        (b.attempt change).graph := by
      rw [Workbench.attempt, Workbench.attempt]
      dsimp only
      split <;> rfl
    rwa [same] at hg
  · have hm : n ∈ b.held := held ▸ hm
    exact ⟨(h.held n hm).1, (h.held n hm).2.mono hs⟩

theorem Loose.attempt_known (h : b.Loose) (change : Edit) (ha : change.Admissible b.graph)
    (hn : ∀ n ∈ change.newcomers, n.Known b.stamp) : (b.attempt change).Loose := by
  have := h.attempt change (Nat.le_refl _) ha hn
  rw [attempt_eq] at this ⊢
  exact this

/-- **A step that adds no node with a false name in its ports keeps the graph sound.** -/
theorem Loose.step (h : b.Loose) {s : Step} (hs : s.Admissible b.stamp)
    (hf : ∀ k n, s = .move (.add k) → b.held[k]? = some n → n.Faithful) : (b.step s).Loose := by
  cases s with
  | relabel k id => exact h.derive k fun n hk => ⟨rfl, hs, hk.ports⟩
  | move m =>
    cases m with
    | make v =>
      refine h.hold (Nat.le_succ _) fun n hn => ?_
      rw [List.mem_singleton.1 hn]
      exact ⟨(Node.new_wellFormed v _).nodup, Node.new_known v _⟩
    | rename k id => exact h.derive k fun n hk => ⟨n.portIds_withId id, hk.withId hs⟩
    | adjust k name v => exact h.derive k fun n hk => ⟨rfl, hk.withParameter name v⟩
    | copy id =>
      refine h.hold (Nat.le_refl _) fun n hn => ?_
      have hn := Option.mem_toList.1 hn
      exact ⟨(h.graph.sound.wellFormed hn).nodup, h.graph.known _ n hn⟩
    | addVariant v =>
      obtain ⟨hi, hp⟩ := h.graph.known.fresh h.graph.sound v
      refine h.attempt _ (Nat.le_succ _) ⟨Node.new_wellFormed v _, hi, hp⟩ fun n hn => ?_
      rw [List.mem_singleton.1 hn]
      exact Node.new_known v _
    | add k =>
      rw [Workbench.step, Workbench.move]
      split
      · next n hn =>
        obtain ⟨nodup, known⟩ := h.held n (List.mem_of_getElem? hn)
        refine h.attempt_known (.add n) ⟨nodup, hf k n rfl hn⟩ fun m hm => ?_
        rwa [List.mem_singleton.1 hm]
      · exact h
    | remove id =>
      exact h.attempt_known (.remove id) trivial fun _ hm => (List.not_mem_nil hm).elim
    | connect source sink =>
      exact h.attempt_known (.connect source sink) trivial fun _ hm => (List.not_mem_nil hm).elim
    | connectNamed m p n q =>
      exact h.attempt_known (.connectNamed m p n q) trivial fun _ hm => (List.not_mem_nil hm).elim
    | disconnect l =>
      exact h.attempt_known (.disconnect l) trivial fun _ hm => (List.not_mem_nil hm).elim
    | setParameters id ps =>
      exact h.attempt_known (.setParameters id ps) trivial fun _ hm => (List.not_mem_nil hm).elim
    | clear =>
      exact ⟨⟨Graph.sound_empty, Graph.known_empty _, fun _ hm => (List.not_mem_nil hm).elim⟩,
        h.held⟩

theorem Loose.steps (h : b.Loose) (l : List Step) (hs : b.Permits l) (hf : b.Faithful l) :
    (b.steps l).Loose := by
  induction l generalizing b with
  | nil => exact h
  | cons s l ih => exact ih (h.step hs.1 hf.1) hs.2 hf.2

/-- **An accepted node is owned by what its ports name exactly if they name the node itself; and
if all nodes that are added are such, all ports name their owners, and there is no cycle.** -/
theorem owned_steps (l : List Step) (hs : empty.Permits l) :
    let g := (empty.steps l).graph
    (∀ n g', g.add n = .ok g' → ((∀ p ∈ n.ports, g'.owner? p.id = some p.node) ↔ n.Faithful)) ∧
      (empty.Faithful l → (∀ p q, g.port? p = some q → g.owner? p = some q.node) ∧
        ∀ id, ¬ TransGen g.Feeds id id) := by
  intro g
  refine ⟨fun n g' hn => ?_, fun hf => ?_⟩
  · obtain ⟨-, -, rfl⟩ := Graph.add_ok hn
    refine forall₂_congr fun p hp => ?_
    have owned : p.id ∈ n.portIds := List.mem_map_of_mem hp
    rw [Graph.owner?_insert, if_pos owned, Option.some.injEq, eq_comm]
  · have sound := (loose_empty.steps l hs hf).graph.sound
    exact ⟨fun p q hq => sound.owner?_of_port? hq, sound.acyclic⟩

/-- If the ports learn of the name, the last link is refused. -/
theorem owned_steps_crossed :
    let l := crossed (.move (.rename 0 ⟨⟨7⟩⟩))
    empty.Permits l ∧ empty.Faithful l ∧ ∀ id, ¬ TransGen (empty.steps l).graph.Feeds id id := by
  intro l
  have permits : empty.Permits l := permits_crossed (known_seven 1)
  have faithful : empty.Faithful l := by
    refine ⟨fun _ _ h => ?_, fun _ _ h => ?_, fun k n h hn => ?_, fun _ _ h => ?_,
      fun _ _ h => ?_, fun _ _ h => ?_, trivial⟩
    case refine_3 =>
      cases h
      cases hn
      exact ((Node.new_wellFormed Builtin.math 0).withId ⟨⟨7⟩⟩).owned
    all_goals cases h
  exact ⟨permits, faithful, ((owned_steps l permits).2 faithful).2⟩

end Workbench

end PixelFlow
