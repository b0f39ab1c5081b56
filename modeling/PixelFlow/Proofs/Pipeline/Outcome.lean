import PixelFlow.Proofs.Pipeline.Build

/-!
# What a finished pipeline shows

When nothing is left to do in an engine with a chain, each node shows what its compute comes to on
the picture of the one before. So the end of the chain shows what the filters make of the picture at
its beginning, or the first error along the chain is that of the first filter that fails.

* `Engine.Settled.comesTo`: a settled node of an idle engine shows what its compute comes to.
* `Pipeline.Shows`, `Pipeline.Reads`: a picture at an output; a picture or an error at a node.
* `Pipeline.Finished`: an engine with a chain that is worked off.
* **`Pipeline.Finished.reads_next`**: a node after the one that feeds it.
* **`Pipeline.Finished.ends`**: the whole chain; `Pipeline.Ends.outcome`: its outcome.
-/

namespace PixelFlow

open Wave

theorem Graph.collectInputs_unlinked {g : Graph} {sinks : List Port}
    (h : ∀ p ∈ sinks, p.isOptional = true ∧ g.inputAt? p = p.default) (t : Table String Value) :
    g.collectInputs sinks t =
      .ok (sinks.foldl (fun t p => p.default.elim t (t.insert p.name)) t) := by
  induction sinks generalizing t with
  | nil => rfl
  | cons p sinks ih =>
    obtain ⟨ho, hi⟩ := h p (List.mem_cons_self ..)
    have ih := ih fun q hq => h q (List.mem_cons_of_mem _ hq)
    rw [collectInputs, hi, List.foldl_cons]
    cases p.default with
    | some v => exact ih _
    | none =>
      rw [← ih]
      exact if_pos ho

/-- **A node without work left whose inputs are there has stored what its compute comes to.** -/
theorem Engine.Settled.comesTo {e : Engine} {n : Node} {inputs : Table String Value}
    (h : e.Settled [] n) (hp : n.state.isPending = false) (hi : e.graph.inputs n = .ok inputs) :
    ∃ stamp, match n.comesTo inputs stamp e.files with
      | .ok outputs => n.state = .clean ∧ n.outputs = outputsByPort n outputs
      | .error z => n.lastError = some z := by
  have outcome := Graph.outcome?_of_inputs hi e.files
  cases hs : n.state with
  | clean =>
    obtain ⟨stamp, outputs, ho, hout⟩ := h.clean hs
    refine ⟨stamp, ?_⟩
    rw [Option.some.inj ((outcome stamp).symm.trans ho)]
    exact ⟨rfl, hout⟩
  | error =>
    obtain ⟨stamp, z, ho, hz⟩ := h.error hs
    refine ⟨stamp, ?_⟩
    rw [Option.some.inj ((outcome stamp).symm.trans ho)]
    exact hz
  | waiting =>
    obtain ⟨p, hp, ho, hn⟩ := h.waiting hs
    exact (Graph.inputs_ne_ok hp ho hn inputs hi).elim
  | dirty =>
    rw [hs] at hp
    cases hp
  | computing k =>
    rw [hs] at hp
    cases hp

namespace Pipeline

/-- The engine has an image of the picture at an output of the node. -/
def Shows (e : Engine) (x : Node × String) (p : Picture) : Prop :=
  ∃ i, e.cachedOutput? x.1.id x.2 = some (.image i) ∧ i.picture = some p

/-- The node has no error and shows a picture, or it has an error. -/
def Reads (e : Engine) (x : Node × String) : Except ComputeError Picture → Prop
  | .ok p => e.lastError? x.1.id = none ∧ Shows e x p
  | .error y => e.lastError? x.1.id = some y

/-- No node of the chain has an error and its last one shows a picture, or this is the first error
along the chain. -/
def Ends (e : Engine) (chain : List (Node × String)) : Except ComputeError Picture → Prop
  | .ok p => chain.findSome? (e.lastError? ·.1.id) = none ∧
      ∃ x, chain.getLast? = some x ∧ Shows e x p
  | .error y => chain.findSome? (e.lastError? ·.1.id) = some y

section Ends

variable {e : Engine} {x y : Node × String} {rest : List (Node × String)}

theorem ends_of_error {z : ComputeError} (h : e.lastError? x.1.id = some z) :
    Ends e (x :: rest) (.error z) := by
  rw [Ends, List.findSome?_cons, h]

/-- What comes before a chain and has no error does not change how it ends. -/
theorem Ends.cons {r : Except ComputeError Picture} (h : Ends e (y :: rest) r)
    (hx : e.lastError? x.1.id = none) : Ends e (x :: y :: rest) r := by
  have skip : (x :: y :: rest).findSome? (e.lastError? ·.1.id) =
      (y :: rest).findSome? (e.lastError? ·.1.id) := by
    rw [List.findSome?_cons, hx]
  cases r with
  | ok p => exact ⟨skip.trans h.1, h.2⟩
  | error z => exact skip.trans h

/-- **How a chain ends is what can be read off it.** -/
theorem Ends.outcome {chain : List (Node × String)} {r : Except ComputeError Picture}
    (h : Ends e chain r) : outcome (chain.map fun x => (x.1.id, x.2)) e =
      r.mapError .compute := by
  rw [Pipeline.outcome, List.findSome?_map]
  cases r with
  | error z =>
    have first : chain.findSome? ((fun x : NodeId × String => e.lastError? x.1) ∘
        fun x => (x.1.id, x.2)) = some z := h
    rw [first]
    rfl
  | ok p =>
    obtain ⟨first, x, hx, i, hi, hp⟩ := h
    have first : chain.findSome? ((fun x : NodeId × String => e.lastError? x.1) ∘
        fun x => (x.1.id, x.2)) = none := first
    have last : (chain.map fun x => (x.1.id, x.2)).getLast? = some (x.1.id, x.2) := by
      rw [List.getLast?_map, hx]
      rfl
    rw [first, last]
    dsimp only [bind, Option.bind]
    rw [hi]
    dsimp only [Value.image?]
    rw [hp]
    rfl

end Ends

/-- **The engine with these nodes, the jobs of which have been worked off.** -/
structure Finished (P : Palette) (files : FileStore) (nodes : List (Node × String)) (e : Engine) :
    Prop where
  standing : Standing P files nodes e
  settled : ∀ id n, e.graph.node? id = some n → e.Settled [] n ∧ n.state.isPending = false

variable {P : Palette} {files : FileStore} {nodes : List (Node × String)} {e : Engine}

theorem Standing.workedOff (h : Standing P files nodes e) {e' : Engine} (hw : e.WorkedOff e') :
    Finished P files nodes e' ∧ e'.graph.links = e.graph.links := by
  have bare := hw.bare h.inOrder
  have links := Graph.links_of_bare bare
  refine ⟨⟨⟨hw.inOrder h.inOrder, (hw.files h.inOrder).trans h.files, h.distinct,
    fun x hx => (h.hosts x hx).of_bare bare, ?_⟩, fun id n => hw.settled h.inOrder⟩, links⟩
  rw [links]
  exact h.entered

namespace Finished

variable {x y : Node × String} {r : Except ComputeError Picture} {inputs : Table String Value}
  {p : Picture}

/-- The last value at an output is that of its port. -/
theorem cachedOutput?_eq (h : Finished P files nodes e) (hx : x ∈ nodes) {q : Port}
    (hq : x.1.portNamed? x.2 = some q) :
    e.cachedOutput? x.1.id x.2 = e.cachedValue? q.id := by
  rw [Engine.cachedOutput?, (h.standing.hosts x hx).findPort hq]

/-- **A node of the chain shows what its compute comes to.** -/
theorem reads (h : Finished P files nodes e) (hx : x ∈ nodes)
    (hi : e.graph.inputs x.1 = .ok inputs)
    (hy : ∀ stamp, (x.1.comesTo inputs stamp files).Yields x.1 x.2 r) : Reads e x r := by
  have hosts := h.standing.hosts x hx
  obtain ⟨m, hm, hb⟩ := id hosts
  obtain ⟨settled, idle⟩ := h.settled _ m hm
  have lastError : e.lastError? x.1.id = m.lastError := by
    rw [Engine.lastError?, hm]
    rfl
  -- What the node of the engine sees and comes to is what the bare node does.
  have inputs_eq : e.graph.inputs m = .ok inputs := by
    rw [← hi, Graph.inputs, Node.sinks, Node.ports_of_bare hb]
    rfl
  have comesTo : ∀ stamp, m.comesTo inputs stamp e.files = x.1.comesTo inputs stamp files := by
    intro stamp
    show m.bare.comesTo inputs stamp e.files = _
    rw [hb, h.standing.files]
    rfl
  have byPort : ∀ t, outputsByPort m t = outputsByPort x.1 t := by
    intro t
    show outputsByPort m.bare t = _
    rw [hb]
    rfl
  obtain ⟨stamp, stored⟩ := settled.comesTo idle inputs_eq
  have yields := hy stamp
  rw [comesTo] at stored
  generalize x.1.comesTo inputs stamp files = o at stored yields
  cases o <;> cases r
  case ok.ok outputs p =>
    obtain ⟨clean, hout⟩ := stored
    obtain ⟨q, i, hq, hi, hp⟩ := yields
    refine ⟨lastError.trans (h.standing.inOrder.cleared _ m hm clean), i, ?_, hp⟩
    have owner : e.graph.owner? q.id = some x.1.id :=
      (hosts.owner?_eq h.standing.inOrder.rest.sound).2
        (List.mem_map_of_mem (List.mem_of_find?_eq_some hq))
    rw [h.cachedOutput?_eq hx hq, Engine.cachedValue?, owner]
    show (e.graph.node? x.1.id >>= fun n => n.outputs.get? q.id) = _
    rw [hm, ← hi, ← byPort, ← hout]
    rfl
  case error.error z z' =>
    obtain rfl : z = z' := yields
    exact lastError.trans stored
  all_goals exact yields.elim

/-- No link enters a port that is not an image. -/
theorem incoming?_eq_none (h : Finished P files nodes e) (hy : y ∈ nodes) {q : Port}
    (hq : q ∈ y.1.ports) (hn : q.name ≠ "image") : e.graph.incoming? q.id = none := by
  have sound := h.standing.inOrder.rest.sound
  refine sound.free_iff.2 fun l hl hl' => hn ?_
  obtain ⟨z, hz, q', hq', hs'⟩ := h.standing.entered l hl
  have port := sound.carries_iff.1 ((h.standing.hosts y hy).carries hq)
  have port' := sound.carries_iff.1
    ((h.standing.hosts z hz).carries (List.mem_of_find?_eq_some hq'))
  rw [← hs', hl', port.1] at port'
  rw [Option.some.inj port'.1]
  exact eq_of_beq (List.find?_some (p := fun p : Port => p.name == "image") hq')

/-- **A node takes the picture that is shown at the output linked to it**, and its other sinks have
their defaults. -/
theorem inputs_eq (h : Finished P files nodes e) (hx : x ∈ nodes) (hy : y ∈ nodes)
    (joined : Joined e.graph x y) (takes : y.1.Takes) (shows : Shows e x p) :
    ∃ i, i.picture = some p ∧ e.graph.inputs y.1 = .ok (y.1.inputsOf i) := by
  have sound := h.standing.inOrder.rest.sound
  obtain ⟨a, b, ha, hb, hl⟩ := joined
  obtain ⟨i, hi, hp⟩ := shows
  obtain ⟨b', others, hs, hb', hname, -, hothers⟩ := takes
  obtain rfl := Option.some.inj (hb.symm.trans hb')
  refine ⟨i, hp, ?_⟩
  have linked : e.graph.inputAt? b = some (.image i) := by
    have value : e.graph.linkedValue? b.id = e.cachedValue? a.id := by
      rw [Graph.linkedValue?, (sound.incoming ..).2 ⟨hl, rfl⟩]
      rfl
    rw [Graph.inputAt?, value, ← h.cachedOutput?_eq hx ha, hi]
  have unlinked : ∀ q ∈ others, q.isOptional = true ∧ e.graph.inputAt? q = q.default := by
    intro q hq
    obtain ⟨optional, other⟩ := hothers q hq
    refine ⟨optional, ?_⟩
    have hqm : q ∈ y.1.ports := List.mem_of_mem_filter (hs ▸ List.mem_cons_of_mem _ hq)
    rw [Graph.inputAt?, Graph.linkedValue?, h.incoming?_eq_none hy hqm other]
    rfl
  rw [Graph.inputs, hs, Graph.collectInputs, linked]
  dsimp only
  rw [Graph.collectInputs_unlinked unlinked, Node.inputsOf, hs, hname]
  rfl

/-- **A node that is fed shows what its filter makes of the picture that it is fed.** -/
theorem reads_next (h : Finished P files nodes e) (hx : x ∈ nodes) (hy : y ∈ nodes)
    (joined : Joined e.graph x y) {f : Picture → Except ComputeError Picture}
    (filters : y.1.Filters y.2 files f) (shows : Shows e x p) : Reads e y (f p) := by
  obtain ⟨i, hp, hi⟩ := h.inputs_eq hx hy joined filters.takes shows
  exact h.reads hy hi fun stamp => filters.yields stamp i p hp

/-- **A chain ends with what its filters make, one after the other, of the picture that its first
node shows.** -/
theorem ends_of_shows (h : Finished P files nodes e) {rest : List (Node × String)}
    {filters : List (Picture → Except ComputeError Picture)} (hsub : ∀ z ∈ x :: rest, z ∈ nodes)
    (chain : (x :: rest).IsChain (Joined e.graph))
    (hf : List.Forall₂ (fun z f => z.1.Filters z.2 files f) rest filters)
    (reads : Reads e x (.ok p)) : Ends e (x :: rest) (filters.foldlM (fun p f => f p) p) := by
  induction hf generalizing x p with
  | nil =>
    refine ⟨?_, x, rfl, reads.2⟩
    rw [List.findSome?_cons, reads.1]
    rfl
  | @cons y f rest filters hy hf ih =>
    obtain ⟨joined, chain⟩ := List.isChain_cons_cons.1 chain
    have later : ∀ z ∈ y :: rest, z ∈ nodes := fun z hz => hsub z (List.mem_cons_of_mem _ hz)
    have next := h.reads_next (hsub x (List.mem_cons_self ..)) (later y (List.mem_cons_self ..))
      joined hy reads.2
    rw [List.foldlM_cons]
    cases hr : f p with
    | error z =>
      rw [hr] at next
      exact (ends_of_error next).cons reads.1
    | ok p' =>
      exact (ih later chain (hr ▸ next)).cons reads.1

/-- **A chain ends with what its first node comes to and its filters make of it.** -/
theorem ends (h : Finished P files nodes e) {rest : List (Node × String)}
    {filters : List (Picture → Except ComputeError Picture)} (hsub : ∀ z ∈ x :: rest, z ∈ nodes)
    (chain : (x :: rest).IsChain (Joined e.graph)) (opens : x.1.Opens x.2 files r)
    (hf : List.Forall₂ (fun z f => z.1.Filters z.2 files f) rest filters) :
    Ends e (x :: rest) (r >>= fun p => filters.foldlM (fun p f => f p) p) := by
  have inputs : e.graph.inputs x.1 = .ok ∅ := by
    rw [Graph.inputs, opens.sinks]
    rfl
  have reads := h.reads (hsub x (List.mem_cons_self ..)) inputs opens.yields
  cases r with
  | ok p => exact h.ends_of_shows hsub chain hf reads
  | error z => exact ends_of_error reads

end Finished

end Pipeline

end PixelFlow
