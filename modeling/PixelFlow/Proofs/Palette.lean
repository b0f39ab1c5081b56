import PixelFlow.Node
import PixelFlow.Proofs.Value
import Mathlib.Data.List.Forall2

/-!
# Pure computes

A pure compute sees what its inputs show but not their revisions, and it neither knows its node
nor its stamp. The images that it yields were given to it, or its variant keeps them, or it makes
them; only the last have the stamp in their revisions.

* `Image.Counterpart`: an image that a compute yields and the one that another run of it yields.
* **`Variant.Pure`**: two runs on contexts that show the same yield counterparts.
* `Palette`: variants with pure computes and with identifiers of their own.
* `Node.Built`: a node that was made new and then given parameters; `Node.Derived`: or copied.
* `Node.Made`, `Node.Fresh`: the same for variants whose computes may do anything.
-/

namespace PixelFlow

/-- Where an image of one run and its counterpart of another run come from: both were given, the
variant keeps the image, or it is the image that each run makes under a number. -/
inductive Image.Counterpart (given : Image → Image → Prop) (kept : Image → Prop)
    (made : Nat → Image) (s t : Nat) : Image → Image → Prop
  | given {i j : Image} (h : given i j) : Counterpart given kept made s t i j
  | kept {i : Image} (h : kept i) : Counterpart given kept made s t i i
  | made (k : Nat) : Counterpart given kept made s t
    { made k with revision := .mint s k } { made k with revision := .mint t k }

/-- The images that two runs of a pure compute yield for one another show the same. -/
theorem Image.Counterpart.alike {given : Image → Image → Prop} {kept : Image → Prop}
    {made : Nat → Image} {s t : Nat} {i j : Image} (h : Counterpart given kept made s t i j)
    (hg : ∀ i j, given i j → i.Alike j) : i.Alike j := by
  cases h with
  | given h => exact hg _ _ h
  | kept => exact ⟨rfl, rfl⟩
  | made k => exact ⟨rfl, rfl⟩

/-- Two outcomes that differ by the images in them only. Errors name their node, so that they are
the same if the nodes are. -/
inductive Outcome.Match (r : Image → Image → Prop) (alike : Prop) : Outcome → Outcome → Prop
  | ok {s t : Table String Value}
    (h : List.Forall₂ (fun x y => x.1 = y.1 ∧ x.2.Match r y.2) s.entries t.entries) :
    Match r alike (.ok s) (.ok t)
  | error {e f : ComputeError} (h : alike → e = f) : Match r alike (.error e) (.error f)

/-- Nothing has been set or made. -/
structure Context.Opening (c : Context) : Prop where
  outputs : c.outputs = ∅
  made : c.made = 0

/-- The contexts have the same in them, apart from images, nodes and stamps. -/
structure Context.Like (r : Image → Image → Prop) (c d : Context) : Prop where
  inputs : ∀ name, Option.Rel (Value.Match r) (c.inputs.get? name) (d.inputs.get? name)
  parameters : c.parameters = d.parameters
  declared : c.declared = d.declared
  files : c.files = d.files

/-- **The compute is pure: on contexts that show the same it yields the same.** -/
def Variant.Pure (kept : Image → Prop) (v : Variant) : Prop :=
  ∀ (given : Image → Image → Prop) (c d : Context), (∀ i j, given i j → i.Alike j) →
    c.Opening → d.Opening → c.Like given d → ∃ made : Nat → Image,
      Outcome.Match (Image.Counterpart given kept made c.stamp d.stamp) (c.node = d.node)
        (v.run c) (v.run d)

/-- Variants with pure computes, no two of one identifier, and the images that they keep, for
their computes or as defaults, no two of one revision. -/
structure Palette where
  variants : Variant → Prop
  images : Image → Prop
  pure : ∀ v, variants v → v.Pure images
  unique : ∀ v w, variants v → variants w → v.metadata.id = w.metadata.id → v = w
  defaults : ∀ v, variants v → ∀ p ∈ v.metadata.ports, ∀ i, p.default = some (.image i) → images i
  distinct : ∀ i j, images i → images j → i.revision = j.revision → i = j
  /-- They were not made in the run. -/
  unminted : ∀ i, images i → ∀ s k, i.revision ≠ .mint s k

namespace Palette

/-! Variants that keep no images. -/

theorem distinct_noImages (i j : Image) (hi : False) (_ : False) (_ : i.revision = j.revision) :
    i = j := hi.elim

theorem unminted_noImages (i : Image) (hi : False) (s k : Nat) : i.revision ≠ .mint s k := hi.elim

end Palette

/-! ## What purity says -/

/-- The image that was made under one stamp is made under the other, or nothing was made. -/
def Image.Renewed (s t : Nat) (i j : Image) : Prop :=
  i = j ∨ ∃ k, i.revision = .mint s k ∧ j = { i with revision := .mint t k }

theorem Image.Renewed.eq {s : Nat} {i j : Image} (h : i.Renewed s s j) : i = j := by
  rcases h with h | ⟨k, hi, rfl⟩
  · exact h
  · rw [← hi]

theorem Image.Renewed.alike {s t : Nat} {i j : Image} (h : i.Renewed s t j) : i.Alike j := by
  rcases h with rfl | ⟨k, _, rfl⟩ <;> exact ⟨rfl, rfl⟩

theorem Context.Like.of_eq {c d : Context} (hi : ∀ name, c.inputs.get? name = d.inputs.get? name)
    (hp : c.parameters = d.parameters) (hd : c.declared = d.declared) (hf : c.files = d.files) :
    c.Like (· = ·) d := by
  refine ⟨fun name => ?_, hp, hd, hf⟩
  rw [hi]
  cases d.inputs.get? name with
  | none => exact .none
  | some v => exact .some (.of_eq fun _ _ => rfl)

theorem Outcome.Match.mono {r q : Image → Image → Prop} {alike : Prop} {o o' : Outcome}
    (h : Outcome.Match r alike o o') (hr : ∀ i j, r i j → q i j) : Outcome.Match q alike o o' := by
  cases h with
  | ok h => exact .ok (h.imp fun _ _ ⟨he, hv⟩ => ⟨he, hv.mono fun i j _ _ => hr i j⟩)
  | error h => exact .error h

theorem Outcome.Match.of_alike {r : Image → Image → Prop} {alike : Prop} {o o' : Outcome}
    (h : Outcome.Match r alike o o') (ha : alike) : Outcome.Match r True o o' := by
  cases h with
  | ok h => exact .ok h
  | error h => exact .error fun _ => h ha

namespace Variant

variable {v : Variant} {kept : Image → Prop} {c d : Context}

/-- On the same inputs, outcomes differ by the stamps of images that are made. -/
theorem Pure.renewed (h : v.Pure kept) (hc : c.Opening) (hd : d.Opening) (hl : c.Like (· = ·) d) :
    Outcome.Match (Image.Renewed c.stamp d.stamp) (c.node = d.node) (v.run c) (v.run d) := by
  obtain ⟨made, hm⟩ := h (· = ·) c d (fun i j e => e ▸ ⟨rfl, rfl⟩) hc hd hl
  refine hm.mono fun i j hij => ?_
  cases hij with
  | given e => exact .inl e
  | kept => exact .inl rfl
  | made k => exact .inr ⟨k, rfl, rfl⟩

/-- **With the same stamp, no other node yields anything else.** -/
theorem Pure.ok_of_like (h : v.Pure kept) (hc : c.Opening) (hd : d.Opening)
    (hl : c.Like (· = ·) d) (hs : c.stamp = d.stamp) {o : Table String Value}
    (ho : v.run c = .ok o) : v.run d = .ok o := by
  have hm := h.renewed hc hd hl
  rw [ho, hs] at hm
  generalize v.run d = o' at hm
  cases hm with
  | @ok _ t h =>
    refine congrArg _ (Table.ext (List.forall₂_eq_eq_eq ▸ h.imp fun x y hxy => ?_)).symm
    exact Prod.ext hxy.1 (hxy.2.eq fun _ _ _ _ => Image.Renewed.eq)

/-- **The images in an outcome were given, are kept, or are made under numbers.** -/
theorem Pure.images (h : v.Pure kept) (hc : c.Opening) {given : Image → Prop}
    (hg : ∀ name i, c.inputs.get? name = some (.image i) → given i) {o : Table String Value}
    (ho : v.run c = .ok o) : ∃ made : Nat → Image, ∀ name i, o.get? name = some (.image i) →
      given i ∨ kept i ∨ ∃ k, i = { made k with revision := .mint c.stamp k } := by
  obtain ⟨made, hm⟩ := h (fun i j => i = j ∧ given i) c c (fun i j e => e.1 ▸ ⟨rfl, rfl⟩) hc hc
    ⟨fun name => by
      cases hn : c.inputs.get? name with
      | none => exact .none
      | some v => exact .some (.of_eq fun i e => ⟨rfl, hg name i (e ▸ hn)⟩), rfl, rfl, rfl⟩
  refine ⟨made, fun name i hi => ?_⟩
  rw [ho] at hm
  cases hm with
  | ok h =>
    have hi := (List.forall₂_same.1 h _ ((Table.get?_eq_some_iff ..).1 hi)).2
    cases hi with
    | image hij =>
      cases hij with
      | given e => exact .inl e.2
      | kept hk => exact .inr (.inl hk)
      | made k => exact .inr (.inr ⟨k, rfl⟩)

end Variant

/-! ## Nodes of a palette -/

/-- The node was made new, of a variant of the palette, and then given parameters. -/
inductive Node.Built (P : Palette) : Node → Prop
  | build {v : Variant} (hv : P.variants v) (id : NodeId) {portId : Nat → PortId}
    (hp : ∀ i j, portId i = portId j → i = j) : Built P (.build v id portId)
  | withParameter {n : Node} (h : Built P n) (name : String) (v : ParamValue) :
    Built P (n.withParameter name v)

/-- **The node was derived**: it was made new of a variant of the palette or is a copy of a node
that is held, and was then perhaps renamed and given parameters. -/
inductive Node.Derived (P : Palette) (held : Node → Prop) : Node → Prop
  | build {v : Variant} (hv : P.variants v) (id : NodeId) (portId : Nat → PortId) :
    Derived P held (.build v id portId)
  | copy {n : Node} (h : held n) : Derived P held n
  | withId {n : Node} (h : Derived P held n) (id : NodeId) : Derived P held (n.withId id)
  | withParameter {n : Node} (h : Derived P held n) (name : String) (v : ParamValue) :
    Derived P held (n.withParameter name v)

/-- The same for any set of variants, whatever their computes do. -/
inductive Node.Made (variants : Variant → Prop) (held : Node → Prop) : Node → Prop
  | build {v : Variant} (hv : variants v) (id : NodeId) (portId : Nat → PortId) :
    Made variants held (.build v id portId)
  | copy {n : Node} (h : held n) : Made variants held n
  | withId {n : Node} (h : Made variants held n) (id : NodeId) : Made variants held (n.withId id)
  | withParameter {n : Node} (h : Made variants held n) (name : String) (v : ParamValue) :
    Made variants held (n.withParameter name v)

/-- **The node is freshly made**: nothing of a node that was in a graph is in it. -/
def Node.Fresh : Node → Prop := Made (fun _ => True) fun _ => False

/-- The outputs that the nodes of a variant have to set. -/
def Variant.declared (v : Variant) : Table String PortType :=
  Table.ofList (v.metadata.sources.map fun p => (p.name, p.type))

/-- The node is of a variant of the palette and has its ports. -/
structure Node.OfPalette (P : Palette) (n : Node) : Prop where
  variant : P.variants n.variant
  declared : (Table.ofList (n.sources.map fun p => (p.name, p.type)) : Table String PortType) =
    n.variant.declared
  defaults : ∀ p ∈ n.ports, ∀ i, p.default = some (.image i) → P.images i

namespace Node

variable {P : Palette} {n m : Node}

theorem OfPalette.of_bare (h : n.OfPalette P) (e : n.variant = m.variant) (hp : n.ports = m.ports) :
    m.OfPalette P where
  variant := e ▸ h.variant
  declared := by
    rw [← e, ← h.declared, sources, sources, hp]
  defaults := hp ▸ h.defaults

theorem ofPalette_build {v : Variant} (hv : P.variants v) (id : NodeId) (portId : Nat → PortId) :
    (build v id portId).OfPalette P where
  variant := hv
  declared := by
    have filter : ∀ l : List (PortSpec × Nat),
        ((l.map fun x => Port.ofSpec (portId x.2) id x.1).filter (·.isSource)).map
          (fun p => (p.name, p.type)) =
        ((l.map Prod.fst).filter (·.kind == .source)).map fun s => (s.name, s.type) := by
      intro l
      simp only [List.filter_map, List.map_map]
      rfl
    show Table.ofList (((v.metadata.ports.zipIdx.map
      fun x => Port.ofSpec (portId x.2) id x.1).filter _).map _) = _
    rw [filter, List.zipIdx_map_fst]
    rfl
  defaults p hp i hi := by
    obtain ⟨⟨s, k⟩, hs, rfl⟩ := List.mem_map.1 hp
    exact P.defaults v hv s (List.fst_mem_of_mem_zipIdx hs) i hi

theorem Built.new {v : Variant} (hv : P.variants v) (stamp : Nat) : (new v stamp).Built P :=
  .build hv _ fun i j h => by
    have := (Uuid.mint_injective (PortId.mk.inj h)).2
    omega

theorem Built.derived {held : Node → Prop} (h : n.Built P) : n.Derived P held := by
  induction h with
  | build hv id => exact .build hv id _
  | withParameter _ name v ih => exact ih.withParameter name v

theorem sources_withId (n : Node) (id : NodeId) :
    (n.withId id).sources = n.sources.map ({ · with node := id }) := by
  rw [sources, sources, withId, List.filter_map]
  rfl

/-- **A node that was derived is of the palette, and its outputs are those of a node that was
held.** -/
theorem Derived.spec {held : Node → Prop} (h : n.Derived P held)
    (hh : ∀ m, held m → m.OfPalette P) :
    n.OfPalette P ∧ (n.outputs = ∅ ∨ ∃ m, held m ∧ n.outputs = m.outputs) := by
  induction h with
  | build hv id => exact ⟨ofPalette_build hv id _, .inl rfl⟩
  | copy h => exact ⟨hh _ h, .inr ⟨_, h, rfl⟩⟩
  | withId _ id ih =>
    refine ⟨⟨ih.1.variant, ?_, fun p hp => ?_⟩, ih.2⟩
    · rw [sources_withId, List.map_map]
      exact ih.1.declared
    · obtain ⟨q, hq, rfl⟩ := List.mem_map.1 hp
      exact ih.1.defaults q hq
  | withParameter _ name v ih => exact ⟨ih.1.of_bare rfl rfl, ih.2⟩

end Node

end PixelFlow
