import PixelFlow.Proofs.Cache
import PixelFlow.Proofs.Engine.Run
import PixelFlow.Proofs.Engine.Snapshot
import PixelFlow.Proofs.Fingerprint

/-!
# What is remembered is genuine

Every image in an engine is kept by a variant or was made in one compute, whose stamp its revision
has; so no two images have one revision, and keys tell inputs apart. Hence what the cache finds for
a node is what its own compute yields.

* `Palette.Sees`: the images that have come up; **`Palette.Sees.compute`**: one more compute.
* `Palette.Genuine`: a compute of a variant on images that have come up, with its outcome.
* `Engine.Genuine`: nodes, jobs and cache entries come from genuine computes.
* **`Engine.Genuine.remembered`**: what is found in the cache is what the compute yields.
-/

namespace PixelFlow

/-- All images in the table are among the given ones. -/
def Table.Shows {κ : Type} [DecidableEq κ] (seen : Image → Prop) (t : Table κ Value) : Prop :=
  ∀ k i, t.get? k = some (.image i) → seen i

theorem Table.Shows.mono {κ : Type} [DecidableEq κ] {seen seen' : Image → Prop}
    {t : Table κ Value} (h : t.Shows seen) (hs : ∀ i, seen i → seen' i) : t.Shows seen' :=
  fun k i hi => hs i (h k i hi)

theorem Node.Derived.shows {P : Palette} {held : Node → Prop} {n : Node} (h : n.Derived P held)
    {seen : Image → Prop} (hh : ∀ m, held m → m.OfPalette P ∧ m.outputs.Shows seen) :
    n.OfPalette P ∧ n.outputs.Shows seen := by
  obtain ⟨hp, ho | ⟨m, hm, ho⟩⟩ := h.spec fun m hm => (hh m hm).1
  · refine ⟨hp, ?_⟩
    rw [ho]
    exact fun _ _ h => nomatch h
  · exact ⟨hp, ho ▸ (hh m hm).2⟩

theorem Wave.shows_outputsByPort {seen : Image → Prop} {t : Table String Value} (h : t.Shows seen)
    (n : Node) : (outputsByPort n t).Shows seen := by
  intro p i hi
  obtain ⟨⟨name, v⟩, he, hv⟩ := List.mem_filterMap.1 (Table.mem_of_get?_ofList hi)
  obtain ⟨q, _, e⟩ := Option.map_eq_some_iff.1 hv
  cases e
  exact h name i ((Table.get?_eq_some_iff ..).2 he)

theorem Wave.outputsByPort_rel (n : Node) {r : Image → Image → Prop} {s t : Table String Value}
    (h : List.Forall₂ (fun x y => x.1 = y.1 ∧ x.2.Match r y.2) s.entries t.entries) (p : PortId) :
    Option.Rel (Value.Match r) ((outputsByPort n s).get? p) ((outputsByPort n t).get? p) := by
  refine Table.get?_ofList_rel ?_ p
  refine List.rel_filterMap (fun x y hxy => ?_) h
  obtain ⟨name, v⟩ := x
  obtain ⟨_, w⟩ := y
  obtain ⟨rfl, hvw⟩ := hxy
  dsimp only
  cases n.sources.find? (·.name == name) with
  | none => exact .none
  | some q => exact .some ⟨rfl, hvw⟩

namespace Palette

variable {P : Palette} {seen seen' : Image → Prop} {stamp : Nat} {files : FileStore}
  {v : Variant} {c : Context}

/-- The images that have come up before a stamp: the kept ones and others, no two of one
revision, and none that is made later. -/
structure Sees (P : Palette) (seen : Image → Prop) (stamp : Nat) : Prop where
  kept : ∀ i, P.images i → seen i
  distinct : ∀ i j, seen i → seen j → i.revision = j.revision → i = j
  known : ∀ i, seen i → i.revision.Known stamp

/-- A compute of a variant of the palette on images that have come up, as have those that it
yields. -/
structure Genuine (P : Palette) (seen : Image → Prop) (files : FileStore) (v : Variant)
    (c : Context) : Prop where
  variant : P.variants v
  opening : c.Opening
  declared : c.declared = v.declared
  files : c.files = files
  inputs : c.inputs.Shows seen
  outcome : ∀ o, v.run c = .ok o → o.Shows seen

theorem Genuine.mono (h : P.Genuine seen files v c) (hs : ∀ i, seen i → seen' i) :
    P.Genuine seen' files v c :=
  { h with inputs := h.inputs.mono hs, outcome := fun o ho => (h.outcome o ho).mono hs }

theorem sees_kept (P : Palette) : P.Sees P.images 0 where
  kept _ h := h
  distinct := P.distinct
  known i hi s k e := (P.unminted i hi s k e).elim

theorem Sees.mono {t : Nat} (h : P.Sees seen stamp) (hst : stamp ≤ t) : P.Sees seen t :=
  { h with known := fun i hi => (h.known i hi).mono hst }

/-- **The images that a compute makes have revisions that none had before.** -/
theorem Sees.compute (h : P.Sees seen stamp) (hv : P.variants v) (hc : c.Opening)
    (hi : c.inputs.Shows seen) (hs : c.stamp = stamp) : ∃ seen' : Image → Prop,
      (∀ i, seen i → seen' i) ∧ P.Sees seen' (stamp + 1) ∧ ∀ o, v.run c = .ok o → o.Shows seen' := by
  cases ho : v.run c with
  | error e => exact ⟨seen, fun _ h => h, h.mono (Nat.le_succ _), fun _ e => nomatch e⟩
  | ok o =>
    obtain ⟨made, hm⟩ := (P.pure v hv).images hc hi ho
    let new (i : Image) : Prop := ∃ k, i = { made k with revision := .mint stamp k }
    -- What is made has the stamp in its revision, what came up before has an earlier one.
    have fresh : ∀ i j, seen i → new j → i.revision ≠ j.revision := by
      rintro i _ hi ⟨k, rfl⟩ e
      exact (h.known i hi).ne_mint e
    refine ⟨fun i => seen i ∨ new i, fun i hi => .inl hi,
      ⟨fun i hi => .inl (h.kept i hi), fun i j hi hj e => ?_, fun i hi => ?_⟩, fun o' e k i hk => ?_⟩
    · rcases hi with hi | hi <;> rcases hj with hj | hj
      · exact h.distinct i j hi hj e
      · exact (fresh i j hi hj e).elim
      · exact (fresh j i hj hi e.symm).elim
      · obtain ⟨k, rfl⟩ := hi
        obtain ⟨l, rfl⟩ := hj
        rw [(Uuid.mint_injective e).2]
    · rcases hi with hi | ⟨k, rfl⟩
      · exact (h.known i hi).mono (Nat.le_succ _)
      · exact Uuid.known_mint (Nat.lt_succ_self _)
    · cases e
      rcases hm k i hk with hi | hi | ⟨l, hi⟩
      · exact .inl hi
      · exact .inl (h.kept i hi)
      · exact .inr ⟨l, hs ▸ hi⟩

/-- Images that have come up are told apart by their revisions, and so are inputs. -/
theorem Sees.get?_eq (h : P.Sees seen stamp) {s t : Table String Value} (hs : s.Shows seen)
    (ht : t.Shows seen) {name : String}
    (hr : Option.Rel (Value.Match fun i j => i.revision = j.revision) (s.get? name) (t.get? name)) :
    s.get? name = t.get? name := by
  cases hv : s.get? name with
  | none =>
    rw [hv] at hr
    generalize t.get? name = w at hr
    cases hr
    rfl
  | some v =>
    cases hw : t.get? name with
    | none =>
      rw [hv, hw] at hr
      cases hr
    | some w =>
      rw [hv, hw] at hr
      cases hr with
      | some hvw =>
        refine congrArg some (hvw.eq fun i j hi hj e => ?_)
        exact h.distinct i j (hs name i (hi ▸ hv)) (ht name j (hj ▸ hw)) e

/-- A remembered result: it is the outcome of a genuine compute, under its key. -/
def Backs (P : Palette) (seen : Image → Prop) (files : FileStore) (x : Entry) : Prop :=
  ∃ v c, P.Genuine seen files v c ∧ x.key = .of v.metadata.id c.parameters c.inputs ∧
    v.run c = .ok x.outputs

end Palette

/-! ## Engines -/

/-- **Nodes are of the palette and show images that have come up; jobs are genuine computes, and
results are those of genuine computes.** The jobs of a batch that has begun are counted in. -/
structure Engine.Genuine (P : Palette) (seen : Image → Prop) (rest : List Job) (e : Engine) :
    Prop where
  sees : P.Sees seen e.stamp
  nodes : ∀ id n, e.graph.node? id = some n → n.OfPalette P ∧ n.outputs.Shows seen
  jobs : ∀ j ∈ rest ++ e.jobs, P.Genuine seen e.files j.variant j.context ∧
    ∀ key, j.key = some key → key = .of j.variant.metadata.id j.context.parameters j.context.inputs
  cache : ∀ x ∈ e.cache.entries, P.Backs seen e.files x

namespace Engine.Genuine

open Wave

variable {P : Palette} {seen : Image → Prop} {rest : List Job} {e : Engine} {id : NodeId} {n : Node}

theorem shows_inputs (h : e.Genuine P seen rest) (hn : e.graph.node? id = some n)
    {inputs : Table String Value} (hi : e.graph.inputs n = .ok inputs) : inputs.Shows seen := by
  intro name i hv
  obtain ⟨p, hp, _, hpv⟩ := Graph.mem_inputs hi hv
  rcases Graph.inputAt?_eq_some hpv with ⟨a, m, q, hm, hq⟩ | hd
  · exact (h.nodes a m hm).2 q i hq
  · exact h.sees.kept i ((h.nodes id n hn).1.defaults p (List.mem_of_mem_filter hp) i hd)

/-- **What the cache finds for a node is what its compute yields under some stamp.** -/
theorem remembered (h : e.Genuine P seen rest) (hn : e.graph.node? id = some n)
    {inputs : Table String Value} (hi : e.graph.inputs n = .ok inputs) {outputs : Table String Value}
    (hf : (e.cache.get (.of n.metadata.id n.parameters inputs)).1 = some outputs) :
    ∃ stamp, n.variant.run (n.context inputs stamp e.files) = .ok outputs ∧ outputs.Shows seen := by
  obtain ⟨x, hx, hk, rfl⟩ := Cache.get_eq_some hf
  obtain ⟨v, c, hg, hxk, hr⟩ := h.cache x hx
  obtain ⟨hid, hp, hin⟩ := CacheKey.of_inj (hxk.symm.trans hk)
  obtain rfl := P.unique v n.variant hg.variant (h.nodes id n hn).1.variant hid
  have inputs_eq : ∀ name, c.inputs.get? name = inputs.get? name := fun name =>
    h.sees.get?_eq hg.inputs (h.shows_inputs hn hi) (hin name)
  have hl : c.Like (· = ·) (n.context inputs c.stamp e.files) := by
    refine .of_eq inputs_eq hp ?_ hg.files
    rw [hg.declared, ← (h.nodes id n hn).1.declared]
    rfl
  refine ⟨c.stamp, ?_, hg.outcome _ hr⟩
  exact (P.pure _ hg.variant).ok_of_like hg.opening ⟨rfl, rfl⟩ hl rfl hr

/-- A turn keeps nodes in the palette, and their images among those that have come up. -/
theorem nodes_turn (h : e.Genuine P seen rest) (hg : e.graph.Sound) {id : NodeId} {f : Node → Node}
    {spreads : Bool} (hf : ∀ m, (f m).bare = m.bare)
    (ho : ∀ m, e.graph.node? id = some m → (f m).outputs.Shows seen) {j : NodeId} {m : Node}
    (hm : (e.graph.turn id f spreads).node? j = some m) :
    m.OfPalette P ∧ m.outputs.Shows seen := by
  rw [Graph.node?_turn hg] at hm
  split at hm
  · next e =>
    subst e
    obtain ⟨m', hm', rfl⟩ := Option.map_eq_some_iff.1 hm
    have hb := hf m'
    exact ⟨(h.nodes _ m' hm').1.of_bare (congrArg Node.variant hb).symm
      (congrArg Node.ports hb).symm, ho m' hm'⟩
  · split at hm
    · obtain ⟨m', hm', rfl⟩ := Option.map_eq_some_iff.1 hm
      exact ⟨(h.nodes _ m' hm').1.of_bare rfl rfl, (h.nodes _ m' hm').2⟩
    · exact h.nodes _ m hm

/-- More images may have come up. -/
theorem mono {seen' : Image → Prop} {e' : Engine} (h : e.Genuine P seen rest)
    (hs : ∀ i, seen i → seen' i) (hsees : P.Sees seen' e'.stamp) (hgr : e'.graph = e.graph)
    (hj : e'.jobs = e.jobs) (hf : e'.files = e.files)
    (hc : ∀ x ∈ e'.cache.entries, x ∈ e.cache.entries) : e'.Genuine P seen' rest where
  sees := hsees
  nodes id n hn := (h.nodes id n (hgr ▸ hn)).imp_right (·.mono hs)
  jobs j hjm := (h.jobs j (hj ▸ hjm)).imp_left fun hj => hf ▸ hj.mono hs
  cache x hx :=
    let ⟨v, c, hg, hk, hr⟩ := h.cache x (hc x hx)
    ⟨v, c, hf ▸ hg.mono hs, hk, hr⟩

theorem shows_store (n : Node) (hn : n.outputs.Shows seen) {o : Outcome}
    (ho : ∀ t, o = .ok t → t.Shows seen) : (n.store o).outputs.Shows seen := by
  cases o with
  | ok t => exact shows_outputsByPort (ho t rfl) n
  | error e => exact hn

end Engine.Genuine

namespace Wave

open Engine

variable {P : Palette} {seen : Image → Prop} {rest : List Job} {w w' : Wave} {id : NodeId} {n : Node}

theorem cacheKey?_eq_some {inputs : Table String Value} {key : CacheKey}
    (h : w.cacheKey? n inputs = some key) : key = .of n.metadata.id n.parameters inputs := by
  unfold cacheKey? at h
  split at h
  · exact (Option.some.inj h).symm
  · cases h

/-- **Every dispatch leaves everything genuine.** -/
theorem Dispatched.genuine (hd : Dispatched w id n w') (hg : w.engine.graph.Sound)
    (hn : w.engine.graph.node? id = some n) (h : w.engine.Genuine P seen rest) :
    ∃ seen' : Image → Prop, (∀ i, seen i → seen' i) ∧ w'.engine.Genuine P seen' rest := by
  cases hd with
  | waits =>
    refine ⟨seen, fun _ h => h, { h with nodes := fun j m hm => ?_ }⟩
    exact h.nodes_turn hg (f := (·.markWaiting)) (fun _ => rfl) (fun m hm => (h.nodes id m hm).2) hm
  | refused =>
    refine ⟨seen, fun _ h => h, { h with nodes := fun j m hm => ?_ }⟩
    refine h.nodes_turn hg (fun m => m.bare_store _) (fun m hm => ?_) hm
    exact Genuine.shows_store m (h.nodes id m hm).2 fun _ e => nomatch e
  | @inline inputs o hi _ _ ho =>
    obtain ⟨seen', hs, hsees, hout⟩ := h.sees.compute (h.nodes id n hn).1.variant
      (c := n.context inputs w.engine.stamp w.engine.files) ⟨rfl, rfl⟩ (h.shows_inputs hn hi) rfl
    have h' : ({ w.engine with stamp := w.engine.stamp + 1 } : Engine).Genuine P seen' rest :=
      h.mono hs hsees rfl rfl rfl fun _ h => h
    refine ⟨seen', hs, { h' with nodes := fun j m hm => ?_ }⟩
    refine h'.nodes_turn hg (fun m => m.beginCompute.bare_store _) (fun m hm => ?_) hm
    exact Genuine.shows_store m.beginCompute (h'.nodes id m hm).2 fun t ht => hout t (ho ▸ ht)
  | @remembered inputs key outputs hi _ _ hk hf =>
    obtain ⟨_, _, hout⟩ := h.remembered hn hi (cacheKey?_eq_some hk ▸ hf)
    have h' : (w.hit key).engine.Genuine P seen rest :=
      h.mono (fun _ h => h) h.sees rfl rfl rfl fun _ => Cache.mem_of_get
    refine ⟨seen, fun _ h => h, { h' with nodes := fun j m hm => ?_ }⟩
    refine h'.nodes_turn hg (fun m => m.bare_store _) (fun m hm => ?_) hm
    exact Genuine.shows_store m (h'.nodes id m hm).2 fun t ht => by cases ht; exact hout
  | @submitted inputs cache hi _ _ hk =>
    have hv := (h.nodes id n hn).1
    obtain ⟨seen', hs, hsees, hout⟩ := h.sees.compute hv.variant
      (c := n.context inputs w.engine.stamp w.engine.files) ⟨rfl, rfl⟩ (h.shows_inputs hn hi) rfl
    have hc : ∀ x ∈ cache.entries, x ∈ w.engine.cache.entries := fun x hx => by
      rcases hk with rfl | ⟨key, rfl⟩
      · exact hx
      · exact Cache.mem_of_get hx
    have h' : ({ w.engine with stamp := w.engine.stamp + 1, cache := cache } : Engine).Genuine P
        seen' rest := h.mono hs hsees rfl rfl rfl hc
    refine ⟨seen', hs, { h' with nodes := fun j m hm => ?_, jobs := fun j hj => ?_ }⟩
    · refine h'.nodes_turn hg (f := (·.beginCompute)) (fun _ => rfl) (fun m hm => ?_) hm
      exact (h'.nodes id m hm).2
    · rcases List.mem_append.1 hj with hj | hj
      · exact h'.jobs j (List.mem_append_left _ hj)
      · rcases List.mem_append.1 hj with hj | hj
        · exact h'.jobs j (List.mem_append_right _ hj)
        · rw [List.mem_singleton.1 hj]
          refine ⟨⟨hv.variant, ⟨rfl, rfl⟩, hv.declared, rfl, ?_, hout⟩, fun key => cacheKey?_eq_some⟩
          exact (h.shows_inputs hn hi).mono hs

theorem complete_outcome {j : Job} {files : FileStore} (h : j.context.files = files) :
    (j.complete files).outcome = j.variant.run j.context := by
  subst h
  rfl

/-- What comes in may be remembered, since its job was genuine. -/
theorem genuine_received {j : Job} (h : w.engine.Genuine P seen (j :: rest)) :
    (w.received (j.complete w.engine.files)).engine.Genuine P seen rest := by
  obtain ⟨hj, hkey⟩ := h.jobs j (by simp)
  obtain ⟨cache, e, hcache⟩ := w.received_eq (j.complete w.engine.files)
  rw [e]
  refine { h with jobs := fun k hk => h.jobs k (by simp [hk]), cache := fun x hx => ?_ }
  rcases hcache with rfl | ⟨key, outputs, hk, ho, _, rfl⟩
  · exact h.cache x hx
  · rcases Cache.mem_of_put hx with rfl | hx
    · refine ⟨j.variant, j.context, hj, hkey key hk, ?_⟩
      rw [← complete_outcome hj.files, ho]
    · exact h.cache x hx

/-- **Every delivery leaves everything genuine.** -/
theorem Accepted.genuine {j : Job} (ha : Accepted w (j.complete w.engine.files) w')
    (hg : w.engine.graph.Sound) (h : w.engine.Genuine P seen (j :: rest)) :
    w'.engine.Genuine P seen rest := by
  have hr := genuine_received h
  have hj := (h.jobs j (by simp)).1
  cases ha with
  | applied =>
    obtain ⟨cache, e, _⟩ := w.received_eq (j.complete w.engine.files)
    have hs : (w.received (j.complete w.engine.files)).engine.graph.Sound := by
      rw [e]
      exact hg
    refine { hr with nodes := fun k m hm => ?_ }
    refine hr.nodes_turn hs (fun m => m.bare_store _) (fun m hm => ?_) hm
    refine Genuine.shows_store m (hr.nodes _ m hm).2 fun t ht => ?_
    exact hj.outcome t ((complete_outcome hj.files).symm.trans ht)
  | dropped => exact { hr with }

end Wave

end PixelFlow
