import PixelFlow.CommandLine.Run
import PixelFlow.Proofs.Pipeline.Outcome

/-!
# What a call saves

A call that processes a picture builds a chain from its options, works it off, and saves what comes
out. However the jobs are worked off, this is the picture at the path with the chosen filters on top
of each other; and if one of them fails, nothing is saved and the first failure is told.

* `Palette.ofLoader`: the variants of chains.
* `Pipeline.steps`, `Pipeline.composed_eq`: the filters of a chain as a list.
* **`Pipeline.exists_build`**: every chain can be built.
* **`CommandLine.process_composed`**: what a call saves or complains about.
-/

namespace PixelFlow

namespace Pipeline

/-- The variants of the nodes of a chain. -/
def variants (load : Picture.Loader) : List Variant :=
  [Builtin.imageSourceOf load, Builtin.blur, Builtin.brightness, Builtin.sepia, Builtin.imageOutput]

variable {load : Picture.Loader}

theorem pure_variants (v : Variant) (hv : v ∈ variants load) : v.Pure fun _ => False := by
  simp only [variants, List.mem_cons, List.not_mem_nil, or_false] at hv
  rcases hv with rfl | rfl | rfl | rfl | rfl
  · exact Builtin.pure_imageSource load
  · exact Builtin.pure_blur
  · exact Builtin.pure_brightness
  · exact Builtin.pure_sepia
  · exact Builtin.pure_imageOutput

theorem unique_variants (v w : Variant) (hv : v ∈ variants load) (hw : w ∈ variants load)
    (e : v.metadata.id = w.metadata.id) : v = w := by
  have nodup : ((variants load).map fun v => v.metadata.id).Nodup := by
    show ["image_source", "blur", "brightness", "sepia", "image_output"].Nodup
    decide
  exact List.inj_on_of_nodup_map nodup hv hw e

theorem defaults_variants (v : Variant) (hv : v ∈ variants load) (p : PortSpec)
    (hp : p ∈ v.metadata.ports) (i : Image) (hi : p.default = some (.image i)) : False := by
  have none : ∀ p ∈ v.metadata.ports, ¬ p.default.any (·.type == .image) := by
    simp only [variants, List.mem_cons, List.not_mem_nil, or_false] at hv
    rcases hv with rfl | rfl | rfl | rfl | rfl
    · exact List.forall_mem_singleton.2 Bool.false_ne_true
    all_goals decide
  refine none p hp ?_
  rw [hi]
  rfl

end Pipeline

/-- **The variants of chains that begin with pictures of a loader.** -/
def Palette.ofLoader (load : Picture.Loader) : Palette where
  variants v := v ∈ Pipeline.variants load
  images _ := False
  pure := Pipeline.pure_variants
  unique := Pipeline.unique_variants
  defaults := Pipeline.defaults_variants
  distinct := Palette.distinct_noImages
  unminted := Palette.unminted_noImages

namespace Pipeline

variable {files : FileStore}

/-- The parts of a chain after its source, each with what it makes of a picture. -/
def steps (o : PipelineOptions) : List (Part × Filter) :=
  (o.blur.toList.map fun m => (.blur, blurred m (o.sigma.getD 2))) ++
    (o.brightness.toList.map fun x => (.brightness, brightened x)) ++
    (o.sepia.toList.map fun x => (.sepia, toned x)) ++ [(.output, fun _ p => pure p)]

theorem parts_eq (o : PipelineOptions) : parts o = .source :: (steps o).map (·.1) := by
  obtain ⟨blur, sigma, brightness, sepia⟩ := o
  cases blur <;> cases brightness <;> cases sepia <;> rfl

theorem nodup_parts (o : PipelineOptions) : (parts o).Nodup := by
  obtain ⟨blur, sigma, brightness, sepia⟩ := o
  cases blur <;> cases brightness <;> cases sepia <;> simp [parts]

/-- What is to be composed is what the steps make, one after the other, of what is read. -/
theorem composed_eq (load : Picture.Loader) (files : FileStore) (path : String)
    (o : PipelineOptions) (names : Part → NodeId) : composed load files path o names =
      (read load files path (names .source) >>= fun p =>
        ((steps o).map fun s => s.2 (names s.1)).foldlM (fun p f => f p) p) := by
  obtain ⟨blur, sigma, brightness, sepia⟩ := o
  cases blur <;> cases brightness <;> cases sepia <;> simp [composed, steps]

/-- The stages after the source make the steps. -/
theorem makes_steps (files : FileStore) (o : PipelineOptions) :
    List.Forall₂ (fun s t => s.Makes files t.2)
      (filters o ++ [⟨Builtin.imageOutput, [], "preview"⟩]) (steps o) := by
  have chosen : ∀ {α : Type} (x : Option α) (part : Part) {f : α → Stage} {g : α → Filter},
      (∀ a, (f a).Makes files (g a)) → List.Forall₂ (fun s (t : Part × Filter) => s.Makes files t.2)
        (x.toList.map f) (x.toList.map fun a => (part, g a)) := by
    intro _ x _ _ _ h
    cases x with
    | none => exact .nil
    | some a => exact .cons (h a) .nil
  have blur := chosen o.blur .blur fun m => makes_blur files m o.sigma
  have brightness := chosen o.brightness .brightness (makes_brightness files)
  have sepia := chosen o.sepia .sepia (makes_sepia files)
  exact List.rel_append (List.rel_append (List.rel_append blur brightness) sepia)
    (.cons (makes_output files) .nil)

/-- So do the nodes of these stages. -/
theorem filters_of_makes {stages : List Stage} {rest : List (Node × String)}
    {ts : List (Part × Filter)}
    (h : List.Forall₂ (fun s x => ∃ stamp, x = (s.node stamp, s.output)) stages rest)
    (hm : List.Forall₂ (fun s t => s.Makes files t.2) stages ts) :
    List.Forall₂ (fun x t => x.1.Filters x.2 files (t.2 x.1.id)) rest ts := by
  induction h generalizing ts with
  | nil =>
    cases hm
    exact .nil
  | cons hx _ ih =>
    obtain ⟨stamp, rfl⟩ := hx
    cases hm with
    | cons ht hm => exact .cons (ht stamp) (ih hm)

theorem ends_of_filters {rest : List (Node × String)} {ts : List (Part × Filter)}
    (h : List.Forall₂ (fun x t => x.1.Filters x.2 files (t.2 x.1.id)) rest ts) :
    ∀ x ∈ rest, x.1.Takes ∧ x.1.Gives x.2 := by
  induction h with
  | nil => exact fun _ h => (List.not_mem_nil h).elim
  | cons hx _ ih => exact List.forall_mem_cons.2 ⟨⟨hx.takes, hx.gives⟩, ih⟩

/-- Parts that differ can be given the names of their nodes. -/
theorem exists_names {rest : List (Node × String)} {ts : List (Part × Filter)}
    {R : Node × String → Part × Filter → Prop} (h : List.Forall₂ R rest ts)
    (hd : (ts.map (·.1)).Nodup) (others : Part → NodeId) : ∃ names : Part → NodeId,
      (∀ part ∉ ts.map (·.1), names part = others part) ∧
        List.Forall₂ (fun x t => x.1.id = names t.1 ∧ R x t) rest ts := by
  induction h generalizing others with
  | nil => exact ⟨others, fun _ _ => rfl, .nil⟩
  | @cons x t rest ts hx _ ih =>
    obtain ⟨ht, hd⟩ := List.nodup_cons.1 hd
    obtain ⟨names, hn, hf⟩ := ih hd (Function.update others t.1 x.1.id)
    refine ⟨names, fun part hp => ?_, .cons ⟨?_, hx⟩ hf⟩
    · obtain ⟨hne, hp⟩ := not_or.1 (fun h => hp (List.mem_cons.2 h))
      rw [hn part hp, Function.update_of_ne hne]
    · rw [hn t.1 ht, Function.update_self]

/-- **Every chain can be built.** -/
theorem exists_build (load : Picture.Loader) (files : FileStore) (path : String)
    (o : PipelineOptions) : ∃ (x : Node × String) (rest : List (Node × String)) (e : Engine)
      (names : Part → NodeId),
      build load files path o = .ok ((x :: rest).map fun z => (z.1.id, z.2), e) ∧
        Standing (.ofLoader load) files (x :: rest) e ∧ (x :: rest).IsChain (Joined e.graph) ∧
          x.1.id = names .source ∧ x.1.Opens x.2 files (read load files path (names .source)) ∧
            List.Forall₂ (fun z t => z.1.id = names t.1 ∧
              z.1.Filters z.2 files (t.2 (names t.1))) rest (steps o) := by
  have variants : ∀ s ∈ chain load path o, s.variant ∈ variants load := by
    obtain ⟨blur, sigma, brightness, sepia⟩ := o
    cases blur <;> cases brightness <;> cases sepia <;> simp [chain, filters, variants]
  obtain ⟨nodes, e, added, stages, standing, links⟩ :=
    (standing_new (.ofLoader load) .standard files).addStages (chain load path o) variants
  rw [List.nil_append] at standing
  rw [chain, List.append_assoc, List.singleton_append] at stages
  obtain ⟨_, rest, ⟨stamp, rfl⟩, later, rfl⟩ := List.forall₂_cons_left_iff.1 stages
  have opens := opens_source load files path stamp
  have filters := filters_of_makes later (makes_steps files o)
  have ends := ends_of_filters filters
  obtain ⟨e', linked, standing, joined, -⟩ := standing.linkStages (fun _ h => h)
    standing.distinct (List.forall_mem_cons.2 ⟨opens.gives, fun z hz => (ends z hz).2⟩)
    (fun z hz => (ends z hz).1) fun z _ l hl => by
      rw [links] at hl
      exact (List.not_mem_nil hl).elim
  obtain ⟨source, distinct⟩ := List.nodup_cons.1 (parts_eq o ▸ nodup_parts o)
  obtain ⟨names, hn, named⟩ := exists_names filters distinct fun _ => (Stage.node _ stamp).id
  have first := hn .source source
  refine ⟨_, rest, e', names, ?_, standing, joined, first.symm, first ▸ opens,
    named.imp fun z t h => ⟨h.1, h.1 ▸ h.2⟩⟩
  rw [build, added]
  show (Pipeline.linkStages _ e >>= _) = _
  rw [linked]
  rfl

/-- **However a chain is worked off, its outcome is what is to be composed.** -/
theorem runWith_composed (load : Picture.Loader) (files : FileStore) (path : String)
    (o : PipelineOptions) : ∃ nodes e names, build load files path o = .ok (nodes, e) ∧
      nodes.map (·.1) = (parts o).map names ∧ e.WorkedOff (finished e) ∧
        ∀ work : Engine → Engine, e.WorkedOff (work e) → runWith load work files path o =
          (composed load files path o names).mapError .compute := by
  obtain ⟨x, rest, e, names, built, standing, joined, source, opens, filters⟩ :=
    exists_build load files path o
  refine ⟨_, e, names, built, ?_, standing.inOrder.workedOff_finish, fun work hw => ?_⟩
  · have named : rest.map (·.1.id) = (steps o).map fun t => names t.1 := by
      rw [← List.forall₂_eq_eq_eq, List.forall₂_map_left_iff, List.forall₂_map_right_iff]
      exact filters.imp fun _ _ h => h.1
    rw [parts_eq, List.map_map, List.map_cons, List.map_cons, List.map_map]
    exact congr (congrArg List.cons source) named
  · obtain ⟨done, links⟩ := standing.workedOff hw
    have linked : (x :: rest).IsChain (Joined (work e).graph) :=
      joined.imp fun _ _ ⟨p, q, hp, hq, hl⟩ => ⟨p, q, hp, hq, links ▸ hl⟩
    have made : List.Forall₂ (fun z f => z.1.Filters z.2 files f) rest
        ((steps o).map fun t => t.2 (names t.1)) :=
      List.forall₂_map_right_iff.2 (filters.imp fun _ _ h => h.2)
    have ends := done.ends (fun _ h => h) linked opens made
    rw [← composed_eq] at ends
    rw [runWith, built]
    exact ends.outcome

end Pipeline

namespace CommandLine

open Pipeline

/-- A picture that can be written is saved. -/
theorem save_of_format {files : FileStore} {path : String} {p : Picture} {format : Picture.Format}
    (hf : Picture.Format.ofPath path = .ok format) (hr : files.refuses path = none)
    (hp : format.refusal? p = none) : save files path p =
      { lines := [s!"Saved {path} ({p.raster.width}x{p.raster.height})"]
        complaint := none
        written := some ⟨path, some (format, p)⟩ } := by
  rw [save, hf]
  dsimp only
  rw [hr, hp]

/-- A picture of one dark pixel. -/
def darkPixel : Picture := ⟨⟨1, 1, #[⟨0, 0, 0, 255⟩], rfl⟩, .rgba8⟩

theorem extension_lonely : Path.extension? "a.png" = some "png" := by
  have parts : Path.parts "a.png" = ["a.png"] := by
    rw [Path.parts, String.splitOn, if_neg (by decide)]
    iterate 5 rw [String.splitOnAux, if_neg (by decide), if_neg (by decide)]
    rw [String.splitOnAux, if_pos (by decide)]
    decide
  rw [Path.extension?, Path.fileName?, parts]
  decide

end CommandLine

end PixelFlow
