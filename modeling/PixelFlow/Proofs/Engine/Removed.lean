import PixelFlow.Proofs.Engine.Late

/-!
# Results for removed nodes

The counter of generations goes with its node. When a node comes in again under the name of a
removed one, its counter need not be beyond the generations that were begun before, and a result
for the removed node may be taken for one of its own.

* **`Engine.removed_result_stored_iff`**: when a result for a removed node is stored.
* `Engine.DropsRemoved`: no result for a removed node is ever stored.
* `Engine.not_dropsRemoved`: a run in which one is.
-/

namespace PixelFlow.Engine

open Wave

/-- **A result for a removed node is stored iff a node is there under its name again and has begun
a compute of the same generation, of which nothing has come since. That takes a node that came in
with a lower counter. In all other cases the result is dropped.** -/
theorem removed_result_stored_iff (options : EngineOptions) (files : FileStore)
    (as bs : List Action) (ha : (new options files).Admissible (as ++ bs)) :
    let e := ((new options files).run as).1
    ∀ {numbers pre j post left}, j ∈ e.jobs → e.graph.node? j.node = none →
      takeJobs numbers (e.run bs).1.jobs = (pre ++ j :: post, left) →
      let w := (e.run bs).1.midway left pre
      let c := j.complete w.engine.files
      (w.isCurrent c = true ↔ (∃ n, w.engine.graph.node? j.node = some n) ∧
        lastRecord? j.node ((e.run bs).2.log ++ w.log) =
          some (.note (.dispatched j.node j.generation))) ∧
      (w.isCurrent c = true → ∃ m ∈ e.insertions bs, m.id = j.node ∧ m.generation < j.generation) ∧
      (w.isCurrent c = false → w.Dropped c (w.accept c)) := by
  intro e numbers pre j post left _ hn ht
  obtain ⟨hb, hc⟩ := (admissible_append as bs).1 ha
  have he : e.AtRest := (atRest_new options files).run as hb
  have hk : e.Counted := Counted.run (atRest_new options files) rfl as hb
  obtain ⟨tags, hl⟩ := lived_midway he bs hc left pre j.node
  rw [hn] at hl
  refine ⟨isCurrent_iff_lastRecord hl rfl, fun hcur => ?_,
    dropped_of_not_current (midway_inFlight (he.run bs hc) (Counted.run he hk bs hc) ht)⟩
  obtain ⟨ds, hv, hlife, _, hd, _⟩ := hl
  obtain ⟨n, hn, _, hs⟩ := isCurrent_iff.1 hcur
  obtain ⟨m, hm, hi, _, hlt⟩ := Deed.entered_lt hv (hlife.trans hn)
  rw [← hd] at hm
  exact ⟨m, List.mem_of_mem_filter hm, hi, hlt _ hs⟩

/-! ## A result that is stored -/

/-- No result for a node that is removed by the end of one run is stored in a later one. -/
def DropsRemoved (e₀ : Engine) (as bs : List Action) : Prop :=
  let e := (e₀.run as).1
  ∀ {numbers pre j post left}, j ∈ e.jobs → e.graph.node? j.node = none →
    takeJobs numbers (e.run bs).1.jobs = (pre ++ j :: post, left) →
    let w := (e.run bs).1.midway left pre
    w.isCurrent (j.complete w.engine.files) = false

namespace Removed

open Late

def first : Node := .new echo 0

/-- Another node under the name of the first. -/
def second : Node := ((Node.new echo 1).withId first.id).withParameter "value" (.number 2)

/-- The first node comes and goes. -/
def before : List Action := [.mint, .mint, .edit (.add first), .edit (.remove first.id)]

def after : List Action := [.edit (.add second)]

/-- The job of the first node. -/
def job : Job := ⟨0, first.id, 1, echo, first.context ∅ 2 noFiles, none⟩

theorem admissible : (new .standard noFiles).Admissible (before ++ after) := by
  have h₁ : first.Known 2 := (Node.new_known echo 0).mono (by decide)
  have h₂ : second.Known 2 := ((Node.new_known echo 1).withId h₁.id).withParameter _ _
  have w₂ : second.WellFormed := ((Node.new_wellFormed echo 1).withId first.id).withParameter _ _
  refine ⟨trivial, trivial, ⟨Node.new_wellFormed echo 0, fun n hn => ?_⟩, ⟨trivial, fun n hn => ?_⟩,
    ⟨w₂, fun n hn => ?_⟩, trivial⟩
  · rw [List.mem_singleton.1 hn]
    exact h₁
  · cases hn
  · rw [List.mem_singleton.1 hn]
    refine h₂.mono ?_
    decide_cbv

/-- The only job is that of the first node, which is gone. -/
theorem job_left : ((new .standard noFiles).run before).1.jobs = [job] ∧
    ((new .standard noFiles).run before).1.graph.node? job.node = none := ⟨by cbv, by cbv⟩

/-- The job of the first node comes before that of the second. -/
theorem takeJobs_job : ∃ left,
    takeJobs [0] (((new .standard noFiles).run before).1.run after).1.jobs = ([] ++ job :: [], left) :=
  ⟨(takeJobs [0] (((new .standard noFiles).run before).1.run after).1.jobs).2, Prod.ext (by cbv) rfl⟩

/-- The second node awaits the generation of the job of the first. -/
theorem isCurrent_job (left : List Job) :
    ((((new .standard noFiles).run before).1.run after).1.midway left []).isCurrent
      (job.complete noFiles) = true := by
  cbv

end Removed

open Late Removed

/-- The result for the first node is stored on the second, as the last record about their name is
that a compute of its generation began. -/
theorem removed_result_stored_second : ∃ left,
    lastRecord? first.id ((((new .standard noFiles).run before).1.run after).2.log ++
      ((((new .standard noFiles).run before).1.run after).1.midway left []).log) =
      some (.note (.dispatched first.id 1)) := by
  obtain ⟨left, ht⟩ := takeJobs_job
  have hj : job ∈ ((new .standard noFiles).run before).1.jobs := by rw [job_left.1]; simp
  have h := removed_result_stored_iff .standard noFiles before after admissible hj job_left.2 ht
  exact ⟨left, (h.1.1 (isCurrent_job left)).2⟩

/-- **A result for a removed node is stored.** -/
theorem not_dropsRemoved : ∃ as bs, (new .standard noFiles).Admissible (as ++ bs) ∧
    ¬ DropsRemoved (new .standard noFiles) as bs := by
  refine ⟨before, after, admissible, fun h => ?_⟩
  obtain ⟨left, ht⟩ := takeJobs_job
  have hj : job ∈ ((new .standard noFiles).run before).1.jobs := by rw [job_left.1]; simp
  have := (isCurrent_job left).symm.trans (h hj job_left.2 ht)
  cases this

end PixelFlow.Engine
