import PixelFlow.Engine.Wave
import PixelFlow.Graph.Edit

/-!
# Running the engine

The engine changes by edits of its graph and by deliveries of its jobs. Either sets off a wave;
when it has come to rest, observers are told what happened.

* **`Engine.edit`**: make an edit or refuse it.
* **`Engine.deliver`**: finish jobs, in any order and in batches.
* `Report`: what a change makes known.
-/

namespace PixelFlow

/-- What a change makes known. -/
structure Report where
  /-- What came up, in order. -/
  log : List Record
  /-- Each event with every listener that it goes to. -/
  deliveries : List (Listener × NodeEvent)
  /-- The notes, with the lines of logging observers at their end. -/
  notes : List Note

namespace Report

def empty : Report := ⟨[], [], []⟩

instance : Inhabited Report := ⟨empty⟩

def events (r : Report) : List NodeEvent := r.log.filterMap (·.event?)

/-- One report after another. -/
def append (r s : Report) : Report :=
  ⟨r.log ++ s.log, r.deliveries ++ s.deliveries, r.notes ++ s.notes⟩

instance : Append Report := ⟨append⟩

end Report

/-- Dispatch what is ready and tell the observers. -/
def Wave.settle (w : Wave) : Engine × Report :=
  let w := w.schedule
  let deliveries := w.engine.observers.deliveries w.events
  let logged := deliveries.filterMap fun (l, e) => if l = .log then some (.observed e) else none
  (w.engine, ⟨w.log, deliveries, w.notes ++ logged⟩)

namespace Engine

/-- The wave that the outcome of an edit sets off: the nodes that it touches are invalidated. -/
def opened (e : Engine) (r : Edit.Result) : Wave :=
  ⟨{ e with graph := r.graph },
    r.notes.map .note ++ r.touched.map fun id => .event (.invalidated id)⟩

/-- Make an edit of the graph. One that finds nothing to do sets off no wave. -/
def edit (e : Engine) (change : Edit) : Except GraphError (Edit.Answer × Engine × Report) := do
  let r ← e.graph.perform change
  if r.answer = .flag false then return (r.answer, e, .empty)
  else return (r.answer, (e.opened r).settle)

/-- Add a new node of a variant. -/
def addVariant (e : Engine) (v : Variant) :
    Except GraphError (Edit.Answer × Engine × Report) :=
  let (stamp, e) := e.mint
  e.edit (.addFresh (.new v stamp))

/-- Take the jobs of the given numbers off the list, in the order of the numbers. -/
def takeJobs : List Nat → List Job → List Job × List Job
  | [], jobs => ([], jobs)
  | number :: numbers, jobs =>
    match jobs.find? (·.number == number) with
    | none => takeJobs numbers jobs
    | some j =>
      let (taken, left) := takeJobs numbers (jobs.eraseP (·.number == number))
      (j :: taken, left)

/-- Accept the completions of jobs one after the other. -/
def collect (w : Wave) (jobs : List Job) : Wave :=
  jobs.foldl (fun w j => w.accept (j.complete w.engine.files)) w

/-- The wave that a batch of deliveries sets off: some jobs are left. -/
def batch (e : Engine) (left : List Job) : Wave := ⟨{ e with jobs := left }, []⟩

/-- Finish the jobs of the given numbers and handle their completions together. -/
def deliver (e : Engine) (numbers : List Nat) : Engine × Report :=
  let (taken, left) := takeJobs numbers e.jobs
  if taken.isEmpty then (e, .empty) else (collect (e.batch left) taken).settle

/-- Deliver the oldest job again and again, at most `fuel` times; also how many were. -/
def drain : Nat → Engine → Nat × Engine × Report
  | 0, e => (0, e, .empty)
  | fuel + 1, e =>
    match e.jobs with
    | [] => (0, e, .empty)
    | j :: _ =>
      let (e, first) := e.deliver [j.number]
      let (n, e, later) := drain fuel e
      (n + 1, e, first ++ later)

/-- Deliver jobs until none is left. Each job under way and each node accounts for one at most. -/
def finish (e : Engine) : Nat × Engine × Report := drain (e.jobs.length + e.graph.nodes.size) e

end Engine

end PixelFlow
