import PixelFlow.Context
import PixelFlow.Metadata

/-!
# Variants of nodes

A variant is what nodes of one sort have in common: their metadata and their compute. Computes are
functions of their context, so that results may be remembered and late ones dropped.

* **`Variant.run`**: a whole compute, with a panic turned into an error.
-/

namespace PixelFlow

structure Variant where
  metadata : NodeMetadata
  compute : Compute Unit

/-- The outcome of a compute: values by the names of source ports, in the order they were set. -/
abbrev Outcome := Except ComputeError (Table String Value)

/-- Run a compute to its end and collect its outputs. -/
def Variant.run (v : Variant) (c : Context) : Outcome :=
  match v.compute c with
  | .ok (_, c) => c.finish
  | .error (.error e) => .error e
  | .error (.panic message) => .error (.panicked c.node (message.getD "unknown panic"))

end PixelFlow
