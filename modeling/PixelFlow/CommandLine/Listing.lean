import PixelFlow.Json.Metadata
import PixelFlow.Json.Printer
import PixelFlow.Registry

/-!
# Listings

What the command line prints about itself and about variants, as lists of lines.

* `Listing.usage`: how to call the program.
* `Listing.variants`: all variants by category.
* `Listing.details`: the ports and parameters of one variant.
-/

namespace PixelFlow

/-- The name of the program. -/
def programName : String := "vortex"

def programVersion : String := "0.3.0"

namespace Listing

/-- A text with blanks after it up to a width. -/
def padded (width : Nat) (s : String) : String :=
  s ++ String.ofList (List.replicate (width - s.length) ' ')

/-- Lines as one text, each with its end. -/
def text (lines : List String) : String := String.join (lines.map (· ++ "\n"))

def usage : List String := [
  s!"Vortex v{programVersion}",
  "",
  s!"Usage: {programName} <command> [options]",
  "",
  "Commands:",
  "  list                          List all node variants",
  "  info <variant> [--json]       Show ports and parameters of a variant",
  "  process <in> <out> [options]  Process an image",
  "  help                          Show this help message",
  "",
  "Process options:",
  "  --blur <method>         " ++ ", ".intercalate (BlurMethod.all.map (·.name)),
  "  --sigma <value>         Sigma for the gaussian method (default: 2.0)",
  "  --brightness <amount>   Add to every channel, -255 to 255",
  "  --sepia [intensity]     Sepia toning, 0.0 to 1.0 (default: 1.0)"]

/-- One variant in the listing of all. -/
def entry (m : NodeMetadata) : String :=
  "      " ++ padded 14 m.id ++ " " ++ m.description ++ if m.isAsynchronous then " [async]" else ""

def variants (r : Registry) : List String :=
  [s!"Available variants ({r.size} total):", ""] ++
    r.groupedByCategory.entries.flatMap fun (c, group) =>
      ["  " ++ c.name] ++ group.map entry ++ [""]

/-- What is special about a sink. -/
def flags (s : PortSpec) : String :=
  let flags := (if s.isOptional then ["optional"] else []) ++
    (s.default.toList.map fun v => "default " ++ v.display)
  if flags.isEmpty then "" else " (" ++ ", ".intercalate flags ++ ")"

def port (s : PortSpec) : String :=
  "  " ++ padded 10 s.name ++ " " ++ s.type.name ++ " " ++ s.description

def parameter (d : ParameterDefinition) : String :=
  "  " ++ padded 10 d.name ++ " = " ++ d.default.display ++ " " ++ d.description

def details (m : NodeMetadata) : List String :=
  [s!"{m.name} ({m.id})",
   "  " ++ m.description,
   "  Category:  " ++ m.category.name,
   "  Execution: " ++ if m.isAsynchronous then "asynchronous" else "synchronous",
   "",
   "Sinks:"] ++ m.sinks.map (fun s => port s ++ flags s) ++
  ["", "Sources:"] ++ m.sources.map port ++
  if m.parameters.isEmpty then [] else ["", "Parameters:"] ++ m.parameters.map parameter

end Listing

end PixelFlow
