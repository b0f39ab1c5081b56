import PixelFlow.CommandLine.Listing
import PixelFlow.CommandLine.Pipeline

/-!
# The command line

A call of the program is a list of arguments and the files that it sees. What it does is a value:
the text that it prints, what it complains about, and the file that it writes.

* `Complaint`: the causes for which a call fails.
* **`CommandLine.run`**: what a call does.
-/

namespace PixelFlow

inductive Complaint
  | noVariant
  | unknownVariant (id : String)
  | noPaths
  | unknownCommand (name : String)
  | option (fault : OptionFault)
  | pipeline (fault : PipelineFault)
  | unsaved (path reason : String)
deriving DecidableEq, Repr

def Complaint.message (names : Naming) : Complaint → String
  | noVariant => "please specify a variant ID"
  | unknownVariant id => s!"unknown variant '{id}', try \x60list\x60"
  | noPaths =>
    s!"usage: {programName} process <input> <output> [--blur <method>] [--brightness <amount>] " ++
      "[--sepia [intensity]]"
  | unknownCommand name => s!"unknown command '{name}'"
  | option fault => fault.message
  | pipeline (.graph e) => e.message names
  | pipeline (.compute e) => e.message names
  | pipeline .noImage => "pipeline produced no image"
  | unsaved path reason => s!"failed to save {path}: {reason}"

namespace CommandLine

/-- A file that a call writes. -/
structure WrittenFile where
  path : String
  /-- The picture in the file, with its format; a file is left empty if the format does not take the
  picture. -/
  content : Option (Picture.Format × Picture)
deriving DecidableEq, Repr

namespace WrittenFile

def bytes (w : WrittenFile) : List UInt8 := w.content.elim [] fun (f, p) => f.encode p

/-- What can be seen of the picture. -/
def visible? (w : WrittenFile) : Option Raster := w.content.bind fun (f, p) => f.kept p

end WrittenFile

/-- What a call does. -/
structure Effect where
  /-- The lines that it prints. -/
  lines : List String
  complaint : Option Complaint
  written : Option WrittenFile
deriving DecidableEq, Repr

namespace Effect

def print (lines : List String) : Effect := ⟨lines, none, none⟩

def fail (c : Complaint) : Effect := ⟨[], some c, none⟩

/-- The exit code. -/
def code (e : Effect) : Nat := if e.complaint.isSome then 1 else 0

def output (e : Effect) : String := Listing.text e.lines

/-- The text of the complaint. -/
def errorOutput (names : Naming) (e : Effect) : String :=
  match e.complaint with
  | none => ""
  | some c => "Error: " ++ c.message names ++ "\n"

/-- What can be seen of a picture at a path after a call in a directory. -/
def visible? (e : Effect) (d : Directory) (path : String) : Option Raster :=
  match e.written.filter fun w => Directory.key w.path = Directory.key path with
  | some w => w.visible?
  | none => (Picture.load d.store path).toOption.map (·.raster)

end Effect

/-- Show one variant, in text or as a document. -/
def info (id : String) (asJson : Bool) : Effect :=
  match Registry.builtin.metadata? id with
  | none => .fail (.unknownVariant id)
  | some m => .print (if asJson then [m.toJson.pretty] else Listing.details m)

/-- Save a picture in the format of its path. The file is begun before it is known whether the
format takes the picture. -/
def save (files : FileStore) (path : String) (p : Picture) : Effect :=
  match Picture.Format.ofPath path with
  | .error reason => .fail (.unsaved path reason)
  | .ok format =>
    match files.refuses path, format.refusal? p with
    | some reason, _ => .fail (.unsaved path reason)
    | none, some reason =>
      { Effect.fail (.unsaved path reason) with written := some ⟨path, none⟩ }
    | none, none =>
      { lines := [s!"Saved {path} ({p.raster.width}x{p.raster.height})"]
        complaint := none
        written := some ⟨path, some (format, p)⟩ }

/-- Run a pipeline from one file to another, whose jobs are worked off in a given way. -/
def processWith (load : Picture.Loader) (work : Engine → Engine) (files : FileStore)
    (input output : String) (arguments : List String) : Effect :=
  match PipelineOptions.ofArguments arguments with
  | .error fault => .fail (.option fault)
  | .ok o =>
    match Pipeline.runWith load work files input o with
    | .error fault => .fail (.pipeline fault)
    | .ok p => save files output p

def process : FileStore → String → String → List String → Effect :=
  processWith Picture.load Pipeline.finished

/-- The call with the given arguments after the name of the program. -/
def run (files : FileStore) (arguments : List String) : Effect :=
  match arguments with
  | [] | "help" :: _ | "--help" :: _ | "-h" :: _ => .print Listing.usage
  | "list" :: _ => .print (Listing.variants .builtin)
  | "info" :: rest =>
    match rest with
    | [] => .fail .noVariant
    | id :: _ => info id (rest.contains "--json")
  | "process" :: input :: output :: rest => process files input output rest
  | "process" :: _ => .fail .noPaths
  | other :: _ => { Effect.fail (.unknownCommand other) with lines := Listing.usage }

end CommandLine

end PixelFlow
