import Barnamaj.CommandLine.Arguments
import Barnamaj.Compilation
import Barnamaj.Tree.Outline

/-!
# Runs

A run reads the source file, prints tokens, an outline or a listing, or writes the listing to a
file. It is divided where it touches files: `Job.product` says what follows from the contents of the
source file, and `Product.finish` what follows from the attempt to write. `run` puts them together
over a file tree.
-/

namespace Barnamaj.CommandLine

/-- What a run leaves: its exit code and what it has printed. -/
structure Report where
  exit : Nat
  out : String := ""
  err : String := ""
deriving DecidableEq

/-- A run up to the point where it would write a file. -/
inductive Product where
  | done (r : Report)
  | save (path : String) (listing : String) (out err : String)

namespace Job

variable (job : Job)

/-- What the log shows: everything if asked for, and otherwise the bare text of the warnings. -/
def log (events : List Event) : String :=
  if job.verbose then String.join (events.map Event.line)
  else String.join ((events.filter Event.isWarning).map fun e => e.text ++ "\n")

/-- A run that ends with an error. -/
def failure (text : String) : Report :=
  { exit := 1, out := "Error: " ++ text ++ "\n" }

/-- Print the tokens of a source text. -/
def printTokens (source : String) : Report :=
  match tokenize source with
  | .error e => failure e.diagnostic.message
  | .ok tokens => { exit := 0, out := String.join (tokens.map fun t => t.describe ++ "\n") }

/-- Print the outline of a source text. -/
def printOutline (source : String) : Report :=
  match parse source with
  | .error e => failure e.diagnostic.message
  | .ok program =>
    { exit := 0
      out := program.toNode.dump 0
      err := job.log [.parsed program.name program.statements.length] }

/-- Print the tokens or the outline of a source file; tokens win if both are asked for. -/
def inspect (content : Except ReadFault String) : Report :=
  match content with
  | .error f => failure ("cannot read " ++ job.source ++ ": " ++ f.text)
  | .ok source => if job.tokens then printTokens source else job.printOutline source

/-- Compile a source file, and print its listing or leave it to be saved. -/
def compile (d : Declarations) (content : Except ReadFault String) : Product :=
  let c := compileFile job.source d content
  let err := job.log c.events
  let warned := String.join (c.warnings.map fun w => "Warning: " ++ w ++ "\n")
  match c.outcome with
  | .error f => .done { exit := 1, out := warned ++ "Error: " ++ f.text ++ "\n", err }
  | .ok code =>
    match job.output with
    | some path => .save path (Instruction.listing code) warned err
    | none => .done { exit := 0, out := warned ++ Instruction.listing code, err }

/-- What follows from the contents of the source file, or from the failure to read it. Faulty
declarations end the run whatever the file holds. -/
def product (content : Except ReadFault String) : Product :=
  match Declarations.ofSpecs job.specs with
  | .error f => .done (failure f.diagnostic.message)
  | .ok d =>
    if job.tokens || job.tree then .done (job.inspect content)
    else job.compile d content

end Job

/-- How a run ends after the attempt to write. -/
def Product.finish (written : Except WriteFault Unit) : Product → Report
  | .done r => r
  | .save path _ out err =>
    match written with
    | .ok _ => { exit := 0, out := out ++ "Done: " ++ path ++ "\n", err }
    | .error f =>
      { exit := 1, out := out ++ "Error: cannot write " ++ path ++ ": " ++ f.text ++ "\n", err }

/-- The report of a run that stops at its arguments. -/
def Stop.report : Stop → Report
  | .help => { exit := 0, out := helpText }
  | .usage f => { exit := 2, err := f.report }

/-- The text of a file in a tree. -/
def readSource (t : FileTree) (path : String) : Except ReadFault String :=
  match t.read path with
  | .error f => .error (.system f path)
  | .ok bytes => sourceOfBytes bytes

/-- Run a job over a file tree. The bytes of a listing get into its file as far as the transfer
goes. -/
def Job.run (job : Job) (t : FileTree) (transfer : Transfer := .complete) : Report × FileTree :=
  match job.product (readSource t job.source) with
  | .done r => (r, t)
  | .save path listing out err =>
    let (written, after) := t.write path listing.toUTF8.toList transfer
    ((Product.save path listing out err).finish written, after)

/-- Run the program over a file tree. -/
def run (arguments : List String) (t : FileTree) (bundling : Bundling := .lenient)
    (transfer : Transfer := .complete) : Report × FileTree :=
  match Job.ofArguments arguments bundling with
  | .error e => (e.report, t)
  | .ok job => job.run t transfer

end Barnamaj.CommandLine
