import Barnamaj.Code.Generator
import Barnamaj.File.Tree
import Barnamaj.Symbol.Declarations
import Barnamaj.Symbol.Usage
import Barnamaj.Tree.Parser.Program

/-!
# Compilation

A source text is parsed, its names are checked against the declarations, and code is generated. The
first fault of any stage ends the compilation and leaves no code. Declarations that clash with a
built-in name are warnings, which do not end it. The stages also tell what they do, as a list of
events for a log.
-/

namespace Barnamaj

/-- What a stage tells about its progress. -/
inductive Event where
  | parsing (path : String)
  | parsed (name : String) (statements : Nat)
  | analysing (path : String)
  | declared (symbol : Symbol)
  | duplicate (f : SemanticFault)
  | generating (path : String)
  | generated (instructions : Nat)
  | failed (path : String) (d : Diagnostic)

namespace Event

/-- Whether an event is told even to those who did not ask for progress. -/
def isWarning : Event → Bool
  | .duplicate _ => true
  | _ => false

/-- The part of the program that an event comes from. -/
def origin : Event → String
  | .parsed _ _ => "arcc.parser"
  | .declared _ => "arcc.semantics"
  | .generated _ => "arcc.ir"
  | _ => "arcc.compiler"

/-- The text of an event. -/
def text : Event → String
  | .parsing path => path ++ ": parsing"
  | .parsed name statements =>
    "parsed program " ++ name ++ " with " ++ toString statements ++ " statement(s)"
  | .analysing path => path ++ ": semantic analysis"
  | .declared s =>
    "declared " ++ s.name ++ ": " ++ s.type.name ++ " at scope level " ++ toString s.level
  | .duplicate f => f.text
  | .generating path => path ++ ": generating intermediate code"
  | .generated instructions => "generated " ++ toString instructions ++ " instruction(s)"
  | .failed path d => path ++ ": " ++ d.message

/-- The line of an event in a log of everything. -/
def line (e : Event) : String :=
  (if e.isWarning then "WARNING " else "DEBUG ") ++ e.origin ++ ": " ++ e.text ++ "\n"

end Event

/-- Why a compilation has no code. -/
inductive Failure where
  | unreadable (f : ReadFault)
  | diagnosed (d : Diagnostic)
deriving DecidableEq

/-- The text of a failure. -/
def Failure.text : Failure → String
  | .unreadable f => "Failed to read source file: " ++ f.text
  | .diagnosed d => d.message

/-- The code of a program or the reason why there is none, the clashes among the declarations, and
the events on the way. -/
structure Compilation where
  outcome : Except Failure (List Instruction)
  clashes : List SemanticFault := []
  events : List Event := []

namespace Compilation

variable (c : Compilation)

/-- Whether there is code. -/
def succeeded : Bool := c.outcome.isOk

/-- The code, none after a failure. -/
def instructions : List Instruction :=
  match c.outcome with
  | .ok code => code
  | .error _ => []

/-- The listing of the code. -/
def listing? : Option String :=
  match c.outcome with
  | .ok code => some (Instruction.listing code)
  | .error _ => none

/-- The fault of the source text. -/
def diagnostic? : Option Diagnostic :=
  match c.outcome with
  | .error (.diagnosed d) => some d
  | _ => none

/-- The texts of what went wrong. -/
def errors : List String :=
  match c.outcome with
  | .ok _ => []
  | .error f => [f.text]

/-- The texts of the warnings. -/
def warnings : List String :=
  c.clashes.map SemanticFault.text

end Compilation

/-! ### The stages -/

/-- The global scope with declarations added, and what became of each of them. -/
def declareGlobally (d : Declarations) : Environment × List (Except SemanticFault Symbol) :=
  Declarations.declareAll .initial d

/-- The event of a declaration. -/
def declarationEvent : Except SemanticFault Symbol → Event
  | .ok symbol => .declared symbol
  | .error f => .duplicate f

/-- The fault of a declaration. -/
def declarationFault? : Except SemanticFault Symbol → Option SemanticFault
  | .ok _ => none
  | .error f => some f

/-- Check the names of a tree against declarations; the answer is the environment it was checked
in. -/
def checkNames (d : Declarations) (tree : Node) : Except SemanticFault Environment :=
  let env := (declareGlobally d).1
  (env.analyze tree).map fun _ => env

/-- The code of a tree. -/
def generateCode (tree : Node) : Except GenerationFault (List Instruction) :=
  match Generate.code tree {} with
  | .ok code _ => .ok code
  | .error f _ => .error f

/-- Compile a tree. -/
def compileTree (path : String) (d : Declarations) (tree : Node) : Compilation :=
  let outcomes := (declareGlobally d).2
  let clashes := outcomes.filterMap declarationFault?
  let start := Event.analysing path :: outcomes.map declarationEvent
  match checkNames d tree with
  | .error f =>
    { outcome := .error (.diagnosed f.diagnostic), clashes
      events := start ++ [.failed path f.diagnostic] }
  | .ok _ =>
    match generateCode tree with
    | .error f =>
      { outcome := .error (.diagnosed f.diagnostic), clashes
        events := start ++ [.generating path] }
    | .ok code =>
      { outcome := .ok code, clashes
        events := start ++ [.generating path, .generated code.length] }

/-- Compile a source text. The path only serves to name it in events. -/
def compile (path : String) (d : Declarations) (source : String) : Compilation :=
  match parse source with
  | .error e =>
    { outcome := .error (.diagnosed e.diagnostic)
      events := [.parsing path, .failed path e.diagnostic] }
  | .ok program =>
    let c := compileTree path d program.toNode
    { c with
      events := .parsing path :: .parsed program.name program.statements.length :: c.events }

/-- Compile the text of a file, given what reading it gave. -/
def compileFile (path : String) (d : Declarations) (content : Except ReadFault String) :
    Compilation :=
  match content with
  | .error f => { outcome := .error (.unreadable f) }
  | .ok source => compile path d source

end Barnamaj
